import Citizen.Console.Tokenize

/-! The command buffer of a `console::Context` and how `ExecuteBuffer` cuts it into commands. -/
namespace Citizen.Console
open BitField (Byte)

def newline : Byte := 10

def carriageReturn : Byte := 13

abbrev NarrowJson := JsonAccept Byte [byte '}',byte ']']

def scan (json : NarrowJson) (inQuote : Bool) (buffer : Text) : Nat :=
  match buffer with
  | [] => 0
  | b :: rest =>
    match _j : (if inQuote then none else jsonValue json [byte '{',byte '['] b rest) with
    | some n => n + scan json inQuote ((b :: rest).drop n)
    | none =>
      let inQuote := if b = byte quote then !inQuote else inQuote
      if inQuote = false ∧ b = byte ';' then 0
      else if b = carriageReturn ∨ b = newline then 0
      else 1 + scan json inQuote rest
termination_by buffer.length
decreasing_by
  · split at _j
    · cases _j
    · unfold jsonValue at _j
      split at _j
      · have bounds := json.bounds _j
        rw [List.length_drop]
        omega
      · cases _j
  · exact Nat.lt_succ_self _

def isspace (b : Byte) : Bool := b = 32 || (9 ≤ b && b ≤ 13)

def isWait (command : Text) : Bool := (text "wait").isPrefixOf (command.dropWhile isspace)

def takeCommands (json : NarrowJson) (m_commandBuffer : Text) : List Text × Text :=
  match m_commandBuffer with
  | [] => ([],[])
  | b :: rest =>
    let i := scan json false (b :: rest)
    let command := (b :: rest).take i
    let left := (b :: rest).drop (i + 1)
    if isWait command then ([command],left)
    else (command :: (takeCommands json left).1,(takeCommands json left).2)
termination_by m_commandBuffer.length
decreasing_by all_goals simp only [List.length_drop,List.length_cons]; omega

structure Context where
  m_commandBuffer : Text
  waitUntil : Nat

namespace Context

def AddToBuffer (s : Context) (text : Text) : Context :=
  { s with m_commandBuffer := s.m_commandBuffer ++ text }

def ExecuteBuffer (s : Context) (json : NarrowJson) (now : Nat) : List Text × Context :=
  if s.waitUntil ≠ 0 ∧ now ≤ s.waitUntil then ([],s)
  else ((takeCommands json s.m_commandBuffer).1,⟨(takeCommands json s.m_commandBuffer).2,0⟩)

end Context
end Citizen.Console
