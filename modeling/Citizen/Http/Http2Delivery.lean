import Citizen.Lib.BitField
import Citizen.Lib.Run

/-! Bodies of HTTP/2 responses: the buffer of written elements, and the callbacks through which the library takes them. -/
namespace Citizen.Http
open BitField (Byte)

inductive ElementType where
  | string
  | vec
  | raw
  deriving DecidableEq

structure Element where
  type : ElementType
  data : List Byte
  read : Nat

namespace Element

def Size (e : Element) : Nat := e.data.length

def Leftover (e : Element) : Nat := e.Size - e.read

def Advance (e : Element) (len : Nat) : Element := { e with read := e.read + len }

end Element

structure Http2Response where
  elements : List Element
  m_ended : Bool

namespace Http2Response

def PeekLength (r : Http2Response) : Option Nat :=
  match r.elements with
  | [] => none
  | elem :: _ =>
    match elem.type with
    | .string | .vec => some (elem.Size - elem.read)
    | .raw => if elem.Size ≠ 0 then some (elem.Size - elem.read) else none

def Has (r : Http2Response) (len : Nat) : Bool :=
  len ≤ r.elements.foldl (fun accounted elem => accounted + min (len - accounted) elem.Leftover) 0

def Take (r : Http2Response) (length : Nat) : Http2Response × List Byte :=
  match r.elements with
  | [] => (r,[])
  | elem :: rest =>
    if length < elem.Leftover then
      ({ r with elements := elem.Advance length :: rest },(elem.data.drop elem.read).take length)
    else if elem.read = 0 then ({ r with elements := rest },elem.data)
    else ({ r with elements := rest },(elem.data.drop elem.read).take length)

inductive ReadResult where
  | deferred
  | copied (length : Nat) (eof : Bool)
  | noCopy (length : Nat) (eof : Bool)

def readCallback (r : Http2Response) (length : Nat) : ReadResult :=
  if r.elements = [] then if r.m_ended then .copied 0 true else .deferred
  else .noCopy ((r.PeekLength.elim length (fun peeked => min peeked length))) r.m_ended

def sendDataCallback (r : Http2Response) (length : Nat) : Option (Http2Response × List Byte) :=
  if r.Has length then some (r.Take length) else none

def WriteOut (r : Http2Response) (type : ElementType) (data : List Byte) : Http2Response :=
  if r.m_ended then r else { r with elements := r.elements ++ [⟨type,data,0⟩] }

def End (r : Http2Response) : Http2Response := { r with m_ended := true }

end Http2Response

/-! What the HTTP/2 library has sent of a response's body. -/

inductive BodyEvent where
  | WriteOut (type : ElementType) (data : List Byte)
  | End
  | Read (limit : Nat)

structure Delivery where
  response : Http2Response
  frames : List (Nat × List Byte)
  blocked : Option (Nat × Bool)
  eof : Bool
  written : List Byte

namespace Delivery

def start : Delivery := ⟨⟨[],false⟩,[],none,false,[]⟩

def send (s : Delivery) (length : Nat) (eof : Bool) : Delivery :=
  match s.response.sendDataCallback length with
  | none => { s with blocked := some (length,eof) }
  | some (response,payload) =>
    { s with response := response,frames := s.frames ++ [(length,payload)],blocked := none,eof := eof }

def read (s : Delivery) (limit : Nat) : Delivery :=
  if s.eof then s
  else
    match s.blocked with
    | some (length,eof) => s.send length eof
    | none =>
      match s.response.readCallback limit with
      | .deferred => s
      | .copied length eof => { s with frames := s.frames ++ [(length,[])],eof := eof }
      | .noCopy length eof => s.send length eof

def step (s : Delivery) : BodyEvent → Delivery
  | .WriteOut type data =>
    { s with
      response := s.response.WriteOut type data
      written := if s.response.m_ended then s.written else s.written ++ data }
  | .End => { s with response := s.response.End }
  | .Read limit => s.read limit

def sent (s : Delivery) : List Byte := s.frames.flatMap Prod.snd

def left (elements : List Element) : List Byte := elements.flatMap (fun e => e.data.drop e.read)

structure Sound (s : Delivery) : Prop where
  unblocked : s.blocked = none
  lengths : ∀ frame ∈ s.frames, frame.2.length = frame.1
  whole : s.sent ++ left s.response.elements = s.written
  complete : s.eof = true → s.response.m_ended = true ∧ s.sent = s.written

def Delivers (s : Delivery) (e : BodyEvent) : Prop :=
  Sound (s.step e) ∧ ∀ limit, e = .Read limit → s.response.m_ended = true → (s.step e).eof = true

def Takes (s : Delivery) : BodyEvent → Prop
  | .Read limit => s.eof = false → ∀ front rest, s.response.elements = front :: rest →
    (front.type = .raw → front.Size = 0 → limit = 0) ∧
      (s.response.m_ended = true → min front.Leftover limit = (left s.response.elements).length)
  | _ => True

variable {s : Delivery}

theorem leftLength (e : Element) : (e.data.drop e.read).length = e.Leftover := List.length_drop

theorem hasLength (r : Http2Response) (len : Nat) : r.Has len = true ↔ len ≤ (left r.elements).length := by
  have accounted (elements : List Element) (start : Nat) (below : start ≤ len) :
      elements.foldl (fun accounted elem => accounted + min (len - accounted) elem.Leftover) start =
        min len (start + (left elements).length) := by
    induction elements generalizing start with
    | nil =>
      have none : (left []).length = 0 := rfl
      rw [List.foldl_nil,none]
      omega
    | cons e rest ih =>
      have split : (left (e :: rest)).length = e.Leftover + (left rest).length := by
        rw [left,List.flatMap_cons,List.length_append,leftLength]
        rfl
      rw [List.foldl_cons,ih _ (by omega),split]
      omega
  unfold Http2Response.Has
  rw [accounted r.elements 0 (Nat.zero_le len),decide_eq_true_eq]
  omega

theorem takes {r : Http2Response} {front : Element} {rest : List Element} {length : Nat}
    (elements : r.elements = front :: rest) (fits : length ≤ front.Leftover) :
    (r.Take length).2.length = length ∧ (r.Take length).2 ++ left (r.Take length).1.elements = left r.elements := by
  have whole : left r.elements = front.data.drop front.read ++ left rest := by
    rw [elements]
    rfl
  rw [whole]
  unfold Http2Response.Take
  rw [elements]
  dsimp only
  have size := leftLength front
  split
  · have part : left (front.Advance length :: rest) = (front.data.drop front.read).drop length ++ left rest := by
      rw [List.drop_drop]
      rfl
    refine ⟨by rw [List.length_take,size]; exact Nat.min_eq_left fits,?_⟩
    dsimp only
    rw [part,← List.append_assoc,List.take_append_drop]
  · rename_i full
    have all : length = (front.data.drop front.read).length := by omega
    split
    · rename_i unread
      rw [unread,List.drop_zero] at all
      rw [unread,List.drop_zero]
      exact ⟨all.symm,rfl⟩
    · have taken : (front.data.drop front.read).take length = front.data.drop front.read := by
        rw [all,List.take_length]
      dsimp only
      rw [taken]
      exact ⟨all.symm,rfl⟩

theorem takeEnded (r : Http2Response) (length : Nat) : (r.Take length).1.m_ended = r.m_ended := by
  unfold Http2Response.Take
  split
  · rfl
  split
  · rfl
  split <;> rfl

theorem readFits {r : Http2Response} {front : Element} {rest : List Element} {limit : Nat}
    (elements : r.elements = front :: rest) (filled : front.type = .raw → front.Size = 0 → limit = 0) :
    r.readCallback limit = .noCopy (min front.Leftover limit) r.m_ended := by
  have some : r.elements ≠ [] := by
    rw [elements]
    exact List.cons_ne_nil _ _
  unfold Http2Response.readCallback Http2Response.PeekLength
  rw [if_neg some,elements]
  dsimp only
  cases type : front.type with
  | string => rfl
  | vec => rfl
  | raw =>
    dsimp only
    split
    · rfl
    · rename_i empty
      have zero := filled type (not_not.mp empty)
      rw [zero,Nat.min_zero]
      rfl

theorem sendThere {length : Nat} (there : length ≤ (left s.response.elements).length) (eof : Bool) :
    s.send length eof = { s with
      response := (s.response.Take length).1
      frames := s.frames ++ [(length,(s.response.Take length).2)]
      blocked := none
      eof := eof } := by
  unfold send Http2Response.sendDataCallback
  rw [if_pos ((hasLength _ _).mpr there)]

theorem sentSnoc (frames : List (Nat × List Byte)) (frame : Nat × List Byte) :
    (frames ++ [frame]).flatMap Prod.snd = frames.flatMap Prod.snd ++ frame.2 := by
  rw [List.flatMap_append,List.flatMap_cons,List.flatMap_nil,List.append_nil]

theorem Sound.written (sound : Sound s) (type : ElementType) (data : List Byte) :
    Sound (s.step (.WriteOut type data)) := by
  unfold Delivery.step Http2Response.WriteOut
  dsimp only
  by_cases ended : s.response.m_ended = true
  · rw [if_pos ended,if_pos ended]
    exact sound
  · rw [if_neg ended,if_neg ended]
    refine ⟨sound.unblocked,sound.lengths,?_,fun eof => absurd (sound.complete eof).1 ended⟩
    have more : left (s.response.elements ++ [⟨type,data,0⟩]) = left s.response.elements ++ data := by
      rw [left,List.flatMap_append,List.flatMap_cons,List.flatMap_nil,List.append_nil]
      rfl
    dsimp only
    rw [more,← sound.whole]
    exact (List.append_assoc _ _ _).symm

theorem readDelivers (sound : Sound s) {front : Element} {rest : List Element} {limit : Nat} (open' : s.eof = false)
    (elements : s.response.elements = front :: rest) (filled : front.type = .raw → front.Size = 0 → limit = 0) :
    Delivers s (.Read limit) ↔
      (s.response.m_ended = true → min front.Leftover limit = (left s.response.elements).length) := by
  let n := min front.Leftover limit
  have fits : n ≤ front.Leftover := Nat.min_le_left _ _
  obtain ⟨length,whole⟩ := takes elements fits
  have total := congrArg List.length whole
  rw [List.length_append,length] at total
  have after : s.step (.Read limit) = { s with
      response := (s.response.Take n).1
      frames := s.frames ++ [(n,(s.response.Take n).2)]
      blocked := none
      eof := s.response.m_ended } := by
    unfold Delivery.step read
    dsimp only
    rw [open',if_neg Bool.false_ne_true,sound.unblocked]
    dsimp only
    rw [readFits elements filled]
    exact sendThere (by omega) _
  have sentAfter : (s.step (.Read limit)).sent = s.sent ++ (s.response.Take n).2 := by
    rw [after]
    exact sentSnoc _ _
  have wholeAfter : (s.step (.Read limit)).sent ++ left (s.step (.Read limit)).response.elements = s.written := by
    rw [sentAfter,after,List.append_assoc]
    dsimp only
    rw [whole]
    exact sound.whole
  have eofAfter : (s.step (.Read limit)).eof = s.response.m_ended := by rw [after]
  have writtenAfter : (s.step (.Read limit)).written = s.written := by rw [after]
  have leftAfter : left (s.step (.Read limit)).response.elements = left (s.response.Take n).1.elements := by rw [after]
  constructor
  · rintro ⟨sound',-⟩ ended
    have all := (sound'.complete (eofAfter.trans ended)).2
    rw [writtenAfter,← wholeAfter,leftAfter] at all
    have none := List.self_eq_append_right.mp all
    rw [none,List.length_nil] at total
    exact total
  · intro takesAll
    refine ⟨⟨?_,?_,wholeAfter.trans writtenAfter.symm,fun eof => ?_⟩,fun _ _ ended => eofAfter.trans ended⟩
    · rw [after]
    · rw [after]
      intro frame mem
      rcases List.mem_append.mp mem with earlier | new
      · exact sound.lengths frame earlier
      · cases List.mem_singleton.mp new
        exact length
    · rw [eofAfter] at eof
      have none : left (s.response.Take n).1.elements = [] := by
        rw [← takesAll eof] at total
        exact List.eq_nil_of_length_eq_zero (by omega)
      rw [leftAfter,none,List.append_nil] at wholeAfter
      refine ⟨?_,wholeAfter.trans writtenAfter.symm⟩
      rw [after]
      exact (takeEnded _ _).trans eof

theorem emptyRaw (sound : Sound s) {front : Element} {rest : List Element} {limit : Nat} (open' : s.eof = false)
    (elements : s.response.elements = front :: rest) (raw : front.type = .raw) (empty : front.Size = 0)
    (asked : limit ≠ 0) : ¬Sound (s.step (.Read limit)) := by
  intro after
  have some : s.response.elements ≠ [] := by
    rw [elements]
    exact List.cons_ne_nil _ _
  have announced : s.response.readCallback limit = .noCopy limit s.response.m_ended := by
    unfold Http2Response.readCallback Http2Response.PeekLength
    rw [if_neg some,elements]
    dsimp only
    rw [raw]
    dsimp only
    rw [if_neg (not_not.mpr empty)]
    rfl
  have nothing : (s.response.Take limit).2 = [] := by
    have data : front.data = [] := List.eq_nil_of_length_eq_zero empty
    unfold Http2Response.Take Element.Leftover Element.Size
    rw [elements]
    dsimp only
    rw [data,List.drop_nil,List.take_nil,List.length_nil,Nat.zero_sub,if_neg (Nat.not_lt_zero _)]
    split <;> rfl
  have step : s.step (.Read limit) = s.send limit s.response.m_ended := by
    unfold Delivery.step read
    dsimp only
    rw [open',if_neg Bool.false_ne_true,sound.unblocked]
    dsimp only
    rw [announced]
  rw [step] at after
  by_cases there : limit ≤ (left s.response.elements).length
  · rw [sendThere there] at after
    have length := after.lengths (limit,(s.response.Take limit).2) (List.mem_append_right _ List.mem_cons_self)
    dsimp only at length
    rw [nothing] at length
    exact asked length.symm
  · unfold send Http2Response.sendDataCallback at after
    rw [if_neg (fun has => there ((hasLength _ _).mp has))] at after
    cases after.unblocked

theorem readSame (sound : Sound s) (limit : Nat) : Delivers s (.Read limit) ↔ Takes s (.Read limit) := by
  by_cases open' : s.eof = false
  · cases elements : s.response.elements with
    | nil =>
      refine ⟨fun _ _ front rest same => ?_,fun _ => ?_⟩
      · rw [elements] at same
        cases same
      · have all : s.sent = s.written := by
          have whole := sound.whole
          rw [elements] at whole
          exact (List.append_nil _).symm.trans whole
        cases ended : s.response.m_ended with
        | false =>
          have after : s.step (.Read limit) = s := by
            unfold Delivery.step read Http2Response.readCallback
            simp [open',sound.unblocked,elements,ended]
          rw [Delivers,after,ended]
          exact ⟨sound,fun _ _ up => absurd up Bool.false_ne_true⟩
        | true =>
          have after : s.step (.Read limit) = { s with frames := s.frames ++ [(0,[])],eof := true } := by
            unfold Delivery.step read Http2Response.readCallback
            simp [open',sound.unblocked,elements,ended]
          have sent : Delivery.sent { s with frames := s.frames ++ [(0,[])],eof := true } = s.sent :=
            (sentSnoc _ _).trans (List.append_nil _)
          rw [Delivers,after]
          refine ⟨⟨sound.unblocked,fun frame mem => ?_,?_,fun _ => ⟨ended,sent.trans all⟩⟩,fun _ _ _ => rfl⟩
          · rcases List.mem_append.mp mem with earlier | new
            · exact sound.lengths frame earlier
            · cases List.mem_singleton.mp new
              rfl
          · rw [sent]
            exact sound.whole
    | cons front rest =>
      by_cases filled : front.type = .raw → front.Size = 0 → limit = 0
      · rw [readDelivers sound open' elements filled]
        constructor
        · intro takesAll _ front' rest' same
          rw [elements] at same
          cases same
          exact ⟨filled,takesAll⟩
        · intro takes
          exact (takes open' front rest elements).2
      · constructor
        · intro delivers
          rw [Classical.not_imp,Classical.not_imp] at filled
          exact absurd delivers.1 (emptyRaw sound open' elements filled.1 filled.2.1 filled.2.2)
        · intro takes
          exact absurd (takes open' front rest elements).1 filled
  · have finished : s.eof = true := by simpa using open'
    have after : s.step (.Read limit) = s := if_pos finished
    refine ⟨fun _ still => absurd still open',fun _ => ?_⟩
    rw [Delivers,after]
    exact ⟨sound,fun _ _ _ => finished⟩

theorem bodyDelivered (events : List BodyEvent) : Along step Delivers start events ↔ Along step Takes start events := by
  refine alongIffKept Sound (fun s e _ delivers => delivers.1) (fun s e sound => ?_)
    ⟨rfl,fun _ mem => absurd mem List.not_mem_nil,rfl,fun eof => absurd eof Bool.false_ne_true⟩
  cases e with
  | WriteOut type data => exact ⟨fun _ => trivial,fun _ => ⟨sound.written type data,fun _ same => nomatch same⟩⟩
  | End =>
    refine ⟨fun _ => trivial,fun _ => ⟨⟨sound.unblocked,sound.lengths,sound.whole,fun eof => ?_⟩,fun _ same => nomatch same⟩⟩
    exact ⟨rfl,(sound.complete eof).2⟩
  | Read limit => exact readSame sound limit

theorem secondElementLost : ¬Along step Delivers start [.WriteOut .string [1],.WriteOut .string [2],.End,.Read 10] := by
  rintro ⟨-,-,-,⟨sound,-⟩,-⟩
  have all := (sound.complete rfl).2
  revert all
  decide

end Delivery
end Citizen.Http
