import Citizen.Lib.Numeral

/-! How the receiver of an HTTP/1 response finds its end: the lines of the head, the framing that its fields
announce, and the chunked coding. -/
namespace Citizen.HttpMessage
open BitField (Byte)
open Numeral

def cr : Byte := 13
def lf : Byte := 10
def crlf : Text := [cr,lf]

def trimCr (line : Text) : Text := if line.getLast? = some cr then line.dropLast else line

def headLines : Text → Text → Option (List Text × Text)
  | _,[] => none
  | line,b :: rest =>
    if b = lf then
      if trimCr line = [] then some ([],rest)
      else (headLines [] rest).map (fun (later,left) => (trimCr line :: later,left))
    else headLines (line ++ [b]) rest

def lines : Text → Text → List Text
  | line,[] => [line]
  | line,b :: rest => if b = lf then trimCr line :: lines [] rest else lines (line ++ [b]) rest

def block (texts : List Text) : Text := texts.flatMap (fun t => t ++ crlf)

def barred (b : Byte) : Bool := b = 0 || b = cr || b = lf

def blank (b : Byte) : Bool := b = 32 || b = 9

def trim (t : Text) : Text := ((t.dropWhile blank).reverse.dropWhile blank).reverse

structure Field where
  name : Text
  value : Text
  deriving DecidableEq

def field (line : Text) : Option Field :=
  let name := line.takeWhile (fun b => b ≠ byte ':')
  if name = [] ∨ name.length = line.length ∨ name.any (fun b => b ≤ 32) ∨ line.any barred then none
  else some ⟨name.map tolower,trim (line.drop (name.length + 1))⟩

def fields (lines : List Text) : Option (List Field) :=
  if lines.all (fun line => (field line).isSome) then some (lines.filterMap field) else none

def version : Text := text "HTTP/1.1 "

def status (line : Text) : Option Nat :=
  let rest := line.drop version.length
  let code := rest.takeWhile (fun b => b ≠ 32)
  if version <+: line ∧ code.length = 3 ∧ code.length < rest.length ∧ line.any barred = false then value 10 code else none

structure Head where
  status : Nat
  fields : List Field
  deriving DecidableEq

def readHead (bytes : Text) : Option (Head × Text) :=
  (headLines [] bytes).bind (fun (found,left) =>
    match found with
    | [] => none
    | first :: later =>
      (status first).bind (fun code => (fields later).map (fun fields => (⟨code,fields⟩,left))))

inductive Framing where
  | bodyless
  | chunked
  | length (n : Nat)
  | close
  deriving DecidableEq

def values (name : Text) (fields : List Field) : List Text :=
  (fields.filter (fun f => f.name = name)).map Field.value

def lastCoding (codings : Text) : Text :=
  (trim (codings.reverse.takeWhile (fun b => b ≠ byte ',')).reverse).map tolower

def framing (method : Text) (head : Head) : Option Framing :=
  if method = text "HEAD" ∨ (method = text "CONNECT" ∧ head.status / 100 = 2) ∨ head.status / 100 = 1 ∨
      head.status = 204 ∨ head.status = 304 then some .bodyless
  else
    match (values (text "transfer-encoding") head.fields).getLast? with
    | some codings => if lastCoding codings = text "chunked" then some .chunked else some .close
    | none =>
      match values (text "content-length") head.fields with
      | [] => some .close
      | n :: others => if others.all (fun other => other = n) then (value 10 n).map .length else none

inductive ChunkPart where
  | size (line : Text)
  | data (later : Nat)
  | dataEnd (line : Text)
  | trailer (line : Text)

def readChunks : ChunkPart → Text → Option (Text × Text)
  | _,[] => none
  | .size line,b :: rest =>
    if b = lf then
      match value 16 (trimCr line) with
      | none => none
      | some 0 => readChunks (.trailer []) rest
      | some (n + 1) => readChunks (.data n) rest
    else readChunks (.size (line ++ [b])) rest
  | .data 0,b :: rest => (readChunks (.dataEnd []) rest).map (fun (body,left) => (b :: body,left))
  | .data (n + 1),b :: rest => (readChunks (.data n) rest).map (fun (body,left) => (b :: body,left))
  | .dataEnd line,b :: rest =>
    if b = lf then if trimCr line = [] then readChunks (.size []) rest else none
    else readChunks (.dataEnd (line ++ [b])) rest
  | .trailer line,b :: rest =>
    if b = lf then if trimCr line = [] then some ([],rest) else readChunks (.trailer []) rest
    else readChunks (.trailer (line ++ [b])) rest

/-- The body, and what follows it; `closes` says that the connection ends with these bytes. -/
def readBody (closes : Bool) (bytes : Text) : Framing → Option (Text × Text)
  | .bodyless => some ([],bytes)
  | .chunked => readChunks (.size []) bytes
  | .length n => if n ≤ bytes.length then some (bytes.take n,bytes.drop n) else none
  | .close => if closes then some (bytes,[]) else none

def chunk (data : Text) : Text :=
  if data = [] then [] else numeral 16 data.length ++ crlf ++ data ++ crlf

def lastChunk : Text := text "0" ++ crlf ++ crlf

variable {line t rest body left : Text}

@[simp] theorem trimCrEnd (line : Text) : trimCr (line ++ [cr]) = line := by simp [trimCr]

theorem headLinesText (filled : [] ∉ lines line t) : headLines line (t ++ (crlf ++ rest)) =
      (headLines [] rest).map (fun (later,left) => (lines line t ++ later,left)) := by
  induction t generalizing line with
  | nil =>
    have some : line ≠ [] := fun none => filled (by rw [none]; exact List.mem_cons_self)
    have notLf : cr ≠ lf := by decide
    simp [crlf,headLines,lines,notLf,some]
  | cons b t ih =>
    unfold lines at filled ⊢
    rw [List.cons_append,headLines]
    split
    · rename_i ends
      rw [if_pos ends,List.mem_cons,not_or] at filled
      rw [if_neg (Ne.symm filled.1),ih filled.2,Option.map_map]
      rfl
    · rename_i goes
      rw [if_neg goes] at filled
      exact ih filled

variable {found : List Text}

theorem headLinesBlank (empty : [] ∈ lines line t)
    (read : headLines line (t ++ (crlf ++ rest)) = some (found,left)) : rest.length ≤ left.length := by
  induction t generalizing line found with
  | nil =>
    have none : line = [] := (List.mem_singleton.mp empty).symm
    have notLf : cr ≠ lf := by decide
    have noCr : trimCr [cr] = [] := by decide
    simp [crlf,headLines,notLf,none,noCr] at read
    rw [read.2]
  | cons b t ih =>
    unfold lines at empty
    rw [List.cons_append,headLines] at read
    split at read
    · rename_i ends
      rw [if_pos ends] at empty
      split at read
      · cases read
        simp
        omega
      · rename_i filled
        obtain ⟨⟨later,left'⟩,inner,same⟩ := Option.map_eq_some_iff.mp read
        cases same
        exact ih ((List.mem_cons.mp empty).resolve_left (Ne.symm filled)) inner
    · rename_i goes
      rw [if_neg goes] at empty
      exact ih empty read

theorem headLinesBlock (texts : List Text) (body : Text) :
    headLines [] (block texts ++ (crlf ++ body)) = some (found,body) ↔
      [] ∉ texts.flatMap (lines []) ∧ found = texts.flatMap (lines []) := by
  induction texts generalizing found with
  | nil =>
    have notLf : cr ≠ lf := by decide
    have noCr : trimCr [cr] = [] := by decide
    simp [block,crlf,headLines,notLf,noCr,eq_comm]
  | cons t texts ih =>
    have split : block (t :: texts) ++ (crlf ++ body) = t ++ (crlf ++ (block texts ++ (crlf ++ body))) := by
      simp [block]
    rw [split,List.flatMap_cons]
    by_cases filled : [] ∈ lines [] t
    · refine ⟨fun read => ?_,fun all => absurd (List.mem_append_left _ filled) all.1⟩
      have long := headLinesBlank filled read
      simp [crlf] at long
      omega
    · rw [headLinesText filled,Option.map_eq_some_iff]
      constructor
      · rintro ⟨⟨later,left⟩,read,same⟩
        cases same
        obtain ⟨none,rfl⟩ := ih.mp read
        exact ⟨fun mem => (List.mem_append.mp mem).elim filled none,rfl⟩
      · rintro ⟨none,rfl⟩
        exact ⟨_,ih.mpr ⟨fun mem => none (List.mem_append_right _ mem),rfl⟩,rfl⟩

theorem linesPrefix {start : Text} (noCr : start.getLast? ≠ some cr) (line t : Text) :
    ∃ first later, lines line t = first :: later ∧ lines (start ++ line) t = (start ++ first) :: later := by
  have trimmed (line : Text) : trimCr (start ++ line) = start ++ trimCr line := by
    unfold trimCr
    cases line using List.reverseRecOn with
    | nil => simp [noCr]
    | append_singleton line b =>
      by_cases same : b = cr
      · simp [same,← List.append_assoc]
      · simp [same,← List.append_assoc]
  induction t generalizing line with
  | nil => exact ⟨line,[],rfl,rfl⟩
  | cons b t ih =>
    unfold lines
    split
    · exact ⟨_,_,rfl,by rw [trimmed]⟩
    · rw [List.append_assoc]
      exact ih (line ++ [b])

theorem linesPlain (plain : lf ∉ t) (line : Text) : lines line t = [line ++ t] := by
  induction t generalizing line with
  | nil => simp [lines]
  | cons b t ih =>
    rw [List.mem_cons,not_or] at plain
    rw [lines,if_neg (Ne.symm plain.1),ih plain.2]
    simp

theorem linesStart {start : Text} (plain : lf ∉ start) (line t : Text) :
    lines line (start ++ t) = lines (line ++ start) t := by
  induction start generalizing line with
  | nil => simp
  | cons b start ih =>
    rw [List.mem_cons,not_or] at plain
    rw [List.cons_append,lines,if_neg (Ne.symm plain.1),ih plain.2]
    simp

theorem fieldBlank : field [] = none := rfl

theorem fieldsEach {all : List Field} (areFields : fields found = some all) :
    ∀ line ∈ found, (field line).isSome = true := by
  unfold fields at areFields
  split at areFields
  · rename_i each
    exact List.all_eq_true.mp each
  · cases areFields

theorem statusBlank : status [] = none := rfl

theorem readHeadBlock {first : Text} {head : Head} {later texts : List Text} (started : lines [] t = first :: later)
    (body : Text) : readHead (block (t :: texts) ++ (crlf ++ body)) = some (head,body) ↔
      status first = some head.status ∧ fields (later ++ texts.flatMap (lines [])) = some head.fields := by
  have all : (t :: texts).flatMap (lines []) = first :: (later ++ texts.flatMap (lines [])) := by
    rw [List.flatMap_cons,started]
    rfl
  unfold readHead
  constructor
  · intro read
    obtain ⟨⟨found,left⟩,lined,read⟩ := Option.bind_eq_some_iff.mp read
    dsimp only at read
    cases found with
    | nil => cases read
    | cons first' later' =>
      obtain ⟨code,isStatus,read⟩ := Option.bind_eq_some_iff.mp read
      obtain ⟨fields,areFields,same⟩ := Option.map_eq_some_iff.mp read
      cases same
      obtain ⟨-,same⟩ := (headLinesBlock _ _).mp lined
      rw [all] at same
      cases same
      exact ⟨isStatus,areFields⟩
  · rintro ⟨isStatus,areFields⟩
    have filled : [] ∉ (t :: texts).flatMap (lines []) := by
      rw [all,List.mem_cons,not_or]
      constructor
      · intro same
        rw [← same,statusBlank] at isStatus
        cases isStatus
      · intro mem
        have each := fieldsEach areFields [] mem
        rw [fieldBlank] at each
        cases each
    rw [(headLinesBlock _ _).mpr ⟨filled,rfl⟩,all]
    simp [isStatus,areFields]

theorem fieldsSome {all : List Field} :
    fields found = some all ↔ (∀ line ∈ found, (field line).isSome = true) ∧ all = found.filterMap field := by
  unfold fields
  split
  · rename_i each
    rw [Option.some_inj]
    exact ⟨fun same => ⟨List.all_eq_true.mp each,same.symm⟩,fun both => both.2.symm⟩
  · rename_i other
    exact iff_of_false (fun same => nomatch same) (fun both => other (List.all_eq_true.mpr both.1))

theorem linesUnbarred {t : Text} (fine : t.any barred = false) : lines [] t = [t] := by
  refine linesPlain (fun mem => ?_) []
  exact absurd fine (by simpa using ⟨lf,mem,by decide⟩)

theorem numeralUnbarred (n : Nat) : (numeral 10 n).any barred = false := by
  rw [List.any_eq_false]
  intro b mem isBarred
  have none : ∀ b : Byte, barred b = true → digitValue 10 b = none := by decide
  exact numeralDigits n (by decide) (by decide) mem (none b isBarred)

theorem fieldNamed {name t : Text} (some' : name ≠ []) (printed : ∀ b ∈ name, 32 < b ∧ b ≠ byte ':')
    (fine : (name ++ t).any barred = false) : field (name ++ byte ':' :: t) = some ⟨name.map tolower,trim t⟩ := by
  have taken : (name ++ byte ':' :: t).takeWhile (fun b => b ≠ byte ':') = name := by
    rw [List.takeWhile_append_of_pos (fun b mem => decide_eq_true (printed b mem).2)]
    simp
  have whole : (name ++ byte ':' :: t).any barred = false := by
    rw [List.any_append,List.any_cons]
    rw [List.any_append] at fine
    exact fine
  unfold field
  rw [taken]
  simp only [some',whole]
  simpa using fun b mem => (printed b mem).1

theorem framingOther {method : Text} {code : Nat} {front other back : List Field}
    (others : ∀ f ∈ other, f.name ≠ text "transfer-encoding" ∧ f.name ≠ text "content-length") :
    framing method ⟨code,front ++ (other ++ back)⟩ = framing method ⟨code,front ++ back⟩ := by
  have skip (name : Text) (absent : ∀ f ∈ other, f.name ≠ name) :
      values name (front ++ (other ++ back)) = values name (front ++ back) := by
    have none : other.filter (fun f => f.name = name) = [] :=
      List.filter_eq_nil_iff.mpr (fun f mem => by simp [absent f mem])
    simp [values,none]
  unfold framing
  rw [skip _ (fun f mem => (others f mem).1),skip _ (fun f mem => (others f mem).2)]

theorem readSize (plain : lf ∉ t) (line rest : Text) :
    readChunks (.size line) (t ++ (crlf ++ rest)) =
      match value 16 (line ++ t) with
      | none => none
      | some 0 => readChunks (.trailer []) rest
      | some (n + 1) => readChunks (.data n) rest := by
  induction t generalizing line with
  | nil =>
    have notLf : cr ≠ lf := by decide
    rw [List.nil_append,List.append_nil,crlf,List.cons_append,List.cons_append,List.nil_append,readChunks,
      if_neg notLf,readChunks,if_pos rfl,trimCrEnd]
  | cons b t ih =>
    rw [List.mem_cons,not_or] at plain
    rw [List.cons_append,readChunks,if_neg (Ne.symm plain.1),ih plain.2]
    simp

theorem readData {data : Text} {n : Nat} (size : data.length = n + 1) (rest : Text) :
    readChunks (.data n) (data ++ rest) =
      (readChunks (.dataEnd []) rest).map (fun (body,left) => (data ++ body,left)) := by
  induction data generalizing n with
  | nil => cases size
  | cons b data ih =>
    cases n with
    | zero =>
      have last : data = [] := List.eq_nil_of_length_eq_zero (Nat.succ.inj size)
      rw [last]
      rfl
    | succ n =>
      rw [List.cons_append,readChunks,ih (Nat.succ.inj size),Option.map_map]
      rfl

theorem hexPlain (n : Nat) : lf ∉ numeral 16 n := by
  intro mem
  exact numeralDigits n (by decide) (by decide) mem (by decide)

theorem readChunk (data rest : Text) : readChunks (.size []) (chunk data ++ rest) =
      (readChunks (.size []) rest).map (fun (body,left) => (data ++ body,left)) := by
  unfold chunk
  split
  · rename_i empty
    rw [empty]
    simp
  · rename_i some
    obtain ⟨n,size⟩ := Nat.exists_eq_succ_of_ne_zero (fun none => some (List.eq_nil_of_length_eq_zero none))
    have ends (rest : Text) : readChunks (.dataEnd []) (crlf ++ rest) = readChunks (.size []) rest := by
      have notLf : cr ≠ lf := by decide
      have noCr : trimCr [cr] = [] := by decide
      simp [crlf,readChunks,notLf,noCr]
    rw [List.append_assoc,List.append_assoc,List.append_assoc,readSize (hexPlain _),List.nil_append,
      valueNumeral _ (by decide) (by decide),size]
    dsimp only
    rw [readData size,ends]

theorem readLast (rest : Text) : readChunks (.size []) (lastChunk ++ rest) = some ([],rest) := by
  have notLf : cr ≠ lf := by decide
  have noCr : trimCr [cr] = [] := by decide
  have zero : value 16 (text "0") = some 0 := by decide
  rw [lastChunk,List.append_assoc,List.append_assoc,readSize (by decide),List.nil_append,zero]
  simp [crlf,readChunks,notLf,noCr]

theorem readChunksShorter {part : ChunkPart} {bytes : Text} (read : readChunks part bytes = some (body,left)) :
    body.length + left.length < bytes.length := by
  induction bytes generalizing part body left with
  | nil =>
    unfold readChunks at read
    cases read
  | cons b rest ih =>
    rw [List.length_cons]
    have more {part : ChunkPart} (read : readChunks part rest = some (body,left)) :
        body.length + left.length < rest.length + 1 := Nat.lt_succ_of_lt (ih read)
    have data {part : ChunkPart}
        (read : (readChunks part rest).map (fun (body,left) => (b :: body,left)) = some (body,left)) :
        body.length + left.length < rest.length + 1 := by
      obtain ⟨⟨inner,left'⟩,read,same⟩ := Option.map_eq_some_iff.mp read
      cases same
      have short := ih read
      rw [List.length_cons]
      omega
    cases part with
    | size line =>
      unfold readChunks at read
      split at read
      · split at read
        · cases read
        · exact more read
        · exact more read
      · exact more read
    | data later =>
      cases later with
      | zero => exact data read
      | succ n => exact data read
    | dataEnd line =>
      unfold readChunks at read
      split at read
      · split at read
        · exact more read
        · cases read
      · exact more read
    | trailer line =>
      unfold readChunks at read
      split at read
      · split at read
        · cases read
          simp
        · exact more read
      · exact more read

def coded (parts : List (Option Text)) : Text := parts.flatMap (fun part => part.elim lastChunk chunk)

def plain (parts : List (Option Text)) : Text := parts.flatMap (fun part => part.getD [])

def EndsOnce : List (Option Text) → Prop
  | [] => False
  | some _ :: rest => EndsOnce rest
  | none :: rest => ∀ part ∈ rest, part = some []

def Silent (parts : List (Option Text)) : Prop := ∀ part ∈ parts, part = some []

theorem chunkEmpty {data : Text} : chunk data = [] ↔ data = [] := by
  unfold chunk
  split
  · rename_i empty
    exact iff_of_true rfl empty
  · rename_i some
    refine iff_of_false (fun none => ?_) some
    exact numeralNonempty _ _ (List.append_eq_nil_iff.mp (List.append_eq_nil_iff.mp (List.append_eq_nil_iff.mp none).1).1).1

theorem codedSilent (parts : List (Option Text)) : coded parts = [] ↔ Silent parts := by
  unfold coded Silent
  rw [List.flatMap_eq_nil_iff]
  refine forall₂_congr (fun part _ => ?_)
  cases part with
  | none => exact iff_of_false (by decide) (fun same => nomatch same)
  | some data => exact chunkEmpty.trans (by simp)

theorem silentPlain {parts : List (Option Text)} (silent : Silent parts) : plain parts = [] := by
  refine List.flatMap_eq_nil_iff.mpr (fun part mem => ?_)
  rw [silent part mem]
  rfl

theorem readCoded (parts : List (Option Text)) (body : Text) :
    readChunks (.size []) (coded parts) = some (body,[]) ↔ EndsOnce parts ∧ plain parts = body := by
  induction parts generalizing body with
  | nil =>
    refine iff_of_false (fun read => ?_) (fun both => both.1)
    cases read
  | cons part rest ih =>
    cases part with
    | none =>
      have first : coded (none :: rest) = lastChunk ++ coded rest := rfl
      have data : plain (none :: rest) = plain rest := rfl
      rw [first,data,readLast,Option.some_inj,Prod.mk.injEq,codedSilent]
      constructor
      · rintro ⟨empty,silent⟩
        exact ⟨silent,(silentPlain silent).trans empty⟩
      · rintro ⟨silent,same⟩
        exact ⟨(silentPlain silent).symm.trans same,silent⟩
    | some data =>
      have first : coded (some data :: rest) = chunk data ++ coded rest := rfl
      have whole : plain (some data :: rest) = data ++ plain rest := rfl
      rw [first,whole,readChunk,Option.map_eq_some_iff]
      constructor
      · rintro ⟨⟨later,left⟩,read,same⟩
        obtain ⟨rfl,rfl⟩ := Prod.mk.inj same
        obtain ⟨ends,rfl⟩ := (ih later).mp read
        exact ⟨ends,rfl⟩
      · rintro ⟨ends,rfl⟩
        exact ⟨_,(ih _).mpr ⟨ends,rfl⟩,rfl⟩

end Citizen.HttpMessage
