import Citizen.Lib.LittleEndian

/-! Readers of a range of memory that move a pointer over it. A reader is described by how far it may go and by what it
makes of bytes it is meant for, whatever stands around them. -/
namespace Citizen.RangeReader
open BitField (Byte)
variable {ε α β : Type}

/-- `fault` is an access outside the range, `endless` a loop that has not ended in the rounds it was given. -/
inductive Outcome (ε α : Type) where
  | ok (a : α) (ptr : Nat)
  | thrown (e : ε)
  | fault
  | endless
  deriving DecidableEq

def Reader (ε α : Type) : Type := List Byte → Nat → Outcome ε α

namespace Reader

protected def pure (a : α) : Reader ε α := fun _ ptr => .ok a ptr

protected def bind (r : Reader ε α) (f : α → Reader ε β) : Reader ε β := fun data ptr =>
  match r data ptr with
  | .ok a next => f a data next
  | .thrown e => .thrown e
  | .fault => .fault
  | .endless => .endless

instance : Monad (Reader ε) where
  pure := Reader.pure
  bind := Reader.bind

end Reader

def throws (e : ε) : Reader ε α := fun _ _ => .thrown e

def endless : Reader ε α := fun _ _ => .endless

def load (address n : Nat) : Reader ε (List Byte) := fun data ptr =>
  if address + n ≤ data.length then .ok ((data.drop address).take n) ptr else .fault

/-- Inside of a range with less than `room` bytes to go, the reader stays in the range and either throws or ends at least
`least` bytes further on. -/
def Within (room least : Nat) (r : Reader ε α) : Prop :=
  ∀ (data : List Byte) (ptr : Nat), ptr ≤ data.length → data.length < ptr + room →
    (∃ e, r data ptr = .thrown e) ∨ ∃ a next, r data ptr = .ok a next ∧ ptr + least ≤ next ∧ next ≤ data.length

/-- Of these bytes with less than `room` to go, the reader makes `a` and ends behind them if `p` holds, and throws if not. -/
def Meets (room : Nat) (p : Prop) (r : Reader ε α) (bytes : List Byte) (a : α) : Prop :=
  ∀ before rest : List Byte, bytes.length + rest.length < room →
    (p ∧ r (before ++ bytes ++ rest) before.length = .ok a (before.length + bytes.length)) ∨
      (¬p ∧ ∃ e, r (before ++ bytes ++ rest) before.length = .thrown e)

def Reads (r : Reader ε α) (bytes : List Byte) (a : α) : Prop :=
  ∀ before rest : List Byte, r (before ++ bytes ++ rest) before.length = .ok a (before.length + bytes.length)

section
variable {r : Reader ε α} {f : α → Reader ε β}

theorem bindOk {data ptr a next} (first : r data ptr = .ok a next) : (r >>= f) data ptr = f a data next := by
  change Reader.bind r f data ptr = _
  rw [Reader.bind,first]

theorem bindThrown {data ptr e} (first : r data ptr = .thrown e) : (r >>= f) data ptr = .thrown e := by
  change Reader.bind r f data ptr = _
  rw [Reader.bind,first]

theorem bindInv {data ptr b next} (result : (r >>= f) data ptr = .ok b next) :
    ∃ a between, r data ptr = .ok a between ∧ f a data between = .ok b next := by
  change Reader.bind r f data ptr = _ at result
  rw [Reader.bind] at result
  split at result
  · rename_i a between first
    exact ⟨a,between,first,result⟩
  all_goals cases result

end

namespace Within
variable {room least : Nat} {r : Reader ε α}

theorem mono {room' least' : Nat} (within : Within room least r) (small : room' ≤ room)
    (less : least' ≤ least) : Within room' least' r := by
  intro data ptr inside near
  obtain thrown | ⟨a,next,result,far,ends⟩ := within data ptr inside (by omega)
  · exact .inl thrown
  · exact .inr ⟨a,next,result,by omega,ends⟩

theorem pure (a : α) : Within room 0 (Pure.pure a : Reader ε α) :=
  fun _ ptr inside _ => .inr ⟨a,ptr,rfl,by omega,inside⟩

theorem throws (e : ε) : Within room least (throws e : Reader ε α) := fun _ _ _ _ => .inl ⟨e,rfl⟩

theorem bind {f : α → Reader ε β} {least' : Nat} (first : Within room least r)
    (later : ∀ a, Within (room - least) least' (f a)) : Within room (least + least') (r >>= f) := by
  intro data ptr inside near
  obtain ⟨e,thrown⟩ | ⟨a,next,result,far,ends⟩ := first data ptr inside near
  · exact .inl ⟨e,bindThrown thrown⟩
  · rw [bindOk result]
    obtain thrown | ⟨b,last,result,farther,ends⟩ := later a data next ends (by omega)
    · exact .inl thrown
    · exact .inr ⟨b,last,result,by omega,ends⟩

theorem andThen {f : α → Reader ε β} (first : Within room least r)
    (later : ∀ a, Within room 0 (f a)) : Within room least (r >>= f) :=
  first.bind fun a => (later a).mono (Nat.sub_le _ _) (Nat.le_refl _)

end Within

variable {r : Reader ε α}

theorem Reads.meets {bytes : List Byte} {a : α} (reads : Reads r bytes a) (room : Nat) :
    Meets room True r bytes a := fun before rest _ => .inl ⟨trivial,reads before rest⟩

theorem Reads.pure (a : α) : Reads (Pure.pure a : Reader ε α) [] a := fun _ _ => rfl

theorem Reads.bind {f : α → Reader ε β} {bytes bytes' : List Byte} {a : α} {b : β}
    (first : Reads r bytes a) (later : Reads (f a) bytes' b) : Reads (r >>= f) (bytes ++ bytes') b := by
  intro before rest
  have head := first before (bytes' ++ rest)
  have tail := later (before ++ bytes) rest
  rw [← List.append_assoc] at head
  rw [← List.append_assoc,bindOk head,← List.length_append,tail,List.length_append,List.length_append,Nat.add_assoc]

theorem Reads.map {bytes : List Byte} {a : α} (first : Reads r bytes a) (f : α → β) :
    Reads (r >>= fun a => Pure.pure (f a)) bytes (f a) := by
  have both := first.bind (f := fun a => Pure.pure (f a)) (Reads.pure (f a))
  rwa [List.append_nil] at both

namespace Meets
variable {room : Nat} {p q : Prop} {r : Reader ε α} {bytes : List Byte} {a : α}

theorem mono {room' : Nat} (meets : Meets room p r bytes a) (small : room' ≤ room) : Meets room' p r bytes a :=
  fun before rest near => meets before rest (by omega)

theorem congr (meets : Meets room p r bytes a) (same : p ↔ q) : Meets room q r bytes a := by
  rwa [← propext same]

theorem throws (e : ε) (never : ¬p) : Meets room p (throws e) bytes a :=
  fun _ _ _ => .inr ⟨never,e,rfl⟩

theorem bind {f : α → Reader ε β} {bytes bytes' : List Byte} {b : β}
    (first : Meets room p r bytes a) (later : Meets (room - bytes.length) q (f a) bytes' b) :
    Meets room (p ∧ q) (r >>= f) (bytes ++ bytes') b := by
  intro before rest near
  rw [List.length_append] at near
  have head := first before (bytes' ++ rest) (by rw [List.length_append]; omega)
  have tail := later (before ++ bytes) rest (by omega)
  rw [← List.append_assoc] at head
  rw [← List.append_assoc]
  obtain ⟨holds,result⟩ | ⟨fails,e,thrown⟩ := head
  · rw [bindOk result,← List.length_append]
    obtain ⟨also,result⟩ | ⟨fails,thrown⟩ := tail
    · exact .inl ⟨⟨holds,also⟩,by rw [result,List.length_append,List.length_append,Nat.add_assoc]⟩
    · exact .inr ⟨fun both => fails both.2,thrown⟩
  · exact .inr ⟨fun both => fails both.1,e,bindThrown thrown⟩

theorem bindNil {f : α → Reader ε β} {b : β}
    (first : Meets room p r [] a) (later : Meets room q (f a) bytes b) : Meets room (p ∧ q) (r >>= f) bytes b :=
  first.bind later

theorem map (first : Meets room p r bytes a) (f : α → β) :
    Meets room p (r >>= fun a => Pure.pure (f a)) bytes (f a) := by
  have both := first.bind (f := fun a => Pure.pure (f a)) ((Reads.pure (f a)).meets _)
  rw [List.append_nil] at both
  exact both.congr (and_iff_left trivial)

end Meets

def Opens (r : Reader ε α) (head : List Byte) (r' : Reader ε α) : Prop :=
  ∀ before rest : List Byte, r (before ++ head ++ rest) before.length =
    r' (before ++ head ++ rest) (before ++ head).length

theorem Reads.opens {r : Reader ε α} {bytes : List Byte} {a : α} (first : Reads r bytes a) (f : α → Reader ε β) :
    Opens (r >>= f) bytes (f a) := by
  intro before rest
  rw [bindOk (first before rest),List.length_append]

theorem Opens.trans {r r' r'' : Reader ε α} {head head' : List Byte} (first : Opens r head r')
    (second : Opens r' head' r'') : Opens r (head ++ head') r'' := by
  intro before rest
  have outer := first before (head' ++ rest)
  have inner := second (before ++ head) rest
  rw [← List.append_assoc] at outer
  rw [← List.append_assoc,outer,inner]

section
variable {r r' : Reader ε α} {head bytes : List Byte} {a : α}

theorem Opens.reads (opens : Opens r head r') (later : Reads r' bytes a) : Reads r (head ++ bytes) a := by
  intro before rest
  have outer := opens before (bytes ++ rest)
  have inner := later (before ++ head) rest
  rw [← List.append_assoc] at outer
  rw [← List.append_assoc,outer,inner,List.length_append,List.length_append,Nat.add_assoc]

theorem Opens.meets {room : Nat} {p : Prop}
    (opens : Opens r head r') (later : Meets (room - head.length) p r' bytes a) : Meets room p r (head ++ bytes) a := by
  intro before rest near
  rw [List.length_append] at near
  have outer := opens before (bytes ++ rest)
  have inner := later (before ++ head) rest (by omega)
  rw [← List.append_assoc] at outer
  rw [← List.append_assoc,outer]
  obtain ⟨holds,result⟩ | failed := inner
  · exact .inl ⟨holds,by rw [result,List.length_append,List.length_append,Nat.add_assoc]⟩
  · exact .inr failed

end

end Citizen.RangeReader
