import Citizen.Lib.Replay
import Citizen.Lib.Run
import Mathlib.Data.Finset.Insert

/-! Replicated arrays: elements with an owner and a dirty flag for each client slot, which
clients update, leave and are sent. -/
namespace Citizen.State.ArrayHandler

abbrev ClientRef := Nat

structure Element where
  m_owner : Option ClientRef
  m_size : Nat
  m_array : List UInt8
  m_dirtyFlags : Nat → Bool

abbrev Contents := UInt16 × List UInt8

structure Arrays where
  element : Nat → Element
  clients : Finset ClientRef
  slotId : ClientRef → Option Nat
  netId : ClientRef → UInt16
  left : Finset ClientRef
  freed : Finset ClientRef
  log : ClientRef → List (Nat × Option Contents)

section
variable (MaxElemSize Count : Nat)

def start (m_sizes : Nat → Nat) (m_array : Nat → List UInt8) : Arrays where
  element := fun i => ⟨none,m_sizes i,m_array i,fun _ => false⟩
  clients := ∅
  slotId := fun _ => none
  netId := fun _ => 0
  left := ∅
  freed := ∅
  log := fun _ => []

namespace Arrays

def lock (s : Arrays) (i : Nat) : Option ClientRef :=
  (s.element i).m_owner.filter (fun c => c ∉ s.freed)

def data (x : Element) : List UInt8 := x.m_array.take x.m_size

def contents (s : Arrays) (i : Nat) : Option Contents :=
  (s.lock i).map (fun owner => (s.netId owner,data (s.element i)))

def replica (s : Arrays) (client : ClientRef) : Nat → Option Contents :=
  replay (fun _ => none) (s.log client)

def modify (s : Arrays) (i : Nat) (f : Element → Element) : Arrays :=
  { s with element := Function.update s.element i (f (s.element i)) }

def tell (s : Arrays) (client : ClientRef) (i : Nat) (c : Option Contents) : Arrays :=
  { s with log := Function.update s.log client (s.log client ++ [(i,c)]) }

def memcpy (array data : List UInt8) : List UInt8 := data ++ array.drop data.length

def write (s : Arrays) (client : ClientRef) (index : Nat) (data : List UInt8) : Arrays :=
  (s.modify index (fun x =>
    { m_owner := if data = [] then none else some client
      m_size := data.length
      m_array := if data = [] then x.m_array else memcpy x.m_array data
      m_dirtyFlags := fun slot => s.slotId client ≠ some slot })).tell client index
    (if data = [] then none else some (s.netId client,data))

def ReadUpdate (s : Arrays) (client : ClientRef) (index : Nat) (data : List UInt8) : Arrays × Bool :=
  if index ≥ Count then (s,false)
  else if data.length > MaxElemSize then (s,false)
  else
    match s.lock index with
    | some curClient => if curClient = client then (s.write client index data,true) else (s,false)
    | none => (s.write client index data,true)

def leave (slotId : Option Nat) (client : ClientRef) (x : Element) : Element :=
  let x := match slotId with
    | some slot => { x with m_dirtyFlags := Function.update x.m_dirtyFlags slot false }
    | none => x
  if x.m_owner = some client then
    { x with m_owner := none, m_size := 0, m_dirtyFlags := fun _ => true }
  else x

def PlayerHasLeft (s : Arrays) (client : ClientRef) : Arrays :=
  { s with element := fun i => leave (s.slotId client) client (s.element i)
           left := insert client s.left }

def writeElement (client : ClientRef) (slot : Nat) (s : Arrays) (i : Nat) : Arrays :=
  if (s.element i).m_dirtyFlags slot then
    let sent := match s.contents i with
      | some c => s.tell client i (some c)
      | none => s
    sent.modify i (fun x => { x with m_dirtyFlags := Function.update x.m_dirtyFlags slot false })
  else s

def WriteUpdates (s : Arrays) (client : ClientRef) : Arrays :=
  match s.slotId client with
  | some slot => (List.range Count).foldl (writeElement client slot) s
  | none => s

def join (s : Arrays) (client : ClientRef) (slot : Nat) (netId : UInt16) : Arrays :=
  { s with clients := insert client s.clients
           slotId := Function.update s.slotId client (some slot)
           netId := Function.update s.netId client netId }

def mayJoin (s : Arrays) (client : ClientRef) (slot : Nat) : Bool :=
  client ∉ s.clients ∧ ∀ c ∈ s.clients, s.slotId c ≠ some slot

inductive Op where
  | join (client : ClientRef) (slot : Nat) (netId : UInt16)
  | readUpdate (client : ClientRef) (index : Nat) (data : List UInt8)
  | writeUpdates (client : ClientRef)
  | releaseSlot (client : ClientRef)
  | playerHasLeft (client : ClientRef)
  | free (client : ClientRef)
  deriving DecidableEq, Repr

-- Packets and drops are of clients that exist; an object is freed after its slot.
def step (s : Arrays) : Op → Arrays
  | .join client slot netId => if s.mayJoin client slot then s.join client slot netId else s
  | .readUpdate client index data =>
    if client ∈ s.clients ∧ client ∉ s.freed then
      (s.ReadUpdate MaxElemSize Count client index data).1
    else s
  | .writeUpdates client => s.WriteUpdates Count client
  | .releaseSlot client => { s with slotId := Function.update s.slotId client none }
  | .playerHasLeft client => if client ∈ s.clients then s.PlayerHasLeft client else s
  | .free client => if s.slotId client = none then { s with freed := insert client s.freed } else s

/-- A slot is taken while its flag is up for every element in use, an element without owner
is not one the client was told of, and a client that is freed owns nothing. -/
def Settles (s : Arrays) : Op → Prop
  | .join client slot _ => s.mayJoin client slot →
    ∀ i < Count, s.contents i ≠ none → (s.element i).m_dirtyFlags slot
  | .writeUpdates client => ∀ slot, s.slotId client = some slot → client ∉ s.left →
    ∀ i < Count, (s.element i).m_dirtyFlags slot → s.contents i = none → s.replica client i = none
  | .free client => s.slotId client = none → ∀ i < Count, (s.element i).m_owner ≠ some client
  | _ => True

structure Settled (s : Arrays) : Prop where
  slots : ∀ c c' slot, s.slotId c = some slot → s.slotId c' = some slot → c = c'
  known : ∀ c, s.slotId c ≠ none → c ∈ s.clients
  silent : ∀ c ∉ s.clients, s.log c = []
  owned : ∀ i c, (s.element i).m_owner = some c → c ∈ s.clients
  held : ∀ c slot, s.slotId c = some slot → c ∉ s.left → ∀ i < Count,
    (s.element i).m_dirtyFlags slot = false → s.replica c i = s.contents i

section
omit MaxElemSize Count

variable (s : Arrays)

theorem replicaTell (c c' : ClientRef) (i j : Nat) (x : Option Contents) :
    (s.tell c i x).replica c' j = if c' = c ∧ j = i then x else s.replica c' j := by
  unfold replica tell
  by_cases here : c' = c
  · subst here
    simp only [Function.update_self,replayLast,true_and]
    exact Function.update_apply ..
  · simp [here]

theorem memcpyTake (array bytes : List UInt8) : (memcpy array bytes).take bytes.length = bytes := by
  simp [memcpy]

theorem contentsWrite {c : ClientRef} (live : c ∉ s.freed) (index j : Nat)
    (bytes : List UInt8) : (s.write c index bytes).contents j =
      if j = index then if bytes = [] then none else some (s.netId c,bytes)
      else s.contents j := by
  unfold write modify tell contents lock data
  by_cases here : j = index
  · subst here
    by_cases empty : bytes = []
    · simp [empty]
    · simp [empty,live,memcpyTake]
  · simp [here]

theorem replicaWrite (c c' : ClientRef) (index j : Nat) (bytes : List UInt8) :
    (s.write c index bytes).replica c' j =
      if c' = c ∧ j = index then if bytes = [] then none else some (s.netId c,bytes)
      else s.replica c' j :=
  replicaTell ..

theorem flagsWrite (c : ClientRef) (index j slot : Nat) (bytes : List UInt8) :
    ((s.write c index bytes).element j).m_dirtyFlags slot =
      if j = index then decide (s.slotId c ≠ some slot) else (s.element j).m_dirtyFlags slot := by
  unfold write modify tell
  by_cases here : j = index
  · subst here
    simp
  · simp [here]

theorem contentsLeave (c : ClientRef) (j : Nat) :
    (s.PlayerHasLeft c).contents j =
      if (s.element j).m_owner = some c then none else s.contents j := by
  unfold PlayerHasLeft contents lock leave data
  cases s.slotId c with
  | none =>
    by_cases own : (s.element j).m_owner = some c <;> simp [own]
  | some slot =>
    by_cases own : (s.element j).m_owner = some c <;> simp [own]

theorem flagsLeave (c : ClientRef) (j slot : Nat) :
    ((s.PlayerHasLeft c).element j).m_dirtyFlags slot =
      if (s.element j).m_owner = some c then true
      else if s.slotId c = some slot then false else (s.element j).m_dirtyFlags slot := by
  unfold PlayerHasLeft leave
  cases s.slotId c with
  | none =>
    by_cases own : (s.element j).m_owner = some c <;> simp [own]
  | some slot' =>
    by_cases own : (s.element j).m_owner = some c
    · simp [own]
    · simp only [own,if_false,Function.update_apply,Option.some.injEq]
      by_cases same : slot = slot'
      · simp [same]
      · simp [same,Ne.symm same]

structure Written (client : ClientRef) (slot i : Nat) (s s' : Arrays) : Prop where
  contents : ∀ j, s'.contents j = s.contents j
  owner : ∀ j, (s'.element j).m_owner = (s.element j).m_owner
  flags : ∀ j t, (s'.element j).m_dirtyFlags t =
    if j = i ∧ t = slot then false else (s.element j).m_dirtyFlags t
  replica : ∀ c j, s'.replica c j =
    if c = client ∧ j = i ∧ (s.element i).m_dirtyFlags slot ∧ s.contents i ≠ none then s.contents i
    else s.replica c j
  others : ∀ c, c ≠ client → s'.log c = s.log c
  clients : s'.clients = s.clients
  slots : s'.slotId = s.slotId
  left : s'.left = s.left

theorem lowered (i slot : Nat) :
    (∀ j, (s.modify i (fun x => { x with m_dirtyFlags := Function.update x.m_dirtyFlags slot false
      })).contents j = s.contents j) ∧
    (∀ j, ((s.modify i (fun x => { x with m_dirtyFlags := Function.update x.m_dirtyFlags slot false
      })).element j).m_owner = (s.element j).m_owner) ∧
    ∀ j t, ((s.modify i (fun x => { x with m_dirtyFlags := Function.update x.m_dirtyFlags slot false
      })).element j).m_dirtyFlags t =
        if j = i ∧ t = slot then false else (s.element j).m_dirtyFlags t := by
  refine ⟨fun j => ?_,fun j => ?_,fun j t => ?_⟩
  · unfold modify contents lock data
    by_cases here : j = i
    · subst here
      simp
    · simp [here]
  · unfold modify
    by_cases here : j = i
    · subst here
      simp
    · simp [here]
  · unfold modify
    by_cases here : j = i
    · subst here
      simp [Function.update_apply]
    · simp [here]

theorem written (client : ClientRef) (slot i : Nat) : Written client slot i s (writeElement client slot s i) := by
  unfold writeElement
  split
  · rename_i dirty
    cases found : s.contents i with
    | none =>
      obtain ⟨contents,owner,flags⟩ := lowered s i slot
      exact ⟨contents,owner,flags,fun c j => by simp [found]; rfl,fun _ _ => rfl,rfl,rfl,rfl⟩
    | some x =>
      obtain ⟨contents,owner,flags⟩ := lowered (s.tell client i (some x)) i slot
      refine ⟨contents,owner,flags,fun c j => ?_,fun c other => ?_,rfl,rfl,rfl⟩
      · refine (replicaTell s client c i j (some x)).trans ?_
        simp [dirty,found]
      · exact Function.update_of_ne other ..
  · rename_i clean
    refine ⟨fun _ => rfl,fun _ => rfl,fun j t => ?_,fun c j => by simp [clean],fun _ _ => rfl,
      rfl,rfl,rfl⟩
    split
    · rename_i here
      obtain ⟨rfl,rfl⟩ := here
      exact Bool.eq_false_of_not_eq_true clean
    · rfl

end

section
variable {MaxElemSize Count : Nat}

theorem settledWritten {s s' : Arrays} {client : ClientRef} {slot i : Nat}
    (settled : Settled Count s) (own : s.slotId client = some slot) (w : Written client slot i s s')
    (told : client ∉ s.left → (s.element i).m_dirtyFlags slot → s.contents i = none →
      s.replica client i = none) : Settled Count s' := by
  refine ⟨?_,?_,?_,?_,?_⟩
  · rw [w.slots]
    exact settled.slots
  · rw [w.slots,w.clients]
    exact settled.known
  · intro c absent
    rw [w.clients] at absent
    refine (w.others c (fun same => absent ?_)).trans (settled.silent c absent)
    exact settled.known c (by rw [same,own]; exact Option.some_ne_none _)
  · intro j c owned
    rw [w.owner] at owned
    rw [w.clients]
    exact settled.owned j c owned
  · intro c t slotted stays j inside clean
    rw [w.slots] at slotted
    rw [w.left] at stays
    rw [w.flags] at clean
    rw [w.contents,w.replica]
    by_cases here : c = client ∧ j = i
    · obtain ⟨rfl,rfl⟩ := here
      have same : t = slot := Option.some.inj (slotted.symm.trans own)
      subst same
      cases dirty : (s.element j).m_dirtyFlags t with
      | false =>
        simpa [dirty] using settled.held c t slotted stays j inside dirty
      | true =>
        by_cases empty : s.contents j = none
        · simpa [empty] using told stays dirty empty
        · simp [empty]
    · rw [if_neg (fun both => here ⟨both.1,both.2.1⟩)]
      refine settled.held c t slotted stays j inside ?_
      by_cases flag : j = i ∧ t = slot
      · exact absurd ⟨settled.slots c client t slotted (flag.2 ▸ own),flag.1⟩ here
      · rwa [if_neg flag] at clean

section
variable {s : Arrays}

theorem settledLoop {client : ClientRef} {slot : Nat} (elements : List Nat)
    (settled : Settled Count s) (own : s.slotId client = some slot) (inside : ∀ i ∈ elements, i < Count)
    (told : client ∉ s.left → ∀ i < Count, (s.element i).m_dirtyFlags slot → s.contents i = none →
      s.replica client i = none) : Settled Count (elements.foldl (writeElement client slot) s) ∧
      (elements.foldl (writeElement client slot) s).slotId = s.slotId ∧
      (elements.foldl (writeElement client slot) s).left = s.left ∧ ∀ i ∈ elements,
        ((elements.foldl (writeElement client slot) s).element i).m_dirtyFlags slot = false := by
  induction elements generalizing s with
  | nil => exact ⟨settled,rfl,rfl,by simp⟩
  | cons e rest ih =>
    obtain ⟨here,later⟩ := List.forall_mem_cons.mp inside
    have w := written s client slot e
    have next := settledWritten settled own w (fun stays => told stays e here)
    have toldNext : client ∉ (writeElement client slot s e).left → ∀ i < Count,
        ((writeElement client slot s e).element i).m_dirtyFlags slot →
        (writeElement client slot s e).contents i = none →
        (writeElement client slot s e).replica client i = none := by
      intro stays i within dirty empty
      rw [w.left] at stays
      rw [w.flags] at dirty
      rw [w.contents] at empty
      rw [w.replica]
      by_cases same : i = e
      · simp [same] at dirty
      · rw [if_neg (fun both => same both.1)] at dirty
        rw [if_neg (fun both => same both.2.1)]
        exact told stays i within dirty empty
    obtain ⟨last,slots,left,clean⟩ := ih next (w.slots ▸ own) later toldNext
    refine ⟨last,slots.trans w.slots,left.trans w.left,?_⟩
    intro i mem
    rw [List.foldl_cons]
    by_cases again : i ∈ rest
    · exact clean i again
    · have first : i = e := (List.mem_cons.mp mem).resolve_right again
      subst first
      have lowered : ∀ (elements : List Nat) (s : Arrays),
          (s.element i).m_dirtyFlags slot = false →
          ((elements.foldl (writeElement client slot) s).element i).m_dirtyFlags slot = false := by
        intro elements s base
        refine foldKeeps (fun s : Arrays => (s.element i).m_dirtyFlags slot = false)
          (fun s j _ down => ?_) base
        rw [(written s client slot j).flags]
        split
        · rfl
        · exact down
      exact lowered rest _ (by rw [w.flags]; simp)

section
variable (settled : Settled Count s)
include settled

theorem settledWrite {client : ClientRef}
    (known : client ∈ s.clients) (live : client ∉ s.freed) (index : Nat) (bytes : List UInt8) :
    Settled Count (s.write client index bytes) := by
  refine ⟨settled.slots,settled.known,?_,?_,?_⟩
  · intro c absent
    refine (Function.update_of_ne (fun same => absent ?_) ..).trans (settled.silent c absent)
    exact same ▸ known
  · intro j c owned
    by_cases here : j = index
    · subst here
      by_cases empty : bytes = []
      · simp [write,modify,tell,empty] at owned
      · simp [write,modify,tell,empty] at owned
        exact owned ▸ known
    · exact settled.owned j c (by simpa [write,modify,tell,here] using owned)
  · intro c t slotted stays j inside clean
    rw [flagsWrite] at clean
    rw [contentsWrite s live,replicaWrite]
    by_cases here : j = index
    · subst here
      rw [if_pos rfl] at clean
      have same : c = client := settled.slots c client t slotted (by simpa using clean)
      simp [same]
    · rw [if_neg here] at clean
      simpa [here] using settled.held c t slotted stays j inside clean

theorem settledRead {client : ClientRef}
    (known : client ∈ s.clients) (live : client ∉ s.freed) (index : Nat) (bytes : List UInt8) :
    Settled Count (s.ReadUpdate MaxElemSize Count client index bytes).1 := by
  have wrote := settledWrite settled known live index bytes
  unfold ReadUpdate
  split
  · exact settled
  · split
    · exact settled
    · split
      · split
        · exact wrote
        · exact settled
      · exact wrote

theorem settledLeave (client : ClientRef) : Settled Count (s.PlayerHasLeft client) := by
  refine ⟨settled.slots,settled.known,settled.silent,?_,?_⟩
  · intro j c owned
    refine settled.owned j c ?_
    revert owned
    unfold PlayerHasLeft leave
    cases s.slotId client with
    | none =>
      by_cases own : (s.element j).m_owner = some client <;> simp [own]
    | some slot =>
      by_cases own : (s.element j).m_owner = some client <;> simp [own]
  · intro c t slotted stays j inside clean
    obtain ⟨other,stays⟩ := not_or.mp (fun mem => stays (Finset.mem_insert.mpr mem))
    rw [flagsLeave] at clean
    split at clean
    · contradiction
    · rename_i unowned
      split at clean
      · rename_i mine
        exact absurd (settled.slots c client t slotted mine) other
      · rw [contentsLeave,if_neg unowned]
        exact settled.held c t slotted stays j inside clean

theorem settledJoin {client : ClientRef} {slot : Nat} (netId : UInt16) (may : s.mayJoin client slot)
    (up : ∀ i < Count, s.contents i ≠ none → (s.element i).m_dirtyFlags slot) :
    Settled Count (s.join client slot netId) := by
  obtain ⟨fresh,free⟩ := of_decide_eq_true may
  have alone : ∀ c, s.slotId c ≠ some slot := fun c taken =>
    free c (settled.known c (by rw [taken]; exact Option.some_ne_none _)) taken
  have slotted : ∀ c t, (s.join client slot netId).slotId c = some t →
      (c = client ∧ t = slot) ∨ (c ≠ client ∧ s.slotId c = some t) := by
    intro c t here
    unfold join at here
    by_cases same : c = client
    · subst same
      simp only [Function.update_self,Option.some.injEq] at here
      exact .inl ⟨rfl,here.symm⟩
    · simp only [Function.update_of_ne same] at here
      exact .inr ⟨same,here⟩
  have same : ∀ j, (s.join client slot netId).contents j = s.contents j := by
    intro j
    unfold contents
    refine Option.map_congr (fun c locked => ?_)
    have owned := settled.owned j c (Option.filter_eq_some_iff.mp locked).1
    have other : c ≠ client := fun new => fresh (new ▸ owned)
    exact Prod.ext (Function.update_of_ne other ..) rfl
  refine ⟨?_,?_,?_,?_,?_⟩
  · intro c c' t first second
    rcases slotted c t first with ⟨here,same⟩ | ⟨_,older⟩
    · rcases slotted c' t second with ⟨there,_⟩ | ⟨_,older⟩
      · exact here.trans there.symm
      · exact absurd (same ▸ older) (alone c')
    · rcases slotted c' t second with ⟨_,same⟩ | ⟨_,older'⟩
      · exact absurd (same ▸ older) (alone c)
      · exact settled.slots c c' t older older'
  · intro c has
    refine Finset.mem_insert.mpr ?_
    by_cases same : c = client
    · exact .inl same
    · exact .inr (settled.known c (by rwa [← Function.update_of_ne same (some slot) s.slotId]))
  · intro c absent
    exact settled.silent c (fun mem => absent (Finset.mem_insert_of_mem mem))
  · intro j c owned
    exact Finset.mem_insert_of_mem (settled.owned j c owned)
  · intro c t here stays j inside clean
    rw [same]
    rcases slotted c t here with ⟨rfl,rfl⟩ | ⟨_,here⟩
    · have untold : (s.join c t netId).replica c j = none := by
        unfold replica join
        rw [settled.silent c fresh]
        rfl
      rw [untold]
      by_contra held
      have raised := up j inside (Ne.symm held)
      rw [show (s.element j).m_dirtyFlags t = false from clean] at raised
      contradiction
    · exact settled.held c t here stays j inside clean

theorem settledStep {op : Op} (ok : s.Settles Count op) : Settled Count (s.step MaxElemSize Count op) := by
  cases op with
  | join client slot netId =>
    simp only [step]
    split
    · rename_i may
      exact settledJoin settled netId may (ok may)
    · exact settled
  | readUpdate client index bytes =>
    simp only [step]
    split
    · rename_i there
      exact settledRead settled there.1 there.2 index bytes
    · exact settled
  | writeUpdates client =>
    simp only [step,WriteUpdates]
    split
    · rename_i slot own
      exact (settledLoop _ settled own (fun i mem => List.mem_range.mp mem)
        (fun stays => ok slot own stays)).1
    · exact settled
  | releaseSlot client =>
    have slotted : ∀ c t, Function.update s.slotId client none c = some t → s.slotId c = some t := by
      intro c t here
      by_cases same : c = client
      · rw [same,Function.update_self] at here
        contradiction
      · rwa [Function.update_of_ne same] at here
    refine ⟨fun c c' t first second => settled.slots c c' t (slotted c t first) (slotted c' t second),
      ?_,settled.silent,settled.owned,fun c t here => settled.held c t (slotted c t here)⟩
    intro c has
    obtain ⟨t,here⟩ := Option.ne_none_iff_exists'.mp has
    exact settled.known c (by rw [slotted c t here]; exact Option.some_ne_none _)
  | playerHasLeft client =>
    simp only [step]
    split
    · exact settledLeave settled client
    · exact settled
  | free client =>
    simp only [step]
    split
    · rename_i released
      refine ⟨settled.slots,settled.known,settled.silent,settled.owned,?_⟩
      intro c t here stays j inside clean
      refine (settled.held c t here stays j inside clean).trans ?_
      have unowned := ok released j inside
      unfold contents lock
      cases owner : (s.element j).m_owner with
      | none => rfl
      | some o =>
        have other : o ≠ client := fun same => unowned (same ▸ owner)
        simp [Option.filter,other]
    · exact settled

end
end

end

end Arrays
end
end Citizen.State.ArrayHandler
