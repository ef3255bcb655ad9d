import Citizen.Lib.Run
import Citizen.Lib.Table

/-! The world grid of a routing bucket: which client may own objects in which sector, kept
once by slot and once by sector. -/
namespace Citizen.State.WorldGrid

abbrev ClientRef := Nat

def noOwner : Nat := 0xFFFF

structure WorldGridEntry where
  sectorX : Nat
  sectorY : Nat
  netID : Nat
  deriving DecidableEq, Repr

def WorldGridEntry.empty : WorldGridEntry := ⟨0,0,noOwner⟩

structure Grid where
  state : Nat → Nat → WorldGridEntry
  netIDs : Nat → Nat

def Grid.empty : Grid := ⟨fun _ _ => .empty,fun _ => noOwner⟩

def address (x y : Nat) : Nat := x * 256 + y

structure Window where
  minSectorX : Nat
  maxSectorX : Nat
  minSectorY : Nat
  maxSectorY : Nat

def Window.outside (w : Window) (entry : WorldGridEntry) : Bool :=
  entry.sectorX < w.minSectorX || w.maxSectorX < entry.sectorX ||
    entry.sectorY < w.minSectorY || w.maxSectorY < entry.sectorY

def Window.sectors (w : Window) : List (Nat × Nat) :=
  (List.range' w.minSectorX (w.maxSectorX + 1 - w.minSectorX)).flatMap (fun x =>
    (List.range' w.minSectorY (w.maxSectorY + 1 - w.minSectorY)).map (fun y => (x,y)))

abbrev Cooldown := Table Nat Nat

def secAddr (x y : Nat) : Nat := ((x <<< 8) ||| y) % 2^16

namespace Grid

def setEntry (g : Grid) (slot i : Nat) (entry : WorldGridEntry) : Grid :=
  { g with state := Function.update g.state slot (Function.update (g.state slot) i entry) }

def setOwner (g : Grid) (x y netID : Nat) : Grid :=
  { g with netIDs := Function.update g.netIDs (address x y) netID }

def disown (slot netID : Nat) (w : Window) (acc : Grid × Cooldown) (i : Nat) : Grid × Cooldown :=
  let entry := acc.1.state slot i
  if entry.netID ≠ noOwner ∧ w.outside entry then
    let left := if acc.1.netIDs (address entry.sectorX entry.sectorY) = netID then
        acc.1.setOwner entry.sectorX entry.sectorY noOwner
      else acc.1
    (left.setEntry slot i .empty,acc.2.erase (secAddr entry.sectorX entry.sectorY))
  else acc

def claim (now slot netID : Nat) (acc : Grid × Cooldown) (sector : Nat × Nat) : Grid × Cooldown :=
  let key := secAddr sector.1 sector.2
  if acc.1.netIDs (address sector.1 sector.2) ≠ noOwner then (acc.1,acc.2.erase key)
  else
    let due := (acc.2.lookup key).getD (now + 100)
    let waiting := if acc.2.lookup key = none then acc.2.insert key due else acc.2
    if now < due then (acc.1,waiting)
    else
      match (List.range 32).find? (fun i => (acc.1.state slot i).netID = noOwner) with
      | none => (acc.1,waiting)
      | some i => ((acc.1.setEntry slot i ⟨sector.1 % 256,sector.2 % 256,netID⟩).setOwner
          sector.1 sector.2 netID,waiting)

def coolDown (w : Window) (cooldown : Cooldown) : Cooldown :=
  cooldown.keep (fun key _ => !(w.outside ⟨key >>> 8,key &&& 0xFF,0⟩))

def update (g : Grid) (now slot netID : Nat) (w : Window) (cooldown : Cooldown) : Grid × Cooldown :=
  if w.minSectorX > 256 ∨ w.minSectorY > 256 then (g,cooldown)
  else w.sectors.foldl (claim now slot netID)
    ((List.range 32).foldl (disown slot netID w) (g,coolDown w cooldown))

def clear (g : Grid) (slotId : Option Nat) (netId : Nat) : Grid where
  state := match slotId with
    | some slot => Function.update g.state slot
        (fun i => if i < 32 then .empty else g.state slot i)
    | none => g.state
  netIDs := fun a => if a < 256 * 256 ∧ g.netIDs a = netId then noOwner else g.netIDs a

def clean (g : Grid) (connected : Nat → Bool) : Grid :=
  { g with netIDs := fun a =>
      if a < 256 * 256 ∧ g.netIDs a ≠ noOwner ∧ connected (g.netIDs a) = false then noOwner
      else g.netIDs a }

end Grid

/-- The grids and the clients; `left` has those whose `HandleClientDrop` has run, which is
posted when they are dropping or leave the registry. -/
structure World where
  m_worldGrids : Nat → Option Grid
  clients : Finset ClientRef
  registry : Finset ClientRef
  slotId : ClientRef → Option Nat
  netId : ClientRef → Nat
  routingBucket : ClientRef → Nat
  worldGridCooldown : ClientRef → Cooldown
  dropping : Finset ClientRef
  left : Finset ClientRef

inductive Op where
  | connect (client : ClientRef) (slot netId : Nat)
  | setBucket (client : ClientRef) (bucket : Nat)
  | update (client : ClientRef) (now : Nat) (w : Window)
  | clean
  | dropClient (client : ClientRef)
  | removeClient (client : ClientRef)
  | handleClientDrop (client : ClientRef)

namespace World

def init : World := ⟨fun _ => none,∅,∅,fun _ => none,fun _ => noOwner,fun _ => 0,fun _ => ∅,∅,∅⟩

def mayConnect (s : World) (client : ClientRef) (slot netId : Nat) : Bool :=
  client ∉ s.clients ∧ netId ≠ noOwner ∧
    ∀ c ∈ s.registry, s.slotId c ≠ some slot ∧ s.netId c ≠ netId

def connect (s : World) (client : ClientRef) (slot netId : Nat) : World :=
  { s with
    clients := insert client s.clients
    registry := insert client s.registry
    slotId := Function.update s.slotId client (some slot)
    netId := Function.update s.netId client netId }

-- `ForAllClients` skips those that are dropping.
def UpdateWorldGrid (s : World) (client : ClientRef) (now : Nat) (w : Window) : World :=
  if client ∈ s.registry ∧ client ∉ s.dropping then
    match s.slotId client with
    | none => s
    | some slot =>
      let bucket := s.routingBucket client
      let updated := ((s.m_worldGrids bucket).getD .empty).update now slot (s.netId client) w
        (s.worldGridCooldown client)
      { s with
        m_worldGrids := Function.update s.m_worldGrids bucket (some updated.1)
        worldGridCooldown := Function.update s.worldGridCooldown client updated.2 }
  else s

def GetClientByNetID (s : World) (netId : Nat) : Bool := ∃ c ∈ s.registry, s.netId c = netId

def clean (s : World) : World :=
  { s with m_worldGrids := fun bucket =>
      if ∃ c ∈ s.registry, c ∉ s.dropping ∧ s.routingBucket c = bucket then
        (s.m_worldGrids bucket).map (fun g => g.clean s.GetClientByNetID)
      else none }

def ClearClientFromWorldGrid (s : World) (client : ClientRef) : World :=
  let bucket := s.routingBucket client
  let cleared := (s.m_worldGrids bucket).map (fun g => g.clear (s.slotId client) (s.netId client))
  { s with m_worldGrids := Function.update s.m_worldGrids bucket cleared }

def RemoveClient (s : World) (client : ClientRef) : World :=
  { s with registry := s.registry.erase client
           slotId := Function.update s.slotId client none }

def HandleClientDrop (s : World) (client : ClientRef) : World :=
  { s.ClearClientFromWorldGrid client with left := insert client s.left }

def step (s : World) : Op → World
  | .connect client slot netId => if s.mayConnect client slot netId then s.connect client slot netId else s
  | .setBucket client bucket => { s with routingBucket := Function.update s.routingBucket client bucket }
  | .update client now w => s.UpdateWorldGrid client now w
  | .clean => s.clean
  | .dropClient client => { s with dropping := insert client s.dropping }
  | .removeClient client => s.RemoveClient client
  | .handleClientDrop client =>
    if client ∈ s.clients ∧ (client ∈ s.dropping ∨ client ∉ s.registry) then s.HandleClientDrop client
    else s

end World

def Taken (g : Grid) (slot i x y netID : Nat) : Prop :=
  i < 32 ∧ g.state slot i = ⟨x,y,netID⟩ ∧ netID ≠ noOwner

structure Consistent (g : Grid) : Prop where
  same : ∀ x < 256, ∀ y < 256, ∀ netID ≠ noOwner,
    g.netIDs (address x y) = netID ↔ ∃ slot i, Taken g slot i x y netID
  once : ∀ slot i slot' i' x y n n', Taken g slot i x y n → Taken g slot' i' x y n' →
    slot = slot' ∧ i = i' ∧ n = n'

structure GridOk (present : Nat → Nat → Prop) (g : Grid) : Prop where
  listed : ∀ slot i x y n, Taken g slot i x y n →
    x < 256 ∧ y < 256 ∧ g.netIDs (address x y) = n ∧ present slot n
  indexed : ∀ x < 256, ∀ y < 256, g.netIDs (address x y) ≠ noOwner →
    ∃ slot i, Taken g slot i x y (g.netIDs (address x y))
  once : ∀ slot i slot' i' x y n n', Taken g slot i x y n → Taken g slot' i' x y n' →
    slot = slot' ∧ i = i'

theorem addressInj {x y x' y' : Nat} (inY : y < 256) (inY' : y' < 256) (same : address x y = address x' y') :
    x = x' ∧ y = y' := by
  unfold address at same
  omega

theorem GridOk.consistent {present g} (ok : GridOk present g) : Consistent g := by
  refine ⟨fun x inX y inY n owned => ⟨fun here => ?_,?_⟩,fun slot i slot' i' x y n n' one two => ?_⟩
  · have found := ok.indexed x inX y inY (here ▸ owned)
    rw [here] at found
    exact found
  · rintro ⟨slot,i,taken⟩
    exact (ok.listed slot i x y n taken).2.2.1
  · obtain ⟨slots,indexes⟩ := ok.once slot i slot' i' x y n n' one two
    have first := (ok.listed slot i x y n one).2.2.1
    have second := (ok.listed slot' i' x y n' two).2.2.1
    exact ⟨slots,indexes,first.symm.trans second⟩

theorem GridOk.empty (present) : GridOk present .empty := by
  refine ⟨fun slot i x y n taken => ?_,fun x _ y _ owned => absurd rfl owned,
    fun slot i slot' i' x y n n' taken => ?_⟩
  · have same := taken.2.1
    cases same
    exact absurd rfl taken.2.2
  · have same := taken.2.1
    cases same
    exact absurd rfl taken.2.2

theorem GridOk.mono {present present' : Nat → Nat → Prop} {g} (ok : GridOk present g)
    (more : ∀ slot i x y n, Taken g slot i x y n → present slot n → present' slot n) : GridOk present' g := by
  refine ⟨fun slot i x y n taken => ?_,ok.indexed,ok.once⟩
  obtain ⟨inX,inY,owner,there⟩ := ok.listed slot i x y n taken
  exact ⟨inX,inY,owner,more slot i x y n taken there⟩

theorem takenSetEntry {g : Grid} {slot i : Nat} {entry : WorldGridEntry} {slot' i' x y n : Nat} :
    Taken (g.setEntry slot i entry) slot' i' x y n ↔
      if slot' = slot ∧ i' = i then i < 32 ∧ entry = ⟨x,y,n⟩ ∧ n ≠ noOwner
      else Taken g slot' i' x y n := by
  unfold Taken Grid.setEntry
  by_cases here : slot' = slot
  · subst here
    by_cases there : i' = i
    · subst there
      simp
    · simp [there]
  · simp [here]

theorem ownerSetOwner (g : Grid) {x y x' y' : Nat} (n : Nat) (inY : y < 256) (inY' : y' < 256) :
    (g.setOwner x y n).netIDs (address x' y') =
      if x' = x ∧ y' = y then n else g.netIDs (address x' y') := by
  unfold Grid.setOwner
  split
  · rename_i here
    obtain ⟨rfl,rfl⟩ := here
    exact Function.update_self ..
  · rename_i other
    have apart : address x' y' ≠ address x y := fun same => other (addressInj inY' inY same)
    dsimp only
    rw [Function.update_of_ne apart]

theorem ownerSetEntry (g : Grid) (slot i : Nat) (entry : WorldGridEntry) :
    (g.setEntry slot i entry).netIDs = g.netIDs := rfl

theorem GridOk.release {present g} (ok : GridOk present g) {slot i x y n} (taken : Taken g slot i x y n) :
    GridOk present ((g.setOwner x y noOwner).setEntry slot i .empty) := by
  obtain ⟨inX,inY,owner,_⟩ := ok.listed slot i x y n taken
  have still : ∀ slot' i' x' y' n',
      Taken ((g.setOwner x y noOwner).setEntry slot i .empty) slot' i' x' y' n' →
      ¬(slot' = slot ∧ i' = i) ∧ Taken g slot' i' x' y' n' := by
    intro slot' i' x' y' n' here
    rw [takenSetEntry] at here
    split at here
    · obtain ⟨_,empty,owned⟩ := here
      cases empty
      exact absurd rfl owned
    · rename_i other
      exact ⟨other,here⟩
  refine ⟨fun slot' i' x' y' n' here => ?_,fun x' inX' y' inY' owned => ?_,
    fun slot' i' slot'' i'' x' y' n' n'' one two => ?_⟩
  · obtain ⟨other,before⟩ := still slot' i' x' y' n' here
    obtain ⟨inX',inY',owner',there⟩ := ok.listed slot' i' x' y' n' before
    refine ⟨inX',inY',?_,there⟩
    rw [ownerSetEntry,ownerSetOwner g noOwner inY inY',if_neg]
    · exact owner'
    rintro ⟨rfl,rfl⟩
    exact other (ok.once slot' i' slot i x' y' n' n before taken)
  · rw [ownerSetEntry,ownerSetOwner g noOwner inY inY'] at owned ⊢
    split at owned
    · exact absurd rfl owned
    · rename_i apart
      rw [if_neg apart]
      obtain ⟨slot',i',found⟩ := ok.indexed x' inX' y' inY' owned
      refine ⟨slot',i',?_⟩
      rw [takenSetEntry,if_neg]
      · exact found
      · rintro ⟨rfl,rfl⟩
        have same := found.2.1.symm.trans taken.2.1
        cases same
        exact apart ⟨rfl,rfl⟩
  · exact ok.once _ _ _ _ x' y' n' n'' (still _ _ _ _ _ one).2 (still _ _ _ _ _ two).2

theorem GridOk.take {present g} (ok : GridOk present g) {slot i x y n} (inX : x < 256) (inY : y < 256)
    (inside : i < 32) (unused : (g.state slot i).netID = noOwner)
    (free : g.netIDs (address x y) = noOwner) (there : present slot n) (owned : n ≠ noOwner) :
    GridOk present ((g.setEntry slot i ⟨x,y,n⟩).setOwner x y n) := by
  have shape : ∀ slot' i' x' y' n',
      Taken ((g.setEntry slot i ⟨x,y,n⟩).setOwner x y n) slot' i' x' y' n' ↔
      if slot' = slot ∧ i' = i then x' = x ∧ y' = y ∧ n' = n else Taken g slot' i' x' y' n' := by
    intro slot' i' x' y' n'
    refine Iff.trans (takenSetEntry (g := g)) ?_
    split
    · constructor
      · rintro ⟨_,same,_⟩
        cases same
        exact ⟨rfl,rfl,rfl⟩
      · rintro ⟨rfl,rfl,rfl⟩
        exact ⟨inside,rfl,owned⟩
    · exact Iff.rfl
  have apart : ∀ slot' i' x' y' n', Taken g slot' i' x' y' n' → ¬(x' = x ∧ y' = y) := by
    rintro slot' i' x' y' n' taken ⟨rfl,rfl⟩
    have owner := (ok.listed slot' i' x' y' n' taken).2.2.1
    exact taken.2.2 (owner.symm.trans free)
  have owner : ∀ x' y', y' < 256 →
      ((g.setEntry slot i ⟨x,y,n⟩).setOwner x y n).netIDs (address x' y') =
        if x' = x ∧ y' = y then n else g.netIDs (address x' y') :=
    fun x' y' inY' => ownerSetOwner (g.setEntry slot i ⟨x,y,n⟩) n inY inY'
  refine ⟨fun slot' i' x' y' n' here => ?_,fun x' inX' y' inY' found => ?_,
    fun slot' i' slot'' i'' x' y' n' n'' one two => ?_⟩
  · rw [shape] at here
    split at here
    · rename_i same
      obtain ⟨rfl,rfl⟩ := same
      obtain ⟨rfl,rfl,rfl⟩ := here
      exact ⟨inX,inY,(owner _ _ inY).trans (if_pos ⟨rfl,rfl⟩),there⟩
    · obtain ⟨inX',inY',old,present'⟩ := ok.listed slot' i' x' y' n' here
      exact ⟨inX',inY',(owner _ _ inY').trans ((if_neg (apart _ _ _ _ _ here)).trans old),present'⟩
  · rw [owner x' y' inY'] at found ⊢
    split at found
    · rename_i same
      obtain ⟨rfl,rfl⟩ := same
      exact ⟨slot,i,(shape _ _ _ _ _).mpr (by simp)⟩
    · rename_i other
      rw [if_neg other]
      obtain ⟨slot',i',taken⟩ := ok.indexed x' inX' y' inY' found
      refine ⟨slot',i',(shape _ _ _ _ _).mpr ?_⟩
      rw [if_neg]
      · exact taken
      · rintro ⟨rfl,rfl⟩
        have stored := congrArg WorldGridEntry.netID taken.2.1
        exact taken.2.2 (stored.symm.trans unused)
  · rw [shape] at one two
    split at one
    · rename_i first
      obtain ⟨rfl,rfl,rfl⟩ := one
      split at two
      · rename_i second
        exact ⟨first.1.trans second.1.symm,first.2.trans second.2.symm⟩
      · exact absurd ⟨rfl,rfl⟩ (apart _ _ _ _ _ two)
    · split at two
      · obtain ⟨rfl,rfl,rfl⟩ := two
        exact absurd ⟨rfl,rfl⟩ (apart _ _ _ _ _ one)
      · exact ok.once _ _ _ _ x' y' n' n'' one two

section
variable {present} {acc : Grid × Cooldown} (ok : GridOk present acc.1) {slot netID : Nat}
include ok

theorem GridOk.disown (own : ∀ n, present slot n → n = netID) (w : Window) {i : Nat} (inside : i < 32) :
    GridOk present (Grid.disown slot netID w acc i).1 := by
  unfold Grid.disown
  dsimp only
  split
  · rename_i away
    have taken : Taken acc.1 slot i (acc.1.state slot i).sectorX (acc.1.state slot i).sectorY
        (acc.1.state slot i).netID := ⟨inside,rfl,away.1⟩
    obtain ⟨_,_,owner,there⟩ := ok.listed _ _ _ _ _ taken
    rw [if_pos (owner.trans (own _ there))]
    exact ok.release taken
  · exact ok

theorem GridOk.claim (there : present slot netID) (valid : netID ≠ noOwner) (now : Nat)
    {sector : Nat × Nat} (inX : sector.1 < 256) (inY : sector.2 < 256) :
    GridOk present (Grid.claim now slot netID acc sector).1 := by
  unfold Grid.claim
  dsimp only
  split
  · exact ok
  · rename_i free
    split
    · exact ok
    · split
      · exact ok
      · rename_i i found
        have unused : (acc.1.state slot i).netID = noOwner := by simpa using List.find?_some found
        have inside := List.mem_range.mp (List.mem_of_find?_eq_some found)
        rw [Nat.mod_eq_of_lt inX,Nat.mod_eq_of_lt inY]
        exact ok.take inX inY inside unused (Classical.not_not.mp free) there valid

end

theorem memSectors {w : Window} {sector : Nat × Nat} (mem : sector ∈ w.sectors) :
    sector.1 ≤ w.maxSectorX ∧ sector.2 ≤ w.maxSectorY := by
  unfold Window.sectors at mem
  simp only [List.mem_flatMap,List.mem_map,List.mem_range'_1] at mem
  obtain ⟨x,inX,y,inY,rfl⟩ := mem
  exact ⟨by omega,by omega⟩

theorem GridOk.update {present g} (ok : GridOk present g) {slot netID : Nat}
    (there : present slot netID) (own : ∀ n, present slot n → n = netID) (valid : netID ≠ noOwner)
    (now : Nat) {w : Window} (inX : w.maxSectorX ≤ 255) (inY : w.maxSectorY ≤ 255)
    (cooldown : Cooldown) : GridOk present (g.update now slot netID w cooldown).1 := by
  unfold Grid.update
  split
  · exact ok
  · refine foldKeeps (fun acc : Grid × Cooldown => GridOk present acc.1)
      (fun acc sector mem kept => ?_) (foldKeeps (fun acc : Grid × Cooldown => GridOk present acc.1)
        (fun acc i mem kept => ?_) ok)
    · obtain ⟨belowX,belowY⟩ := memSectors mem
      exact kept.claim there valid now (by omega) (by omega)
    · exact kept.disown own w (List.mem_range.mp mem)

theorem addressInside {x y : Nat} (inX : x < 256) (inY : y < 256) : address x y < 256 * 256 := by
  unfold address
  omega

theorem GridOk.clear {present g} (ok : GridOk present g) {slotId : Option Nat} {netId : Nat}
    (valid : netId ≠ noOwner) (mine : ∀ slot n, present slot n → (slotId = some slot ↔ n = netId)) :
    GridOk present (g.clear slotId netId) ∧
      (∀ x < 256, ∀ y < 256, (g.clear slotId netId).netIDs (address x y) ≠ netId) ∧
      ∀ slot i x y, ¬Taken (g.clear slotId netId) slot i x y netId := by
  have owner : ∀ x y, x < 256 → y < 256 → (g.clear slotId netId).netIDs (address x y) =
      if g.netIDs (address x y) = netId then noOwner else g.netIDs (address x y) := by
    intro x y inX inY
    unfold Grid.clear
    simp only [addressInside inX inY,true_and]
  have still : ∀ slot i x y n, Taken (g.clear slotId netId) slot i x y n →
      slotId ≠ some slot ∧ Taken g slot i x y n := by
    intro slot i x y n ⟨inside,same,owned⟩
    unfold Grid.clear at same
    cases slotId with
    | none => exact ⟨by simp,inside,same,owned⟩
    | some mySlot =>
      by_cases here : slot = mySlot
      · subst here
        simp only [Function.update_self,if_pos inside] at same
        have empty := congrArg WorldGridEntry.netID same
        exact absurd empty.symm owned
      · simp only [Function.update_of_ne here] at same
        exact ⟨fun eq => here (Option.some.inj eq).symm,inside,same,owned⟩
  have kept : ∀ slot i x y n, slotId ≠ some slot → Taken g slot i x y n →
      Taken (g.clear slotId netId) slot i x y n := by
    intro slot i x y n other ⟨inside,same,owned⟩
    refine ⟨inside,?_,owned⟩
    unfold Grid.clear
    cases slotId with
    | none => exact same
    | some mySlot =>
      have here : slot ≠ mySlot := fun eq => other (by rw [eq])
      simp only [Function.update_of_ne here]
      exact same
  have foreign : ∀ slot i x y n, slotId ≠ some slot → Taken g slot i x y n → n ≠ netId := by
    intro slot i x y n other taken
    exact fun same => other ((mine slot n (ok.listed slot i x y n taken).2.2.2).mpr same)
  refine ⟨⟨fun slot i x y n here => ?_,fun x inX y inY owned => ?_,
    fun slot i slot' i' x y n n' one two => ?_⟩,fun x inX y inY => ?_,fun slot i x y taken => ?_⟩
  · obtain ⟨other,before⟩ := still slot i x y n here
    obtain ⟨inX,inY,old,there⟩ := ok.listed slot i x y n before
    refine ⟨inX,inY,?_,there⟩
    rw [owner x y inX inY,old,if_neg (foreign slot i x y n other before)]
  · rw [owner x y inX inY] at owned ⊢
    split at owned
    · exact absurd rfl owned
    · rename_i other
      rw [if_neg other]
      obtain ⟨slot,i,taken⟩ := ok.indexed x inX y inY owned
      have there := (ok.listed _ _ _ _ _ taken).2.2.2
      exact ⟨slot,i,kept slot i x y _ (fun same => other ((mine slot _ there).mp same)) taken⟩
  · exact ok.once _ _ _ _ x y n n' (still _ _ _ _ _ one).2 (still _ _ _ _ _ two).2
  · rw [owner x y inX inY]
    split
    · exact valid.symm
    · rename_i other
      exact other
  · obtain ⟨other,before⟩ := still slot i x y netId taken
    exact foreign slot i x y netId other before rfl

theorem GridOk.clean {present g} (ok : GridOk present g) {connected : Nat → Bool}
    (seen : ∀ slot n, present slot n → connected n = true) : GridOk present (g.clean connected) := by
  have owner : ∀ x y, x < 256 → y < 256 →
      (g.clean connected).netIDs (address x y) = g.netIDs (address x y) := by
    intro x y inX inY
    unfold Grid.clean
    dsimp only
    split
    · rename_i stale
      obtain ⟨slot,i,taken⟩ := ok.indexed x inX y inY stale.2.1
      have there := seen slot _ (ok.listed _ _ _ _ _ taken).2.2.2
      rw [stale.2.2] at there
      contradiction
    · rfl
  refine ⟨fun slot i x y n taken => ?_,fun x inX y inY owned => ?_,ok.once⟩
  · obtain ⟨inX,inY,old,there⟩ := ok.listed slot i x y n taken
    exact ⟨inX,inY,(owner x y inX inY).trans old,there⟩
  · rw [owner x y inX inY] at owned ⊢
    exact ok.indexed x inX y inY owned

namespace World

def present (s : World) (slot n : Nat) : Prop :=
  ∃ c ∈ s.registry, c ∉ s.left ∧ s.slotId c = some slot ∧ s.netId c = n

def Agree (s : World) : Prop := ∀ bucket g, s.m_worldGrids bucket = some g → Consistent g

/-- Windows lie inside the table; who loses the slot before its drop is handled owns nothing,
and who is dropped owns nothing in another bucket, and its net id is not given again before. -/
def Orderly (s : World) : Op → Prop
  | .update client _ w => client ∈ s.registry → client ∉ s.dropping →
    w.maxSectorX ≤ 255 ∧ w.maxSectorY ≤ 255
  | .removeClient client => client ∈ s.registry → client ∉ s.left →
    ∀ slot, s.slotId client = some slot → ∀ bucket g, s.m_worldGrids bucket = some g →
      ∀ i < 32, (g.state slot i).netID = noOwner
  | .handleClientDrop client => client ∈ s.clients →
    (client ∉ s.registry → ∀ c ∈ s.registry, s.netId c ≠ s.netId client) ∧
    (client ∈ s.registry → ∀ bucket ≠ s.routingBucket client, ∀ g,
      s.m_worldGrids bucket = some g → ∀ slot, ∀ i < 32, (g.state slot i).netID ≠ s.netId client)
  | _ => True

structure Kept (s : World) : Prop where
  grids : ∀ bucket g, s.m_worldGrids bucket = some g → GridOk s.present g
  slots : ∀ c ∈ s.registry, ∀ c' ∈ s.registry, ∀ slot,
    s.slotId c = some slot → s.slotId c' = some slot → c = c'
  slotted : ∀ c slot, s.slotId c = some slot → c ∈ s.registry
  netIds : ∀ c ∈ s.registry, ∀ c' ∈ s.registry, s.netId c = s.netId c' → c = c'
  valid : ∀ c ∈ s.clients, s.netId c ≠ noOwner
  known : ∀ c ∈ s.registry, c ∈ s.clients
  gone : ∀ c ∈ s.left, c ∈ s.clients ∧ (c ∈ s.dropping ∨ c ∉ s.registry)

theorem Kept.agree {s : World} (kept : Kept s) : s.Agree :=
  fun bucket g found => (kept.grids bucket g found).consistent

theorem keptInit : Kept init :=
  ⟨by simp [init],by simp [init],by simp [init],by simp [init],by simp [init],by simp [init],
    by simp [init]⟩

section
variable {s : World} (kept : Kept s)
include kept

theorem keptConnect {client slot netId : Nat}
    (may : s.mayConnect client slot netId) : Kept (s.connect client slot netId) := by
  obtain ⟨fresh,valid,apart⟩ := of_decide_eq_true may
  have here : ∀ c ∈ s.clients, c ≠ client := fun c mem same => fresh (same ▸ mem)
  have old : ∀ c ∈ s.clients, (s.connect client slot netId).slotId c = s.slotId c ∧
      (s.connect client slot netId).netId c = s.netId c := fun c mem =>
    ⟨Function.update_of_ne (here c mem) ..,Function.update_of_ne (here c mem) ..⟩
  have new : (s.connect client slot netId).slotId client = some slot ∧
      (s.connect client slot netId).netId client = netId :=
    ⟨Function.update_self ..,Function.update_self ..⟩
  refine ⟨fun bucket g found => ?_,?_,?_,?_,?_,?_,?_⟩
  · refine (kept.grids bucket g found).mono ?_
    rintro slot' i x y n taken ⟨c,mem,stays,slotted,named⟩
    obtain ⟨sameSlot,sameId⟩ := old c (kept.known c mem)
    exact ⟨c,Finset.mem_insert_of_mem mem,stays,sameSlot.trans slotted,sameId.trans named⟩
  · intro c mem c' mem' slot' first second
    rcases Finset.mem_insert.mp mem with same | mem
    · rcases Finset.mem_insert.mp mem' with same' | mem'
      · exact same.trans same'.symm
      · rw [same,new.1] at first
        rw [(old c' (kept.known c' mem')).1] at second
        exact absurd (second.trans first.symm) (apart c' mem').1
    · rcases Finset.mem_insert.mp mem' with same' | mem'
      · rw [same',new.1] at second
        rw [(old c (kept.known c mem)).1] at first
        exact absurd (first.trans second.symm) (apart c mem).1
      · rw [(old c (kept.known c mem)).1] at first
        rw [(old c' (kept.known c' mem')).1] at second
        exact kept.slots c mem c' mem' slot' first second
  · intro c slot' slotted
    by_cases same : c = client
    · exact Finset.mem_insert.mpr (.inl same)
    · exact Finset.mem_insert_of_mem (kept.slotted c slot'
        ((Function.update_of_ne same ..).symm.trans slotted))
  · intro c mem c' mem' same
    rcases Finset.mem_insert.mp mem with this | mem
    · rcases Finset.mem_insert.mp mem' with this' | mem'
      · exact this.trans this'.symm
      · rw [this,new.2,(old c' (kept.known c' mem')).2] at same
        exact absurd same.symm (apart c' mem').2
    · rcases Finset.mem_insert.mp mem' with this' | mem'
      · rw [this',new.2,(old c (kept.known c mem)).2] at same
        exact absurd same (apart c mem).2
      · rw [(old c (kept.known c mem)).2,(old c' (kept.known c' mem')).2] at same
        exact kept.netIds c mem c' mem' same
  · intro c mem
    rcases Finset.mem_insert.mp mem with rfl | mem
    · rw [new.2]
      exact valid
    · rw [(old c mem).2]
      exact kept.valid c mem
  · intro c mem
    rcases Finset.mem_insert.mp mem with rfl | mem
    · exact Finset.mem_insert_self ..
    · exact Finset.mem_insert_of_mem (kept.known c mem)
  · intro c mem
    obtain ⟨known,gone⟩ := kept.gone c mem
    refine ⟨Finset.mem_insert_of_mem known,gone.imp_right (fun out within => ?_)⟩
    rcases Finset.mem_insert.mp within with same | within
    · exact here c known same
    · exact out within

variable {client : ClientRef}

theorem Kept.mine {slot : Nat}
    (slotted : s.slotId client = some slot) : ∀ n, s.present slot n → n = s.netId client := by
  rintro n ⟨c,mem,_,there,named⟩
  rw [← kept.slots c mem client (kept.slotted client slot slotted) slot there slotted]
  exact named.symm

theorem keptUpdate {now : Nat} {w : Window}
    (ok : s.Orderly (.update client now w)) : Kept (s.UpdateWorldGrid client now w) := by
  unfold UpdateWorldGrid
  split
  · rename_i may
    split
    · exact kept
    · rename_i slot slotted
      refine ⟨fun bucket g found => ?_,kept.slots,kept.slotted,kept.netIds,kept.valid,kept.known,kept.gone⟩
      dsimp only at found
      by_cases here : bucket = s.routingBucket client
      · rw [here,Function.update_self] at found
        cases Option.some.inj found
        have before : GridOk s.present ((s.m_worldGrids (s.routingBucket client)).getD .empty) := by
          cases old : s.m_worldGrids (s.routingBucket client) with
          | none => exact GridOk.empty _
          | some g => exact kept.grids _ g old
        have stays : client ∉ s.left := fun gone =>
          (kept.gone client gone).2.elim may.2 (fun out => out may.1)
        obtain ⟨inX,inY⟩ := ok may.1 may.2
        exact before.update ⟨client,may.1,stays,slotted,rfl⟩ (kept.mine slotted)
          (kept.valid client (kept.known client may.1)) now inX inY _
      · rw [Function.update_of_ne here] at found
        exact kept.grids bucket g found
  · exact kept

theorem keptClean : Kept s.clean := by
  refine ⟨fun bucket g found => ?_,kept.slots,kept.slotted,kept.netIds,kept.valid,kept.known,kept.gone⟩
  simp only [clean] at found
  split at found
  · obtain ⟨old,there,rfl⟩ := Option.map_eq_some_iff.mp found
    refine (kept.grids bucket old there).clean ?_
    rintro slot n ⟨c,mem,_,_,named⟩
    exact decide_eq_true ⟨c,mem,named⟩
  · contradiction

theorem keptRemove (ok : s.Orderly (.removeClient client)) : Kept (s.RemoveClient client) := by
  have slotted : ∀ c slot, (s.RemoveClient client).slotId c = some slot →
      c ≠ client ∧ s.slotId c = some slot := by
    intro c slot has
    by_cases same : c = client
    · rw [same] at has
      exact absurd ((Function.update_self ..).symm.trans has) (by simp)
    · exact ⟨same,(Function.update_of_ne same ..).symm.trans has⟩
  refine ⟨fun bucket g found => ?_,?_,?_,?_,kept.valid,?_,?_⟩
  · refine (kept.grids bucket g found).mono ?_
    rintro slot i x y n taken ⟨c,mem,stays,has,named⟩
    have other : c ≠ client := by
      rintro rfl
      have unowned := ok mem stays slot has bucket g found i taken.1
      exact taken.2.2 ((congrArg WorldGridEntry.netID taken.2.1).symm.trans unowned)
    exact ⟨c,Finset.mem_erase.mpr ⟨other,mem⟩,stays,(Function.update_of_ne other ..).trans has,named⟩
  · intro c mem c' mem' slot first second
    exact kept.slots c (Finset.mem_of_mem_erase mem) c' (Finset.mem_of_mem_erase mem') slot
      (slotted c slot first).2 (slotted c' slot second).2
  · intro c slot has
    obtain ⟨other,has⟩ := slotted c slot has
    exact Finset.mem_erase.mpr ⟨other,kept.slotted c slot has⟩
  · intro c mem c' mem'
    exact kept.netIds c (Finset.mem_of_mem_erase mem) c' (Finset.mem_of_mem_erase mem')
  · exact fun c mem => kept.known c (Finset.mem_of_mem_erase mem)
  · intro c mem
    obtain ⟨known,gone⟩ := kept.gone c mem
    exact ⟨known,gone.imp_right (fun out within => out (Finset.mem_of_mem_erase within))⟩

theorem Kept.mineDropping (unused : client ∉ s.registry → ∀ c ∈ s.registry, s.netId c ≠ s.netId client) :
    ∀ slot n, s.present slot n → (s.slotId client = some slot ↔ n = s.netId client) := by
  rintro slot n ⟨c,mem,_,there,named⟩
  constructor
  · intro slotted
    exact kept.mine slotted n ⟨c,mem,‹_›,there,named⟩
  · intro same
    have within : client ∈ s.registry :=
      Classical.byContradiction (fun out => unused out c mem (named.trans same))
    rw [← kept.netIds c mem client within (named.trans same)]
    exact there

theorem keptDrop (known : client ∈ s.clients)
    (left : client ∈ s.dropping ∨ client ∉ s.registry) (ok : s.Orderly (.handleClientDrop client)) :
    Kept (s.HandleClientDrop client) := by
  obtain ⟨unused,elsewhere⟩ := ok known
  refine ⟨fun bucket g found => ?_,kept.slots,kept.slotted,kept.netIds,kept.valid,kept.known,?_⟩
  · have others : ∀ slot n, s.present slot n → n ≠ s.netId client →
        (s.HandleClientDrop client).present slot n := by
      rintro slot n ⟨c,mem,stays,there,named⟩ other
      refine ⟨c,mem,fun gone => ?_,there,named⟩
      rcases Finset.mem_insert.mp gone with same | gone
      · exact other (by rw [← named,same])
      · exact stays gone
    simp only [HandleClientDrop,ClearClientFromWorldGrid] at found
    by_cases here : bucket = s.routingBucket client
    · rw [here,Function.update_self] at found
      obtain ⟨old,there,rfl⟩ := Option.map_eq_some_iff.mp found
      obtain ⟨ok,_,never⟩ := (kept.grids _ old there).clear (kept.valid client known)
        (kept.mineDropping unused)
      refine ok.mono (fun slot i x y n taken present => others slot n present ?_)
      rintro rfl
      exact never slot i x y taken
    · rw [Function.update_of_ne here] at found
      refine (kept.grids bucket g found).mono (fun slot i x y n taken present =>
        others slot n present ?_)
      rintro rfl
      by_cases within : client ∈ s.registry
      · exact elsewhere within bucket here g found slot i taken.1
          (congrArg WorldGridEntry.netID taken.2.1)
      · obtain ⟨c,mem,_,_,named⟩ := present
        exact unused within c mem named
  · intro c mem
    rcases Finset.mem_insert.mp mem with same | mem
    · rw [same]
      exact ⟨known,left⟩
    · exact kept.gone c mem

end

theorem keptStep (s : World) (op : Op) (kept : Kept s) (ok : s.Orderly op) : Kept (s.step op) := by
  cases op with
  | connect client slot netId =>
    simp only [step]
    split
    · exact keptConnect kept ‹_›
    · exact kept
  | setBucket client bucket =>
    exact ⟨kept.grids,kept.slots,kept.slotted,kept.netIds,kept.valid,kept.known,kept.gone⟩
  | update client now w => exact keptUpdate kept ok
  | clean => exact keptClean kept
  | dropClient client =>
    exact ⟨kept.grids,kept.slots,kept.slotted,kept.netIds,kept.valid,kept.known,fun c mem =>
      ⟨(kept.gone c mem).1,(kept.gone c mem).2.imp_left Finset.mem_insert_of_mem⟩⟩
  | removeClient client => exact keptRemove kept ok
  | handleClientDrop client =>
    simp only [step]
    split
    · rename_i may
      exact keptDrop kept may.1 may.2 ok
    · exact kept

def atOrigin : Window := ⟨52,56,52,56⟩

end World
end Citizen.State.WorldGrid
