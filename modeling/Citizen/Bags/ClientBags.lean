import Citizen.Bags.StrictUpdates
import Citizen.Lib.Numeral
import Mathlib.Data.List.TakeWhile

/-! State bags that `StateBagPacketHandler` makes for entities when a client names one there is not. -/
namespace Citizen.Bags.Wire
open BitField (Byte)
open Numeral (numeral digitValue)

def from_chars (first : List Byte) : Option Int :=
  let negative := first.head? = some (byte '-')
  let digits := (if negative then first.tail else first).takeWhile (fun b => (digitValue 10 b).isSome)
  (Numeral.value 10 digits).bind (fun n =>
    let value : Int := if negative then -Int.ofNat n else Int.ofNat n
    if -2 ^ 31 ≤ value ∧ value < 2 ^ 31 then some value else none)

def entityBag (objectId : BitVec 16) : List Byte := Citizen.text "entity:" ++ numeral 10 objectId.toNat

namespace Component

def RegisterStateBag (c : Component) (id : List Byte) (useParentTargets : Bool) : Component × Nat :=
  let (registry,bag) := c.registry.RegisterStateBag (text id)
  let made : OwnedBag := ⟨StateBag.init c.m_role (text id) useParentTargets c.m_targets ∅,none⟩
  ({ c with registry := registry,
            bags := if bag = c.registry.made then Function.update c.bags bag made else c.bags },bag)

end Component

structure EntityBags where
  component : Component
  m_entitiesById : BitVec 16 → Option (Option Nat)
  others : Nat → Nat

namespace EntityBags

def start (targets : Finset Nat) : EntityBags where
  component := ⟨.Server,targets,[],.init,fun _ => ⟨StateBag.init .Server "" false targets ∅,none⟩⟩
  m_entitiesById _ := none
  others _ := 0

def withRegistry (s : EntityBags) (registry : Registry) : EntityBags :=
  { s with component := { s.component with registry := registry } }

def attach (s : EntityBags) (objectId : BitVec 16) (bag : Nat) : EntityBags :=
  { s with m_entitiesById := Function.update s.m_entitiesById objectId (some (some bag)) }

def SetStateBag (s : EntityBags) (objectId : BitVec 16) (old : Option Nat) (bag : Nat) : EntityBags :=
  match old with
  | some gone => (s.attach objectId bag).withRegistry (s.component.registry.release gone)
  | none => s.attach objectId bag

def SetEntityStateBag (s : EntityBags) (objectId : BitVec 16) (name : List Byte) : Option EntityBags :=
  (s.m_entitiesById objectId).map (fun old =>
    let (component,bag) := s.component.RegisterStateBag name false
    SetStateBag { s with component := component } objectId old bag)

variable (handlers : OnStateBagChange)

def HandlePacket (s : EntityBags) (source : Int) : Packet → EntityBags × Option (List Byte)
  | .stateBag (some data) =>
    let (component,bagNameOnFailure) := s.component.HandlePacket handlers source data
    ({ s with component := component },bagNameOnFailure)
  | .stateBag none => (s,none)
  | .stateBagV2 stateBagName key data =>
    let (component,bagNameOnFailure) := s.component.HandlePacketV2 handlers source stateBagName key data
    ({ s with component := component },bagNameOnFailure)

def HandleStateBagMessage (s : EntityBags) (slotId : Int) (clientStateBag : Packet) : EntityBags :=
  if slotId = -1 then s
  else
    let (s,bagNameOnFailure) := s.HandlePacket handlers slotId clientStateBag
    match bagNameOnFailure with
    | none => s
    | some name =>
      if (Citizen.text "entity:").isPrefixOf name then
        match from_chars (name.drop 7) with
        | none => s
        | some entityID =>
          match s.SetEntityStateBag (BitVec.ofInt 16 entityID) name with
          | some s => (s.HandlePacket handlers slotId clientStateBag).1
          | none => s
      else s

def ensure (s : EntityBags) (objectId : BitVec 16) : EntityBags :=
  match s.m_entitiesById objectId with
  | some none =>
    let (component,bag) := s.component.RegisterStateBag (entityBag objectId) false
    { s with component := component }.attach objectId bag
  | _ => s

def refer (others : Nat → Nat) (bag : Option Nat) : Nat → Nat :=
  match bag with
  | some bag => Function.update others bag (others bag + 1)
  | none => others

end EntityBags

/-- What happens to entities and bags on a server. Entities that are no longer found by their id keep their bag
until they are destroyed, as do all others that refer to one. -/
inductive EntityBagEvent where
  | enter (objectId : BitVec 16)
  | leave (objectId : BitVec 16)
  | ensure (objectId : BitVec 16)
  | register (name : List Byte) (useParentTargets : Bool)
  | hold (name : List Byte)
  | release (bag : Nat)
  | contents (targets : Finset Nat) (bags : Nat → OwnedBag)
  | tick
  | packet (slotId : Int) (clientStateBag : Packet)

namespace EntityBags

def setEntity (s : EntityBags) (objectId : BitVec 16) (entity : Option (Option Nat)) : EntityBags :=
  { s with
    m_entitiesById := Function.update s.m_entitiesById objectId entity
    others := refer s.others (s.m_entitiesById objectId).join }

def step (handlers : OnStateBagChange) (s : EntityBags) : EntityBagEvent → EntityBags
  | .enter objectId => s.setEntity objectId (some none)
  | .leave objectId => s.setEntity objectId none
  | .ensure objectId => s.ensure objectId
  | .register name useParentTargets =>
    let (component,bag) := s.component.RegisterStateBag name useParentTargets
    { s with component := component,others := refer s.others (some bag) }
  | .hold name =>
    match s.component.GetStateBag name with
    | some bag => { s with others := refer s.others (some bag) }.withRegistry (s.component.registry.hold bag)
    | none => s
  | .release bag =>
    if s.others bag = 0 then s
    else { s with others := Function.update s.others bag (s.others bag - 1) }.withRegistry (s.component.registry.release bag)
  | .contents targets bags => { s with component := { s.component with m_targets := targets,bags := bags } }
  | .tick => s.withRegistry s.component.registry.tick
  | .packet slotId clientStateBag => s.HandleStateBagMessage handlers slotId clientStateBag

end EntityBags

def Packet.bagName : Packet → Option (List Byte)
  | .stateBag data => (data.bind readPacket).map Prod.fst
  | .stateBagV2 stateBagName key data => if stateBagName = [] ∨ key = [] ∨ data = [] then none else some stateBagName

def NameFits (name : List Byte) : Prop :=
  Citizen.text "entity:" <+: name → ∀ entityID, from_chars (name.drop 7) = some entityID →
    name = entityBag (BitVec.ofInt 16 entityID)

def EntityBagEvent.fits : EntityBagEvent → Prop
  | .packet _ clientStateBag => ∀ name, clientStateBag.bagName = some name → NameFits name
  | _ => True

/-- The handler makes or attaches a bag only for an entity without one, under the name of the entity's bag, and the
bag that it attaches is the one registered under that name. -/
def Canonical (s : EntityBags) (clientStateBag : Packet) (s' : EntityBags) : Prop :=
  (s'.component.registry.made ≠ s.component.registry.made ∨ s'.m_entitiesById ≠ s.m_entitiesById) →
    ∃ objectId bag, clientStateBag.bagName = some (entityBag objectId) ∧ s.m_entitiesById objectId = some none ∧
      s'.m_entitiesById = Function.update s.m_entitiesById objectId (some (some bag)) ∧
      s'.component.GetStateBag (entityBag objectId) = some bag

theorem entityBagParsed (objectId : BitVec 16) : Citizen.text "entity:" <+: entityBag objectId ∧
      from_chars ((entityBag objectId).drop 7) = some (objectId.toNat : Int) := by
  refine ⟨List.prefix_append _ _,?_⟩
  have rest : (entityBag objectId).drop 7 = numeral 10 objectId.toNat := List.drop_left' (by decide)
  have digits : ∀ b ∈ numeral 10 objectId.toNat, (digitValue 10 b).isSome = true := fun b mem =>
    Option.isSome_iff_ne_none.mpr (Numeral.numeralDigits objectId.toNat (by decide) (by decide) mem)
  have unsigned : (numeral 10 objectId.toNat).head? ≠ some (byte '-') := by
    intro minus
    have known := digits _ (List.mem_of_head? minus)
    revert known
    decide
  have few := objectId.isLt
  rw [rest]
  unfold from_chars
  simp only [unsigned,if_false]
  rw [List.takeWhile_eq_self_iff.mpr digits,Numeral.valueNumeral _ (by decide) (by decide),Option.bind_some]
  exact if_pos ⟨by simp only [Int.ofNat_eq_natCast]; omega,by simp only [Int.ofNat_eq_natCast]; omega⟩

theorem entityBagInjective {a b : BitVec 16} (same : entityBag a = entityBag b) : a = b := by
  have first := (entityBagParsed a).2
  rw [same,(entityBagParsed b).2] at first
  exact BitVec.eq_of_toNat_eq (by have := Option.some.inj first; omega)

section
variable {r : Registry}

theorem registered (kept : r.Kept) (since : r.resetAt = 0) (id : String) : (r.RegisterStateBag id).1.refs =
        Function.update r.refs (r.RegisterStateBag id).2 (r.refs (r.RegisterStateBag id).2 + 1) ∧
      (r.RegisterStateBag id).1.m_id (r.RegisterStateBag id).2 = id ∧
      (r.RegisterStateBag id).1.GetStateBag id = some (r.RegisterStateBag id).2 := by
  have fresh : r.refs r.made = 0 := by
    by_contra held
    exact absurd (kept.unmade _ (Registry.aliveOfHeld held)) (lt_irrefl _)
  obtain ⟨kept',live⟩ := Registry.keptRegister kept id
  have extended := Registry.registerExtends r id
  have found (name : (r.RegisterStateBag id).1.m_id (r.RegisterStateBag id).2 = id) :
      (r.RegisterStateBag id).1.GetStateBag id = some (r.RegisterStateBag id).2 := by
    have got := kept'.get live (by rw [extended.reset,since]; exact Nat.zero_le _)
    rwa [name] at got
  suffices counted : (r.RegisterStateBag id).1.refs =
        Function.update r.refs (r.RegisterStateBag id).2 (r.refs (r.RegisterStateBag id).2 + 1) ∧
      (r.RegisterStateBag id).1.m_id (r.RegisterStateBag id).2 = id from ⟨counted.1,counted.2,found counted.2⟩
  unfold Registry.RegisterStateBag
  simp only
  split
  · rename_i bag there
    have there : r.GetStateBag id = some bag := by
      split at there
      · contradiction
      · exact there
    exact ⟨rfl,(kept.named id bag (Registry.getStateBag there).1).1⟩
  · simp [Registry.makeBag,fresh]

theorem releasedRefs (r : Registry) (bag : Nat) : (r.release bag).refs = Function.update r.refs bag (r.refs bag - 1) := by
  unfold Registry.release
  split
  · rename_i zero
    rw [zero,Nat.zero_sub,← zero,Function.update_eq_self]
  · simp only
    split <;> rfl

end

structure Settled (s : EntityBags) : Prop where
  kept : s.component.registry.Kept
  since : s.component.registry.resetAt = 0
  plain : s.component.m_preCreatePrefixes = []
  named : ∀ objectId bag, s.m_entitiesById objectId = some (some bag) →
    s.component.registry.m_id bag = text (entityBag objectId) ∧ s.others bag < s.component.registry.refs bag
  counted : ∀ bag, s.others bag ≤ s.component.registry.refs bag

namespace Settled
variable {s s' : EntityBags} {objectId : BitVec 16} {name : List Byte}

section
variable (settled : Settled s)
include settled

theorem made {bag : Nat} (held : s.component.registry.refs bag ≠ 0) :
    bag < s.component.registry.made := settled.kept.unmade bag (Registry.aliveOfHeld held)

theorem still (kept : s'.component.registry.Kept)
    (since : s'.component.registry.resetAt = 0) (plain : s'.component.m_preCreatePrefixes = [])
    (entities : s'.m_entitiesById = s.m_entitiesById)
    (names : ∀ bag < s.component.registry.made, s'.component.registry.m_id bag = s.component.registry.m_id bag)
    (counts : ∀ bag, s'.others bag + s.component.registry.refs bag ≤ s.others bag + s'.component.registry.refs bag) :
    Settled s' := by
  refine ⟨kept,since,plain,fun objectId bag attached => ?_,fun bag => ?_⟩
  · rw [entities] at attached
    obtain ⟨name,held⟩ := settled.named objectId bag attached
    have count := counts bag
    exact ⟨(names bag (settled.made (by omega))).trans name,by omega⟩
  · have count := counts bag
    have before := settled.counted bag
    omega

theorem attached {bag : Nat} (here : s.m_entitiesById objectId = some (some bag)) :
    s.component.GetStateBag (entityBag objectId) = some bag := by
  obtain ⟨name,held⟩ := settled.named objectId bag here
  have found := settled.kept.get (Registry.aliveOfHeld (by omega : s.component.registry.refs bag ≠ 0))
    (by rw [settled.since]; exact Nat.zero_le _)
  rwa [name] at found

theorem others {objectId' : BitVec 16} {bag : Nat}
    (here : s.m_entitiesById objectId = some (some bag)) (there : s.m_entitiesById objectId' = some (some bag)) :
    objectId' = objectId := by
  have names := (settled.named objectId' bag there).1.symm.trans (settled.named objectId bag here).1
  exact entityBagInjective (textInjective names)

theorem setEntity (objectId : BitVec 16) {entity : Option (Option Nat)}
    (bare : entity = none ∨ entity = some none) : Settled (s.setEntity objectId entity) := by
  have counts (bag : Nat) : EntityBags.refer s.others (s.m_entitiesById objectId).join bag ≤ s.component.registry.refs bag ∧
      (s.m_entitiesById objectId ≠ some (some bag) →
        EntityBags.refer s.others (s.m_entitiesById objectId).join bag = s.others bag) := by
    match held : s.m_entitiesById objectId with
    | none => exact ⟨settled.counted bag,fun _ => rfl⟩
    | some none => exact ⟨settled.counted bag,fun _ => rfl⟩
    | some (some old) =>
      by_cases same : bag = old
      · subst same
        refine ⟨?_,fun other => absurd rfl other⟩
        simpa [EntityBags.refer] using (settled.named objectId bag held).2
      · have apart : EntityBags.refer s.others (some old) bag = s.others bag := Function.update_of_ne same ..
        exact ⟨apart ▸ settled.counted bag,fun _ => apart⟩
  refine ⟨settled.kept,settled.since,settled.plain,fun other bag attached => ?_,fun bag => (counts bag).1⟩
  simp only [EntityBags.setEntity] at attached ⊢
  by_cases same : other = objectId
  · subst same
    rw [Function.update_self] at attached
    rcases bare with rfl | rfl <;> cases attached
  · rw [Function.update_of_ne same] at attached
    rw [(counts bag).2 (fun here => same (settled.others here attached))]
    exact settled.named other bag attached

theorem register (name : List Byte) (useParentTargets : Bool) :
    Settled { s with
      component := (s.component.RegisterStateBag name useParentTargets).1
      others := EntityBags.refer s.others (some (s.component.RegisterStateBag name useParentTargets).2) } := by
  obtain ⟨refs,_,_⟩ := registered settled.kept settled.since (text name)
  have extended := Registry.registerExtends s.component.registry (text name)
  refine settled.still (Registry.keptRegister settled.kept _).1 (extended.reset.trans settled.since) settled.plain rfl
    extended.names (fun bag => ?_)
  simp only [EntityBags.refer,Component.RegisterStateBag,refs]
  by_cases same : bag = (s.component.registry.RegisterStateBag (text name)).2
  · subst same
    rw [Function.update_self,Function.update_self]
    omega
  · rw [Function.update_of_ne same,Function.update_of_ne same]

theorem attach (bare : s.m_entitiesById objectId = some none) (useParentTargets : Bool) :
    Settled (({ s with component := (s.component.RegisterStateBag (entityBag objectId) useParentTargets).1 } : EntityBags).attach
      objectId (s.component.RegisterStateBag (entityBag objectId) useParentTargets).2) := by
  obtain ⟨refs,name,_⟩ := registered settled.kept settled.since (text (entityBag objectId))
  have between := settled.register (entityBag objectId) useParentTargets
  generalize made : s.component.RegisterStateBag (entityBag objectId) useParentTargets = component at between ⊢
  have isRefs : component.1.registry.refs = Function.update s.component.registry.refs component.2
      (s.component.registry.refs component.2 + 1) := by rw [← made]; exact refs
  have isName : component.1.registry.m_id component.2 = text (entityBag objectId) := by rw [← made]; exact name
  have fewer (bag : Nat) : s.others bag ≤ EntityBags.refer s.others (some component.2) bag := by
    unfold EntityBags.refer
    by_cases same : bag = component.2
    · subst same
      simp
    · simp [same]
  refine ⟨between.kept,between.since,between.plain,fun other bag attached => ?_,
    fun bag => (fewer bag).trans (between.counted bag)⟩
  simp only [EntityBags.attach] at attached ⊢
  by_cases same : other = objectId
  · subst same
    rw [Function.update_self] at attached
    cases attached
    refine ⟨isName,?_⟩
    rw [isRefs,Function.update_self]
    exact Nat.lt_succ_of_le (settled.counted _)
  · rw [Function.update_of_ne same] at attached
    obtain ⟨isName',held⟩ := between.named other bag attached
    exact ⟨isName',lt_of_le_of_lt (fewer bag) held⟩

end

end Settled

section
variable {handlers : OnStateBagChange} {s : EntityBags} {slotId : Int} {clientStateBag : Packet}

theorem updatedPlain (handlers : OnStateBagChange) {c : Component} (plain : c.m_preCreatePrefixes = []) (source : Int) (id key data : List Byte) :
    (c.handleUpdate handlers source id key data).1.registry = c.registry ∧
      (c.handleUpdate handlers source id key data).1.m_preCreatePrefixes = [] ∧
      (c.handleUpdate handlers source id key data).2 = if c.GetStateBag id = none then some id else none := by
  unfold Component.handleUpdate Component.findOrCreate
  cases found : c.GetStateBag id with
  | some bag =>
    dsimp only
    refine ⟨?_,?_,rfl⟩
    · split <;> rfl
    · split <;> exact plain
  | none => simp [Component.IsSafePreCreateName,plain]

theorem handledPlain (handlers : OnStateBagChange) (plain : s.component.m_preCreatePrefixes = []) (source : Int) (packet : Packet) :
    ∃ component, s.HandlePacket handlers source packet = ({ s with component := component },
        packet.bagName.filter (fun name => s.component.GetStateBag name = none)) ∧
      component.registry = s.component.registry ∧ component.m_preCreatePrefixes = [] := by
  unfold EntityBags.HandlePacket Packet.bagName
  cases packet with
  | stateBag data =>
    cases data with
    | none => exact ⟨s.component,rfl,rfl,plain⟩
    | some data =>
      dsimp only [Component.HandlePacket]
      cases read : readPacket data with
      | none => exact ⟨s.component,by simp [read],rfl,plain⟩
      | some update =>
        obtain ⟨id,key,value⟩ := update
        obtain ⟨registry,plain',failed⟩ := updatedPlain handlers plain source id key value
        refine ⟨_,?_,registry,plain'⟩
        simp only [failed,Option.bind_some,read,Option.map_some,Option.filter_some,decide_eq_true_eq]
  | stateBagV2 name key data =>
    dsimp only [Component.HandlePacketV2]
    by_cases empty : name = [] ∨ key = [] ∨ data = []
    · rw [if_pos empty,if_pos empty]
      exact ⟨s.component,rfl,rfl,plain⟩
    · rw [if_neg empty,if_neg empty]
      obtain ⟨registry,plain',failed⟩ := updatedPlain handlers plain source name key data
      refine ⟨_,?_,registry,plain'⟩
      simp only [failed,Option.filter_some,decide_eq_true_eq]

structure Untouched (s s' : EntityBags) : Prop where
  registry : s'.component.registry = s.component.registry
  plain : s'.component.m_preCreatePrefixes = []
  entities : s'.m_entitiesById = s.m_entitiesById
  others : s'.others = s.others

theorem Untouched.settled {s' : EntityBags} (untouched : Untouched s s') (settled : Settled s) : Settled s' := by
  refine settled.still ?_ ?_ untouched.plain untouched.entities (fun bag _ => by rw [untouched.registry]) (fun bag => ?_)
  · rw [untouched.registry]
    exact settled.kept
  · rw [untouched.registry]
    exact settled.since
  · rw [untouched.registry,untouched.others]

theorem handledUntouched (handlers : OnStateBagChange) (plain : s.component.m_preCreatePrefixes = []) (source : Int) (packet : Packet) :
    Untouched s (s.HandlePacket handlers source packet).1 := by
  obtain ⟨component,handled,registry,plain'⟩ := handledPlain handlers plain source packet
  rw [handled]
  exact ⟨registry,plain',rfl,rfl⟩

theorem messageCases (handlers : OnStateBagChange) (slotId : Int) (clientStateBag : Packet)
    (plain : s.component.m_preCreatePrefixes = []) :
    Untouched s (s.HandleStateBagMessage handlers slotId clientStateBag) ∨
      ∃ name entityID, ∃ middle old : EntityBags, ∃ entity, clientStateBag.bagName = some name ∧
        s.component.GetStateBag name = none ∧ Citizen.text "entity:" <+: name ∧
        from_chars (name.drop 7) = some entityID ∧ Untouched s old ∧
        s.m_entitiesById (BitVec.ofInt 16 entityID) = some entity ∧
        old.SetEntityStateBag (BitVec.ofInt 16 entityID) name = some middle ∧
        s.HandleStateBagMessage handlers slotId clientStateBag = (middle.HandlePacket handlers slotId clientStateBag).1 := by
  unfold EntityBags.HandleStateBagMessage
  split
  · exact .inl ⟨rfl,plain,rfl,rfl⟩
  · obtain ⟨component,handled,registry,plain'⟩ := handledPlain handlers plain slotId clientStateBag
    have untouched : Untouched s { s with component := component } := ⟨registry,plain',rfl,rfl⟩
    rw [handled]
    dsimp only
    split
    · exact .inl untouched
    · rename_i name failed
      obtain ⟨named,absent⟩ := Option.filter_eq_some_iff.mp failed
      split
      · rename_i starts
        split
        · exact .inl untouched
        · rename_i entityID parsed
          split
          · rename_i middle created
            obtain ⟨entity,here,_⟩ := Option.map_eq_some_iff.mp created
            exact .inr ⟨name,entityID,middle,_,entity,named,of_decide_eq_true absent,List.isPrefixOf_iff_prefix.mp starts,
              parsed,untouched,here,created,rfl⟩
          · exact .inl untouched
      · exact .inl untouched

theorem messageFitting (settled : Settled s) (fits : (EntityBagEvent.packet slotId clientStateBag).fits) :
    Settled (s.HandleStateBagMessage handlers slotId clientStateBag) ∧
      Canonical s clientStateBag (s.HandleStateBagMessage handlers slotId clientStateBag) := by
  rcases messageCases handlers slotId clientStateBag settled.plain with
    untouched | ⟨name,entityID,middle,old,entity,named,absent,starts,parsed,untouched,here,created,result⟩
  · refine ⟨untouched.settled settled,fun changed => ?_⟩
    rw [untouched.registry,untouched.entities] at changed
    simp at changed
  · have isName := fits name named starts entityID parsed
    generalize BitVec.ofInt 16 entityID = objectId at isName here created
    subst isName
    have bare : entity = none := by
      cases entity with
      | none => rfl
      | some bag =>
        have found := settled.attached here
        rw [absent] at found
        cases found
    subst bare
    have settledOld := untouched.settled settled
    have bareOld : old.m_entitiesById objectId = some none := by rw [untouched.entities,here]
    have isMiddle : middle = ({ old with component := (old.component.RegisterStateBag (entityBag objectId) false).1 } : EntityBags).attach
        objectId (old.component.RegisterStateBag (entityBag objectId) false).2 := by
      rw [EntityBags.SetEntityStateBag,bareOld] at created
      exact (Option.some.inj created).symm
    have settledMiddle : Settled middle := isMiddle ▸ settledOld.attach bareOld false
    have last := handledUntouched handlers settledMiddle.plain slotId clientStateBag
    rw [result]
    refine ⟨last.settled settledMiddle,fun _ =>
      ⟨objectId,(old.component.RegisterStateBag (entityBag objectId) false).2,named,here,?_,?_⟩⟩
    · rw [last.entities,isMiddle,← untouched.entities]
      rfl
    · rw [Component.GetStateBag,last.registry,isMiddle]
      exact (registered settledOld.kept settledOld.since (text (entityBag objectId))).2.2

theorem settledStep (settled : Settled s) {event : EntityBagEvent} (fits : event.fits) :
    Settled (s.step handlers event) := by
  cases event with
  | enter objectId => exact settled.setEntity objectId (.inr rfl)
  | leave objectId => exact settled.setEntity objectId (.inl rfl)
  | ensure objectId =>
    dsimp only [EntityBags.step,EntityBags.ensure]
    split
    · rename_i bare
      exact settled.attach bare false
    · exact settled
  | register name useParentTargets => exact settled.register name useParentTargets
  | hold name =>
    dsimp only [EntityBags.step]
    split
    · rename_i bag found
      refine settled.still (Registry.keptHold settled.kept (Registry.getStateBag found).2) settled.since settled.plain rfl
        (fun _ _ => rfl) (fun other => ?_)
      dsimp only [EntityBags.withRegistry,EntityBags.refer,Registry.hold]
      by_cases same : other = bag
      · subst same
        rw [Function.update_self,Function.update_self]
        omega
      · rw [Function.update_of_ne same,Function.update_of_ne same]
    · exact settled
  | release bag =>
    dsimp only [EntityBags.step]
    split
    · exact settled
    · rename_i held
      have spares : s.component.registry.Spares (.release bag) := fun old => by
        rw [settled.since] at old
        exact absurd old (Nat.not_lt_zero bag)
      have same := Registry.releaseSame s.component.registry bag
      refine settled.still (Registry.keptRelease settled.kept spares) (same.1.trans settled.since) settled.plain rfl
        (fun b _ => congrFun same.2 b) (fun other => ?_)
      dsimp only [EntityBags.withRegistry]
      rw [releasedRefs]
      have few := settled.counted bag
      by_cases here : other = bag
      · subst here
        rw [Function.update_self,Function.update_self]
        omega
      · rw [Function.update_of_ne here,Function.update_of_ne here]
  | contents targets bags =>
    exact settled.still settled.kept settled.since settled.plain rfl (fun _ _ => rfl) (fun _ => Nat.le_refl _)
  | tick =>
    exact settled.still (Registry.keptTick settled.kept) settled.since settled.plain rfl (fun _ _ => rfl)
      (fun _ => Nat.le_refl _)
  | packet slotId clientStateBag => exact (messageFitting settled fits).1

end

theorem settledStart (targets : Finset Nat) : Settled (.start targets) :=
  ⟨Registry.keptInit,rfl,rfl,fun _ _ attached => (by cases attached),fun _ => Nat.le_refl 0⟩

theorem messageMakes {handlers : OnStateBagChange} {s : EntityBags} {slotId : Int} {clientStateBag : Packet} {name : List Byte}
    {entityID : Int} (plain : s.component.m_preCreatePrefixes = []) (client : slotId ≠ -1)
    (named : clientStateBag.bagName = some name) (absent : s.component.GetStateBag name = none)
    (starts : Citizen.text "entity:" <+: name) (parsed : from_chars (name.drop 7) = some entityID)
    (bare : s.m_entitiesById (BitVec.ofInt 16 entityID) = some none) :
    (s.HandleStateBagMessage handlers slotId clientStateBag).m_entitiesById ≠ s.m_entitiesById := by
  obtain ⟨component,handled,registry,plain'⟩ := handledPlain handlers plain slotId clientStateBag
  have failed : clientStateBag.bagName.filter (fun name => s.component.GetStateBag name = none) = some name :=
    Option.filter_eq_some_iff.mpr ⟨named,decide_eq_true absent⟩
  rw [EntityBags.HandleStateBagMessage,if_neg client,handled,failed]
  dsimp only
  rw [if_pos (List.isPrefixOf_iff_prefix.mpr starts),parsed]
  dsimp only [EntityBags.SetEntityStateBag]
  rw [bare]
  dsimp only [Option.map_some]
  have last := handledUntouched handlers (show (EntityBags.SetStateBag
    { s with component := (component.RegisterStateBag name false).1 } (BitVec.ofInt 16 entityID) none
    (component.RegisterStateBag name false).2).component.m_preCreatePrefixes = [] from plain') slotId clientStateBag
  rw [last.entities]
  intro same
  have changed := congrFun same (BitVec.ofInt 16 entityID)
  rw [bare] at changed
  simp [EntityBags.SetStateBag,EntityBags.attach] at changed

theorem clientBagsCanonical (handlers : OnStateBagChange) (targets : Finset Nat) (name : List Byte) :
    (∀ events : List EntityBagEvent, (∀ event ∈ events, event.fits) →
      ∀ (slotId : Int) (clientStateBag : Packet), clientStateBag.bagName = some name →
        Canonical (run (EntityBags.step handlers) (.start targets) events) clientStateBag
          ((run (EntityBags.step handlers) (.start targets) events).HandleStateBagMessage handlers slotId clientStateBag)) ↔
      NameFits name := by
  constructor
  · intro all starts entityID parsed
    have nonempty : name ≠ [] := by
      rintro rfl
      exact absurd starts (by decide)
    have named : (Packet.stateBagV2 name [1] [1]).bagName = some name := by
      simp [Packet.bagName,nonempty]
    have canonical := all [.enter (BitVec.ofInt 16 entityID)] (by simp [EntityBagEvent.fits]) 0 _ named
    obtain ⟨objectId,_,isName,_⟩ := canonical (.inr (messageMakes rfl (by decide) named rfl starts parsed
      (Function.update_self ..)))
    have same : name = entityBag objectId := Option.some.inj (named.symm.trans isName)
    have read := (entityBagParsed objectId).2
    rw [← same,parsed] at read
    rw [same,Option.some.inj read,BitVec.ofInt_natCast,BitVec.ofNat_toNat,BitVec.setWidth_eq]
  · intro fits events fitting slotId clientStateBag named
    have settled : Settled (run (EntityBags.step handlers) (.start targets) events) :=
      runKeeps Settled (fun _ _ settled fits => settledStep settled fits) (settledStart targets)
        (alongOfMem (fun _ event mem => fitting event mem))
    refine (messageFitting settled (fun name' named' => ?_)).2
    rw [named] at named'
    exact Option.some.inj named' ▸ fits

theorem misnamedBag :
    let s := (EntityBags.start ∅).step (fun _ _ _ _ _ => true) (.enter 7)
    ¬Canonical s (.stateBagV2 (Citizen.text "entity:007x") [1] [1])
      (s.HandleStateBagMessage (fun _ _ _ _ _ => true) 0 (.stateBagV2 (Citizen.text "entity:007x") [1] [1])) := by
  intro s canonical
  have parsed : from_chars ((Citizen.text "entity:007x").drop 7) = some 7 := by decide
  obtain ⟨objectId,_,isName,_⟩ := canonical (.inr (messageMakes rfl (by decide) rfl rfl (by decide) parsed (by decide)))
  have same : Citizen.text "entity:007x" = entityBag objectId := Option.some.inj isName
  have read := (entityBagParsed objectId).2
  rw [← same,parsed] at read
  have id : objectId = 7 := BitVec.eq_of_toNat_eq (by have := Option.some.inj read; simp; omega)
  subst id
  exact absurd same (by decide)

end Citizen.Bags.Wire
