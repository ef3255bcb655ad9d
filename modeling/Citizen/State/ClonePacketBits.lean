import Citizen.State.Coherence
import Citizen.Sync.SyncTree

/-! The records of a clone message as bits: what `ProcessClonePacket` reads of a create or a sync, also where
the message ends inside it, and the loop of `ParseClonePacket`. The acks that are written on the way are left out. -/
namespace Citizen.State
open BitField (Byte bitAt)
open Rl (MessageBuffer hackLength)
open Sync

/-- What the functions here use and do not define. Times and answers may be different for each record
(known by the bit at which it starts) and each new entity. -/
structure CloneCode (N : Type) where
  lengthHack : Bool
  isRDR : Bool
  inner : N → Option (InnerParse N)
  objectType : Nat → Option NetObjEntityType
  makeSyncTree : NetObjEntityType → SyncNode N
  view : SyncNode N → SyncTree
  knownToken : EntityRef → Bool
  valid : EntityRef → Bool
  accepted : EntityRef → Bool
  protect : Bool
  msec : Nat → Nat

structure CloneWorld (N : Type) where
  server : Server
  tree : EntityRef → SyncNode N

structure CloneHeader where
  uniqifier : Nat
  objectId : Nat
  creationToken : Nat
  objectType : Nat
  length : Nat

section
variable {N : Type} (code : CloneCode N)

def kNetObjectTypeBitLength (isRDR : Bool) : Nat := if isRDR then 5 else 4

def readHeader (isCreate : Bool) (inPacket : MessageBuffer) : CloneHeader × MessageBuffer :=
  let (uniqifier,inPacket) := inPacket.read code.lengthHack 16
  let (objectId,inPacket) := inPacket.read code.lengthHack 13
  let (creationToken,inPacket) := if isCreate then inPacket.read code.lengthHack 32 else (0,inPacket)
  let (objectType,inPacket) :=
    if isCreate then inPacket.read code.lengthHack (kNetObjectTypeBitLength code.isRDR) else (0,inPacket)
  let (length,inPacket) := inPacket.read code.lengthHack 12
  ({ uniqifier, objectId, creationToken, objectType, length },inPacket)

def readData (length : Nat) (inPacket : MessageBuffer) : List Byte × MessageBuffer :=
  if 0 < length then
    let (_,data,inPacket) := inPacket.readBits (List.replicate length 0) (length * 8)
    (data,inPacket)
  else ([],inPacket)

def parseState (s : Server) (client : ClientId) (data : List Byte) : SyncParseState :=
  { buffer := .ofData data, timestamp := (s.data client).syncTs, frameIndex := s.frameIndex, lastFrameIndex := s.frameIndex }

def parsed (s : Server) (client : ClientId) (isCreate : Bool) (data : List Byte) (tree : SyncNode N) : SyncNode N :=
  if data.length = 0 then tree
  else if isCreate then (ParseCreate code.lengthHack code.isRDR code.inner tree (parseState s client data)).1
  else (ParseSync code.lengthHack code.isRDR code.inner tree (parseState s client data)).1

def cloneData (s : Server) (h : CloneHeader) (tree : SyncNode N) : Server.CloneData :=
  { objectId := h.objectId, uniqifier := h.uniqifier, objectType := code.objectType h.objectType,
    creationToken := h.creationToken, length := h.length, tree := code.view tree,
    knownToken := code.knownToken s.nextEntity, valid := code.valid s.nextEntity, accepted := code.accepted s.nextEntity }

def reachesTree (s : Server) (now : Nat) (client : ClientId) (e : EntityRef) (h : CloneHeader) : Bool :=
  h.objectId != 0xFFFF &&
    match s.mayTouch client e h.uniqifier with
    | none => false
    | some slot => ((s.markRelevant e slot).ownerCheck now client e).isSome

def processSync (w : CloneWorld N) (now : Nat) (client : ClientId) (h : CloneHeader) (data : List Byte) : CloneWorld N :=
  match w.server.GetEntity h.objectId with
  | none => w
  | some e =>
    let tree := parsed code w.server client false data (w.tree e)
    { server := w.server.ProcessCloneSync now client (cloneData code w.server h tree)
      tree := if reachesTree w.server now client e h then Function.update w.tree e tree else w.tree }

def processCreate (w : CloneWorld N) (now : Nat) (client : ClientId) (h : CloneHeader) (data : List Byte) : CloneWorld N :=
  match code.objectType h.objectType with
  | none => w
  | some type =>
    let tree := parsed code w.server client true data (code.makeSyncTree type)
    let server := w.server.ProcessCloneCreate now client (cloneData code w.server h tree)
    { server, tree := if server.nextEntity = w.server.nextEntity then w.tree else Function.update w.tree w.server.nextEntity tree }

def ProcessClonePacket (w : CloneWorld N) (now : Nat) (client : ClientId) (isCreate : Bool) (inPacket : MessageBuffer) :
    CloneWorld N × MessageBuffer :=
  let (h,inPacket) := readHeader code isCreate inPacket
  let (data,inPacket) := readData h.length inPacket
  (if isCreate then processCreate code w now client h data else processSync code w now client h data,inPacket)

def cloneRecord (w : CloneWorld N) (client : ClientId) (msgBuf : MessageBuffer) : Option (CloneWorld N × MessageBuffer) :=
  let now := code.msec msgBuf.curBit
  let (dataType,msgBuf) := msgBuf.read code.lengthHack 3
  match dataType with
  | 1 => some (ProcessClonePacket code w now client true msgBuf)
  | 2 => some (ProcessClonePacket code w now client false msgBuf)
  | 3 =>
      let (objectId,msgBuf) := msgBuf.read code.lengthHack 13
      let (uniqifier,msgBuf) := msgBuf.read code.lengthHack 16
      some ({ w with server := w.server.ProcessCloneRemove code.protect client objectId uniqifier },msgBuf)
  | 4 =>
      let (clientId,msgBuf) := msgBuf.read code.lengthHack 16
      let (objectId,msgBuf) := msgBuf.read code.lengthHack 13
      some ({ w with server := w.server.ProcessCloneTakeover now client clientId objectId },msgBuf)
  | 5 =>
      let (newTs,msgBuf) := msgBuf.read code.lengthHack 32
      some ({ w with server := w.server.setTimestamp client newTs },msgBuf)
  | 6 =>
      let (newIndex,msgBuf) := msgBuf.read code.lengthHack 32
      some ({ w with server := w.server.setIndex client newIndex },msgBuf)
  | _ => none

def ParseClonePacket (client : ClientId) : Nat → CloneWorld N → MessageBuffer → Option (CloneWorld N)
  | 0,_,_ => none
  | fuel + 1,w,msgBuf =>
    if msgBuf.isAtEnd then some w
    else match cloneRecord code w client msgBuf with
      | none => some w
      | some (w,msgBuf) => ParseClonePacket client fuel w msgBuf

def Truncated (isCreate : Bool) (inPacket : MessageBuffer) : Prop :=
  let (h,rest) := readHeader code isCreate inPacket
  0 < h.length ∧ rest.maxBit < rest.curBit + h.length * 8

end

def SyncEntityState.ownership (x : SyncEntityState) : Option ClientId × Option ClientId × Option ClientId :=
  (x.client,x.lastOwner,x.firstOwner)

def SyncEntityState.relevance (x : SyncEntityState) : Finset Slot × Finset Slot × Finset Slot :=
  (x.relevantTo,x.outOfScopeFor,x.deletedFor)

structure Kept {N : Type} (w w' : CloneWorld N) : Prop where
  entities : w'.server.entitiesById = w.server.entitiesById
  tree : ∀ id e, w.server.GetEntity id = some e → w'.tree e = w.tree e
  ownership : ∀ id e, w.server.GetEntity id = some e → (w'.server.entity e).ownership = (w.server.entity e).ownership
  relevance : ∀ id e, w.server.GetEntity id = some e → (w'.server.entity e).relevance = (w.server.entity e).relevance

namespace Server

section
variable {s : Server} {now : Nat} {client : ClientId} {packet : CloneData} {e : EntityRef} {slot : Slot}

def holding (x : SyncEntityState) :
    (Option ClientId × Option ClientId × Option ClientId) × Finset Slot × Finset Slot × Finset Slot := (x.ownership,x.relevance)

theorem holdingParseInto (isSync : Bool) (e' : EntityRef) :
    holding ((s.parseInto client e packet isSync).entity e') = holding (s.entity e') := by
  unfold parseInto
  split
  · exact entityModifyKeeps s e e' (fun _ => rfl)
  · rfl

theorem entityAdoptPlayer : (s.adoptPlayer client e).entity = s.entity := by
  unfold adoptPlayer
  split <;> rfl

theorem ownerCheckHolding {checked : Server} (passed : s.ownerCheck now client e = some checked) (e' : EntityRef) :
    holding (checked.entity e') = holding (s.entity e') := by
  unfold ownerCheck at passed
  split at passed
  · cases passed
  · split at passed
    · cases passed
      rfl
    · split at passed
      · cases passed
        exact entityModifyKeeps s e e' (fun _ => rfl)
      · cases passed

theorem mayTouchFree {uniqifier : Nat} (may : s.mayTouch client e uniqifier = some slot) :
    slot ∉ (s.entity e).deletedFor ∧ slot ∉ (s.entity e).outOfScopeFor := by
  unfold mayTouch at may
  split at may
  · cases may
  · split at may
    · cases may
    · split at may
      · cases may
      · rename_i free
        cases may
        exact not_or.mp free

theorem syncHolding (real : packet.objectId ≠ 0xFFFF) (found : s.GetEntity packet.objectId = some e)
    (may : s.mayTouch client e packet.uniqifier = some slot) (e' : EntityRef) :
    holding ((s.ProcessCloneSync now client packet).entity e') = holding ((s.markRelevant e slot).entity e') := by
  unfold ProcessCloneSync
  rw [if_neg real,found]
  simp only [may]
  split
  · rfl
  · rename_i checked passed
    have adopted : ((checked.parseInto client e packet true).adoptPlayer client e).entity = (checked.parseInto client e packet true).entity :=
      entityAdoptPlayer
    exact (congrArg (fun entity => holding (entity e')) adopted).trans
      ((holdingParseInto true e').trans (ownerCheckHolding passed e'))

theorem syncIgnored (blocked : packet.objectId = 0xFFFF ∨ ∀ e, s.GetEntity packet.objectId = some e → s.mayTouch client e packet.uniqifier = none) :
    s.ProcessCloneSync now client packet = s := by
  unfold ProcessCloneSync
  split
  · rfl
  · rename_i real
    split
    · rfl
    · rename_i e found
      rw [blocked.resolve_left real e found]

theorem markRelevantHolding (free : slot ∉ (s.entity e).outOfScopeFor) :
    holding ((s.markRelevant e slot).entity e) = holding (s.entity e) ↔ slot ∈ (s.entity e).relevantTo := by
  unfold markRelevant holding
  rw [entityModifySelf]
  simp [SyncEntityState.ownership,SyncEntityState.relevance,Finset.erase_eq_of_notMem free]

theorem entityRemoveClone (id : Nat) (e' : EntityRef) : holding ((s.RemoveClone id).entity e') = holding (s.entity e') := by
  unfold RemoveClone
  split
  · rfl
  · exact entityModifyKeeps s _ e' (fun _ => rfl)

theorem holdingCreatedHere (e' : EntityRef) : holding ((s.createdHere client e packet).entity e') = holding (s.entity e') := by
  have settled : holding ((s.settleToken e packet).entity e') = holding (s.entity e') :=
    entityModifyKeeps s e e' (fun _ => rfl)
  unfold createdHere
  dsimp only
  split
  · exact (entityRemoveClone _ e').trans settled
  · exact settled

theorem createHolding (old : e ≠ s.nextEntity) :
    holding ((s.ProcessCloneCreate now client packet).entity e) = holding (s.entity e) := by
  unfold ProcessCloneCreate
  split
  · rfl
  · split
    · rfl
    · split
      · rfl
      · rename_i type typed
        have constructed : holding ((s.constructEntity client packet type).entity e) = holding (s.entity e) :=
          congrArg holding (Function.update_of_ne old _ _)
        dsimp only
        split
        · exact constructed
        · rename_i slot may
          have marked : holding (((s.constructEntity client packet type).markRelevant s.nextEntity slot).entity e) = holding (s.entity e) :=
            (congrArg holding (entityModifyOther _ old _)).trans constructed
          split
          · exact marked
          · rename_i checked passed
            have adopted : ((checked.parseInto client s.nextEntity packet false).adoptPlayer client s.nextEntity).entity =
                (checked.parseInto client s.nextEntity packet false).entity := entityAdoptPlayer
            exact (holdingCreatedHere e).trans ((congrArg (fun entity => holding (entity e)) adopted).trans
              ((holdingParseInto false e).trans ((ownerCheckHolding passed e).trans marked)))

theorem enlistedEntities (enlists : s.Enlists client packet) :
    (s.ProcessCloneCreate now client packet).entitiesById = Function.update s.entitiesById packet.objectId (some s.nextEntity) := by
  obtain ⟨real,free,slotted,typed,accepted⟩ := enlists
  obtain ⟨slot,slotted⟩ := Option.isSome_iff_exists.mp slotted
  obtain ⟨type,known,valid⟩ := (Option.any_eq_true _ _).mp typed
  have may : (s.constructEntity client packet type).mayTouch client s.nextEntity packet.uniqifier = some slot := by
    simp [mayTouch,constructEntity,SyncEntityState.fresh,slotted]
  have owner : (((s.constructEntity client packet type).markRelevant s.nextEntity slot).entity s.nextEntity).client = some client := by
    simp [markRelevant,constructEntity]
  have checked : ((s.constructEntity client packet type).markRelevant s.nextEntity slot).ownerCheck now client s.nextEntity =
      some ((s.constructEntity client packet type).markRelevant s.nextEntity slot) := by
    unfold ownerCheck
    rw [owner]
    exact if_pos rfl
  unfold ProcessCloneCreate
  rw [if_neg real,free,known]
  dsimp only
  rw [may]
  dsimp only
  rw [checked]
  have ready : (((((s.constructEntity client packet type).markRelevant s.nextEntity slot).parseInto client s.nextEntity packet
      false).adoptPlayer client s.nextEntity).settleToken s.nextEntity packet).ids = (s.constructEntity client packet type).ids := by
    rw [idsBlind.coarse.settleToken,idsBlind.coarse.adoptPlayer,idsBaseless.parseInto,idsBlind.coarse.markRelevant]
  unfold createdHere
  dsimp only
  generalize ((((s.constructEntity client packet type).markRelevant s.nextEntity slot).parseInto client s.nextEntity packet
    false).adoptPlayer client s.nextEntity).settleToken s.nextEntity packet = settled at ready
  have called : (settled.entity s.nextEntity).type = type := by
    have core := congrArg (fun v : Ids => (v.skeleton.core s.nextEntity).2.2.1) ready
    simpa [ids,skeleton,SyncEntityState.core,constructEntity,SyncEntityState.fresh] using core
  have kept : settled.rejected s.nextEntity packet = false := by
    rw [rejected,called]
    simp only [accepted,Bool.not_true,Bool.or_false]
    cases validity : packet.valid <;> simp_all
  rw [kept]
  exact congrArg (fun table => Function.update table packet.objectId (some s.nextEntity))
    (congrArg (fun v : Ids => v.skeleton.entitiesById) ready)

end
end Server

section
variable {N : Type} (code : CloneCode N)

/-- A sync whose data are clear bits leaves the entity alone: it is turned away before the relevance is set, or the
sender is relevant already and its clear bits are turned away or leave the tree as it is. -/
def IdleSync (w : CloneWorld N) (now : Nat) (client : ClientId) (h : CloneHeader) : Prop :=
  ∀ e slot, h.objectId ≠ 0xFFFF → w.server.GetEntity h.objectId = some e → w.server.mayTouch client e h.uniqifier = some slot →
    slot ∈ (w.server.entity e).relevantTo ∧
      (((w.server.markRelevant e slot).ownerCheck now client e).isSome →
        parsed code w.server client false (List.replicate h.length 0) (w.tree e) = w.tree e)

variable {code}

theorem Kept.refl (w : CloneWorld N) : Kept w w := ⟨rfl,fun _ _ _ => rfl,fun _ _ _ => rfl,fun _ _ _ => rfl⟩

theorem keptIff {w w' : CloneWorld N} : Kept w w' ↔ w'.server.entitiesById = w.server.entitiesById ∧
    (∀ id e, w.server.GetEntity id = some e → w'.tree e = w.tree e) ∧
    ∀ id e, w.server.GetEntity id = some e → Server.holding (w'.server.entity e) = Server.holding (w.server.entity e) := by
  constructor
  · intro kept
    exact ⟨kept.entities,kept.tree,fun id e found => Prod.ext (kept.ownership id e found) (kept.relevance id e found)⟩
  · rintro ⟨entities,tree,holding⟩
    exact ⟨entities,tree,fun id e found => congrArg Prod.fst (holding id e found),fun id e found => congrArg Prod.snd (holding id e found)⟩

section
variable {w : CloneWorld N} {now : Nat} {client : ClientId} {h : CloneHeader} {data : List Byte} {e : EntityRef} {slot : Slot}

theorem syncBlocked (found : w.server.GetEntity h.objectId = some e)
    (blocked : h.objectId = 0xFFFF ∨ w.server.mayTouch client e h.uniqifier = none) : processSync code w now client h data = w := by
  have skipped : reachesTree w.server now client e h = false := by
    unfold reachesTree
    rcases blocked with none | none <;> simp [none]
  unfold processSync
  rw [found]
  simp only [skipped]
  rw [Server.syncIgnored]
  · rfl
  · refine blocked.imp_right (fun none e' found' => ?_)
    cases found.symm.trans found'
    exact none

theorem syncEntered (real : h.objectId ≠ 0xFFFF) (found : w.server.GetEntity h.objectId = some e)
    (may : w.server.mayTouch client e h.uniqifier = some slot) :
    (processSync code w now client h data).server.entitiesById = w.server.entitiesById ∧
      (∀ e', Server.holding ((processSync code w now client h data).server.entity e') =
        Server.holding ((w.server.markRelevant e slot).entity e')) ∧
      (processSync code w now client h data).tree =
        if ((w.server.markRelevant e slot).ownerCheck now client e).isSome
        then Function.update w.tree e (parsed code w.server client false data (w.tree e)) else w.tree := by
  have through : reachesTree w.server now client e h = ((w.server.markRelevant e slot).ownerCheck now client e).isSome := by
    simp [reachesTree,real,may]
  unfold processSync
  rw [found,through.symm]
  exact ⟨congrArg (fun ids : Ids => ids.skeleton.entitiesById) (Server.idsBaseless.processCloneSync ..),
    fun e' => Server.syncHolding real found may e',rfl⟩

theorem syncKept : Kept w (processSync code w now client h (List.replicate h.length 0)) ↔ IdleSync code w now client h := by
  cases found : w.server.GetEntity h.objectId with
  | none =>
    have same : processSync code w now client h (List.replicate h.length 0) = w := by
      unfold processSync
      rw [found]
    rw [same]
    refine ⟨fun _ e slot _ found' => ?_,fun _ => .refl w⟩
    cases found.symm.trans found'
  | some e =>
    by_cases blocked : h.objectId = 0xFFFF ∨ w.server.mayTouch client e h.uniqifier = none
    · rw [syncBlocked found blocked]
      refine ⟨fun _ e' slot real found' may => ?_,fun _ => .refl w⟩
      cases found.symm.trans found'
      rw [blocked.resolve_left real] at may
      cases may
    · obtain ⟨real,free⟩ := not_or.mp blocked
      obtain ⟨slot,may⟩ := Option.ne_none_iff_exists'.mp free
      obtain ⟨entities,holding,tree⟩ := @syncEntered N code w now client h (List.replicate h.length 0) e slot real found may
      have unscoped := (Server.mayTouchFree may).2
      rw [keptIff,tree]
      constructor
      · rintro ⟨-,trees,kept⟩ e' slot' - found' may'
        cases found.symm.trans found'
        cases may.symm.trans may'
        refine ⟨(Server.markRelevantHolding unscoped).mp ((holding e).symm.trans (kept _ e found)),fun through => ?_⟩
        have changed := trees _ e found
        rw [if_pos through,Function.update_self] at changed
        exact changed
      · intro idle
        obtain ⟨relevant,same⟩ := idle e slot real found may
        refine ⟨entities,fun id e' _ => ?_,fun id e' _ => ?_⟩
        · split
          · rename_i through
            by_cases here : e' = e
            · rw [here,Function.update_self]
              exact same through
            · exact Function.update_of_ne here _ _
          · rfl
        · rw [holding]
          by_cases here : e' = e
          · rw [here]
            exact (Server.markRelevantHolding unscoped).mpr relevant
          · exact congrArg Server.holding (Server.entityModifyOther _ here _)

def Admitted (code : CloneCode N) (w : CloneWorld N) (client : ClientId) (h : CloneHeader) : Prop :=
  h.objectId ≠ 0xFFFF ∧ w.server.GetEntity h.objectId = none ∧ (w.server.slotId client).isSome ∧
    (code.objectType h.objectType).any (fun type => type == .Player || code.valid w.server.nextEntity) ∧
    code.accepted w.server.nextEntity = true

theorem createKept (coherent : Coherent w.server.skeleton) :
    Kept w (processCreate code w now client h data) ↔ ¬Admitted code w client h := by
  have old : ∀ id e, w.server.GetEntity id = some e → e ≠ w.server.nextEntity :=
    fun id e found => Nat.ne_of_lt (coherent.allocated e (coherent.known id e found).1)
  unfold processCreate
  split
  · rename_i unknown
    refine ⟨fun _ admitted => ?_,fun _ => .refl w⟩
    have typed := admitted.2.2.2.1
    rw [unknown] at typed
    cases typed
  · rename_i type known
    generalize parsed code w.server client true data (code.makeSyncTree type) = tree
    have enlists : w.server.Enlists client (cloneData code w.server h tree) ↔ Admitted code w client h := Iff.rfl
    constructor
    · intro kept admitted
      have entities := kept.entities
      dsimp only at entities
      rw [Server.enlistedEntities (enlists.mpr admitted)] at entities
      have taken := congrFun entities h.objectId
      have free : w.server.entitiesById h.objectId = none := admitted.2.1
      rw [free,show (cloneData code w.server h tree).objectId = h.objectId from rfl,Function.update_self] at taken
      cases taken
    · intro refused
      rw [keptIff]
      refine ⟨?_,fun id e found => ?_,fun id e found => Server.createHolding (old id e found)⟩
      · rcases Server.processCloneCreateCases w.server client now (cloneData code w.server h tree) with same | ⟨_,_,same | ⟨_,_,enlisted,_⟩⟩
        · dsimp only
          rw [same]
        · exact congrArg (fun ids : Ids => ids.skeleton.entitiesById) same
        · exact absurd (enlists.mp enlisted) refused
      · dsimp only
        split
        · rfl
        · exact Function.update_of_ne (old id e found) _ _

theorem readDataShort {length : Nat} {b : MessageBuffer} (some : 0 < length) (short : b.maxBit < b.curBit + length * 8) :
    readData length b = (List.replicate length 0,b) := by
  unfold readData MessageBuffer.readBits
  rw [if_pos some]
  dsimp only
  rw [if_neg (by omega),if_pos (by push_cast; exact short)]

theorem truncatedKept (coherent : Coherent w.server.skeleton) {isCreate : Bool} {inPacket : MessageBuffer}
    (truncated : Truncated code isCreate inPacket) :
    Kept w (ProcessClonePacket code w now client isCreate inPacket).1 ↔
      if isCreate then ¬Admitted code w client (readHeader code isCreate inPacket).1
      else IdleSync code w now client (readHeader code isCreate inPacket).1 := by
  obtain ⟨some,short⟩ := truncated
  unfold ProcessClonePacket
  dsimp only
  rw [@readDataShort (readHeader code isCreate inPacket).1.length (readHeader code isCreate inPacket).2 some short]
  cases isCreate with
  | true => exact createKept coherent
  | false => exact syncKept

theorem flaggedIdle {length : Nat} {tree : SyncNode N} (flagged : tree.Flagged) :
    parsed code w.server client false (List.replicate length 0) tree = tree := by
  unfold parsed
  split
  · rfl
  · refine parseSyncBlank _ _ _ flagged (fun p => ?_)
    exact BitField.bitAtZeros length p

end

section
variable {w : CloneWorld N} {client : ClientId}

def Onward (b b' : MessageBuffer) : Prop := b'.maxBit = b.maxBit ∧ b.curBit ≤ b'.curBit

theorem onwardRead (lengthHack : Bool) (length : Nat) (b : MessageBuffer) : Onward b (b.read lengthHack length).2 := by
  rw [readMoved]
  exact ⟨rfl,Nat.le_add_right _ _⟩

theorem Onward.trans {a b c : MessageBuffer} (first : Onward a b) (second : Onward b c) : Onward a c :=
  ⟨second.1.trans first.1,first.2.trans second.2⟩

theorem onwardData (length : Nat) (b : MessageBuffer) : Onward b (readData length b).2 := by
  unfold readData MessageBuffer.readBits
  split
  · dsimp only
    split
    · exact ⟨rfl,Nat.le_refl _⟩
    · split
      · exact ⟨rfl,Nat.le_refl _⟩
      · exact ⟨rfl,Nat.le_add_right _ _⟩
  · exact ⟨rfl,Nat.le_refl _⟩

theorem onwardHeader (isCreate : Bool) (b : MessageBuffer) : Onward b (readHeader code isCreate b).2 := by
  have read := fun length b => onwardRead code.lengthHack length b
  unfold readHeader
  dsimp only
  cases isCreate with
  | false => exact (read _ _).trans ((read _ _).trans (read _ _))
  | true => exact (read _ _).trans ((read _ _).trans ((read _ _).trans ((read _ _).trans (read _ _))))

theorem onwardPacket (now : Nat) (isCreate : Bool) (b : MessageBuffer) :
    Onward b (ProcessClonePacket code w now client isCreate b).2 :=
  (onwardHeader isCreate b).trans (onwardData _ _)

theorem recordMoves {msgBuf b : MessageBuffer} {w' : CloneWorld N} (record : cloneRecord code w client msgBuf = some (w',b)) :
    b.maxBit = msgBuf.maxBit ∧ msgBuf.curBit + 3 ≤ b.curBit := by
  have type := readMoved code.lengthHack msgBuf 3
  have three : hackLength code.lengthHack 3 = 3 := Rl.hackLengthOther (by decide)
  have read := fun length b => onwardRead code.lengthHack length b
  have landed {x : CloneWorld N × MessageBuffer} (moved : Onward (msgBuf.read code.lengthHack 3).2 x.2) (same : some x = some (w',b)) :
      Onward (msgBuf.read code.lengthHack 3).2 b := by
    cases same
    exact moved
  have onward : Onward (msgBuf.read code.lengthHack 3).2 b := by
    unfold cloneRecord at record
    dsimp only at record
    split at record
    · exact landed (onwardPacket _ _ _) record
    · exact landed (onwardPacket _ _ _) record
    · exact landed ((read _ _).trans (read _ _)) record
    · exact landed ((read _ _).trans (read _ _)) record
    · exact landed (read _ _) record
    · exact landed (read _ _) record
    · cases record
  rw [type,three] at onward
  exact onward

theorem parseEnds {fuel : Nat} {msgBuf : MessageBuffer} (enough : msgBuf.maxBit ≤ msgBuf.curBit + fuel) :
    (ParseClonePacket code client (fuel + 1) w msgBuf).isSome := by
  induction fuel generalizing w msgBuf with
  | zero =>
    unfold ParseClonePacket
    rw [if_pos (show msgBuf.isAtEnd = true from decide_eq_true (by omega))]
    rfl
  | succ fuel ih =>
    unfold ParseClonePacket
    split
    · rfl
    · split
      · rfl
      · rename_i w' b record
        obtain ⟨same,moved⟩ := recordMoves record
        exact ih (by push_cast at enough; omega)

end

theorem truncatedPackets (code : CloneCode N) (bigMode lengthHack : Bool) (ops : List Op) (tree : EntityRef → SyncNode N)
    (now : Nat) (client : ClientId) :
    let w : CloneWorld N := ⟨run Server.step (.init bigMode lengthHack) ops,tree⟩
    (∀ isCreate inPacket, Truncated code isCreate inPacket →
      (Kept w (ProcessClonePacket code w now client isCreate inPacket).1 ↔
        if isCreate then ¬Admitted code w client (readHeader code isCreate inPacket).1
        else IdleSync code w now client (readHeader code isCreate inPacket).1)) ∧
      ∀ data, (ParseClonePacket code client (8 * data.length + 1) w (.ofData data)).isSome := by
  intro w
  have coherent : Coherent w.server.skeleton :=
    runKeeps (fun s : Server => Coherent s.skeleton) (fun _ op coherent _ => coherent.step op) (.init bigMode lengthHack)
      alongAlways
  exact ⟨fun _ _ truncated => truncatedKept coherent truncated,fun data => parseEnds (by
    have := Rl.maxBitInside data
    simp only [MessageBuffer.ofData] at this ⊢
    omega)⟩

end

def plainCode : CloneCode Unit where
  lengthHack := false
  isRDR := false
  inner := fun _ => none
  objectType := fun _ => some .Object
  makeSyncTree := fun _ => .parent ⟨127,0,0,true⟩ []
  view := fun _ => .empty
  knownToken := fun _ => true
  valid := fun _ => true
  accepted := fun _ => true
  protect := false
  msec := fun _ => 0

def cutCreate : MessageBuffer := .ofData [0,1,0,0x28,0,0,0,2,0x80,0x08]

def dataNode (data : List Byte) : SyncNode Unit := .wrapper ⟨127,127,0,true⟩ ⟨8,(),data,0,5⟩

theorem cutCreateTruncated : Truncated plainCode true cutCreate := by
  unfold Truncated
  decide

def withObject : CloneWorld Unit :=
  ⟨run Server.step (.init false false) [.connect,.connect,
    .fromClient 1 0 false (.cloneCreate ⟨5,1,some .Object,0,0,.empty,true,true,true⟩)],fun _ => dataNode [0xA5]⟩

-- three bytes are announced, one is there
def cutSync : MessageBuffer := .ofData [0,1,0,0x28,1,0x80,0xFF]

/-- The owner's truncated sync parses zero bytes to the tree there was, and another client's truncated create names an id that is taken. -/
theorem cutPacketsKept : Kept withObject (ProcessClonePacket plainCode withObject 0 1 false cutSync).1 ∧
      Kept withObject (ProcessClonePacket plainCode withObject 0 2 true cutCreate).1 := by
  have cut : Truncated plainCode false cutSync := by
    unfold Truncated
    decide
  constructor
  · refine ((truncatedPackets plainCode false false _ withObject.tree 0 1).1 false cutSync cut).mpr ?_
    intro e slot _ found touch
    obtain rfl : 0 = e := Option.some.inj (found.symm.trans rfl).symm
    obtain rfl : 128 = slot := Option.some.inj (touch.symm.trans rfl).symm
    exact ⟨by decide +kernel,fun _ => flaggedIdle (fun _ => by decide)⟩
  · refine ((truncatedPackets plainCode false false _ withObject.tree 0 2).1 true cutCreate cutCreateTruncated).mpr ?_
    exact fun admitted => nomatch admitted.2.1

theorem cutCreateAdmitted : ¬Kept ⟨run Server.step (.init false false) [.connect],fun _ => .parent ⟨127,0,0,true⟩ []⟩
      (ProcessClonePacket plainCode ⟨run Server.step (.init false false) [.connect],fun _ => .parent ⟨127,0,0,true⟩ []⟩ 0 1 true cutCreate).1 := by
  intro kept
  have coherent : Coherent (run Server.step (.init false false) [.connect]).skeleton := (Coherent.init false false).step .connect
  have refused := (truncatedKept (w := ⟨run Server.step (.init false false) [.connect],fun _ => .parent ⟨127,0,0,true⟩ []⟩)
    coherent cutCreateTruncated).mp kept
  exact refused ⟨by decide,rfl,rfl,rfl,rfl⟩

end Citizen.State
