import Citizen.State.Coherence

/-! Who holds which object id. An id that a client holds is either reserved as sent or
belongs to a live entity of that client, so what `GetFreeObjectIds` hands out is held by
nobody. Only a create record for another client's id breaks this. -/
namespace Citizen.State
open Server

structure IdsSafe (v : Ids) : Prop where
  disjoint : ∀ c ∈ v.skeleton.members, ∀ c' ∈ v.skeleton.members, c ≠ c' →
    ∀ id ∈ v.held c, id ∉ v.held c'
  backed : ∀ c ∈ v.skeleton.members, ∀ id ∈ v.held c,
    id ∈ v.sent ∨ (id ∈ v.skeleton.used ∧ id ∈ v.stolen)
  owned : ∀ c ∈ v.skeleton.members, ∀ e ∈ v.skeleton.entityList,
    v.skeleton.handle e ∈ v.held c → (v.owners e).1 = some c
  owners : ∀ e ∈ v.skeleton.entityList, ∀ c,
    (v.owners e).1 = some c ∨ (v.owners e).2 = some c → c ∈ v.skeleton.members

def Ids.grant (v : Ids) (client : ClientId) (id : Nat) : Ids :=
  { v with
    sent := insert id v.sent
    held := Function.update v.held client (insert id (v.held client)) }

def Ids.heldAfter (v : Ids) (oldClient targetClient : Option ClientId) (id : Nat) (c : ClientId) : Finset Nat :=
  let left := if oldClient = some c then (v.held c).erase id else v.held c
  if targetClient = some c then insert id left else left

def Ids.reassign (v : Ids) (e : EntityRef) (targetClient : Option ClientId) (id : Nat) : Ids :=
  { v with
    stolen := insert id v.stolen
    owners := Function.update v.owners e (targetClient,(v.owners e).2)
    held := v.heldAfter (v.owners e).1 targetClient id }

def Ids.enlist (v : Ids) (e : EntityRef) (id : Nat) : Ids :=
  { v with skeleton := { v.skeleton with
    entitiesById := Function.update v.skeleton.entitiesById id (some e)
    entityList := v.skeleton.entityList ++ [e]
    used := insert id v.skeleton.used } }

def Ids.release (v : Ids) (skeleton : Skeleton) (owner : Option ClientId) (id : Nat) : Ids :=
  if id ∈ v.stolen then
    { v with
      skeleton := skeleton
      sent := v.sent.erase id
      stolen := v.stolen.erase id
      held := fun c => if owner = some c then (v.held c).erase id else v.held c }
  else { v with skeleton := skeleton }

namespace IdsSafe

variable {v v' : Ids}

theorem same (safe : IdsSafe v) (eq : v' = v) : IdsSafe v' := eq.symm ▸ safe

theorem heldByNobody {v : Ids} (safe : IdsSafe v) {id : Nat} (unsent : id ∉ v.sent)
    (unused : id ∉ v.skeleton.used) : ∀ c ∈ v.skeleton.members, id ∉ v.held c := by
  intro c mem held
  rcases safe.backed c mem id held with sent | ⟨used,_⟩
  · exact unsent sent
  · exact unused used

theorem grant {v : Ids} (safe : IdsSafe v) (coherent : Coherent v.skeleton) {client : ClientId}
    {id : Nat} (unsent : id ∉ v.sent) (unused : id ∉ v.skeleton.used) : IdsSafe (v.grant client id) := by
  have nobody := safe.heldByNobody unsent unused
  have held : ∀ c id', id' ∈ Function.update v.held client (insert id (v.held client)) c ↔
      id' ∈ v.held c ∨ (c = client ∧ id' = id) := by
    intro c id'
    by_cases here : c = client
    · subst here
      rw [Function.update_self,Finset.mem_insert]
      simp [or_comm]
    · rw [Function.update_of_ne here]
      simp [here]
  refine ⟨?_,?_,?_,safe.owners⟩
  · intro c mem c' mem' different id' has has'
    rcases (held c id').mp has with old | ⟨rfl,rfl⟩ <;>
      rcases (held c' id').mp has' with old' | ⟨same,new⟩
    · exact safe.disjoint c mem c' mem' different id' old old'
    · exact nobody c mem (new ▸ old)
    · exact nobody c' mem' old'
    · exact different same.symm
  · intro c mem id' has
    rcases (held c id').mp has with old | ⟨_,rfl⟩
    · exact (safe.backed c mem id' old).imp_left (Finset.mem_insert_of_mem)
    · exact .inl (Finset.mem_insert_self ..)
  · intro c mem e listed has
    rcases (held c _).mp has with old | ⟨_,new⟩
    · exact safe.owned c mem e listed old
    · exact absurd (new ▸ coherent.used e listed) unused

theorem memHeldAfter {v : Ids} {old target : Option ClientId} {id : Nat} {c : ClientId} {id' : Nat} :
    id' ∈ v.heldAfter old target id c ↔
      (target = some c ∧ id' = id) ∨ (id' ∈ v.held c ∧ (old = some c → id' ≠ id)) := by
  unfold Ids.heldAfter
  by_cases gains : target = some c <;> by_cases loses : old = some c <;> simp [gains,loses]
  · tauto
  · tauto

theorem reassign {v : Ids} (safe : IdsSafe v) {e : EntityRef} {id : Nat}
    {target : Option ClientId} (listed : e ∈ v.skeleton.entityList) (named : v.skeleton.handle e = id)
    (coherent : Coherent v.skeleton) (member : ∀ c, target = some c → c ∈ v.skeleton.members) :
    IdsSafe (v.reassign e target id) := by
  have only : ∀ c ∈ v.skeleton.members, id ∈ v.held c → (v.owners e).1 = some c := by
    intro c mem has
    exact safe.owned c mem e listed (named.symm ▸ has)
  have used : id ∈ v.skeleton.used := named ▸ coherent.used e listed
  refine ⟨?_,?_,?_,?_⟩
  · intro c mem c' mem' different id' has has'
    rcases memHeldAfter.mp has with ⟨gets,rfl⟩ | ⟨old,kept⟩ <;>
      rcases memHeldAfter.mp has' with ⟨gets',new⟩ | ⟨old',kept'⟩
    · exact different (Option.some.inj (gets.symm.trans gets'))
    · exact kept' (only c' mem' old') rfl
    · subst new
      exact kept (only c mem old) rfl
    · exact safe.disjoint c mem c' mem' different id' old old'
  · intro c mem id' has
    rcases memHeldAfter.mp has with ⟨_,rfl⟩ | ⟨old,_⟩
    · exact .inr ⟨used,Finset.mem_insert_self ..⟩
    · exact (safe.backed c mem id' old).imp_right
        (fun both => ⟨both.1,Finset.mem_insert_of_mem both.2⟩)
  · intro c mem e' listed' has
    change ((Function.update v.owners e (target,(v.owners e).2)) e').1 = some c
    by_cases here : e' = e
    · subst here
      rw [Function.update_self]
      rcases memHeldAfter.mp has with ⟨gets,_⟩ | ⟨old,kept⟩
      · exact gets
      · exact absurd named (kept (safe.owned c mem e' listed' old))
    · rw [Function.update_of_ne here]
      rcases memHeldAfter.mp has with ⟨_,new⟩ | ⟨old,_⟩
      · exact absurd (coherent.sameHandle listed' listed (new.trans named.symm)) here
      · exact safe.owned c mem e' listed' old
  · intro e' listed' c owner
    change ((Function.update v.owners e (target,(v.owners e).2)) e').1 = some c ∨
      ((Function.update v.owners e (target,(v.owners e).2)) e').2 = some c at owner
    by_cases here : e' = e
    · subst here
      rw [Function.update_self] at owner
      exact owner.elim (member c) (fun first => safe.owners e' listed' c (.inr first))
    · rw [Function.update_of_ne here] at owner
      exact safe.owners e' listed' c owner

theorem steal {v : Ids} (safe : IdsSafe v) (id : Nat) :
    IdsSafe { v with stolen := insert id v.stolen } :=
  ⟨safe.disjoint,fun c mem id' has => (safe.backed c mem id' has).imp_right
    (fun both => ⟨both.1,Finset.mem_insert_of_mem both.2⟩),safe.owned,safe.owners⟩

theorem shrink (safe : IdsSafe v)
    (held : ∀ c ∈ v'.skeleton.members, ∀ id ∈ v'.held c, c ∈ v.skeleton.members ∧ id ∈ v.held c)
    (backed : ∀ c ∈ v'.skeleton.members, ∀ id ∈ v'.held c, id ∈ v'.sent ∨ (id ∈ v'.skeleton.used ∧ id ∈ v'.stolen))
    (listed : ∀ e ∈ v'.skeleton.entityList, e ∈ v.skeleton.entityList ∧ v'.skeleton.handle e = v.skeleton.handle e ∧
      ∀ c ∈ v'.skeleton.members, (v.owners e).1 = some c → (v'.owners e).1 = some c)
    (owners : ∀ e ∈ v'.skeleton.entityList, ∀ c,
      (v'.owners e).1 = some c ∨ (v'.owners e).2 = some c → c ∈ v'.skeleton.members) : IdsSafe v' := by
  refine ⟨?_,backed,?_,owners⟩
  · intro c mem c' mem' different id has has'
    obtain ⟨was,had⟩ := held c mem id has
    obtain ⟨was',had'⟩ := held c' mem' id has'
    exact safe.disjoint c was c' was' different id had had'
  · intro c mem e inList has
    obtain ⟨old,named,kept⟩ := listed e inList
    obtain ⟨was,had⟩ := held c mem _ has
    rw [named] at had
    exact kept c mem (safe.owned c was e old had)

theorem transfer (safe : IdsSafe v) (members : ∀ c, c ∈ v'.skeleton.members ↔ c ∈ v.skeleton.members)
    (listed : ∀ e ∈ v'.skeleton.entityList, e ∈ v.skeleton.entityList ∧
      v'.skeleton.handle e = v.skeleton.handle e ∧ v'.owners e = v.owners e)
    (used : v'.skeleton.used = v.skeleton.used) (sent : v'.sent = v.sent)
    (stolen : v'.stolen = v.stolen) (held : v'.held = v.held) : IdsSafe v' := by
  refine safe.shrink ?_ ?_ ?_ ?_
  · intro c mem id has
    rw [held] at has
    exact ⟨(members c).mp mem,has⟩
  · intro c mem id has
    rw [held] at has
    rw [used,sent,stolen]
    exact safe.backed c ((members c).mp mem) id has
  · intro e inList
    obtain ⟨old,named,owner⟩ := listed e inList
    exact ⟨old,named,fun c _ first => owner ▸ first⟩
  · intro e inList c owner
    obtain ⟨old,-,same⟩ := listed e inList
    rw [same] at owner
    exact (members c).mpr (safe.owners e old c owner)

theorem release {v : Ids} (safe : IdsSafe v) {k : Skeleton} {e : EntityRef}
    (listed : e ∈ v.skeleton.entityList) (members : k.members = v.skeleton.members)
    (used : k.used = v.skeleton.used.erase (v.skeleton.handle e))
    (list : ∀ e' ∈ k.entityList, e' ∈ v.skeleton.entityList ∧ k.handle e' = v.skeleton.handle e') :
    IdsSafe (v.release k (v.owners e).1 (v.skeleton.handle e)) := by
  have stay : ∀ {id : Nat}, id ∈ v.skeleton.used → id ≠ v.skeleton.handle e → id ∈ k.used := by
    intro id was other
    rw [used]
    exact Finset.mem_erase.mpr ⟨other,was⟩
  have left : ∀ e' ∈ k.entityList, e' ∈ v.skeleton.entityList ∧ k.handle e' = v.skeleton.handle e' ∧
      ∀ c ∈ k.members, (v.owners e').1 = some c → (v.owners e').1 = some c := by
    intro e' mem
    exact ⟨(list e' mem).1,(list e' mem).2,fun c _ owner => owner⟩
  have owners : ∀ e' ∈ k.entityList, ∀ c, (v.owners e').1 = some c ∨ (v.owners e').2 = some c → c ∈ k.members := by
    intro e' mem c owner
    rw [members]
    exact safe.owners e' (list e' mem).1 c owner
  unfold Ids.release
  split
  · have held : ∀ c ∈ v.skeleton.members, ∀ id,
        id ∈ (if (v.owners e).1 = some c then (v.held c).erase (v.skeleton.handle e) else v.held c) →
        id ∈ v.held c ∧ id ≠ v.skeleton.handle e := by
      intro c mem id has
      split at has
      · obtain ⟨other,had⟩ := Finset.mem_erase.mp has
        exact ⟨had,other⟩
      · rename_i foreign
        refine ⟨has,?_⟩
        rintro rfl
        exact foreign (safe.owned c mem e listed has)
    refine safe.shrink ?_ ?_ left owners
    · intro c mem id has
      rw [members] at mem
      exact ⟨mem,(held c mem id has).1⟩
    · intro c mem id has
      rw [members] at mem
      obtain ⟨had,other⟩ := held c mem id has
      exact (safe.backed c mem id had).imp (fun sent => Finset.mem_erase.mpr ⟨other,sent⟩)
        (fun both => ⟨stay both.1 other,Finset.mem_erase.mpr ⟨other,both.2⟩⟩)
  · rename_i kept
    refine safe.shrink ?_ ?_ left owners
    · intro c mem id has
      rw [members] at mem
      exact ⟨mem,has⟩
    · intro c mem id has
      rw [members] at mem
      refine (safe.backed c mem id has).imp_right (fun both => ⟨stay both.1 ?_,both.2⟩)
      rintro rfl
      exact kept both.2

theorem enlist {e : EntityRef} (safe : IdsSafe v)
    (members : v'.skeleton.members = v.skeleton.members) (held : v'.held = v.held)
    (sent : v.sent ⊆ v'.sent) (used : v.skeleton.used ⊆ v'.skeleton.used)
    (stolen : v.stolen ⊆ v'.stolen) (list : v'.skeleton.entityList = v.skeleton.entityList ++ [e])
    (old : ∀ e' ∈ v.skeleton.entityList, v'.skeleton.handle e' = v.skeleton.handle e' ∧ v'.owners e' = v.owners e')
    (mine : ∀ c ∈ v.skeleton.members, v'.skeleton.handle e ∈ v.held c → (v'.owners e).1 = some c)
    (owners : ∀ c, (v'.owners e).1 = some c ∨ (v'.owners e).2 = some c → c ∈ v.skeleton.members) : IdsSafe v' := by
  refine ⟨?_,?_,?_,?_⟩
  · rw [members,held]
    exact safe.disjoint
  · rw [members,held]
    intro c mem id has
    exact (safe.backed c mem id has).imp (fun was => sent was)
      (fun both => ⟨used both.1,stolen both.2⟩)
  · rw [members,held,list]
    intro c mem e' inList has
    rcases List.mem_append.mp inList with before | last
    · obtain ⟨named,owner⟩ := old e' before
      rw [named] at has
      rw [owner]
      exact safe.owned c mem e' before has
    · cases List.mem_singleton.mp last
      exact mine c mem has
  · rw [members,list]
    intro e' inList c owner
    rcases List.mem_append.mp inList with before | last
    · rw [(old e' before).2] at owner
      exact safe.owners e' before c owner
    · cases List.mem_singleton.mp last
      exact owners c owner

end IdsSafe
end Citizen.State
