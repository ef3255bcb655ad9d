import Citizen.Lib.Visit

/-! Following a link from one thing to the next with a set of what was met, for links that
may go anywhere: everything that the links lead to is met, and each thing once. -/
namespace Citizen.Chase

section Calls
variable {α σ : Type} (fn : σ → α → Bool × σ)

def callOn (a : α) (rest : σ → List (α × Bool) × σ) (st : σ) : List (α × Bool) × σ :=
  let answer := fn st a
  if answer.1 then ((a,true) :: (rest answer.2).1,(rest answer.2).2) else ([(a,false)],answer.2)

def callEach : List α → σ → List (α × Bool) × σ
  | [],st => ([],st)
  | a :: rest,st => callOn fn a (callEach rest) st

variable {fn}

theorem callEachPrefix (as : List α) (st : σ) : (callEach fn as st).1.map Prod.fst <+: as := by
  induction as generalizing st with
  | nil => exact List.prefix_refl _
  | cons a rest ih =>
    unfold callEach callOn
    dsimp only
    split
    · exact List.prefix_cons_inj a |>.mpr (ih _)
    · exact ⟨rest,rfl⟩

theorem callEachGoesOn (as : List α) (st : σ) : ∀ call ∈ (callEach fn as st).1.dropLast,call.2 = true := by
  induction as generalizing st with
  | nil => simp [callEach]
  | cons a rest ih =>
    unfold callEach callOn
    dsimp only
    split
    · intro call mem
      cases later : (callEach fn rest (fn st a).2).1 with
      | nil => simp [later] at mem
      | cons first more =>
        rw [later,List.dropLast_cons_of_ne_nil (List.cons_ne_nil _ _)] at mem
        rcases List.mem_cons.mp mem with rfl | mem
        · rfl
        · exact ih _ call (later ▸ mem)
    · simp

theorem callEachAll {as : List α} {st : σ} (goesOn : ∀ call ∈ (callEach fn as st).1,call.2 = true) :
    (callEach fn as st).1.map Prod.fst = as := by
  induction as generalizing st with
  | nil => rfl
  | cons a rest ih =>
    unfold callEach callOn at goesOn ⊢
    dsimp only at goesOn ⊢
    split at goesOn
    · rename_i more
      rw [if_pos more]
      exact congrArg (a :: ·) (ih (fun call mem => goesOn call (List.mem_cons_of_mem _ mem)))
    · exact absurd (goesOn (a,false) (List.mem_singleton_self _)) Bool.false_ne_true

theorem callEachAlways {step : σ → α → σ} (as : List α) (st : σ) :
    callEach (fun st a => (true,step st a)) as st = (as.map (·,true),as.foldl step st) := by
  induction as generalizing st with
  | nil => rfl
  | cons a rest ih =>
    change ((a,true) :: (callEach _ rest (step st a)).1,(callEach _ rest (step st a)).2) = _
    rw [ih]
    rfl

end Calls

variable {α κ : Type} [DecidableEq κ] (next : α → Option α) (key : α → κ) (patience : Nat)

/-- Follows the links from `start`. What was met before is passed over, which ends the chase
when it happens more than `patience` times. -/
def chase : Nat → List κ → Nat → Option α → List α
  | 0,_,_,_ => []
  | _,_,_,none => []
  | fuel + 1,met,again,some a =>
    if key a ∈ met then
      if again + 1 > patience then [] else chase fuel met (again + 1) (next a)
    else a :: chase fuel (key a :: met) again (next a)

def Leads (a b : α) : Prop := next a = some b

variable {next key patience}

section
variable {fuel : Nat} {met : List κ} {again : Nat} {start : Option α}

theorem chaseFresh : (∀ a ∈ chase next key patience fuel met again start,key a ∉ met) ∧
      ((chase next key patience fuel met again start).map key).Nodup := by
  induction fuel generalizing met again start with
  | zero => simp [chase]
  | succ fuel ih =>
    cases start with
    | none => simp [chase]
    | some a =>
      unfold chase
      split
      · split
        · simp
        · exact ih
      · rename_i new
        obtain ⟨fresh,once⟩ := @ih (key a :: met) again (next a)
        constructor
        · intro b mem
          rcases List.mem_cons.mp mem with rfl | mem
          · exact new
          · exact fun old => fresh b mem (List.mem_cons_of_mem _ old)
        · rw [List.map_cons,List.nodup_cons]
          refine ⟨?_,once⟩
          intro mem
          obtain ⟨b,mem,same⟩ := List.mem_map.mp mem
          exact fresh b mem (same ▸ List.mem_cons_self)

theorem chaseLed {b : α} (mem : b ∈ chase next key patience fuel met again start) :
    ∃ a,start = some a ∧ Relation.ReflTransGen (Leads next) a b := by
  induction fuel generalizing met again start with
  | zero => simp [chase] at mem
  | succ fuel ih =>
    cases start with
    | none => simp [chase] at mem
    | some a =>
      have later {met again} (mem : b ∈ chase next key patience fuel met again (next a)) :
          ∃ a',some a = some a' ∧ Relation.ReflTransGen (Leads next) a' b := by
        obtain ⟨c,led,path⟩ := ih mem
        exact ⟨a,rfl,.head led path⟩
      unfold chase at mem
      split at mem
      · split at mem
        · cases mem
        · exact later mem
      · rcases List.mem_cons.mp mem with rfl | mem
        · exact ⟨b,rfl,.refl⟩
        · exact later mem

end

structure Named (next : α → Option α) (key : α → κ) (thing : α → Prop) : Prop where
  led : ∀ {a b},next a = some b → thing b
  same : ∀ {a b},thing a → thing b → key a = key b → a = b

def Trailed (next : α → Option α) (key : α → κ) (thing : α → Prop) (met : List κ) (here : Option α) : Prop :=
  ∀ a,thing a → key a ∈ met → ∀ b,next a = some b → key b ∈ met ∨ here = some b

def Closed (next : α → Option α) (key : α → κ) (thing : α → Prop) (met : List κ) : Prop :=
  ∀ a,thing a → key a ∈ met → ∀ b,next a = some b → key b ∈ met

variable {thing : α → Prop} {met : List κ}

omit [DecidableEq κ] in
theorem Trailed.closed {a : α} (trailed : Trailed next key thing met (some a)) (old : key a ∈ met) :
    Closed next key thing met := by
  intro a' isThing mem b led
  rcases trailed a' isThing mem b led with mem | here
  · exact mem
  · exact Option.some.inj here ▸ old

omit [DecidableEq κ] in
theorem Trailed.again {a : α} (trailed : Trailed next key thing met (some a)) (old : key a ∈ met) :
    Trailed next key thing met (next a) :=
  fun a' isThing mem b led => .inl (trailed.closed old a' isThing mem b led)

omit [DecidableEq κ] in
theorem Trailed.further {a : α} (trailed : Trailed next key thing met (some a)) (named : Named next key thing)
    (isThing : thing a) : Trailed next key thing (key a :: met) (next a) := by
  intro a' isThing' mem b led
  rcases List.mem_cons.mp mem with same | mem
  · rw [named.same isThing' isThing same] at led
    exact .inr led
  · rcases trailed a' isThing' mem b led with mem | here
    · exact .inl (List.mem_cons_of_mem _ mem)
    · exact .inl (Option.some.inj here ▸ List.mem_cons_self)

theorem chaseCovers {pool : List κ} {fuel again : Nat} {start : Option α} (named : Named next key thing)
    (known : ∀ a,thing a → key a ∈ pool) (trailed : Trailed next key thing met start)
    (starts : ∀ a,start = some a → thing a) (patient : again ≤ patience)
    (enough : Visit.unseen pool met + (patience - again) < fuel) :
    Closed next key thing (met ++ (chase next key patience fuel met again start).map key) ∧
      ∀ a,start = some a → key a ∈ met ++ (chase next key patience fuel met again start).map key := by
  induction fuel generalizing met again start with
  | zero => exact absurd enough (Nat.not_lt_zero _)
  | succ fuel ih =>
    cases start with
    | none =>
      have closed : Closed next key thing met := fun a isThing mem b led =>
        (trailed a isThing mem b led).resolve_right nofun
      simpa [chase] using closed
    | some a =>
      unfold chase
      split
      · rename_i old
        split
        · simpa [old] using trailed.closed old
        · have covered := (@ih met (again + 1) _ (trailed.again old) (fun b led => named.led led) (by omega) (by omega)).1
          refine ⟨covered,fun b here => ?_⟩
          cases here
          exact List.mem_append_left _ old
      · rename_i new
        have isThing := starts a rfl
        have fewer := Visit.unseenLess (known a isThing) new
        have covered := (ih (trailed.further named isThing) (fun b led => named.led led) patient (by omega)).1
        have moved (k : κ) : k ∈ met ++ (key a :: (chase next key patience fuel (key a :: met) again (next a)).map key) ↔
            k ∈ (key a :: met) ++ (chase next key patience fuel (key a :: met) again (next a)).map key :=
          List.perm_middle.mem_iff
        rw [List.map_cons]
        refine ⟨fun a' isThing' mem b led => ?_,fun b here => ?_⟩
        · exact (moved _).mpr (covered a' isThing' ((moved _).mp mem) b led)
        · cases here
          exact (moved _).mpr List.mem_cons_self

end Citizen.Chase
