import Mathlib.Data.List.Induction
import Mathlib.Data.List.Nodup
import Mathlib.Data.List.Perm.Basic

/-! Streams with forward references: a place is marked for a number of fixed width, and filled once the stream
has got far enough to know it. -/
namespace Citizen.Backfill
variable {κ β : Type}

inductive Op (κ β : Type) where
  | data (bytes : Nat → List β)
  | mark (key : κ)
  | fill (key : κ) (value : Nat → Nat)

structure State (κ β : Type) where
  contents : List β
  pos : Nat
  marks : κ → Option Nat

def State.start : State κ β := ⟨[],0,fun _ => none⟩

def overwrite (contents : List β) (pos : Nat) (bytes : List β) : List β :=
  contents.take pos ++ (bytes ++ contents.drop (pos + bytes.length))

def State.write (s : State κ β) (bytes : List β) : State κ β :=
  { s with contents := overwrite s.contents s.pos bytes, pos := s.pos + bytes.length }

section
variable [DecidableEq κ] (code : Nat → List β)

def step (s : State κ β) : Op κ β → State κ β
  | .data bytes => s.write (bytes s.pos)
  | .mark key => ({ s with marks := Function.update s.marks key (some s.pos) } : State κ β).write (code 0)
  | .fill key value =>
    { contents := overwrite s.contents ((s.marks key).getD 0) (code (value s.pos)), pos := s.pos,
      marks := Function.update s.marks key none }

def run (s : State κ β) (ops : List (Op κ β)) : State κ β := ops.foldl (step code) s

end

def stop (width : Nat) : Nat → List (Op κ β) → Nat
  | pos,[] => pos
  | pos,.data bytes :: rest => stop width (pos + (bytes pos).length) rest
  | pos,.mark _ :: rest => stop width (pos + width) rest
  | pos,.fill _ _ :: rest => stop width pos rest

def render (code : Nat → List β) (value : κ → Nat) (width : Nat) : Nat → List (Op κ β) → List β
  | _,[] => []
  | pos,.data bytes :: rest => bytes pos ++ render code value width (pos + (bytes pos).length) rest
  | pos,.mark key :: rest => code (value key) ++ render code value width (pos + width) rest
  | pos,.fill _ _ :: rest => render code value width pos rest

def fills (width : Nat) : Nat → List (Op κ β) → List (κ × Nat)
  | _,[] => []
  | pos,.data bytes :: rest => fills width (pos + (bytes pos).length) rest
  | pos,.mark _ :: rest => fills width (pos + width) rest
  | pos,.fill key value :: rest => (key,value pos) :: fills width pos rest

def marked : List (Op κ β) → List κ
  | [] => []
  | .mark key :: rest => key :: marked rest
  | .data _ :: rest => marked rest
  | .fill _ _ :: rest => marked rest

def filled : List (Op κ β) → List κ
  | [] => []
  | .fill key _ :: rest => key :: filled rest
  | .data _ :: rest => filled rest
  | .mark _ :: rest => filled rest

def Covered : List κ → List (Op κ β) → Prop
  | _,[] => True
  | seen,.data _ :: rest => Covered seen rest
  | seen,.mark key :: rest => Covered (key :: seen) rest
  | seen,.fill key _ :: rest => key ∈ seen ∧ Covered seen rest

structure Orderly (ops : List (Op κ β)) : Prop where
  marked : (marked ops).Nodup
  filled : (filled ops).Nodup
  covered : Covered [] ops

theorem runAppend [DecidableEq κ] (code : Nat → List β) (s : State κ β) (first second : List (Op κ β)) :
    run code s (first ++ second) = run code (run code s first) second := List.foldl_append

section
variable {code : Nat → List β} {value : κ → Nat} {width : Nat} {ops first second : List (Op κ β)}

@[simp] theorem markedAppend : marked (first ++ second) = marked first ++ marked second := by
  induction first with
  | nil => rfl
  | cons op rest ih => cases op <;> simp [marked,ih]

@[simp] theorem filledAppend : filled (first ++ second) = filled first ++ filled second := by
  induction first with
  | nil => rfl
  | cons op rest ih => cases op <;> simp [filled,ih]

@[simp] theorem stopAppend (pos : Nat) : stop width pos (first ++ second) = stop width (stop width pos first) second := by
  induction first generalizing pos with
  | nil => rfl
  | cons op rest ih => cases op <;> simp [stop,ih]

theorem renderAppend (pos : Nat) : render code value width pos (first ++ second) =
    render code value width pos first ++ render code value width (stop width pos first) second := by
  induction first generalizing pos with
  | nil => rfl
  | cons op rest ih => cases op <;> simp [render,stop,ih]

theorem fillsAppend (pos : Nat) :
    fills width pos (first ++ second) = fills width pos first ++ fills width (stop width pos first) second := by
  induction first generalizing pos with
  | nil => rfl
  | cons op rest ih => cases op <;> simp [fills,stop,ih]

theorem fillsKeys (width pos : Nat) : (fills width pos ops).map Prod.fst = filled ops := by
  induction ops generalizing pos with
  | nil => rfl
  | cons op rest ih => cases op <;> simp [fills,filled,ih]

theorem markedFlatMap {α : Type} (f : α → List (Op κ β)) (l : List α) :
    marked (l.flatMap f) = l.flatMap (fun a => marked (f a)) := by
  induction l with
  | nil => rfl
  | cons a rest ih => simp [ih]

theorem filledFlatMap {α : Type} (f : α → List (Op κ β)) (l : List α) :
    filled (l.flatMap f) = l.flatMap (fun a => filled (f a)) := by
  induction l with
  | nil => rfl
  | cons a rest ih => simp [ih]

theorem Covered.mono {seen seen' : List κ} (covered : Covered seen ops) (more : seen ⊆ seen') : Covered seen' ops := by
  induction ops generalizing seen seen' with
  | nil => trivial
  | cons op rest ih =>
    cases op with
    | data bytes => exact ih covered more
    | mark key => exact ih covered (List.cons_subset_cons key more)
    | fill key value => exact ⟨more covered.1,ih covered.2 more⟩

variable {seen : List κ}

theorem coveredAppend :
    Covered seen (first ++ second) ↔ Covered seen first ∧ Covered (marked first ++ seen) second := by
  induction first generalizing seen with
  | nil => simp [Covered,marked]
  | cons op rest ih =>
    cases op with
    | data bytes => exact ih
    | mark key =>
      have same : marked rest ++ key :: seen ⊆ key :: marked rest ++ seen ∧
          key :: marked rest ++ seen ⊆ marked rest ++ key :: seen := by
        constructor <;> intro k mem <;> simp only [List.mem_append,List.mem_cons] at mem ⊢ <;> tauto
      exact ih.trans (and_congr_right fun _ => ⟨fun covered => covered.mono same.1,fun covered => covered.mono same.2⟩)
    | fill key value => exact (and_congr_right fun _ => ih).trans and_assoc.symm

theorem coveredFlatMap {α : Type} {f : α → List (Op κ β)} {l : List α}
    (each : ∀ a ∈ l, Covered seen (f a)) : Covered seen (l.flatMap f) := by
  induction l with
  | nil => trivial
  | cons a rest ih =>
    obtain ⟨first,later⟩ := List.forall_mem_cons.mp each
    exact coveredAppend.mpr ⟨first,(ih later).mono (List.subset_append_right _ _)⟩

theorem coveredUnfilled (none : filled ops = []) : Covered seen ops := by
  induction ops generalizing seen with
  | nil => trivial
  | cons op rest ih =>
    cases op with
    | data bytes => exact ih none
    | mark key => exact ih none
    | fill key value => cases none

theorem coveredKnown (known : filled ops ⊆ seen) : Covered seen ops := by
  induction ops generalizing seen with
  | nil => trivial
  | cons op rest ih =>
    cases op with
    | data bytes => exact ih known
    | mark key => exact ih (List.Subset.trans known (List.subset_cons_self _ _))
    | fill key value => exact ⟨known List.mem_cons_self,ih (List.subset_of_cons_subset known)⟩

theorem Orderly.initial (orderly : Orderly (first ++ second)) : Orderly first := by
  obtain ⟨marks,keys,covered⟩ := orderly
  rw [markedAppend] at marks
  rw [filledAppend] at keys
  exact ⟨marks.of_append_left,keys.of_append_left,(coveredAppend.mp covered).1⟩

theorem memMarked {key : κ} : key ∈ marked ops ↔ ∃ before after, ops = before ++ .mark key :: after := by
  constructor
  · intro mem
    induction ops with
    | nil => cases mem
    | cons op rest ih =>
      cases op with
      | mark key' =>
        rcases List.mem_cons.mp mem with rfl | later
        · exact ⟨[],rest,rfl⟩
        · obtain ⟨before,after,rfl⟩ := ih later
          exact ⟨.mark key' :: before,after,rfl⟩
      | data bytes =>
        obtain ⟨before,after,rfl⟩ := ih mem
        exact ⟨.data bytes :: before,after,rfl⟩
      | fill key' value =>
        obtain ⟨before,after,rfl⟩ := ih mem
        exact ⟨.fill key' value :: before,after,rfl⟩
  · rintro ⟨before,after,rfl⟩
    simp [marked]

theorem renderCongr {value' : κ → Nat} (same : ∀ key ∈ marked ops, value key = value' key) (pos : Nat) :
    render code value width pos ops = render code value' width pos ops := by
  induction ops generalizing pos with
  | nil => rfl
  | cons op rest ih =>
    cases op with
    | data bytes => simp only [render,ih same]
    | fill key n => exact ih same pos
    | mark key =>
      obtain ⟨here,later⟩ := List.forall_mem_cons.mp same
      simp only [render,here,ih later]

theorem filledMarked (covered : Covered seen ops) {key : κ} (mem : key ∈ filled ops) : key ∈ marked ops ++ seen := by
  induction ops generalizing seen with
  | nil => cases mem
  | cons op rest ih =>
    cases op with
    | data bytes => exact ih covered mem
    | mark key' => simpa [marked,or_left_comm] using ih covered mem
    | fill key' value =>
      rcases List.mem_cons.mp mem with rfl | later
      · exact List.mem_append_right _ covered.1
      · exact ih covered.2 later

theorem leStop (pos : Nat) : pos ≤ stop width pos ops := by
  induction ops generalizing pos with
  | nil => exact Nat.le_refl pos
  | cons op rest ih =>
    cases op with
    | data bytes => exact Nat.le_trans (Nat.le_add_right _ _) (ih _)
    | mark key => exact Nat.le_trans (Nat.le_add_right _ _) (ih _)
    | fill key n => exact ih pos

variable (fixed : ∀ n, (code n).length = width)
include fixed

theorem renderLength (pos : Nat) : pos + (render code value width pos ops).length = stop width pos ops := by
  induction ops generalizing pos with
  | nil => rfl
  | cons op rest ih =>
    cases op with
    | data bytes => rw [render,stop,← ih,List.length_append,Nat.add_assoc]
    | mark key => rw [render,stop,← ih,List.length_append,fixed,Nat.add_assoc]
    | fill key n => exact ih pos

end

def valueOf [DecidableEq κ] (width : Nat) (ops : List (Op κ β)) (key : κ) : Nat :=
  ((fills width 0 ops).lookup key).getD 0

section
variable [DecidableEq κ] {width : Nat} {ops before after : List (Op κ β)} {key : κ}

theorem valueUnfilled (absent : key ∉ filled ops) : valueOf width ops key = 0 := by
  have none : (fills width 0 ops).lookup key = none := by
    rw [List.lookup_eq_none_iff]
    intro entry mem
    rw [← fillsKeys width 0] at absent
    simpa using fun same : key = entry.1 => absent (same ▸ List.mem_map_of_mem mem)
  rw [valueOf,none,Option.getD_none]

theorem lookupUnique {l : List (κ × Nat)} {n : Nat} (unique : (l.map Prod.fst).Nodup) (mem : (key,n) ∈ l) :
    l.lookup key = some n := by
  induction l with
  | nil => cases mem
  | cons entry rest ih =>
    obtain ⟨fresh,unique⟩ := List.nodup_cons.mp unique
    rcases List.mem_cons.mp mem with rfl | later
    · exact List.lookup_cons_self
    · have other : (key == entry.1) = false :=
        beq_false_of_ne fun same => fresh (same ▸ List.mem_map_of_mem (f := Prod.fst) later)
      rw [List.lookup_cons,other]
      exact ih unique later

theorem valueFilled {value : Nat → Nat} (unique : (filled ops).Nodup) (split : ops = before ++ .fill key value :: after) :
    valueOf width ops key = value (stop width 0 before) := by
  have mem : (key,value (stop width 0 before)) ∈ fills width 0 ops := by
    rw [split,fillsAppend]
    exact List.mem_append_right _ List.mem_cons_self
  rw [← fillsKeys width 0] at unique
  rw [valueOf,lookupUnique unique mem,Option.getD_some]

theorem valueEarlier {op : Op κ β} (fresh : ∀ value, op ≠ .fill key value) :
    valueOf width (ops ++ [op]) key = valueOf width ops key := by
  have nothing : (fills width (stop width 0 ops) [op]).lookup key = none := by
    cases op with
    | data bytes => rfl
    | mark key' => rfl
    | fill key' value =>
      have other : (key == key') = false := beq_false_of_ne fun same => fresh value (by rw [same])
      simp [fills,List.lookup_cons,other]
  rw [valueOf,valueOf,fillsAppend,List.lookup_append,nothing,Option.or_none]

end
section
variable [DecidableEq κ] {code : Nat → List β} {width : Nat} (fixed : ∀ n, (code n).length = width)

theorem overwriteEnd (contents bytes : List β) : overwrite contents contents.length bytes = contents ++ bytes := by
  rw [overwrite,List.take_length,List.drop_eq_nil_of_le (Nat.le_add_right _ _),List.append_nil]

theorem overwriteInside (front old back bytes : List β) (same : bytes.length = old.length) :
    overwrite (front ++ (old ++ back)) front.length bytes = front ++ (bytes ++ back) := by
  rw [overwrite,List.take_left,same,← List.append_assoc front old,← List.length_append,List.drop_left]

structure Drafted (code : Nat → List β) (width : Nat) (s : State κ β) (ops : List (Op κ β)) : Prop where
  contents : s.contents = render code (valueOf width ops) width 0 ops
  pos : s.pos = stop width 0 ops
  marks : ∀ before key after, ops = before ++ .mark key :: after → key ∉ filled ops →
    s.marks key = some (stop width 0 before)
  clear : ∀ key, key ∈ filled ops → s.marks key = none

include fixed

section
variable {s : State κ β} {ops : List (Op κ β)}

theorem Drafted.length (drafted : Drafted code width s ops) : s.pos = s.contents.length := by
  rw [drafted.pos,drafted.contents,← renderLength fixed 0,Nat.zero_add]

theorem Drafted.rest {ops before after : List (Op κ β)} (drafted : Drafted code width s ops)
    (split : ops = before ++ after) :
    s.contents.drop (stop width 0 before) = render code (valueOf width ops) width (stop width 0 before) after := by
  have place : stop width 0 before = (render code (valueOf width ops) width 0 before).length := by
    rw [← renderLength fixed 0,Nat.zero_add]
  have whole : s.contents = render code (valueOf width ops) width 0 before ++
      render code (valueOf width ops) width (stop width 0 before) after := by
    conv => lhs; rw [drafted.contents]; arg 5; rw [split]
    exact renderAppend 0
  rw [whole,place,List.drop_left]

theorem Drafted.data (drafted : Drafted code width s ops) (bytes : Nat → List β) :
    Drafted code width (step code s (.data bytes)) (ops ++ [.data bytes]) where
  contents := by
    have same : valueOf width (ops ++ [.data bytes]) = valueOf width ops :=
      funext fun key => valueEarlier (fun _ other => by cases other)
    rw [same,renderAppend,← drafted.contents,← drafted.pos]
    simp [step,State.write,drafted.length fixed,overwriteEnd,render]
  pos := by simp [step,State.write,drafted.pos,stop]
  marks before key after split unfilled := by
    rcases List.eq_nil_or_concat after with rfl | ⟨after',last,rfl⟩
    · simpa using (List.append_inj' split rfl).2
    · have split' : ops ++ [.data bytes] = (before ++ .mark key :: after') ++ [last] := by simpa using split
      exact drafted.marks before key after' (List.append_inj' split' rfl).1 (by simpa [filled] using unfilled)
  clear key mem := drafted.clear key (by simpa [filled] using mem)

theorem Drafted.mark {key : κ} (drafted : Drafted code width s ops)
    (orderly : Orderly (ops ++ [.mark key])) : Drafted code width (step code s (.mark key)) (ops ++ [.mark key]) := by
  have fresh : key ∉ marked ops := by
    have unique := orderly.marked
    rw [markedAppend] at unique
    exact fun mem => List.disjoint_of_nodup_append unique mem List.mem_cons_self
  have unfilled : key ∉ filled ops := by
    intro mem
    exact fresh (by simpa using filledMarked orderly.initial.covered mem)
  have same : valueOf width (ops ++ [.mark key]) = valueOf width ops :=
    funext fun key => valueEarlier (fun _ other => by cases other)
  refine ⟨?_,?_,?_,?_⟩
  · rw [same,renderAppend,← drafted.contents]
    simp [step,State.write,drafted.length fixed,overwriteEnd,render,valueUnfilled unfilled]
  · simp [step,State.write,drafted.pos,stop,fixed]
  · intro before key' after split kept
    rcases List.eq_nil_or_concat after with rfl | ⟨after',last,rfl⟩
    · obtain ⟨rfl,here⟩ := List.append_inj' split rfl
      cases here
      simp [step,State.write,drafted.pos]
    · have split' : ops ++ [.mark key] = (before ++ .mark key' :: after') ++ [last] := by simpa using split
      have inside := (List.append_inj' split' rfl).1
      have other : key' ≠ key := by
        rintro rfl
        exact fresh (memMarked.mpr ⟨before,after',inside⟩)
      simpa [step,State.write,Function.update_of_ne other] using
        drafted.marks before key' after' inside (by simpa [filled] using kept)
  · intro key' mem
    have mem : key' ∈ filled ops := by simpa [filled] using mem
    have other : key' ≠ key := fun same => unfilled (same ▸ mem)
    simpa [step,State.write,Function.update_of_ne other] using drafted.clear key' mem

theorem Drafted.fill {key : κ} {value : Nat → Nat}
    (drafted : Drafted code width s ops) (orderly : Orderly (ops ++ [.fill key value])) :
    Drafted code width (step code s (.fill key value)) (ops ++ [.fill key value]) := by
  have unfilled : key ∉ filled ops := by
    have unique := orderly.filled
    rw [filledAppend] at unique
    exact fun mem => List.disjoint_of_nodup_append unique mem List.mem_cons_self
  have known : key ∈ marked ops := by simpa using (coveredAppend.mp orderly.covered).2.1
  obtain ⟨before,after,split⟩ := memMarked.mp known
  have place := drafted.marks before key after split unfilled
  have others (key' : κ) (other : key' ≠ key) : valueOf width (ops ++ [.fill key value]) key' = valueOf width ops key' :=
    valueEarlier (fun _ here => by cases here; exact other rfl)
  have own : valueOf width (ops ++ [.fill key value]) key = value (stop width 0 ops) :=
    valueFilled orderly.filled rfl
  refine ⟨?_,?_,?_,?_⟩
  · have alone := orderly.marked
    rw [markedAppend,split,markedAppend] at alone
    have alone := alone.of_append_left
    have front : ∀ key' ∈ marked before, key' ≠ key := fun key' mem same =>
      List.disjoint_of_nodup_append alone mem (same ▸ List.mem_cons_self)
    have back : ∀ key' ∈ marked after, key' ≠ key := fun key' mem same =>
      (List.nodup_cons.mp alone.of_append_right).1 (same ▸ mem)
    have old : s.contents = render code (valueOf width ops) width 0 before ++ (code 0 ++
        render code (valueOf width ops) width (stop width 0 before + width) after) := by
      conv => lhs; rw [drafted.contents]; arg 5; rw [split]
      rw [renderAppend,render,valueUnfilled unfilled]
    have new : render code (valueOf width (ops ++ [.fill key value])) width 0 ops =
        render code (valueOf width ops) width 0 before ++ (code (value s.pos) ++
          render code (valueOf width ops) width (stop width 0 before + width) after) := by
      conv => lhs; arg 5; rw [split]
      rw [renderAppend,render,own,drafted.pos,renderCongr (fun key' mem => others key' (front key' mem)),
        renderCongr (fun key' mem => others key' (back key' mem))]
    rw [renderAppend,new,render,render,List.append_nil]
    have here : stop width 0 before = (render code (valueOf width ops) width 0 before).length := by
      rw [← renderLength fixed 0,Nat.zero_add]
    simp only [step,place,Option.getD_some]
    rw [old,here]
    exact overwriteInside _ _ _ _ ((fixed _).trans (fixed _).symm)
  · simp [step,drafted.pos,stop]
  · intro before' key' after' split' kept
    rcases List.eq_nil_or_concat after' with rfl | ⟨after'',last,rfl⟩
    · simpa using (List.append_inj' split' rfl).2
    · have split'' : ops ++ [.fill key value] = (before' ++ .mark key' :: after'') ++ [last] := by simpa using split'
      have kept : key' ∉ filled ops ∧ key' ≠ key := by simpa [filled] using kept
      simpa [step,Function.update_of_ne kept.2] using
        drafted.marks before' key' after'' (List.append_inj' split'' rfl).1 kept.1
  · intro key' mem
    by_cases here : key' = key
    · simp [step,here]
    · have mem : key' ∈ filled ops := by simpa [filled,here] using mem
      simpa [step,Function.update_of_ne here] using drafted.clear key' mem

end

theorem runDrafted {ops : List (Op κ β)} (orderly : Orderly ops) : Drafted code width (run code .start ops) ops := by
  induction ops using List.reverseRecOn with
  | nil => exact ⟨rfl,rfl,fun before _ _ split => by simp at split,fun _ mem => absurd mem List.not_mem_nil⟩
  | append_singleton ops op ih =>
    have drafted := ih orderly.initial
    rw [runAppend]
    cases op with
    | data bytes => exact drafted.data fixed bytes
    | mark key => exact drafted.mark fixed orderly
    | fill key value => exact drafted.fill fixed orderly

end
end Citizen.Backfill
