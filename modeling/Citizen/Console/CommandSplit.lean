import Citizen.Console.CommandBuffer
import Citizen.Lib.Quoting

/-! Where `ExecuteBuffer` ends a command. -/
namespace Citizen.Console
open BitField (Byte)

/-- Reading on, with each quote flipping `inQuote` and JSON values outside quotes passed over, a
semicolon outside quotes is met. -/
inductive Broken (json : NarrowJson) : Bool → Text → Prop where
  | here (rest : Text) : Broken json false (byte ';' :: rest)
  | flip {inQuote : Bool} {rest : Text} : Broken json (!inQuote) rest → Broken json inQuote (byte quote :: rest)
  | value {b : Byte} {rest : Text} {n : Nat} : jsonValue json [byte '{',byte '['] b rest = some n →
      Broken json false ((b :: rest).drop n) → Broken json false (b :: rest)
  | onward {inQuote : Bool} {b : Byte} {rest : Text} : b ≠ byte quote →
      (inQuote = false → jsonValue json [byte '{',byte '['] b rest = none) → Broken json inQuote rest →
      Broken json inQuote (b :: rest)

section Scanning
variable {json : NarrowJson} {b : Byte} {rest : Text}

theorem jsonOutside (other : b ∉ [byte '{',byte '[']) :
    jsonValue json [byte '{',byte '['] b rest = none := if_neg other

theorem scanValue {n : Nat} (value : jsonValue json [byte '{',byte '['] b rest = some n) :
    scan json false (b :: rest) = n + scan json false ((b :: rest).drop n) := by
  rw [scan]
  split
  · rename_i m found
    cases value.symm.trans found
    rfl
  · rename_i absent
    cases value.symm.trans absent

variable {inQuote : Bool}

theorem scanOnward
    (plain : inQuote = false → jsonValue json [byte '{',byte '['] b rest = none) :
    scan json inQuote (b :: rest) =
      let inQuote := if b = byte quote then !inQuote else inQuote
      if inQuote = false ∧ b = byte ';' then 0
      else if b = carriageReturn ∨ b = newline then 0
      else 1 + scan json inQuote rest := by
  rw [scan]
  split
  · rename_i m found
    cases inQuote with
    | true => cases found
    | false => cases (plain rfl).symm.trans found
  · rfl

theorem scanQuote : scan json inQuote (byte quote :: rest) = 1 + scan json (!inQuote) rest := by
  rw [scanOnward (fun _ => jsonOutside (by decide))]
  simp only [if_true]
  rw [if_neg (fun both => absurd both.2 (by decide)),if_neg (by decide)]

theorem scanOther (other : b ≠ byte quote)
    (inside : inQuote = false → b ≠ byte ';') (onLine : b ≠ carriageReturn ∧ b ≠ newline)
    (plain : inQuote = false → jsonValue json [byte '{',byte '['] b rest = none) :
    scan json inQuote (b :: rest) = 1 + scan json inQuote rest := by
  rw [scanOnward plain]
  simp only [if_neg other]
  rw [if_neg (fun both => inside both.1 both.2),if_neg (not_or.mpr onLine)]

theorem scanBreak : scan json false (byte ';' :: rest) = 0 := by
  rw [scanOnward (fun _ => jsonOutside (by decide))]
  simp only [if_neg (by decide : byte ';' ≠ byte quote)]
  simp

theorem scanEnd : scan json inQuote (newline :: rest) = 0 := by
  rw [scanOnward (fun _ => jsonOutside (by decide))]
  simp only [if_neg (by decide : newline ≠ byte quote)]
  rw [if_neg (fun both => absurd both.2 (by decide))]
  simp

theorem notBrokenEnd : ¬Broken json inQuote [newline] := by
  rintro broken
  generalize line : [newline] = t at broken
  cases broken with
  | here rest => cases line
  | flip next => cases line
  | value found next =>
    cases line
    cases found
  | onward other plain next =>
    cases line
    cases next

theorem brokenQuote : Broken json inQuote (byte quote :: rest) ↔ Broken json (!inQuote) rest := by
  refine ⟨fun broken => ?_,.flip⟩
  generalize line : byte quote :: rest = t at broken
  cases broken with
  | here _ => exact absurd (List.cons.inj line).1 (by decide)
  | flip next =>
    cases line
    exact next
  | value found _ =>
    cases line
    cases (jsonOutside (by decide)).symm.trans found
  | onward other _ _ =>
    cases line
    exact absurd rfl other

theorem brokenValue {n : Nat} (value : jsonValue json [byte '{',byte '['] b rest = some n) :
    Broken json false (b :: rest) ↔ Broken json false ((b :: rest).drop n) := by
  refine ⟨fun broken => ?_,.value value⟩
  have other {c : Byte} (outside : c ∉ [byte '{',byte '[']) : b ≠ c := by
    rintro rfl
    cases (jsonOutside outside).symm.trans value
  generalize line : b :: rest = t at broken
  cases broken with
  | here _ => exact absurd (List.cons.inj line).1 (other (by decide))
  | flip _ => exact absurd (List.cons.inj line).1 (other (by decide))
  | value found next =>
    cases line
    cases value.symm.trans found
    exact next
  | onward _ plain _ =>
    cases line
    cases value.symm.trans (plain rfl)

theorem brokenOther (other : b ≠ byte quote) (inside : inQuote = false → b ≠ byte ';')
    (plain : inQuote = false → jsonValue json [byte '{',byte '['] b rest = none) :
    Broken json inQuote (b :: rest) ↔ Broken json inQuote rest := by
  refine ⟨fun broken => ?_,.onward other plain⟩
  generalize line : b :: rest = t at broken
  cases broken with
  | here _ => exact absurd (List.cons.inj line).1 (inside rfl)
  | flip _ => exact absurd (List.cons.inj line).1 other
  | value found _ =>
    cases line
    cases (plain rfl).symm.trans found
  | onward _ _ next =>
    cases line
    exact next

variable {t : Text}

theorem valueInside {n : Nat}
    (value : jsonValue json [byte '{',byte '['] b (t ++ [newline]) = some n) : 0 < n ∧ n ≤ (b :: t).length := by
  unfold jsonValue at value
  split at value
  · obtain ⟨front,c,rest,whole,rfl,closing⟩ := json.closed value
    refine ⟨Nat.succ_pos _,?_⟩
    rcases List.eq_nil_or_concat' rest with rfl | ⟨rest,d,rfl⟩
    · have last := congrArg List.getLast? whole
      rw [← List.cons_append,List.getLast?_concat,List.getLast?_concat] at last
      cases last
      exact absurd closing (by decide)
    · have lengths := congrArg List.length whole
      simp only [List.length_append,List.length_cons,List.length_nil] at lengths ⊢
      omega
  · cases value

theorem scanWhole (oneLine : newline ∉ t ∧ carriageReturn ∉ t) : scan json inQuote (t ++ [newline]) ≤ t.length ∧
      (scan json inQuote (t ++ [newline]) = t.length ↔ ¬Broken json inQuote (t ++ [newline])) := by
  induction same : t.length using Nat.strong_induction_on generalizing inQuote t with
  | _ size ih =>
    cases t with
    | nil =>
      cases same
      exact ⟨Nat.le_of_eq scanEnd,iff_of_true scanEnd notBrokenEnd⟩
    | cons b t =>
      have onLine : b ≠ carriageReturn ∧ b ≠ newline :=
        ⟨fun same => oneLine.2 (same ▸ List.mem_cons_self),fun same => oneLine.1 (same ▸ List.mem_cons_self)⟩
      have later (n : Nat) : newline ∉ (b :: t).drop n ∧ carriageReturn ∉ (b :: t).drop n :=
        ⟨fun mem => oneLine.1 (List.mem_of_mem_drop mem),fun mem => oneLine.2 (List.mem_of_mem_drop mem)⟩
      rw [List.cons_append]
      by_cases value : ∃ n, inQuote = false ∧ jsonValue json [byte '{',byte '['] b (t ++ [newline]) = some n
      · obtain ⟨n,rfl,value⟩ := value
        obtain ⟨some_,inside⟩ := valueInside value
        have cut : (b :: (t ++ [newline])).drop n = (b :: t).drop n ++ [newline] := by
          rw [← List.cons_append,List.drop_append_of_le_length inside]
        have next := @ih (size - n) (by omega) false _ (later n) (by rw [List.length_drop,same])
        rw [scanValue value,brokenValue value,cut,← next.2]
        omega
      · have plain (outside : inQuote = false) : jsonValue json [byte '{',byte '['] b (t ++ [newline]) = none := by
          cases found : jsonValue json [byte '{',byte '['] b (t ++ [newline]) with
          | none => rfl
          | some n => exact absurd ⟨n,outside,found⟩ value
        have next (inQuote : Bool) := @ih t.length (by rw [← same]; exact Nat.lt_succ_self _) inQuote t (later 1) rfl
        by_cases flips : b = byte quote
        · subst flips
          rw [scanQuote,brokenQuote,← (next _).2]
          have bound := (next (!inQuote)).1
          rw [List.length_cons] at same
          omega
        · by_cases breaks : inQuote = false ∧ b = byte ';'
          · obtain ⟨rfl,rfl⟩ := breaks
            rw [scanBreak]
            have some_ : 0 ≠ size := by rw [← same]; exact nofun
            exact ⟨Nat.zero_le _,iff_of_false some_ (fun none => none (.here _))⟩
          · have inside (outside : inQuote = false) (same : b = byte ';') : False := breaks ⟨outside,same⟩
            rw [scanOther flips inside onLine plain,brokenOther flips inside plain,← (next _).2]
            have bound := (next inQuote).1
            rw [List.length_cons] at same
            omega

theorem takeCommandsCons : takeCommands json (b :: rest) =
    let i := scan json false (b :: rest)
    if isWait ((b :: rest).take i) then ([(b :: rest).take i],(b :: rest).drop (i + 1))
    else ((b :: rest).take i :: (takeCommands json ((b :: rest).drop (i + 1))).1,
      (takeCommands json ((b :: rest).drop (i + 1))).2) := by
  rw [takeCommands]

theorem takeWhole (oneLine : newline ∉ t ∧ carriageReturn ∉ t)
    (whole : ¬Broken json false (t ++ [newline])) : takeCommands json (t ++ [newline]) = ([t],[]) := by
  have ends := (scanWhole oneLine).2.mpr whole
  obtain ⟨b,rest,line⟩ := List.exists_cons_of_ne_nil (List.append_ne_nil_of_right_ne_nil t (List.cons_ne_nil newline []))
  rw [line] at ends
  have command : (b :: rest).take t.length = t := by rw [← line,List.take_left']; rfl
  have left : (b :: rest).drop (t.length + 1) = [] := by
    rw [← line]
    exact List.drop_of_length_le (Nat.le_of_eq List.length_append)
  rw [line,takeCommandsCons]
  simp only [ends,command,left]
  split
  · rfl
  · simp [takeCommands]

theorem takeBroken (oneLine : newline ∉ t ∧ carriageReturn ∉ t)
    (broken : Broken json false (t ++ [newline])) (awake : ∀ i, isWait ((t ++ [newline]).take i) = false) :
    2 ≤ (takeCommands json (t ++ [newline])).1.length := by
  obtain ⟨inside,ends⟩ := @scanWhole json false t oneLine
  have short : scan json false (t ++ [newline]) < t.length :=
    Nat.lt_of_le_of_ne inside (fun same => ends.mp same broken)
  obtain ⟨b,rest,line⟩ := List.exists_cons_of_ne_nil (List.append_ne_nil_of_right_ne_nil t (List.cons_ne_nil newline []))
  have long : (b :: rest).length = t.length + 1 := by rw [← line]; exact List.length_append
  rw [line] at short awake ⊢
  have more : (b :: rest).drop (scan json false (b :: rest) + 1) ≠ [] := by
    intro none
    have size := List.drop_eq_nil_iff.mp none
    omega
  obtain ⟨d,left,cut⟩ := List.exists_cons_of_ne_nil more
  rw [takeCommandsCons]
  simp only [awake,cut]
  rw [takeCommandsCons]
  simp only [Bool.false_eq_true,if_false,List.length_cons]
  split
  · exact Nat.le_refl _
  · exact Nat.le_add_left _ _

end Scanning
end Citizen.Console
