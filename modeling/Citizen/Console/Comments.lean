import Citizen.Console.TokenizeReads

/-! Block comments on a line, as `Tokenize` skips them. -/
namespace Citizen.Console
open BitField (Byte)
open Quoting

section Skipping
variable {json : WideJson} {x y : Char} {t rest : List Char}

theorem skipCongr {p q : Place} (same : Place.skipSpace p.before p.rest = Place.skipSpace q.before q.rest) :
    p.skip = q.skip := by
  rcases stops : Place.skipSpace q.before q.rest with ⟨_ | b,_ | ⟨c,tail⟩⟩
  · rw [skipEnd (same.trans stops),skipEnd stops]
  · rw [skipFirst (same.trans stops),skipFirst stops]
  · rw [skipEnd (same.trans stops),skipEnd stops]
  · rw [skipLater (same.trans stops),skipLater stops]

variable {c : Char}

theorem skipBlank {before : Option Char} (blank : c ≤ ' ') :
    Place.skip ⟨before,c :: rest⟩ = Place.skip ⟨some c,rest⟩ := skipCongr (if_pos blank)

theorem skipOpener : Place.skip ⟨some x,'/' :: '*' :: t⟩ = (Place.next ⟨some '*',t⟩).skip := by
  have stops : Place.skipSpace (some x) ('/' :: '*' :: t) = ⟨some x,'/' :: '*' :: t⟩ := if_neg (by decide)
  rw [skipLater stops,if_neg (by simp [Place.peek]),if_pos ⟨rfl,rfl⟩]
  rfl

theorem skipVisible (visible : ' ' < c) : Place.skip ⟨some x,c :: t⟩ =
    if (c = '/' ∧ Place.peek t = '/') ∨ c = '#' then none
    else if c = '/' ∧ Place.peek t = '*' then (Place.next (Place.next ⟨some '/',t⟩)).skip
    else some ⟨some x,c :: t⟩ :=
  skipLater (if_neg (Char.not_le.mpr visible))

theorem argumentsCongr {p q : Place} (same : p.skip = q.skip) : arguments json p = arguments json q := by
  rcases found : q.skip with _ | ⟨b,_ | ⟨c,tail⟩⟩
  · rw [argumentsNone (same.trans found),argumentsNone found]
  · obtain ⟨_,_,_,impossible,_⟩ := Place.skipStarts found
    cases impossible
  · cases value : jsonValue json ['{','['] c tail with
    | some n => rw [argumentsValue (same.trans found) value,argumentsValue found value]
    | none =>
      by_cases quotes : c = quote
      · subst quotes
        rw [argumentsQuoted (same.trans found),argumentsQuoted found]
      · rw [argumentsPlain (same.trans found) value quotes,argumentsPlain found value quotes]

theorem opensInside (visible : ' ' < x) : opensComment (some x) = false := by
  have space : x ≠ ' ' := fun same => absurd (same ▸ visible) (by decide)
  have tab : x ≠ Char.ofNat 9 := fun same => absurd (same ▸ visible) (by decide)
  simp [opensComment,space,tab]

theorem unquotedInside (visible : ' ' < x) : ∃ arg place, unquoted (some x) t = some (arg,place) := by
  induction t generalizing x with
  | nil => exact ⟨_,_,rfl⟩
  | cons c t ih =>
    by_cases word : ' ' < c ∧ c ≠ quote
    · obtain ⟨arg,place,read⟩ := @ih c word.1
      refine ⟨c :: arg,place,?_⟩
      rw [unquoted,if_pos word,opensInside visible,if_neg (fun both => Bool.false_ne_true both.1),
        if_neg (fun all => Bool.false_ne_true all.2.1),read]
      rfl
    · exact ⟨[],_,by rw [unquoted,if_neg word]⟩

def Starts (c : Char) (tail : List Char) : Prop :=
  ' ' < c ∧ c ≠ '#' ∧ ¬(c = '/' ∧ (Place.peek tail = '/' ∨ Place.peek tail = '*'))

theorem unquotedStarts (starts : Starts c t) (plain : c ≠ quote) :
    unquoted (some x) (c :: t) = (unquoted (some c) t).map (fun (arg,place) => (c :: arg,place)) := by
  rw [unquoted,if_pos ⟨starts.1,plain⟩,if_neg (fun both => starts.2.1 both.2),if_neg (fun all => starts.2.2 all.2.2)]

theorem skipStartsWord (starts : Starts c t) : Place.skip ⟨some x,c :: t⟩ = some ⟨some x,c :: t⟩ := by
  have line : ¬((c = '/' ∧ Place.peek t = '/') ∨ c = '#') :=
    not_or.mpr ⟨fun both => starts.2.2 ⟨both.1,.inl both.2⟩,starts.2.1⟩
  rw [skipVisible starts.1,if_neg line,if_neg (fun both => starts.2.2 ⟨both.1,.inr both.2⟩)]

theorem argumentsStarts (starts : Starts c t) : arguments json ⟨some x,c :: t⟩ ≠ [] := by
  have found := @skipStartsWord x _ _ starts
  cases value : jsonValue json ['{','['] c t with
  | some n => rw [argumentsValue found value]; exact List.cons_ne_nil _ _
  | none =>
    by_cases quotes : c = quote
    · subst quotes
      rw [argumentsQuoted found]
      exact List.cons_ne_nil _ _
    · obtain ⟨arg,place,read⟩ := @unquotedInside c t starts.1
      rw [argumentsPlain found value quotes,unquotedStarts starts quotes,read]
      exact List.cons_ne_nil _ _

theorem argumentsBehind : arguments json ⟨some x,t⟩ = arguments json ⟨some y,t⟩ := by
  cases t with
  | nil => rw [argumentsEnd,argumentsEnd]
  | cons c t =>
    by_cases blank : c ≤ ' '
    · exact argumentsCongr ((skipBlank blank).trans (skipBlank blank).symm)
    · have visible := Char.not_le.mp blank
      by_cases starts : Starts c t
      · have here (x : Char) := @skipStartsWord x _ _ starts
        cases value : jsonValue json ['{','['] c t with
        | some n => rw [argumentsValue (here x) value,argumentsValue (here y) value]
        | none =>
          by_cases quotes : c = quote
          · subst quotes
            rw [argumentsQuoted (here x),argumentsQuoted (here y)]
          · rw [argumentsPlain (here x) value quotes,argumentsPlain (here y) value quotes,unquotedStarts starts quotes,
              unquotedStarts starts quotes]
      · refine argumentsCongr ?_
        rw [skipVisible visible,skipVisible visible]
        by_cases line : (c = '/' ∧ Place.peek t = '/') ∨ c = '#'
        · rw [if_pos line,if_pos line]
        · by_cases opener : c = '/' ∧ Place.peek t = '*'
          · rw [if_neg line,if_neg line,if_pos opener,if_pos opener]
          · refine absurd ⟨visible,(not_or.mp line).2,?_⟩ starts
            rintro ⟨slash,second | second⟩
            · exact line (.inl ⟨slash,second⟩)
            · exact opener ⟨slash,second⟩

inductive Threes : List Char → Prop
  | ended : Threes []
  | blank {c : Char} {t : List Char} : c ≤ ' ' → Threes t → Threes (c :: t)
  | opener {c : Char} {t : List Char} : Threes t → Threes ('/' :: '*' :: c :: t)

inductive Quiet : List Char → Prop
  | ended : Quiet []
  | blank {c : Char} {t : List Char} : c ≤ ' ' → Quiet t → Quiet (c :: t)
  | opener {t : List Char} : Quiet (t.drop 1) → Quiet ('/' :: '*' :: t)
  | sharp {t : List Char} : Quiet ('#' :: t)
  | slashes {t : List Char} : Quiet ('/' :: '/' :: t)

theorem nextBehind : ∃ z, Place.next ⟨some y,t⟩ = ⟨some z,t.drop 1⟩ := by
  cases t with
  | nil => exact ⟨y,rfl⟩
  | cons c t => exact ⟨c,rfl⟩

theorem skipThrees (threes : Threes t) : ∃ z, Place.skip ⟨some x,t ++ rest⟩ = Place.skip ⟨some z,rest⟩ := by
  induction threes generalizing x with
  | ended => exact ⟨x,rfl⟩
  | @blank c t blank _ ih =>
    obtain ⟨z,same⟩ := @ih c
    exact ⟨z,(skipBlank blank).trans same⟩
  | @opener c t _ ih =>
    obtain ⟨z,same⟩ := @ih c
    exact ⟨z,skipOpener.trans same⟩

theorem skipQuiet (quiet : Quiet t) : Place.skip ⟨some x,t⟩ = none := by
  induction quiet generalizing x with
  | ended => exact skipEnd rfl
  | blank blank _ ih => exact (skipBlank blank).trans ih
  | @opener t _ ih =>
    obtain ⟨z,next⟩ := @nextBehind '*' t
    rw [skipOpener,next]
    exact ih
  | sharp => rw [skipVisible (by decide),if_pos (.inr rfl)]
  | slashes => rw [skipVisible (by decide),if_pos (.inl ⟨rfl,rfl⟩)]

theorem peekSome (some_ : c ≠ Char.ofNat 0) (first : Place.peek t = c) : ∃ u, t = c :: u := by
  cases t with
  | nil => exact absurd first.symm some_
  | cons d u => exact ⟨u,congrArg (· :: u) first⟩

theorem quietOrWord : Quiet t ∨ arguments json ⟨some x,t⟩ ≠ [] := by
  induction length : t.length using Nat.strong_induction_on generalizing t x with
  | _ size ih =>
    cases t with
    | nil => exact .inl .ended
    | cons c t =>
      rw [List.length_cons] at length
      by_cases blank : c ≤ ' '
      · rw [argumentsCongr (skipBlank blank)]
        exact (ih t.length (by omega) rfl).imp_left (.blank blank)
      · by_cases starts : Starts c t
        · exact .inr (argumentsStarts starts)
        · by_cases sharp : c = '#'
          · exact .inl (sharp ▸ .sharp)
          · have opens : c = '/' ∧ (Place.peek t = '/' ∨ Place.peek t = '*') := by
              by_contra plain
              exact starts ⟨Char.not_le.mp blank,sharp,plain⟩
            obtain ⟨rfl,second | second⟩ := opens
            · obtain ⟨u,rfl⟩ := peekSome (by decide) second
              exact .inl .slashes
            · obtain ⟨u,rfl⟩ := peekSome (by decide) second
              obtain ⟨z,next⟩ := @nextBehind '*' u
              rw [argumentsCongr (skipOpener.trans (congrArg Place.skip next))]
              rw [List.length_cons] at length
              exact (ih (u.drop 1).length (by rw [List.length_drop]; omega) rfl).imp_left .opener

theorem quietIff : arguments json ⟨some x,t⟩ = [] ↔ Quiet t :=
  ⟨fun none => quietOrWord.resolve_right (fun some_ => some_ none),fun quiet => argumentsNone (skipQuiet quiet)⟩

theorem quietEnds (quiet : Quiet t) (ends : t.getLast? ≠ some '*') : Threes t ∨ ∀ rest, Quiet (t ++ rest) := by
  have tail {c : Char} {t : List Char} (ends : (c :: t).getLast? ≠ some '*') : t.getLast? ≠ some '*' := by
    cases t with
    | nil => exact nofun
    | cons d t => rwa [List.getLast?_cons_cons] at ends
  induction quiet with
  | ended => exact .inl .ended
  | blank blank _ ih => exact (ih (tail ends)).imp (.blank blank) (fun later rest => .blank blank (later rest))
  | @opener t _ ih =>
    cases t with
    | nil => exact absurd rfl ends
    | cons c t => exact (ih (tail (tail (tail ends)))).imp .opener (fun later rest => .opener (later rest))
  | sharp => exact .inr (fun _ => .sharp)
  | slashes => exact .inr (fun _ => .slashes)

end Skipping
section Commented
variable {json : WideJson} {front body : List Char} {words : List (List Char)} {b : Char}

def Reaches (json : WideJson) (front : List Char) (words : List (List Char)) : Prop :=
  ∀ rest, arguments json ⟨none,front ++ rest⟩ = words ++ arguments json ⟨front.getLast?,rest⟩

theorem reachesBlank (reached : Reaches json front words) (blank : b ≤ ' ') : Reaches json (front ++ [b]) words := by
  intro rest
  rw [List.append_assoc,List.getLast?_concat,List.singleton_append,reached]
  exact congrArg (words ++ ·) (argumentsCongr (skipBlank blank))

theorem reachesQuoted {w : List Char} (reached : Reaches json front words) (ends : w.getLast? ≠ some backslash) :
    Reaches json (front ++ quoteWord quote backslash w) (words ++ [w]) := by
  intro rest
  have closing : (front ++ quoteWord quote backslash w).getLast? = some quote := by
    unfold quoteWord
    rw [← List.cons_append,← List.append_assoc,List.getLast?_concat]
  rw [List.append_assoc,reached,closing,quoteWord,List.cons_append,List.append_assoc,List.singleton_append,
    argumentsQuote,quotedEscape ends,List.append_assoc]
  rfl

abbrev Visible (c : Char) : Prop := ' ' < c ∧ c ≠ quote

theorem unquotedWord {x : Char} {w rest : List Char} (visible : ' ' < x) (each : ∀ c ∈ w, Visible c) (blank : b ≤ ' ') :
    ∃ y, unquoted (some x) (w ++ b :: rest) = some (w,⟨some y,b :: rest⟩) := by
  induction w generalizing x with
  | nil => exact ⟨x,by rw [List.nil_append,unquoted,if_neg (fun both => Char.not_lt.mpr blank both.1)]⟩
  | cons c w ih =>
    have here := each c List.mem_cons_self
    obtain ⟨y,read⟩ := @ih c here.1 (fun d mem => each d (List.mem_cons_of_mem _ mem))
    refine ⟨y,?_⟩
    rw [List.cons_append,unquoted,if_pos here,opensInside visible,if_neg (fun both => Bool.false_ne_true both.1),
      if_neg (fun all => Bool.false_ne_true all.2.1),read]
    rfl

theorem reachesWord {c : Char} {w : List Char} (reached : Reaches json front words)
    (first : c ≠ '/' ∧ c ≠ '#' ∧ c ∉ ['{','[']) (each : ∀ d ∈ c :: w, Visible d) (blank : b ≤ ' ') :
    Reaches json (front ++ c :: w ++ [b]) (words ++ [c :: w]) := by
  intro rest
  have here := each c List.mem_cons_self
  have stops : Place.skipSpace front.getLast? (c :: (w ++ b :: rest)) = ⟨front.getLast?,c :: (w ++ b :: rest)⟩ :=
    if_neg (Char.not_le.mpr here.1)
  obtain ⟨y,read⟩ := @unquotedWord b c w rest here.1 (fun d mem => each d (List.mem_cons_of_mem _ mem)) blank
  have whole : unquoted front.getLast? (c :: (w ++ b :: rest)) = some (c :: w,⟨some y,b :: rest⟩) := by
    rw [unquoted,if_pos here,if_neg (fun both => first.2.1 both.2),if_neg (fun all => first.1 all.2.2.1),read]
    rfl
  have line : front ++ c :: w ++ [b] ++ rest = front ++ c :: (w ++ b :: rest) := by
    rw [List.append_assoc,List.append_assoc,List.cons_append,List.singleton_append]
  rw [line,reached,List.getLast?_concat,argumentsUnquoted (skipWord stops ⟨first.1,first.2.1⟩) ⟨here.2,first.2.2⟩ whole,
    if_neg (List.cons_ne_nil _ _),argumentsCongr (skipBlank blank),List.append_assoc]

inductive WordLine : List Char → List (List Char) → Prop
  | nothing : WordLine [] []
  | blank {front : List Char} {words : List (List Char)} {b : Char} : WordLine front words → b ≤ ' ' →
      WordLine (front ++ [b]) words
  | quoted {front w : List Char} {words : List (List Char)} : WordLine front words → w.getLast? ≠ some backslash →
      WordLine (front ++ quoteWord quote backslash w) (words ++ [w])
  | word {front w : List Char} {words : List (List Char)} {b c : Char} : WordLine front words →
      c ≠ '/' ∧ c ≠ '#' ∧ c ∉ ['{','['] → (∀ d ∈ c :: w, Visible d) → b ≤ ' ' →
      WordLine (front ++ c :: w ++ [b]) (words ++ [c :: w])

theorem wordLineReaches (line : WordLine front words) : Reaches json front words := by
  induction line with
  | nothing => exact fun _ => rfl
  | blank _ blank ih => exact reachesBlank ih blank
  | quoted _ ends ih => exact reachesQuoted ih ends
  | word _ first each blank ih => exact reachesWord ih first each blank

theorem argumentsOpener (reached : Reaches json front words) (behind : front.getLast? = some b) (t : List Char) :
    arguments json ⟨none,front ++ '/' :: '*' :: t⟩ = words ++ arguments json ⟨some ' ',t.drop 1⟩ := by
  obtain ⟨z,next⟩ := @nextBehind '*' t
  rw [reached,behind,argumentsCongr (skipOpener.trans (congrArg Place.skip next)),argumentsBehind]

theorem argumentsGap (reached : Reaches json front words) (rest : List Char) :
    arguments json ⟨none,front ++ ' ' :: rest⟩ = words ++ arguments json ⟨some ' ',rest⟩ := by
  rw [reached,argumentsCongr (skipBlank (by decide))]

def blockComment (body : List Char) : List Char := '/' :: '*' :: (body ++ ['*','/'])

theorem blockComments (json : WideJson) (reached : Reaches json front words) (behind : front.getLast? = some b) :
    ((∀ rest, Tokenize json (utf8 (front ++ blockComment body ++ rest)) = Tokenize json (utf8 (front ++ ' ' :: rest))) ↔
      Threes ((body ++ ['*','/']).drop 1)) ∧
    (∀ rest, Tokenize json (utf8 (front ++ blockComment body ++ rest)) = Tokenize json (utf8 (front ++ ' ' :: rest)) ↔
      arguments json ⟨some ' ',(body ++ ['*','/']).drop 1 ++ rest⟩ = arguments json ⟨some ' ',rest⟩) ∧
    (Tokenize json (utf8 (front ++ '/' :: '*' :: body)) = words.map utf8 ↔ Quiet (body.drop 1)) ∧
    ∀ line, Reads.TokenizeAt json line = some (Tokenize json line) := by
  have some_ : 1 ≤ (body ++ ['*','/']).length := by rw [List.length_append]; exact Nat.le_add_left 1 _
  have commented (rest : List Char) : Tokenize json (utf8 (front ++ blockComment body ++ rest)) =
      (words ++ arguments json ⟨some ' ',(body ++ ['*','/']).drop 1 ++ rest⟩).map utf8 := by
    have line : front ++ blockComment body ++ rest = front ++ '/' :: '*' :: (body ++ ['*','/'] ++ rest) := by
      rw [List.append_assoc]
      rfl
    rw [line,tokenizeUtf8,argumentsOpener reached behind,List.drop_append_of_le_length some_]
  have each (rest : List Char) :
      Tokenize json (utf8 (front ++ blockComment body ++ rest)) = Tokenize json (utf8 (front ++ ' ' :: rest)) ↔
        arguments json ⟨some ' ',(body ++ ['*','/']).drop 1 ++ rest⟩ = arguments json ⟨some ' ',rest⟩ := by
    rw [commented,tokenizeUtf8,argumentsGap reached]
    exact (List.map_injective_iff.mpr utf8Injective).eq_iff.trans (List.append_right_inj words)
  refine ⟨⟨fun same => ?_,fun threes rest => ?_⟩,each,?_,Reads.tokenizeReads json⟩
  · have nothing := (each []).mp (same [])
    rw [List.append_nil,argumentsEnd,quietIff] at nothing
    have ends : ((body ++ ['*','/']).drop 1).getLast? ≠ some '*' := by
      cases body with
      | nil => decide
      | cons c body =>
        rw [List.cons_append,List.drop_one,List.tail_cons,List.getLast?_append_of_ne_nil _ (List.cons_ne_nil _ _)]
        decide
    refine (quietEnds nothing ends).resolve_right (fun later => ?_)
    have word := (each [quote,quote]).mp (same [quote,quote])
    rw [quietIff.mpr (later _),argumentsQuote] at word
    cases word
  · obtain ⟨z,through⟩ := @skipThrees ' ' _ rest threes
    exact (each rest).mpr ((argumentsCongr through).trans argumentsBehind)
  · rw [tokenizeUtf8,argumentsOpener reached behind,← @quietIff json ' ']
    constructor
    · intro same
      have lengths := congrArg List.length same
      rw [List.length_map,List.length_map,List.length_append] at lengths
      exact List.eq_nil_of_length_eq_zero (by omega)
    · intro nothing
      rw [nothing,List.append_nil]

end Commented

theorem sayReached : Reaches noJson ['s','a','y',' '] [['s','a','y']] := by
  have visible : ∀ d ∈ ['s','a','y'], Visible d :=
    List.forall_mem_cons.mpr ⟨by decide,List.forall_mem_cons.mpr ⟨by decide,List.forall_mem_singleton.mpr (by decide)⟩⟩
  exact wordLineReaches (@WordLine.word [] ['a','y'] [] ' ' 's' .nothing (by decide) visible (by decide))

theorem blockCommentsSay : Tokenize noJson (utf8 (['s','a','y',' '] ++ blockComment ['x','/'] ++ [' ','h','i'])) =
    Tokenize noJson (utf8 (['s','a','y',' '] ++ ' ' :: [' ','h','i'])) :=
  (@blockComments _ ['x','/'] _ ' ' noJson sayReached rfl).1.mpr (.opener .ended) [' ','h','i']

theorem commentRead : Tokenize noJson (utf8 (['s','a','y',' '] ++ blockComment [' ','n','o','t','e',' '])) ≠
    Tokenize noJson (utf8 (['s','a','y',' '] ++ [' '])) := by
  have line : ['s','a','y',' '] ++ blockComment [' ','n','o','t','e',' '] =
      ['s','a','y',' '] ++ '/' :: '*' :: [' ','n','o','t','e',' ','*','/'] := rfl
  intro same
  rw [line,tokenizeUtf8,tokenizeUtf8,argumentsOpener sayReached rfl,argumentsGap sayReached,argumentsEnd] at same
  have quiet := quietIff.mp (List.append_cancel_left (List.map_injective_iff.mpr utf8Injective same))
  rcases quiet with _ | ⟨blank,_⟩
  exact absurd blank (by decide)

end Citizen.Console
