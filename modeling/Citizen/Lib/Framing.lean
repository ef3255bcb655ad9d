import Mathlib.Data.List.Basic

/-! A stream of words of a code, cut anywhere, and a decoder that holds back what has not arrived
in full. -/
namespace Citizen.Framing
variable {α β : Type} {code : α → List β}

def Unfinished (code : α → List β) (tail : List β) : List α → Prop
  | [] => tail = []
  | word :: _ => tail <+: code word ∧ tail.length < (code word).length

def Decoded (code : α → List β) (words : List α) (received : List β) (done : List α) (tail : List β) : Prop :=
  ∃ rest, words = done ++ rest ∧ received = done.flatMap code ++ tail ∧ Unfinished code tail rest

theorem prefixWord {data word rest : List β} (start : data <+: word ++ rest) :
    (data <+: word ∧ data.length < word.length) ∨ ∃ data', data = word ++ data' ∧ data' <+: rest := by
  obtain ⟨more,whole⟩ := start
  rcases List.append_eq_append_iff.mp whole with ⟨tail,left,right⟩ | ⟨tail,left,right⟩
  · cases tail with
    | nil =>
      rw [List.append_nil] at left
      exact .inr ⟨[],by rw [left,List.append_nil],List.nil_prefix⟩
    | cons b tail => exact .inl ⟨⟨_,left.symm⟩,by rw [left,List.length_append,List.length_cons]; omega⟩
  · exact .inr ⟨tail,left,⟨more,right.symm⟩⟩

theorem decodedNothing (nonempty : ∀ word, code word ≠ []) (words : List α) : Decoded code words [] [] [] := by
  refine ⟨words,rfl,rfl,?_⟩
  cases words with
  | nil => rfl
  | cons word words => exact ⟨List.nil_prefix,List.length_pos_iff.mpr (nonempty word)⟩

theorem Decoded.whole {words done : List α} {tail : List β}
    (decoded : Decoded code words (words.flatMap code) done tail) : done = words ∧ tail = [] := by
  obtain ⟨rest,rfl,received,unfinished⟩ := decoded
  rw [List.flatMap_append] at received
  have same := List.append_cancel_left received
  cases rest with
  | nil => exact ⟨(List.append_nil done).symm,unfinished⟩
  | cons word rest =>
    have short := unfinished.2
    rw [← same,List.flatMap_cons,List.length_append] at short
    omega

section
variable {σ γ : Type} (push : σ → List β → Option (σ × List γ)) (holds : σ → List β → Prop)

def pushAll : σ → List (List β) → Option (σ × List γ)
  | s,[] => some (s,[])
  | s,chunk :: chunks =>
    (push s chunk).bind (fun first => (pushAll first.1 chunks).map (fun later => (later.1,first.2 ++ later.2)))

def Decodes (code : α → List β) (message : α → γ) (good : List β → Prop) : Prop :=
  ∀ s tail rest chunk, holds s tail → Unfinished code tail rest → good chunk →
    tail ++ chunk <+: rest.flatMap code →
    ∃ s' tail' got rest', push s chunk = some (s',got.map message) ∧ holds s' tail' ∧ rest = got ++ rest' ∧
      tail ++ chunk = got.flatMap code ++ tail' ∧ Unfinished code tail' rest'

variable {push holds} {message : α → γ} {good : List β → Prop}

theorem decodesAll (decodes : Decodes push holds code message good) {s : σ} {words done : List α}
    {received tail : List β} (here : holds s tail) (before : Decoded code words received done tail)
    {chunks : List (List β)} (fine : ∀ chunk ∈ chunks, good chunk)
    (start : received ++ chunks.flatten <+: words.flatMap code) :
    ∃ s' tail' got, pushAll push s chunks = some (s',got.map message) ∧ holds s' tail' ∧
      Decoded code words (received ++ chunks.flatten) (done ++ got) tail' := by
  induction chunks generalizing s done received tail with
  | nil => exact ⟨s,tail,[],rfl,here,by simpa using before⟩
  | cons chunk chunks ih =>
    obtain ⟨fit,later⟩ := List.forall_mem_cons.mp fine
    obtain ⟨rest,rfl,rfl,unfinished⟩ := before
    rw [List.flatten_cons,← List.append_assoc] at start
    have first : tail ++ chunk <+: rest.flatMap code := by
      have first := (List.prefix_append _ _).trans start
      rwa [List.flatMap_append,List.append_assoc,List.prefix_append_right_inj] at first
    obtain ⟨s₁,tail₁,got,rest',pushed,here₁,rfl,whole,unfinished'⟩ :=
      decodes s tail rest chunk here unfinished fit first
    have next : Decoded code (done ++ (got ++ rest')) (done.flatMap code ++ tail ++ chunk) (done ++ got) tail₁ :=
      ⟨rest',(List.append_assoc ..).symm,
        by rw [List.append_assoc,whole,List.flatMap_append,List.append_assoc],unfinished'⟩
    obtain ⟨s₂,tail₂,got',pushed',here₂,decoded⟩ := ih here₁ next later start
    refine ⟨s₂,tail₂,got ++ got',?_,here₂,?_⟩
    · simp only [pushAll,pushed,pushed',Option.bind_some,Option.map_some,List.map_append]
    · rw [List.append_assoc _ chunk,List.append_assoc done got,← List.flatten_cons] at decoded
      exact decoded

end
end Citizen.Framing
