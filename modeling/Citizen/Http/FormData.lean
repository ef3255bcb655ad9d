import Citizen.Http.UrlDecode
import Citizen.Lib.OrderedMap

/-! Decoding of form data. -/
namespace Citizen.Http
open BitField (Byte)
open Percent (Encodes Exact)

attribute [local instance] byteOrder

abbrev PostMap := OrderedMap Text Text

def DecodeFormData.loop : Nat → Text → PostMap → PostMap
  | 0,_,postMap => postMap
  | turns + 1,remainingData,postMap =>
    if remainingData = [] then postMap
    else
      match remainingData.idxOf? (byte '=') with
      | none => postMap
      | some keyEndPos =>
        if keyEndPos = 0 then postMap
        else
          let key := remainingData.take keyEndPos
          let remainingData := remainingData.drop (keyEndPos + 1)
          if remainingData = [] then postMap
          else
            match remainingData.idxOf? (byte '&') with
            | some 0 => postMap
            | valueEndPos =>
              let valueEndPos := valueEndPos.getD remainingData.length
              let value := remainingData.take valueEndPos
              let postMap := postMap.insert (UrlDecode key true).2 (UrlDecode value true).2
              DecodeFormData.loop turns (remainingData.drop (valueEndPos + 1)) postMap

def DecodeFormData (data : Text) : PostMap := DecodeFormData.loop data.length data OrderedMap.empty

def parts (piece : Text) : Option (Text × Text) :=
  match piece.idxOf? (byte '=') with
  | none => none
  | some n => if n = 0 ∨ piece.drop (n + 1) = [] then none else some (piece.take n,piece.drop (n + 1))

def pairsOf : List Text → List (Text × Text)
  | [] => []
  | piece :: rest =>
    match parts piece with
    | none => []
    | some (key,value) => ((UrlDecode key true).2,(UrlDecode value true).2) :: pairsOf rest

def insertAll (postMap : PostMap) (pairs : List (Text × Text)) : PostMap :=
  pairs.foldl (fun postMap pair => postMap.insert pair.1 pair.2) postMap

def Tidy (pieces : List Text) : Prop := pieces.Pairwise (fun p q => byte '=' ∉ p → byte '=' ∉ q)

instance (pieces : List Text) : Decidable (Tidy pieces) := inferInstanceAs (Decidable (List.Pairwise _ _))

theorem idxOfFirst {c : Byte} {front : Text} (absent : c ∉ front) (rest : Text) :
    (front ++ c :: rest).idxOf? c = some front.length := by
  induction front with
  | nil => simp [List.idxOf?_cons]
  | cons b front ih =>
    obtain ⟨other,later⟩ := not_or.mp (fun either => absent (List.mem_cons.mpr either))
    rw [List.cons_append,List.idxOf?_cons,if_neg (by simpa using Ne.symm other),ih later]
    rfl

theorem partsSplit {key : Text} (absent : byte '=' ∉ key) (value : Text) :
    parts (key ++ byte '=' :: value) = if key = [] ∨ value = [] then none else some (key,value) := by
  simp [parts,idxOfFirst absent]

variable {turns : Nat} {postMap : PostMap}

theorem loopEmpty : DecodeFormData.loop turns [] postMap = postMap := by
  cases turns <;> rfl

theorem loopWithout {data : Text} (absent : byte '=' ∉ data) : DecodeFormData.loop turns data postMap = postMap := by
  cases turns with
  | zero => rfl
  | succ turns =>
    rw [DecodeFormData.loop,List.idxOf?_eq_none_iff.mpr absent]
    split <;> rfl

theorem loopPiece {key value after : Text} (noEquals : byte '=' ∉ key) (noAnd : byte '&' ∉ value)
    (stop : ∀ b ∈ after.head?, b = byte '&') :
    DecodeFormData.loop (turns + 1) (key ++ byte '=' :: (value ++ after)) postMap =
      if key = [] ∨ value = [] then postMap
      else DecodeFormData.loop turns after.tail (postMap.insert (UrlDecode key true).2 (UrlDecode value true).2) := by
  have found : (key ++ byte '=' :: (value ++ after)).idxOf? (byte '=') = some key.length := idxOfFirst noEquals _
  have rest : (key ++ byte '=' :: (value ++ after)).drop (key.length + 1) = value ++ after := by simp
  have front : (key ++ byte '=' :: (value ++ after)).take key.length = key := by simp
  rw [DecodeFormData.loop,found]
  simp only [rest,front,List.length_eq_zero_iff]
  rw [if_neg (by simp)]
  by_cases noKey : key = []
  · simp [noKey]
  · rw [if_neg noKey]
    cases after with
    | nil => 
      have behind : value.drop (value.length + 1) = [] := List.drop_eq_nil_of_le (Nat.le_succ _)
      simp [List.idxOf?_eq_none_iff.mpr noAnd,noKey,behind]
    | cons b after =>
      have same : b = byte '&' := stop b rfl
      subst same
      rw [idxOfFirst noAnd]
      cases value with
      | nil => simp
      | cons c value => simp [noKey]

theorem partsWithout {piece : Text} (absent : byte '=' ∉ piece) : parts piece = none := by
  rw [parts,List.idxOf?_eq_none_iff.mpr absent]

theorem pairsOfCons (piece : Text) (pieces : List Text) (postMap : PostMap) :
    insertAll postMap (pairsOf (piece :: pieces)) =
      match parts piece with
      | none => postMap
      | some (key,value) =>
        insertAll (postMap.insert (UrlDecode key true).2 (UrlDecode value true).2) (pairsOf pieces) := by
  rw [pairsOf]
  split <;> rfl

theorem joinedCons (piece : Text) (pieces : List Text) :
    ∃ after, [byte '&'].intercalate (piece :: pieces) = piece ++ after ∧ (∀ b ∈ after.head?, b = byte '&') ∧
      after.tail = [byte '&'].intercalate pieces := by
  cases pieces with
  | nil => exact ⟨[],by simp⟩
  | cons next rest => exact ⟨byte '&' :: [byte '&'].intercalate (next :: rest),by simp⟩

theorem memJoined {c : Byte} {pieces : List Text} (other : c ≠ byte '&') (mem : c ∈ [byte '&'].intercalate pieces) :
    ∃ p ∈ pieces, c ∈ p := by
  induction pieces with
  | nil => simp at mem
  | cons piece pieces ih =>
    obtain ⟨after,same,stop,tail⟩ := joinedCons piece pieces
    rw [same] at mem
    rcases List.mem_append.mp mem with inside | inside
    · exact ⟨piece,List.mem_cons_self,inside⟩
    · cases after with
      | nil => cases inside
      | cons b after =>
        rcases List.mem_cons.mp inside with rfl | later
        · exact absurd (stop _ rfl) other
        · obtain ⟨p,isPiece,has⟩ := ih (tail ▸ later)
          exact ⟨p,List.mem_cons_of_mem _ isPiece,has⟩

theorem loopPieces (pieces : List Text) (noAnd : ∀ p ∈ pieces, byte '&' ∉ p) (tidy : Tidy pieces)
    (enough : ([byte '&'].intercalate pieces).length ≤ turns) :
    DecodeFormData.loop turns ([byte '&'].intercalate pieces) postMap = insertAll postMap (pairsOf pieces) := by
  induction pieces generalizing turns postMap with
  | nil => exact loopEmpty
  | cons piece pieces ih =>
    obtain ⟨clean,cleanLater⟩ := List.forall_mem_cons.mp noAnd
    obtain ⟨here,tidyLater⟩ := List.pairwise_cons.mp tidy
    obtain ⟨after,same,stop,tail⟩ := joinedCons piece pieces
    rw [same] at enough ⊢
    rw [pairsOfCons]
    by_cases equals : byte '=' ∈ piece
    · obtain ⟨key,value,rfl,noEquals⟩ := List.eq_append_cons_of_mem equals
      cases turns with
      | zero => simp at enough
      | succ turns =>
        rw [List.append_assoc,List.cons_append,loopPiece noEquals (fun mem => clean (by simp [mem])) stop,partsSplit noEquals,tail]
        split
        · rfl
        · exact ih cleanLater tidyLater (by rw [← tail]; simp at enough ⊢; omega)
    · rw [partsWithout equals]
      refine loopWithout (fun mem => ?_)
      obtain ⟨p,isPiece,has⟩ := memJoined (by decide) (same ▸ mem)
      rcases List.mem_cons.mp isPiece with rfl | later
      · exact equals has
      · exact here p later equals has

theorem splitFree {c : Byte} (t : Text) : ∀ p ∈ t.splitOn c, c ∉ p := by
  induction t with
  | nil => simp
  | cons b t ih =>
    rw [List.splitOn_cons_eq_if_modifyHead]
    split
    · simpa using ih
    · rename_i other
      cases pieces : t.splitOn c with
      | nil => exact absurd pieces (List.splitOn_ne_nil c t)
      | cons first rest =>
        rw [pieces] at ih
        obtain ⟨clean,later⟩ := List.forall_mem_cons.mp ih
        refine List.forall_mem_cons.mpr ⟨fun mem => ?_,later⟩
        rcases List.mem_cons.mp mem with same | inside
        · exact other (by simp [same])
        · exact clean inside

theorem insertAllFind {pairs : List (Text × Text)} (distinct : (pairs.map Prod.fst).Nodup) (k v : Text) :
    (insertAll postMap pairs).find k = some v ↔ (k,v) ∈ pairs ∨ k ∉ pairs.map Prod.fst ∧ postMap.find k = some v := by
  induction pairs generalizing postMap with
  | nil => simp [insertAll]
  | cons pair pairs ih =>
    obtain ⟨key,value⟩ := pair
    obtain ⟨fresh,later⟩ := List.nodup_cons.mp distinct
    refine (ih later).trans ?_
    rw [OrderedMap.findInsert]
    by_cases same : k = key
    · subst same
      have outside (v : Text) : (k,v) ∉ pairs := fun mem => fresh (List.mem_map.mpr ⟨(k,v),mem,rfl⟩)
      simp [outside,fresh,eq_comm]
    · simp [same]

def EncodesPair (pair : Text × Text) (piece : Text) : Prop :=
  ∃ key value, piece = key ++ byte '=' :: value ∧ Encodes true pair.1 key ∧ Encodes true pair.2 value ∧
    ∀ t ∈ [key,value], byte '&' ∉ t ∧ byte '=' ∉ t

theorem encodedPieces {pairs : List (Text × Text)} {pieces : List Text} (encoded : List.Forall₂ EncodesPair pairs pieces)
    (full : ∀ pair ∈ pairs, pair.1 ≠ [] ∧ pair.2 ≠ []) :
    pairsOf pieces = pairs ∧ ∀ p ∈ pieces, byte '&' ∉ p ∧ byte '=' ∈ p := by
  induction encoded with
  | nil => exact ⟨rfl,by simp⟩
  | cons here tail ih =>
    obtain ⟨key,value,rfl,isKey,isValue,clean⟩ := here
    obtain ⟨⟨hasKey,hasValue⟩,later⟩ := List.forall_mem_cons.mp full
    obtain ⟨same,rest⟩ := ih later
    obtain ⟨keyClean,valueClean⟩ := List.forall_mem_cons.mp clean
    have parted : parts (key ++ byte '=' :: value) = some (key,value) := by
      rw [partsSplit keyClean.2,if_neg]
      exact not_or.mpr ⟨mt (Percent.encodesNil isKey).mpr hasKey,mt (Percent.encodesNil isValue).mpr hasValue⟩
    refine ⟨?_,List.forall_mem_cons.mpr ⟨⟨?_,by simp⟩,rest⟩⟩
    · simp [pairsOf,parted,same,urlDecodeEncoded isKey,urlDecodeEncoded isValue]
    · simpa [keyClean.1,valueClean] using show byte '&' ≠ byte '=' by decide

theorem formDecoded : (∀ pairs pieces, List.Forall₂ EncodesPair pairs pieces → (pairs.map Prod.fst).Nodup →
      (∀ pair ∈ pairs, pair.1 ≠ [] ∧ pair.2 ≠ []) →
      ∀ k v, (DecodeFormData ([byte '&'].intercalate pieces)).find k = some v ↔ (k,v) ∈ pairs) ∧
    ∀ data : Text, Tidy (data.splitOn (byte '&')) →
      DecodeFormData data = insertAll OrderedMap.empty (pairsOf (data.splitOn (byte '&'))) := by
  have decoded (pieces : List Text) (noAnd : ∀ p ∈ pieces, byte '&' ∉ p) (tidy : Tidy pieces) :
      DecodeFormData ([byte '&'].intercalate pieces) = insertAll OrderedMap.empty (pairsOf pieces) :=
    loopPieces pieces noAnd tidy (Nat.le_refl _)
  constructor
  · intro pairs pieces encoded distinct full k v
    obtain ⟨same,clean⟩ := encodedPieces encoded full
    have tidy : Tidy pieces := List.pairwise_iff_forall_sublist.mpr (fun {p q} within absent =>
      absurd (clean p (within.subset List.mem_cons_self)).2 absent)
    rw [decoded pieces (fun p mem => (clean p mem).1) tidy,same,insertAllFind distinct]
    simp [OrderedMap.find,OrderedMap.empty]
  · intro data tidy
    have split := decoded _ (splitFree data) tidy
    rwa [List.intercalate_splitOn] at split

theorem formDecodedPairs :
    (∀ k v, (DecodeFormData ([byte '&'].intercalate [text "a%26b=c+d",text "e=%3d"])).find k = some v ↔
      (k,v) ∈ [(text "a&b",text "c d"),(text "e",text "=")]) ∧
    DecodeFormData (text "a=b&c") = insertAll OrderedMap.empty (pairsOf ((text "a=b&c").splitOn (byte '&'))) := by
  have encodes {raw t : Text} (strict : ∀ e ∈ escapes t, Exact e) (decoded : Percent.decoded true t = raw) :
      Encodes true raw t := decoded ▸ Percent.encodesStrict true ((strictEscapes t).mpr strict)
  have first : EncodesPair (text "a&b",text "c d") (text "a%26b=c+d") :=
    ⟨text "a%26b",text "c+d",rfl,encodes (by decide) (by decide),encodes (by decide) (by decide),by decide⟩
  have second : EncodesPair (text "e",text "=") (text "e=%3d") :=
    ⟨text "e",text "%3d",rfl,encodes (by decide) (by decide),encodes (by decide) (by decide),by decide⟩
  exact ⟨formDecoded.1 _ _ (.cons first (.cons second .nil)) (by decide) (by decide),formDecoded.2 _ (by decide)⟩

theorem emptyValue : ¬∀ pairs pieces, List.Forall₂ EncodesPair pairs pieces → (pairs.map Prod.fst).Nodup →
      (∀ pair ∈ pairs, pair.1 ≠ []) →
      ∀ k v, (DecodeFormData ([byte '&'].intercalate pieces)).find k = some v ↔ (k,v) ∈ pairs := by
  intro claimed
  have key : Encodes true (text "a") (text "a") := Encodes.byte (b := byte 'a') (by decide) .nil
  have encoded : List.Forall₂ EncodesPair [(text "a",[])] [text "a="] :=
    .cons ⟨text "a",[],rfl,key,.nil,by decide⟩ .nil
  have mapped := (claimed _ _ encoded (by decide) (by decide) (text "a") []).mpr (List.mem_singleton_self _)
  have ended : DecodeFormData ([byte '&'].intercalate [text "a="]) = OrderedMap.empty := by
    rw [List.intercalate_singleton]
    rfl
  rw [ended] at mapped
  cases mapped

end Citizen.Http
