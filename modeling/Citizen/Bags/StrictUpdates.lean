import Citizen.Bags.PacketStrings

/-! Which packets change a bag: what the handler does for a source that may write, and the
packets from which it reads another update than they announce. -/
namespace Citizen.Bags.Wire
open BitField (Byte)

theorem textInjective {a b : List Byte} (same : text a = text b) : a = b := by
  have one : Function.Injective (fun byte : Byte => Char.ofNat byte.toNat) := by
    intro x y equal
    have small : ∀ byte : Byte, (Char.ofNat byte.toNat).toNat = byte.toNat := by
      intro byte
      have valid : byte.toNat.isValidChar := .inl (byte.isLt.trans (by decide))
      have made : Char.ofNat byte.toNat = Char.ofNatAux byte.toNat valid := dif_pos valid
      exact (congrArg Char.toNat made).trans rfl
    have numbers := congrArg Char.toNat equal
    rw [small,small] at numbers
    exact BitVec.eq_of_toNat_eq numbers
  exact List.map_injective_iff.mpr one (String.ofList_injective same)

theorem packedInjective {a b : List Byte} (aSome : a ≠ []) (bSome : b ≠ []) (same : packed a = packed b) : a = b := by
  cases a with
  | nil => contradiction
  | cons x xs =>
    cases b with
    | nil => contradiction
    | cons y ys =>
      have one : Function.Injective UInt8.ofBitVec := fun _ _ equal => congrArg UInt8.toBitVec equal
      obtain ⟨first,rest⟩ := Value.mk.inj same
      have tails : xs = ys := List.map_injective_iff.mpr one rest
      rw [show x = y from one first,tails]

namespace Component
variable {handlers : OnStateBagChange} {c : Component} {source : Int} {id key data : List Byte}

theorem registerNew {s : Registry} {id : String} (absent : s.GetStateBag id = none) :
    (s.RegisterStateBag id).2 = s.made := by
  have still : ({ s with m_erasureList := s.m_erasureList.erase id } : Registry).GetStateBag id = none := absent
  unfold Registry.RegisterStateBag
  simp only [still,ite_self]

theorem ownedNew (absent : c.GetStateBag id = none) (useParentTargets : Bool) :
    (c.PreCreateStateBag id useParentTargets).1.owned (c.PreCreateStateBag id useParentTargets).2 source = true := by
  have made := registerNew absent
  simp [PreCreateStateBag,owned,made]

theorem handleUpdateWritable (writable : c.Writable source id) :
    (c.handleUpdate handlers source id key data).1 = c.applied handlers source id key data := by
  unfold Writable at writable
  unfold handleUpdate findOrCreate applied
  cases found : c.GetStateBag id with
  | some bag =>
    simp only [found] at writable ⊢
    rw [if_pos writable]
  | none =>
    simp only [found] at writable ⊢
    rw [writable]
    have owned := @ownedNew c source id found (c.IsSafePreCreateName id).2
    simp only [if_true]
    rw [if_pos owned]

theorem handleUpdateRefused (refused : ¬c.Writable source id) :
    (c.handleUpdate handlers source id key data).1 = c := by
  unfold Writable at refused
  unfold handleUpdate findOrCreate
  cases found : c.GetStateBag id with
  | some bag =>
    simp only [found] at refused ⊢
    rw [if_neg refused]
  | none =>
    simp only [found] at refused ⊢
    rw [if_neg refused]

theorem handlePacketRead {dataRaw : List Byte} (read : Read dataRaw id key data) :
    c.HandlePacket handlers source dataRaw = c.handleUpdate handlers source id key data := by
  rw [HandlePacket,readPacketIff.mpr read]

end Component
def HandlesStrictly (dataRaw : List Byte) : Prop :=
  ∀ (handlers : OnStateBagChange) (c : Component) (source : Int),
    (c.HandlePacket handlers source dataRaw).1 = c ∨
    ∃ id key value, Announced dataRaw id key value ∧ c.Writable source id ∧
      (c.HandlePacket handlers source dataRaw).1 = c.applied handlers source id key value

def allow : OnStateBagChange := fun _ _ _ _ _ => true

def other (value : Value) : Value := if value = ⟨0,[]⟩ then ⟨1,[]⟩ else ⟨0,[]⟩

def watched (key value : List Byte) : StateBag :=
  { StateBag.init .ClientV2 "" false ∅ {1} with m_data := (∅ : Table Key Value).insert (text key) (other (packed value)) }

def watching (id key value : List Byte) : Component :=
  ⟨.Server,∅,[],(Registry.init.RegisterStateBag (text id)).1,fun _ => ⟨watched key value,none⟩⟩

theorem otherHeld (value : Value) : some (other value) ≠ value.held := by
  unfold other Value.held Value.isNilData
  split
  · rename_i zero
    subst zero
    decide
  · rename_i zero
    split
    · simp
    · intro same
      exact zero (Option.some.inj same).symm

section
variable {id key value id' key' value' : List Byte}

theorem tellWatcher {d : Table Key Value} {k : Key} {v : Value} :
    (({ watched key value with m_data := d } : StateBag).replicate k v).output =
      if k = "" then [] else [.update 1 k v] := by
  simp [watched,StateBag.replicate,StateBag.init,StateBag.SendKeyValueToAllTargets,StateBag.emit,
    StateBag.toAllTargets,StateBag.targets,StateBag.SendKeyValue,StateBag.packet,StateBag.Carries]

theorem textNamed (named : key ≠ []) : text key ≠ "" :=
  fun empty => named (textInjective empty)

theorem watchedTold (named : key ≠ []) : ((watched key value).SetKeyInternal (text key) (packed value) true).output =
      [.update 1 (text key) (packed value)] := by
  rcases StateBag.setKeyCases (watched key value) (text key) (packed value) true with ⟨same,_⟩ | ⟨_,d,_,eq⟩
  · have found : (watched key value).m_data.lookup (text key) = some (other (packed value)) :=
      AList.lookup_insert _
    rw [found] at same
    exact absurd same (otherHeld _)
  · rw [eq,if_pos rfl,tellWatcher,if_neg (textNamed named)]

theorem watchedOutput (k : Key) (v : Value) : ((watched key value).SetKeyInternal k v true).output = [] ∨
      ((watched key value).SetKeyInternal k v true).output = [.update 1 k v] := by
  rcases StateBag.setKeyCases (watched key value) k v true with ⟨_,same⟩ | ⟨_,d,_,eq⟩
  · exact .inl (by rw [same]; rfl)
  · rw [eq,if_pos rfl,tellWatcher]
    by_cases unnamed : k = ""
    · exact .inl (if_pos unnamed)
    · exact .inr (if_neg unnamed)

theorem watchingFinds (name : List Byte) :
    (watching id key value).GetStateBag name = if name = id then some 0 else none := by
  have lookup : (watching id key value).registry.m_stateBags.lookup (text name) =
      if text name = text id then some 0 else none := Table.lookupInsert ..
  have alive : (watching id key value).registry.alive 0 = true := by
    simp [watching,Registry.RegisterStateBag,Registry.init,Registry.GetStateBag,Registry.alive,Registry.makeBag]
  rw [Component.GetStateBag,Registry.GetStateBag,lookup]
  by_cases same : name = id
  · rw [if_pos (congrArg text same),if_pos same,Option.filter_some,if_pos alive]
  · rw [if_neg (fun equal => same (textInjective equal)),if_neg same]
    rfl

theorem watchingWritable (source : Int) : (watching id key value).Writable source id := by
  unfold Component.Writable
  rw [watchingFinds,if_pos rfl]
  rfl

theorem watchingApplied {source : Int} {name k v : List Byte} (writable : (watching id key value).Writable source name) :
    name = id ∧ (((watching id key value).applied allow source name k v).bags 0).bag =
      (watched key value).SetKeyInternal (text k) (packed v) true := by
  unfold Component.Writable at writable
  unfold Component.applied
  rw [watchingFinds] at writable ⊢
  by_cases same : name = id
  · refine ⟨same,?_⟩
    rw [if_pos same]
    simp [Component.SetKey,watching,StateBag.SetKey,allow]
  · rw [if_neg same] at writable
    exact absurd writable (by simp [watching,Component.IsSafePreCreateName])

theorem watchingChanged (source : Int) (named : key ≠ []) :
    (watching id key value).applied allow source id key value ≠ watching id key value := by
  intro same
  obtain ⟨_,after⟩ := @watchingApplied id key value source id key value (watchingWritable source)
  rw [same] at after
  have told := congrArg StateBag.output after
  rw [watchedTold named] at told
  exact absurd told (by simp [watching,watched,StateBag.init])

theorem watchingExact {source : Int} (named : key ≠ []) (some : value ≠ []) (some' : value' ≠ [])
    (writable : (watching id key value).Writable source id')
    (same : (watching id key value).applied allow source id key value =
      (watching id key value).applied allow source id' key' value') : id' = id ∧ key' = key ∧ value' = value := by
  obtain ⟨_,there⟩ := @watchingApplied id key value source id key value (watchingWritable source)
  obtain ⟨name,here⟩ := @watchingApplied id key value source id' key' value' writable
  rw [← same,there] at here
  have outputs := congrArg StateBag.output here
  rw [watchedTold named] at outputs
  rcases @watchedOutput key value (text key') (packed value') with silent | told
  · rw [silent] at outputs
    contradiction
  · rw [told,List.singleton_inj] at outputs
    obtain ⟨_,keys,values⟩ := Output.update.inj outputs
    exact ⟨name,textInjective keys.symm,packedInjective some' some values.symm⟩

end

theorem strictUnlessMisread {dataRaw : List Byte} (sound : ¬Misread dataRaw) : HandlesStrictly dataRaw := by
  intro handlers c source
  cases read : readPacket dataRaw with
  | none => exact .inl (by rw [Component.HandlePacket,read])
  | some update =>
    obtain ⟨id,key,value⟩ := update
    have fields := readPacketIff.mp read
    rw [Component.handlePacketRead fields]
    by_cases writable : c.Writable source id
    · exact .inr ⟨id,key,value,fields.announced sound,writable,Component.handleUpdateWritable writable⟩
    · exact .inl (Component.handleUpdateRefused writable)

theorem looseOfMisread {dataRaw : List Byte} (misread : Misread dataRaw) : ¬HandlesStrictly dataRaw := by
  intro strict
  obtain ⟨id,key,value,read⟩ := misread.read
  obtain ⟨_,named,some⟩ := read.nonempty
  have after := strict allow (watching id key value) 0
  rw [Component.handlePacketRead read,Component.handleUpdateWritable (watchingWritable 0)] at after
  rcases after with same | ⟨id',key',value',whole,writable,same⟩
  · exact watchingChanged 0 named same
  · obtain ⟨rfl,rfl,rfl⟩ := watchingExact named some whole.some writable same
    exact read.unannounced misread whole

theorem strictUpdates (dataRaw : List Byte) : HandlesStrictly dataRaw ↔ ¬Misread dataRaw :=
  ⟨fun strict misread => looseOfMisread misread strict,strictUnlessMisread⟩

theorem cutKeyApplied : ¬HandlesStrictly [0,2,65,0,0,5,66,1,2] :=
  looseOfMisread ⟨by decide,by decide,by decide,.inr (.inl (by decide))⟩

end Citizen.Bags.Wire
