import Citizen.Security.TicketUse

/-! `VerifyTicket` and `VerifyTicketEx` with every read checked against the bytes it is of. -/
namespace Citizen.Security
open BitField (Byte)

def bytesAt (data : List Byte) (start size : Nat) : Option (List Byte) :=
  if start + size ≤ data.length then some (slice data start size) else none

def uint32Read (data : List Byte) (start : Nat) : Option (BitVec 32) :=
  (bytesAt data start 4).map (fun bytes => BitVec.ofNat 32 (LittleEndian.value bytes))

def uint64Read (data : List Byte) (start : Nat) : Option (BitVec 64) :=
  (bytesAt data start 8).map (fun bytes => BitVec.ofNat 64 (LittleEndian.value bytes))

def checkTicketAt (guid : Text) (ticketData : List Byte) (timeVal : BitVec 64) :
    Option (Except VerifyTicketResult (BitVec 32 × TicketId)) :=
  if ticketData.length < 20 + 4 + 128 then some (.error .InvalidLength)
  else do
    let length ← uint32Read ticketData 0
    if length ≠ 16 then some (.error .InvalidLength2)
    else
      let ticketGuid ← uint64Read ticketData 4
      let ticketExpiry ← uint64Read ticketData 12
      if ticketExpiry < timeVal then some (.error .Expired)
      else if strtoull guid ≠ ticketGuid then some (.error .MismatchingGUID)
      else some (.ok (length,(ticketExpiry,ticketGuid)))

section Verifying
variable {Key : Type} (botan : Botan Key)

def checkSignatureAt (ticketData : List Byte) (length : BitVec 32) (pk : Key) : Option VerifyTicketResult := do
  let sigLength ← uint32Read ticketData (length + 4).toNat
  if sigLength ≠ 128 then some .InvalidSignatureLength
  else
    let signed ← bytesAt ticketData 4 length.toNat
    let signature ← bytesAt ticketData (length + 4 + 4).toNat sigLength.toNat
    if botan.verify_message pk (2 :: botan.SHA_160 signed) signature = true then some .Success
    else some .InvalidSignature

def VerifyTicketAt (s : Tickets) (v : Verification Key) : Option (Tickets × Except Text VerifyTicketResult) :=
  match botan.base64_decode v.ticket with
  | .error what => some (s,.error what)
  | .ok ticketData => do
    match ← checkTicketAt v.guid ticketData v.times.timeVal with
    | .error result => some (s,.ok result)
    | .ok (length,id) =>
      match s.insert id v.times with
      | none => some (s,.ok .Reused)
      | some s =>
        let result ← checkSignatureAt botan ticketData length v.pk
        some (s,.ok result)

structure TicketData where
  entitlementHash : Option (List Byte)
  extraJson : Option (List Byte)
  deriving DecidableEq

def readExtra (extraData : List Byte) (length : Nat) : Option TicketData := do
  let entitlementHash ← if 20 ≤ length then (bytesAt extraData 0 20).map some else some none
  let extraJson ←
    if 24 ≤ length then do
      let extraJsonLength ← uint32Read extraData 20
      if (24 + extraJsonLength).toNat ≤ length then (bytesAt extraData 24 extraJsonLength.toNat).map some
      else some none
    else some none
  some ⟨entitlementHash,extraJson⟩

def VerifyTicketExAt (ticket : Text) (pk : Key) : Option (Except Text (Option TicketData)) :=
  match botan.base64_decode ticket with
  | .error what => some (.error what)
  | .ok ticketData =>
    if ticketData.length < 20 + 4 + 128 + 4 then some (.ok none)
    else do
      let lengthField ← uint32Read ticketData (20 + 4 + 128)
      let length := lengthField.toNat
      if ticketData.length < 20 + 4 + 128 + 4 + length then some (.ok none)
      else
        let extraData ← bytesAt ticketData (20 + 4 + 128 + 4) length
        let sigLength ← uint32Read ticketData (20 + 4 + 128 + 4 + length)
        if sigLength ≠ 128 then some (.ok none)
        else
          let signed ← bytesAt ticketData 4 (ticketData.length - 128 - 4 - 4)
          let signature ← bytesAt ticketData (length + 4 + 4 + 128 + 20 + 4) sigLength.toNat
          if botan.verify_message pk (2 :: botan.SHA_160 signed) signature = true then
            let outData ← readExtra extraData length
            some (.ok (some outData))
          else some (.ok none)

end Verifying

section
variable {data : List Byte}

theorem bytesInside {start size : Nat} (inside : start + size ≤ data.length) :
    bytesAt data start size = some (slice data start size) := if_pos inside

theorem uint32Inside {start : Nat} (inside : start + 4 ≤ data.length) :
    uint32Read data start = some (uint32At data start) := congrArg _ (bytesInside inside)

theorem uint32Outside {start : Nat} (outside : data.length < start + 4) :
    uint32Read data start = none := congrArg _ (if_neg (Nat.not_le.mpr outside))

theorem uint64Inside {start : Nat} (inside : start + 8 ≤ data.length) :
    uint64Read data start = some (uint64At data start) := congrArg _ (bytesInside inside)

end

theorem checkTicketRead (guid : Text) (data : List Byte) (timeVal : BitVec 64) :
    checkTicketAt guid data timeVal = some ((checkTicket guid data timeVal).map (fun id => (16,id))) := by
  unfold checkTicketAt checkTicket
  by_cases short : data.length < 20 + 4 + 128
  · rw [if_pos short,if_pos short]
    rfl
  · rw [if_neg short,if_neg short,uint32Inside (by omega),uint64Inside (by omega),uint64Inside (by omega)]
    by_cases length : uint32At data 0 = 16#32
    · by_cases expired : uint64At data 12 < timeVal
      · simp [length,expired,Except.map]
      · by_cases mismatch : strtoull guid = uint64At data 4
        · simp [length,expired,mismatch,Except.map]
        · simp [length,expired,mismatch,Except.map]
    · simp [length,Except.map]

structure TicketFits (data : List Byte) : Prop where
  size : 20 + 4 + 128 ≤ data.length
  signed : uint32At data 0 = 16
  signature : uint32At data (16 + 4) = 128

def exLength (data : List Byte) : Nat := (uint32At data (20 + 4 + 128)).toNat

def exData (data : List Byte) : List Byte := slice data (20 + 4 + 128 + 4) (exLength data)

structure TicketExFits (data : List Byte) : Prop where
  header : 20 + 4 + 128 + 4 ≤ data.length
  size : 20 + 4 + 128 + 4 + exLength data + 4 + 128 ≤ data.length
  signature : uint32At data (20 + 4 + 128 + 4 + exLength data) = 128
  json : 24 ≤ exLength data → 24 + (uint32At (exData data) 20).toNat ≤ exLength data

section Verified
variable {Key : Type} (botan : Botan Key)

def exSigned (data : List Byte) (pk : Key) : Bool :=
  botan.verify_message pk (2 :: botan.SHA_160 (slice data 4 (data.length - 128 - 4 - 4)))
    (slice data (exLength data + 4 + 4 + 128 + 20 + 4) 128)

variable {data : List Byte}

theorem checkSignatureRead (size : 20 + 4 + 128 ≤ data.length) (pk : Key) :
    checkSignatureAt botan data 16 pk = some (checkSignature botan data pk) := by
  unfold checkSignatureAt checkSignature
  have first : (16 + 4 : BitVec 32).toNat = 16 + 4 := rfl
  have last : (16 + 4 + 4 : BitVec 32).toNat = 16 + 4 + 4 := rfl
  have signed : (16 : BitVec 32).toNat = 16 := rfl
  rw [first,last,signed,uint32Inside (by omega)]
  by_cases sigLength : uint32At data (16 + 4) = 128#32
  · have width : (128#32).toNat = 128 := rfl
    have bytes := @bytesInside data 4 16 (by omega)
    have signature := @bytesInside data (16 + 4 + 4) 128 (by omega)
    simp [sigLength,width,bytes,signature,apply_ite some]
  · simp [sigLength]

theorem verifyTicketRead (s : Tickets) (v : Verification Key) : VerifyTicketAt botan s v = some (VerifyTicket botan s v) := by
  unfold VerifyTicketAt VerifyTicket
  cases botan.base64_decode v.ticket with
  | error what => rfl
  | ok data =>
    dsimp only
    rw [checkTicketRead]
    cases checked : checkTicket v.guid data v.times.timeVal with
    | error result => rfl
    | ok id =>
      cases inserted : s.insert id v.times with
      | none => simp [Except.map,inserted]
      | some later =>
        have size : 20 + 4 + 128 ≤ data.length := by
          by_contra short
          unfold checkTicket at checked
          rw [if_pos (Nat.lt_of_not_le short)] at checked
          cases checked
        have verified : checkSignatureAt botan data 16#32 v.pk = _ := checkSignatureRead botan size v.pk
        simp [Except.map,inserted,verified]

theorem verifyTicketFits {s : Tickets} {v : Verification Key}
    (decoded : botan.base64_decode v.ticket = .ok data) (success : (VerifyTicket botan s v).2 = .ok .Success) :
    TicketFits data := by
  unfold VerifyTicket at success
  rw [decoded] at success
  dsimp only at success
  split at success
  · rename_i result refused
    cases success
    exact absurd rfl (TicketHistory.checkTicketError refused).1
  · rename_i id checked
    split at success
    · cases success
    · have signed := Except.ok.inj success
      have size : 20 + 4 + 128 ≤ data.length ∧ uint32At data 0 = 16 := by
        unfold checkTicket at checked
        split at checked
        · cases checked
        · split at checked
          · cases checked
          · exact ⟨by omega,not_not.mp (by assumption)⟩
      refine ⟨size.1,size.2,?_⟩
      unfold checkSignature at signed
      by_contra other
      rw [if_pos other] at signed
      cases signed

def ExSafe (data : List Byte) (pk : Key) : Prop :=
  data.length < 20 + 4 + 128 + 4 + exLength data ∨
  (20 + 4 + 128 + 4 + exLength data + 4 ≤ data.length ∧
    (uint32At data (20 + 4 + 128 + 4 + exLength data) ≠ 128 ∨
      (20 + 4 + 128 + 4 + exLength data + 4 + 128 ≤ data.length ∧
        (exSigned botan data pk = false ∨ (24 ≤ exLength data → 24 + (uint32At (exData data) 20).toNat ≤ exLength data)))))

theorem readExtraFits (size : (exData data).length = exLength data)
    (fits : 24 ≤ exLength data → 24 + (uint32At (exData data) 20).toNat ≤ exLength data) :
    ∃ outData, readExtra (exData data) (exLength data) = some outData := by
  unfold readExtra
  by_cases hash : 20 ≤ exLength data
  · by_cases json : 24 ≤ exLength data
    · have inside := fits json
      have wrapped : (24 + (uint32At (exData data) 20).toNat) % 4294967296 ≤ exLength data :=
        (Nat.mod_le _ _).trans inside
      have field := @uint32Inside (exData data) 20 (by omega)
      have first := @bytesInside (exData data) 0 20 (by omega)
      have rest := @bytesInside (exData data) 24 (uint32At (exData data) 20).toNat (by omega)
      simp [hash,json,field,first,rest,wrapped]
    · have first := @bytesInside (exData data) 0 20 (by omega)
      simp [hash,json,first]
  · have json : ¬24 ≤ exLength data := by omega
    simp [hash,json]

theorem verifyTicketExSafe {ticket : Text} {pk : Key} (decoded : botan.base64_decode ticket = .ok data) :
    (∃ result, VerifyTicketExAt botan ticket pk = some result ∧ (¬TicketExFits data → result = .ok none)) ↔
      ExSafe botan data pk := by
  unfold VerifyTicketExAt ExSafe
  rw [decoded]
  dsimp only
  by_cases header : data.length < 20 + 4 + 128 + 4
  · rw [if_pos header]
    exact ⟨fun _ => .inl (by omega),fun _ => ⟨_,rfl,fun _ => rfl⟩⟩
  rw [if_neg header,uint32Inside (by omega)]
  have length : (uint32At data (20 + 4 + 128)).toNat = exLength data := rfl
  simp only [Option.bind_eq_bind,Option.bind_some,length]
  by_cases size : data.length < 20 + 4 + 128 + 4 + exLength data
  · rw [if_pos size]
    exact ⟨fun _ => .inl size,fun _ => ⟨_,rfl,fun _ => rfl⟩⟩
  rw [if_neg size,bytesInside (by omega)]
  by_cases field : 20 + 4 + 128 + 4 + exLength data + 4 ≤ data.length
  · rw [uint32Inside (by omega)]
    rw [Option.bind_some,Option.bind_some]
    by_cases signature : uint32At data (20 + 4 + 128 + 4 + exLength data) = 128
    · have width : (uint32At data (20 + 4 + 128 + 4 + exLength data)).toNat = 128 := by rw [signature]; rfl
      rw [if_neg (not_not.mpr signature),bytesInside (by omega),Option.bind_some,width]
      by_cases whole : 20 + 4 + 128 + 4 + exLength data + 4 + 128 ≤ data.length
      · rw [@bytesInside data (exLength data + 4 + 4 + 128 + 20 + 4) 128 (by omega),Option.bind_some]
        change (∃ result, (if exSigned botan data pk = true then _ else _) = _ ∧ _) ↔ _
        by_cases valid : exSigned botan data pk = true
        · rw [if_pos valid]
          by_cases json : 24 ≤ exLength data → 24 + (uint32At (exData data) 20).toNat ≤ exLength data
          · have exSize : (exData data).length = exLength data := by
              unfold exData slice
              rw [List.length_take,List.length_drop]
              omega
            obtain ⟨outData,read⟩ := readExtraFits exSize json
            have fits : TicketExFits data := ⟨by omega,whole,signature,json⟩
            refine ⟨fun _ => .inr ⟨field,.inr ⟨whole,.inr json⟩⟩,fun _ => ⟨.ok (some outData),?_,fun unfit => absurd fits unfit⟩⟩
            exact congrArg (Option.bind · _) read
          · constructor
            · rintro ⟨result,read,refused⟩
              rw [refused (fun fits => json fits.json)] at read
              obtain ⟨outData,_,same⟩ := Option.bind_eq_some_iff.mp read
              cases same
            · intro safe
              rcases (((safe.resolve_left size).2.resolve_left (fun other => other signature)).2) with invalid | fits
              · exact absurd valid (Bool.eq_false_iff.mp invalid)
              · exact absurd fits json
        · rw [if_neg valid]
          exact ⟨fun _ => .inr ⟨field,.inr ⟨whole,.inl (Bool.eq_false_iff.mpr valid)⟩⟩,fun _ => ⟨_,rfl,fun _ => rfl⟩⟩
      · have last : bytesAt data (exLength data + 4 + 4 + 128 + 20 + 4) 128 = none := if_neg (by omega)
        rw [last]
        refine ⟨(fun ⟨_,read,_⟩ => nomatch read),fun safe => ?_⟩
        exact absurd (((safe.resolve_left size).2.resolve_left (fun other => other signature)).1) whole
    · rw [if_pos signature]
      exact ⟨fun _ => .inr ⟨field,.inl signature⟩,fun _ => ⟨_,rfl,fun _ => rfl⟩⟩
  · rw [uint32Outside (Nat.lt_of_not_le field)]
    exact ⟨(fun ⟨_,read,_⟩ => nomatch read),fun safe => absurd (safe.resolve_left size).1 field⟩

/-- `VerifyTicket` reads nothing outside a ticket and accepts none whose lengths do not fit;
`VerifyTicketEx` does so exactly for the tickets that are `ExSafe`. -/
theorem ticketReads (s : Tickets) (v : Verification Key) (ticket : Text) (pk : Key) :
    VerifyTicketAt botan s v = some (VerifyTicket botan s v) ∧
    (∀ data, botan.base64_decode v.ticket = .ok data → ¬TicketFits data → (VerifyTicket botan s v).2 ≠ .ok .Success) ∧
    ((∃ result, VerifyTicketExAt botan ticket pk = some result ∧
        ∀ data, botan.base64_decode ticket = .ok data → ¬TicketExFits data → result = .ok none) ↔
      ∀ data, botan.base64_decode ticket = .ok data → ExSafe botan data pk) := by
  refine ⟨verifyTicketRead botan s v,fun data decoded unfit success => unfit (verifyTicketFits botan decoded success),?_⟩
  cases decoded : botan.base64_decode ticket with
  | error what =>
    refine ⟨fun _ => nofun,fun _ => ⟨.error what,?_,nofun⟩⟩
    unfold VerifyTicketExAt
    rw [decoded]
  | ok data =>
    have only {p : List Byte → Prop} : (∀ d, Except.ok data = (Except.ok d : Except Text _) → p d) ↔ p data :=
      ⟨fun all => all data rfl,fun here d same => Except.ok.inj same ▸ here⟩
    simp only [only]
    exact verifyTicketExSafe botan decoded

end Verified

def trusting : Botan Unit := ⟨.ok,id,fun _ _ _ => true⟩

def cutTicket : List Byte := List.replicate 156 0

def wrappingTicket : List Byte :=
  List.replicate 152 0 ++ [24,0,0,0] ++ List.replicate 20 0 ++ [255,255,255,255] ++ [128,0,0,0] ++ List.replicate 128 0

theorem ticketsOverread : VerifyTicketExAt trusting cutTicket () = none ∧ VerifyTicketExAt trusting wrappingTicket () = none := by
  decide +kernel

end Citizen.Security
