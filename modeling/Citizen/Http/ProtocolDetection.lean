import Citizen.Lib.Text
import Citizen.Net.Multiplex

/-! The servers that `HttpServerManager` puts on a TCP endpoint, and which first bytes they are told by. -/
namespace Citizen.Http
open BitField (Byte)
open Net (MultiplexPatternMatchResult MultiplexPatternMatchFn)
open Net.Multiplex

inductive ProtocolServer where
  | m_httpServer
  | tlsServer
  deriving DecidableEq

def isMethodByte (b : Byte) : Bool := byte 'A' ≤ b && b ≤ byte 'Z' || b = byte '-'

def startsWithLetter (bytes : List Byte) : Bool := byte 'A' ≤ bytes.headD 0 && bytes.headD 0 ≤ byte 'Z'

def endsWithVersion (bytes : List Byte) (firstR : Nat) : Bool :=
  (text "HTTP/").isPrefixOf ((bytes.drop (firstR - 8)).take 8)

def httpPatternMatcher : MultiplexPatternMatchFn := fun bytes =>
  if 10 < bytes.length then
    let firstR := bytes.findIdx (fun b => b = byte '\r')
    if firstR + 1 < bytes.length then
      if bytes[firstR + 1]? = some (byte '\n') then
        -- `firstR - 8` is in front of the first byte
        if firstR < 8 then none
        else some (if endsWithVersion bytes firstR then .Match else .NoMatch)
      else some .NoMatch
    else if 4096 < bytes.length then some .NoMatch
    else
      let spacePos := bytes.findIdx (fun b => b = byte ' ')
      if 64 < spacePos then some .NoMatch
      else if startsWithLetter bytes = false then some .NoMatch
      else if (bytes.take spacePos).all isMethodByte = false then some .NoMatch
      else some .InsufficientData
  else some .InsufficientData

def isClientHello (bytes : List Byte) : Bool := bytes[0]? = some 0x16 && bytes[5]? = some 1

def tlsPatternMatcher : MultiplexPatternMatchFn := fun bytes =>
  if 6 ≤ bytes.length then some (if isClientHello bytes then .Match else .NoMatch)
  else some .InsufficientData

def childServers : List (ProtocolServer × MultiplexPatternMatchFn) :=
  [(.m_httpServer,httpPatternMatcher),(.tlsServer,tlsPatternMatcher)]

def LineEndsAt (bytes : List Byte) (firstR : Nat) : Prop :=
  10 < bytes.length ∧ bytes.findIdx (fun b => b = byte '\r') = firstR ∧ bytes[firstR + 1]? = some (byte '\n')

def MethodFirst (bytes : List Byte) (firstR : Nat) : Prop :=
  firstR < 4096 ∧ startsWithLetter bytes = true ∧ bytes.findIdx (fun b => b = byte ' ') ≤ 64 ∧
    bytes.findIdx (fun b => b = byte ' ') < firstR ∧
    (bytes.take (bytes.findIdx (fun b => b = byte ' '))).all isMethodByte = true

/-- The first line has eight bytes or more, and where it ends as a request line does, it starts as one and the bytes
are no TLS record. Shorter lines with a version are whole when they are looked at. -/
def ToldApart (bytes : List Byte) : Prop :=
  ∀ firstR, LineEndsAt bytes firstR → 8 ≤ firstR ∧
    (endsWithVersion bytes firstR = true → isClientHello bytes = false ∧ (10 ≤ firstR → MethodFirst bytes firstR))

section
variable {bytes : List Byte} {n firstR : Nat}

theorem helloTake (large : 6 ≤ n) : isClientHello (bytes.take n) = isClientHello bytes := by
  unfold isClientHello
  rw [List.getElem?_take_of_lt (by omega),List.getElem?_take_of_lt (by omega)]

theorem letterTake (positive : 0 < n) : startsWithLetter (bytes.take n) = startsWithLetter bytes := by
  cases bytes with
  | nil => simp
  | cons b rest =>
    cases n with
    | zero => cases positive
    | succ n => rfl

theorem versionTake (large : firstR < n) (far : 8 ≤ firstR) :
    endsWithVersion (bytes.take n) firstR = endsWithVersion bytes firstR := by
  unfold endsWithVersion
  rw [List.drop_take,List.take_take,min_eq_left (by omega)]

theorem httpTake (large : 10 < n) (few : n ≤ bytes.length) : httpPatternMatcher (bytes.take n) =
    if bytes.findIdx (fun b => b = byte '\r') + 1 < n then
      if bytes[bytes.findIdx (fun b => b = byte '\r') + 1]? = some (byte '\n') then
        if bytes.findIdx (fun b => b = byte '\r') < 8 then none
        else some (if endsWithVersion bytes (bytes.findIdx (fun b => b = byte '\r')) then .Match else .NoMatch)
      else some .NoMatch
    else if 4096 < n then some .NoMatch
    else if 64 < min n (bytes.findIdx (fun b => b = byte ' ')) then some .NoMatch
    else if startsWithLetter bytes = false then some .NoMatch
    else if (bytes.take (min n (bytes.findIdx (fun b => b = byte ' ')))).all isMethodByte = false then some .NoMatch
    else some .InsufficientData := by
  have length : (bytes.take n).length = n := List.length_take_of_le few
  unfold httpPatternMatcher
  simp only [length,if_pos large,List.findIdx_take]
  generalize bytes.findIdx (fun b => b = byte '\r') = firstR
  by_cases line : firstR + 1 < n
  · rw [min_eq_right (by omega),if_pos line,if_pos line,List.getElem?_take_of_lt line]
    by_cases short : firstR < 8
    · simp [short]
    · rw [versionTake (by omega) (not_lt.mp short)]
  · have atEnd : ¬min n firstR + 1 < n := by omega
    rw [if_neg atEnd,if_neg line,letterTake (by omega),List.take_take,
      min_eq_left (Nat.min_le_left n (bytes.findIdx (fun b => b = byte ' ')))]

theorem detectFew (bytes : List Byte) (small : n ≤ 10) (few : n ≤ bytes.length) :
    detect (bytes.take n) false childServers =
      some (if 6 ≤ n ∧ isClientHello bytes = true then .attached .tlsServer else .wait) := by
  have length : (bytes.take n).length = n := List.length_take_of_le few
  simp only [childServers,detect,httpPatternMatcher,tlsPatternMatcher,length,if_neg (not_lt.mpr small)]
  by_cases large : 6 ≤ n
  · rw [if_pos large,helloTake large]
    cases isClientHello bytes <;> simp [large]
  · simp [large]

theorem detectMany (bytes : List Byte) (large : 10 < n) (few : n ≤ bytes.length) :
    detect (bytes.take n) false childServers =
      (httpPatternMatcher (bytes.take n)).map (fun http =>
        match http with
        | .Match => .attached .m_httpServer
        | .InsufficientData => if isClientHello bytes then .attached .tlsServer else .wait
        | .NoMatch => if isClientHello bytes then .attached .tlsServer else .close) := by
  have length : (bytes.take n).length = n := List.length_take_of_le few
  simp only [childServers,detect,tlsPatternMatcher,length,if_pos (by omega : 6 ≤ n),helloTake (by omega : 6 ≤ n)]
  cases httpPatternMatcher (bytes.take n) with
  | none => rfl
  | some http =>
    cases http <;> cases isClientHello bytes <;> rfl

theorem takeAll : bytes.take bytes.length = bytes := List.take_length

theorem lineEnd (line : LineEndsAt bytes firstR) : firstR + 1 < bytes.length := by
  by_contra beyond
  have absent : bytes[firstR + 1]? = none := List.getElem?_eq_none (not_lt.mp beyond)
  rw [line.2.2] at absent
  cases absent

theorem httpLine (line : LineEndsAt bytes firstR) (large : 10 < n) (past : firstR + 1 < n) (few : n ≤ bytes.length) :
    httpPatternMatcher (bytes.take n) =
      if firstR < 8 then none else some (if endsWithVersion bytes firstR then .Match else .NoMatch) := by
  obtain ⟨_,rfl,feed⟩ := line
  rw [httpTake large few,if_pos past,if_pos feed]

theorem httpMatched (large : 10 < n) (few : n ≤ bytes.length) (matched : httpPatternMatcher (bytes.take n) = some .Match) :
    ∃ firstR, LineEndsAt bytes firstR ∧ firstR + 1 < n ∧ endsWithVersion bytes firstR = true := by
  rw [httpTake large few] at matched
  split at matched
  · rename_i past
    split at matched
    · rename_i feed
      refine ⟨_,⟨by omega,rfl,feed⟩,past,?_⟩
      split at matched
      · cases matched
      · split at matched
        · assumption
        · cases matched
    · cases matched
  · split at matched <;> try cases matched
    split at matched <;> try cases matched
    split at matched <;> try cases matched
    split at matched <;> cases matched

theorem httpOutside (large : 10 < n) (few : n ≤ bytes.length) (outside : httpPatternMatcher (bytes.take n) = none) :
    ∃ firstR, LineEndsAt bytes firstR ∧ firstR < 8 := by
  rw [httpTake large few] at outside
  split at outside
  · split at outside
    · rename_i feed
      split at outside
      · rename_i short
        exact ⟨_,⟨by omega,rfl,feed⟩,short⟩
      · cases outside
    · cases outside
  · split at outside <;> try cases outside
    split at outside <;> try cases outside
    split at outside <;> try cases outside
    split at outside <;> cases outside

theorem httpWaits (line : LineEndsAt bytes firstR) (first : MethodFirst bytes firstR) (large : 10 < n)
    (before : n ≤ firstR + 1) : httpPatternMatcher (bytes.take n) = some .InsufficientData := by
  obtain ⟨short,letter,space,inside,method⟩ := first
  have few := lineEnd line
  obtain ⟨_,rfl,_⟩ := line
  have methods : (bytes.take (min n (bytes.findIdx (fun b => b = byte ' ')))).all isMethodByte = true := by
    rw [List.all_eq_true] at method ⊢
    intro b mem
    rw [← List.take_take] at mem
    exact method b ((List.take_sublist n _).subset mem)
  rw [httpTake large (by omega),if_neg (by omega),if_neg (by omega),if_neg (by omega),if_neg (by simp [letter]),
    if_neg (by simp [methods])]

theorem httpWaited (line : LineEndsAt bytes firstR) (large : 10 ≤ firstR)
    (waits : httpPatternMatcher (bytes.take (firstR + 1)) ≠ some .NoMatch) : MethodFirst bytes firstR := by
  have few := lineEnd line
  obtain ⟨_,rfl,_⟩ := line
  rw [httpTake (by omega) (by omega),if_neg (by omega)] at waits
  simp only [ne_eq,ite_eq_left_iff,not_forall,exists_prop,not_lt,Bool.not_eq_false] at waits
  obtain ⟨short,space,letter,method,_⟩ := waits
  have inside : bytes.findIdx (fun b => b = byte ' ') < bytes.findIdx (fun b => b = byte '\r') := by
    by_contra beyond
    have cr : bytes.findIdx (fun b => b = byte '\r') < bytes.length := by omega
    have isCr := List.findIdx_getElem (w := cr)
    have apart : bytes.findIdx (fun b => b = byte ' ') ≠ bytes.findIdx (fun b => b = byte '\r') := by
      intro same
      have isSpace := List.findIdx_getElem (w := (same ▸ cr : bytes.findIdx (fun b => b = byte ' ') < bytes.length))
      simp only [same,decide_eq_true_eq] at isSpace isCr
      rw [isSpace] at isCr
      exact absurd isCr (by decide)
    have mem : byte '\r' ∈ bytes.take (min (bytes.findIdx (fun b => b = byte '\r') + 1) (bytes.findIdx (fun b => b = byte ' '))) := by
      rw [List.mem_take_iff_getElem]
      exact ⟨bytes.findIdx (fun b => b = byte '\r'),by omega,of_decide_eq_true isCr⟩
    exact absurd (List.all_eq_true.mp method _ mem) (by decide)
  rw [min_eq_right (by omega)] at space method
  exact ⟨by omega,letter,space,inside,method⟩

theorem httpNever (apart : ToldApart bytes) (large : 10 < n) (few : n ≤ bytes.length) :
    httpPatternMatcher (bytes.take n) ≠ none := by
  intro outside
  obtain ⟨firstR,line,short⟩ := httpOutside large few outside
  exact absurd (apart firstR line).1 (not_le_of_gt short)

theorem helloKept (apart : ToldApart bytes) (large : 6 ≤ n) (few : n ≤ bytes.length) (hello : isClientHello bytes = true) :
    detect (bytes.take n) false childServers = some (.attached .tlsServer) := by
  by_cases many : 10 < n
  · rw [detectMany _ many few]
    cases http : httpPatternMatcher (bytes.take n) with
    | none => exact absurd http (httpNever apart many few)
    | some result =>
      cases result with
      | Match =>
        obtain ⟨firstR,line,_,version⟩ := httpMatched many few http
        rw [((apart firstR line).2 version).1] at hello
        cases hello
      | NoMatch => simp [hello]
      | InsufficientData => simp [hello]
  · rw [detectFew _ (not_lt.mp many) few,if_pos ⟨large,hello⟩]

theorem settlesApart (apart : ToldApart bytes) (positive : 0 < n) (few : n ≤ bytes.length) :
    Settles childServers bytes n := by
  unfold Settles
  cases hello : isClientHello bytes with
  | true =>
    by_cases large : 6 ≤ n
    · refine ⟨_,helloKept apart large few hello,.inr (fun s => ?_)⟩
      have whole := helloKept apart (large.trans few) le_rfl hello
      rw [takeAll] at whole
      rw [whole,Option.some.injEq]
    · exact ⟨_,by rw [detectFew _ (by omega) few,if_neg (by simp [large])],.inl rfl⟩
  | false =>
    by_cases large : 10 < n
    · rw [detectMany _ large few]
      have whole := detectMany bytes (large.trans_le few) le_rfl
      rw [takeAll] at whole
      cases early : httpPatternMatcher (bytes.take n) with
      | none => exact absurd early (httpNever apart large few)
      | some result =>
        refine ⟨_,rfl,?_⟩
        cases result with
        | InsufficientData => exact .inl (by simp [hello])
        | Match =>
          obtain ⟨firstR,line,past,version⟩ := httpMatched large few early
          have last := httpLine line (large.trans_le few) (past.trans_le few) le_rfl
          rw [takeAll,if_neg (not_lt.mpr (apart firstR line).1),if_pos version] at last
          exact .inr (fun s => by rw [whole,last,Option.map_some,Option.some.injEq])
        | NoMatch =>
          refine .inr (fun s => ?_)
          simp only [hello,Bool.false_eq_true,if_false,reduceCtorEq,false_iff]
          intro attached
          rw [whole] at attached
          obtain ⟨http,last,result⟩ := Option.map_eq_some_iff.mp attached
          cases http with
          | NoMatch => simp [hello] at result
          | InsufficientData => simp [hello] at result
          | Match =>
            have last' : httpPatternMatcher (bytes.take bytes.length) = some .Match := by rw [takeAll,last]
            obtain ⟨firstR,line,_,version⟩ := httpMatched (large.trans_le few) le_rfl last'
            by_cases past : firstR + 1 < n
            · have matched := httpLine line large past few
              rw [if_neg (not_lt.mpr (apart firstR line).1),if_pos version,early] at matched
              cases matched
            · have waits := httpWaits line (((apart firstR line).2 version).2 (by omega)) large (by omega)
              rw [early] at waits
              cases waits
    · exact ⟨_,by rw [detectFew _ (not_lt.mp large) few,if_neg (by simp [hello])],.inl rfl⟩

theorem detectionAlike (bytes : List Byte) : Alike childServers bytes ↔ ToldApart bytes := by
  rw [alikeIff]
  constructor
  · intro settles firstR line
    have many := line.1
    have past := lineEnd line
    obtain ⟨whole,detected,_⟩ := settles bytes.length (by omega) le_rfl
    rw [detectMany _ many le_rfl,httpLine line many past le_rfl] at detected
    have far : 8 ≤ firstR := by
      by_contra short
      rw [if_pos (not_le.mp short)] at detected
      cases detected
    refine ⟨far,fun version => ?_⟩
    have last : detect bytes false childServers = some (.attached .m_httpServer) := by
      have last := detectMany bytes many le_rfl
      rwa [httpLine line many past le_rfl,if_neg (not_lt.mpr far),if_pos version,takeAll] at last
    have agreed {n : Nat} {early : Detected ProtocolServer} (positive : 0 < n) (few : n ≤ bytes.length)
        (early' : detect (bytes.take n) false childServers = some early) :
        early = .wait ∨ early = .attached .m_httpServer := by
      obtain ⟨found,result,settled⟩ := settles n positive few
      rw [early'] at result
      cases result
      exact settled.imp_right (fun same => (same _).mpr last)
    have noHello : isClientHello bytes = false := by
      by_contra hello
      rw [Bool.not_eq_false] at hello
      have early := detectFew bytes (by decide : 6 ≤ 10) (by omega)
      rw [if_pos ⟨le_rfl,hello⟩] at early
      have none_ := agreed (by decide) (by omega) early
      simp at none_
    refine ⟨noHello,fun large => httpWaited line large (fun refused => ?_)⟩
    have early := detectMany bytes (by omega : 10 < firstR + 1) (by omega)
    rw [refused] at early
    have none_ := agreed (by omega) (by omega) early
    simp [noHello] at none_
  · exact fun apart n positive few => settlesApart apart positive few

theorem cutRequests : receive childServers (.detecting []) [text "GET /\r\nHost"] = none ∧
      receive childServers (.detecting []) [text "get /index.html HTTP/1.1\r\n"] =
        some (.attached .m_httpServer (text "get /index.html HTTP/1.1\r\n")) ∧
      receive childServers (.detecting []) [text "get /index.",text "html HTTP/1.1\r\n"] = some .closed := by
  decide

end
end Citizen.Http
