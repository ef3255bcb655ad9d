import Citizen.Lib.LittleEndian

/-! The worker connections of `ReverseTcpServer`: control messages in frames, and then a stream. -/
namespace Citizen.Net.ReverseTcp
open BitField (Byte)

section
variable (starts : List Byte → Bool)

structure Received where
  messages : List (List Byte)
  m_readQueue : List Byte
  proceeds : Bool

/-- `starts` tells of which messages `OnMessage` makes a stream of the connection. The sum that the size is compared with has 32 bits. -/
def ReceivedData (m_readQueue : List Byte) : Option Received :=
  if 4 ≤ m_readQueue.length then
    let msgLength := LittleEndian.value (m_readQueue.take 4)
    if (msgLength + 4) % 2 ^ 32 ≤ m_readQueue.length then
      if msgLength + 4 ≤ m_readQueue.length then
        let rxbuf := (m_readQueue.take (msgLength + 4)).drop 4
        if starts rxbuf then some ⟨[rxbuf],m_readQueue.drop (msgLength + 4),false⟩
        else (ReceivedData (m_readQueue.drop (msgLength + 4))).map
          (fun later => { later with messages := rxbuf :: later.messages })
      else none
    else some ⟨[],m_readQueue,true⟩
  else some ⟨[],m_readQueue,true⟩
termination_by m_readQueue.length
decreasing_by rw [List.length_drop]; omega

structure WorkerConnection where
  m_readQueue : List Byte
  messages : List (List Byte)
  stream : Option (List Byte)

def WorkerConnection.DataEvent (c : WorkerConnection) (data : List Byte) : Option WorkerConnection :=
  match c.stream with
  | none => (ReceivedData starts (c.m_readQueue ++ data)).map (fun received =>
      if received.proceeds then ⟨received.m_readQueue,c.messages ++ received.messages,none⟩
      else ⟨[],c.messages ++ received.messages,some received.m_readQueue⟩)
  | some consumed => some { c with stream := some (consumed ++ data) }

def receive (reads : List (List Byte)) : Option WorkerConnection :=
  reads.foldlM (WorkerConnection.DataEvent starts) ⟨[],[],none⟩

end

def frame (message : List Byte) : List Byte := LittleEndian.bytes 4 message.length ++ message

def Part (rest : List Byte) : Prop := rest.length < 4 ∨ rest.length < LittleEndian.value (rest.take 4) + 4

inductive Carries (starts : List Byte → Bool) : List Byte → List (List Byte) → Option (List Byte) → Prop where
  | part {rest : List Byte} (short : Part rest) : Carries starts rest [] none
  | control {message rest messages stream} (fits : message.length < 2 ^ 32) (stays : starts message = false)
      (later : Carries starts rest messages stream) : Carries starts (frame message ++ rest) (message :: messages) stream
  | start {message : List Byte} {rest : List Byte} (fits : message.length < 2 ^ 32) (begins : starts message = true) :
      Carries starts (frame message ++ rest) [message] (some rest)

def Controls (starts : List Byte → Bool) (messages : List (List Byte)) : Prop :=
  ∀ message ∈ messages, message.length < 2 ^ 32 ∧ starts message = false

def HeadersFit (starts : List Byte → Bool) (bytes : List Byte) : Prop :=
  ∀ messages rest, bytes = messages.flatMap frame ++ rest → Controls starts messages → 4 ≤ rest.length →
    LittleEndian.value (rest.take 4) < 2 ^ 32 - 4

variable {starts : List Byte → Bool} {bytes rest more message : List Byte} {messages : List (List Byte)}
  {stream : Option (List Byte)} {c c' : WorkerConnection}

@[simp] theorem frameLength (message : List Byte) : (frame message).length = message.length + 4 := by
  rw [frame,List.length_append,LittleEndian.bytesLength,Nat.add_comm]

theorem frameHeader (rest : List Byte) (fits : message.length < 2 ^ 32) :
    LittleEndian.value ((frame message ++ rest).take 4) = message.length := by
  have header : (frame message ++ rest).take 4 = LittleEndian.bytes 4 message.length := by
    rw [frame,List.append_assoc]
    exact List.take_left' (LittleEndian.bytesLength 4 _)
  rw [header,LittleEndian.valueBytesSmall (by omega)]

theorem framed (header : 4 ≤ bytes.length) (whole : LittleEndian.value (bytes.take 4) + 4 ≤ bytes.length) :
    ∃ message rest, bytes = frame message ++ rest ∧ message.length < 2 ^ 32 := by
  have few : (bytes.take 4).length = 4 := by rw [List.length_take]; omega
  have small := LittleEndian.valueSmall (bytes.take 4)
  rw [few] at small
  refine ⟨(bytes.drop 4).take (LittleEndian.value (bytes.take 4)),
    (bytes.drop 4).drop (LittleEndian.value (bytes.take 4)),?_,?_⟩
  · have length : ((bytes.drop 4).take (LittleEndian.value (bytes.take 4))).length = LittleEndian.value (bytes.take 4) := by
      rw [List.length_take,List.length_drop]
      omega
    have first := LittleEndian.bytesValue (bytes.take 4)
    rw [few] at first
    rw [frame,length,first,List.append_assoc,List.take_append_drop,List.take_append_drop]
  · rw [List.length_take]
    omega

theorem partSmall (short : Part bytes) (header : 4 ≤ bytes.length) :
    bytes.length < LittleEndian.value (bytes.take 4) + 4 := by
  rcases short with few | short
  · exact absurd header (not_le_of_gt few)
  · exact short

theorem frameWhole (fits : message.length < 2 ^ 32) : ¬Part (frame message ++ rest) := by
  intro short
  have small := partSmall short (by rw [List.length_append,frameLength]; omega)
  rw [frameHeader _ fits,List.length_append,frameLength] at small
  omega

theorem frameUnique {other other' : List Byte} (fits : message.length < 2 ^ 32) (fits' : other.length < 2 ^ 32)
    (same : frame message ++ rest = frame other ++ other') : message = other ∧ rest = other' := by
  have length : message.length = other.length := by
    rw [← frameHeader rest fits,same,frameHeader other' fits']
  obtain ⟨first,last⟩ := List.append_inj same (by rw [frameLength,frameLength,length])
  rw [frame,frame,length] at first
  exact ⟨List.append_cancel_left first,last⟩

theorem carriesOne {messages' stream'} (first : Carries starts bytes messages stream)
    (second : Carries starts bytes messages' stream') : messages = messages' ∧ stream = stream' := by
  induction first generalizing messages' stream' with
  | part short =>
    cases second with
    | part _ => exact ⟨rfl,rfl⟩
    | control fits _ _ => exact absurd short (frameWhole fits)
    | start fits _ => exact absurd short (frameWhole fits)
  | control fits stays _ ih =>
    generalize whole : frame _ ++ _ = bytes at second
    cases second with
    | part short => exact absurd (whole ▸ short) (frameWhole fits)
    | control fits' _ later =>
      obtain ⟨rfl,rfl⟩ := frameUnique fits fits' whole
      obtain ⟨rfl,rfl⟩ := ih later
      exact ⟨rfl,rfl⟩
    | start fits' begins =>
      obtain ⟨rfl,rfl⟩ := frameUnique fits fits' whole
      rw [stays] at begins
      cases begins
  | start fits begins =>
    generalize whole : frame _ ++ _ = bytes at second
    cases second with
    | part short => exact absurd (whole ▸ short) (frameWhole fits)
    | control fits' stays _ =>
      obtain ⟨rfl,rfl⟩ := frameUnique fits fits' whole
      rw [begins] at stays
      cases stays
    | start fits' _ =>
      obtain ⟨rfl,rfl⟩ := frameUnique fits fits' whole
      exact ⟨rfl,rfl⟩

theorem controlsCarry (controls : Controls starts messages) {later} (carries : Carries starts rest later stream) :
    Carries starts (messages.flatMap frame ++ rest) (messages ++ later) stream := by
  induction messages with
  | nil => exact carries
  | cons message messages ih =>
    obtain ⟨first,others⟩ := List.forall_mem_cons.mp controls
    rw [List.flatMap_cons,List.append_assoc]
    exact .control first.1 first.2 (ih others)

theorem carriesMore {behind : List Byte} (carries : Carries starts bytes messages (some behind)) (more : List Byte) :
    Carries starts (bytes ++ more) messages (some (behind ++ more)) := by
  generalize same : some behind = stream at carries
  induction carries with
  | part _ => cases same
  | control fits stays _ ih =>
    rw [List.append_assoc]
    exact .control fits stays (ih same)
  | start fits begins =>
    cases same
    rw [List.append_assoc]
    exact .start fits begins

theorem HeadersFit.behind (fit : HeadersFit starts (messages.flatMap frame ++ rest)) (controls : Controls starts messages) :
    HeadersFit starts rest := by
  rintro later last rfl controls' header
  refine fit (messages ++ later) last ?_ (List.forall_mem_append.mpr ⟨controls,controls'⟩) header
  rw [List.flatMap_append,List.append_assoc]

theorem HeadersFit.before (fit : HeadersFit starts (bytes ++ more)) : HeadersFit starts bytes := by
  rintro messages rest rfl controls header
  have small := fit messages (rest ++ more) (List.append_assoc ..) controls (by rw [List.length_append]; omega)
  rwa [List.take_append_of_le_length header] at small

theorem receivedFrame (fits : message.length < 2 ^ 32 - 4) :
    ReceivedData starts (frame message ++ rest) =
      if starts message then some ⟨[message],rest,false⟩
      else (ReceivedData starts rest).map (fun later => { later with messages := message :: later.messages }) := by
  have whole : message.length + 4 ≤ (frame message ++ rest).length := by rw [List.length_append,frameLength]; omega
  have front : ((frame message ++ rest).take (message.length + 4)).drop 4 = message := by
    rw [List.take_left' (frameLength message),frame,List.drop_left' (LittleEndian.bytesLength 4 _)]
  have back : (frame message ++ rest).drop (message.length + 4) = rest := List.drop_left' (frameLength message)
  rw [ReceivedData,if_pos (by omega),frameHeader _ (by omega)]
  dsimp only
  rw [if_pos (by omega),if_pos whole,front,back]

theorem receivedPart (short : Part bytes) (fit : 4 ≤ bytes.length → LittleEndian.value (bytes.take 4) < 2 ^ 32 - 4) :
    ReceivedData starts bytes = some ⟨[],bytes,true⟩ := by
  rw [ReceivedData]
  split
  · rename_i header
    have small := partSmall short header
    have room := fit header
    exact if_neg (by omega)
  · rfl

theorem receivedFitting (fit : HeadersFit starts bytes) :
    ∃ received, ReceivedData starts bytes = some received ∧
      if received.proceeds then
        bytes = received.messages.flatMap frame ++ received.m_readQueue ∧ Controls starts received.messages ∧
          Part received.m_readQueue
      else Carries starts bytes received.messages (some received.m_readQueue) := by
  induction size : bytes.length using Nat.strong_induction_on generalizing bytes with
  | _ size ih =>
    have small (header : 4 ≤ bytes.length) := fit [] bytes rfl (fun _ mem => absurd mem List.not_mem_nil) header
    by_cases short : Part bytes
    · refine ⟨_,receivedPart short small,?_⟩
      rw [if_pos rfl]
      exact ⟨rfl,fun _ mem => absurd mem List.not_mem_nil,short⟩
    · obtain ⟨header,whole⟩ := not_or.mp short
      rw [not_lt] at header whole
      obtain ⟨message,rest,rfl,fits⟩ := framed header whole
      have room := small header
      rw [frameHeader _ fits] at room
      rw [receivedFrame room]
      by_cases begins : starts message = true
      · rw [if_pos begins]
        exact ⟨_,rfl,by rw [if_neg (by simp)]; exact .start fits begins⟩
      · rw [if_neg begins]
        have control : Controls starts [message] := by
          simpa [Controls] using And.intro fits (Bool.eq_false_of_not_eq_true begins)
        have later : HeadersFit starts rest := (show HeadersFit starts ([message].flatMap frame ++ rest) by simpa using fit).behind control
        rw [List.length_append,frameLength] at size
        obtain ⟨received,result,left⟩ := ih rest.length (by omega) later rfl
        refine ⟨_,by rw [result]; rfl,?_⟩
        dsimp only
        split
        · rename_i proceeds
          rw [if_pos proceeds] at left
          obtain ⟨whole,controls,short⟩ := left
          refine ⟨?_,List.forall_mem_cons.mpr ⟨control _ List.mem_cons_self,controls⟩,short⟩
          rw [List.flatMap_cons,List.append_assoc,← whole]
        · rename_i ended
          rw [if_neg ended] at left
          exact .control fits (by simpa using begins) left

def Stands (starts : List Byte → Bool) (bytes : List Byte) (c : WorkerConnection) : Prop :=
  match c.stream with
  | none => bytes = c.messages.flatMap frame ++ c.m_readQueue ∧ Controls starts c.messages ∧ Part c.m_readQueue
  | some behind => Carries starts bytes c.messages (some behind)

theorem Stands.carries (stands : Stands starts bytes c) : Carries starts bytes c.messages c.stream := by
  unfold Stands at stands
  split at stands
  · rename_i waiting
    obtain ⟨rfl,controls,short⟩ := stands
    rw [waiting]
    simpa using controlsCarry controls (Carries.part short)
  · rename_i given
    rw [given]
    exact stands

theorem Stands.dataEvent (stands : Stands starts bytes c) (fit : HeadersFit starts (bytes ++ more)) :
    ∃ c', c.DataEvent starts more = some c' ∧ Stands starts (bytes ++ more) c' := by
  unfold Stands at stands
  unfold WorkerConnection.DataEvent
  cases given : c.stream with
  | none =>
    rw [given] at stands
    obtain ⟨rfl,controls,_⟩ := stands
    rw [List.append_assoc] at fit ⊢
    obtain ⟨received,result,left⟩ := receivedFitting (fit.behind controls)
    dsimp only
    rw [result]
    refine ⟨_,rfl,?_⟩
    dsimp only
    split
    · rename_i proceeds
      rw [if_pos proceeds] at left
      obtain ⟨whole,controls',short⟩ := left
      refine ⟨?_,List.forall_mem_append.mpr ⟨controls,controls'⟩,short⟩
      rw [whole,List.flatMap_append,List.append_assoc]
    · rename_i ended
      rw [if_neg ended] at left
      exact controlsCarry controls left
  | some behind =>
    rw [given] at stands
    exact ⟨_,rfl,carriesMore stands more⟩

theorem standsAfter (reads : List (List Byte)) (stands : Stands starts bytes c)
    (fit : HeadersFit starts (bytes ++ reads.flatten)) :
    ∃ c', reads.foldlM (WorkerConnection.DataEvent starts) c = some c' ∧ Stands starts (bytes ++ reads.flatten) c' := by
  induction reads generalizing bytes c with
  | nil => exact ⟨c,rfl,by simpa using stands⟩
  | cons data reads ih =>
    rw [List.flatten_cons,← List.append_assoc] at fit ⊢
    obtain ⟨between,first,stands'⟩ := stands.dataEvent fit.before
    obtain ⟨c',later,last⟩ := ih stands' fit
    exact ⟨c',by rw [List.foldlM_cons,first]; exact later,last⟩

theorem receivedOutside (controls : Controls starts messages) (header : rest.length = 4)
    (unfit : 2 ^ 32 - 4 ≤ LittleEndian.value rest) (small : ∀ message ∈ messages, message.length < 2 ^ 32 - 4) :
    ReceivedData starts (messages.flatMap frame ++ rest) = none := by
  induction messages with
  | nil =>
    have least := LittleEndian.valueSmall rest
    rw [header] at least
    rw [List.flatMap_nil,List.nil_append,ReceivedData,if_pos (by omega),List.take_of_length_le (by omega)]
    dsimp only
    rw [if_pos (by omega),if_neg (by omega)]
  | cons message messages ih =>
    obtain ⟨first,others⟩ := List.forall_mem_cons.mp controls
    obtain ⟨room,rooms⟩ := List.forall_mem_cons.mp small
    rw [List.flatMap_cons,List.append_assoc,receivedFrame room,if_neg (by simp [first.2]),ih others rooms]
    rfl

theorem firstUnfit (controls : Controls starts messages) (header : 4 ≤ rest.length)
    (unfit : 2 ^ 32 - 4 ≤ LittleEndian.value (rest.take 4)) :
    ∃ small last, messages.flatMap frame ++ rest = small.flatMap frame ++ last ∧ Controls starts small ∧
      (∀ message ∈ small, message.length < 2 ^ 32 - 4) ∧ 4 ≤ last.length ∧ 2 ^ 32 - 4 ≤ LittleEndian.value (last.take 4) := by
  induction messages with
  | nil => exact ⟨[],rest,rfl,controls,fun _ mem => absurd mem List.not_mem_nil,header,unfit⟩
  | cons message messages ih =>
    obtain ⟨first,others⟩ := List.forall_mem_cons.mp controls
    by_cases room : message.length < 2 ^ 32 - 4
    · obtain ⟨small,last,same,controls',rooms,header',unfit'⟩ := ih others
      refine ⟨message :: small,last,?_,List.forall_mem_cons.mpr ⟨first,controls'⟩,
        List.forall_mem_cons.mpr ⟨room,rooms⟩,header',unfit'⟩
      rw [List.flatMap_cons,List.append_assoc,same,List.flatMap_cons,List.append_assoc]
    · refine ⟨[],(message :: messages).flatMap frame ++ rest,rfl,fun _ mem => absurd mem List.not_mem_nil,
        fun _ mem => absurd mem List.not_mem_nil,?_,?_⟩
      · rw [List.flatMap_cons,List.length_append,List.length_append,frameLength]
        omega
      · rw [List.flatMap_cons,List.append_assoc,frameHeader _ first.1]
        omega

theorem framesHandedOver (starts : List Byte → Bool) (bytes : List Byte) :
    (∃ messages stream, Carries starts bytes messages stream ∧ ∀ reads : List (List Byte), reads.flatten = bytes →
        ∃ m_readQueue, receive starts reads = some ⟨m_readQueue,messages,stream⟩) ↔ HeadersFit starts bytes := by
  constructor
  · rintro ⟨messages,stream,_,each⟩ frames rest rfl controls header
    by_contra unfit
    obtain ⟨small,last,same,controls',rooms,header',unfit'⟩ := firstUnfit controls header (not_lt.mp unfit)
    have cut : [small.flatMap frame ++ last.take 4,last.drop 4].flatten = frames.flatMap frame ++ rest := by
      rw [same]
      simp [List.append_assoc]
    obtain ⟨m_readQueue,result⟩ := each _ cut
    have outside := receivedOutside controls' (by rw [List.length_take]; omega) unfit' rooms
    simp only [receive,List.foldlM_cons,WorkerConnection.DataEvent,List.nil_append,outside] at result
    cases result
  · intro fit
    have start : Stands starts [] ⟨[],[],none⟩ := ⟨rfl,fun _ mem => absurd mem List.not_mem_nil,.inl (by decide)⟩
    have ends (reads : List (List Byte)) (whole : reads.flatten = bytes) :
        ∃ c, receive starts reads = some c ∧ Carries starts bytes c.messages c.stream := by
      obtain ⟨c,result,stands⟩ := standsAfter reads start (by rwa [List.nil_append,whole])
      rw [List.nil_append,whole] at stands
      exact ⟨c,result,stands.carries⟩
    obtain ⟨c,_,carries⟩ := ends [bytes] (by simp)
    refine ⟨c.messages,c.stream,carries,fun reads whole => ?_⟩
    obtain ⟨c',result,carries'⟩ := ends reads whole
    obtain ⟨messages,stream⟩ := carriesOne carries' carries
    exact ⟨c'.m_readQueue,by rw [result,← messages,← stream]⟩

theorem copiedOutside : receive (fun _ => false) [[0xff,0xff,0xff,0xff]] = none := by
  have outside : ReceivedData (fun _ => false) (([] : List (List Byte)).flatMap frame ++ [0xff,0xff,0xff,0xff]) = none :=
    receivedOutside (fun _ mem => absurd mem List.not_mem_nil) rfl (by decide) (fun _ mem => absurd mem List.not_mem_nil)
  simp only [List.flatMap_nil,List.nil_append] at outside
  simp only [receive,List.foldlM_cons,WorkerConnection.DataEvent,List.nil_append,outside]
  rfl

end Citizen.Net.ReverseTcp
