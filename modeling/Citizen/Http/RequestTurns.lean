import Citizen.Http.RequestPipeline

/-! The turns of the read callback keep a connection sound, so that its requests are served. -/
namespace Citizen.Http
open BitField (Byte)

namespace Service
variable {δ : Type} {parser : PicoHttp δ} {requests : List Sent} {s : Service δ}

theorem Holds.same {p q : Prop} {r : Sent} {x : Exchange} (same : p ↔ q) (held : Holds p r x) : Holds q r x :=
  propext same ▸ held

theorem handedHolds {bodyRead : Prop} {r : Sent} {disableKeepAlive : Bool} (unread : bodyRead → r.body.data = none) :
    Holds bodyRead r (.handed r.request disableKeepAlive) := by
  unfold Holds
  cases data : r.body.data with
  | none => exact ⟨rfl,rfl,rfl⟩
  | some data' =>
    have not : ¬bodyRead := fun yes => by
      rw [unread yes] at data
      cases data
    exact ⟨rfl,fun _ => ⟨rfl,rfl,rfl⟩,fun yes => absurd yes not,fun yes => absurd yes not⟩

section
variable (sound : Sound parser requests s)
include sound

theorem heldHanded (state : s.connection.readState = .Request) {r : Sent}
    (next : requests[s.connection.exchanges.length]? = some r) {disableKeepAlive : Bool} {readState : ReadState}
    (unread : readState = .Request → r.body.data = none) (i : Nat) (r' : Sent) (x : Exchange)
    (here : requests[i]? = some r')
    (inside : (s.connection.exchanges ++ [Exchange.handed r.request disableKeepAlive])[i]? = some x) :
    Holds (i + 1 < (s.connection.exchanges ++ [Exchange.handed r.request disableKeepAlive]).length ∨ readState = .Request)
      r' x := by
  rw [List.length_append,List.length_singleton]
  rcases Nat.lt_trichotomy i s.connection.exchanges.length with before | same | after
  · rw [List.getElem?_append_left before] at inside
    exact (sound.held i r' x here inside).same (iff_of_true (.inr state) (.inl (by omega)))
  · subst same
    rw [List.getElem?_append_right (Nat.le_refl _),Nat.sub_self] at inside
    cases inside
    cases next.symm.trans here
    exact handedHolds (fun read => unread (read.resolve_left (Nat.lt_irrefl _)))
  · rw [List.getElem?_eq_none (by simp; omega)] at inside
    cases inside

theorem Sound.stopped {pipelineLength lastLength : Nat}
    (asleep : s.connection.readState = .Request → ∀ r, requests[s.connection.exchanges.length]? = some r →
      lastLength < r.head.length ∧ (s.connection.reqState.blocked = false → s.connection.scheduled = 0 →
        s.connection.readBuffer.length < r.head.length))
    (short : lastLength ≤ s.connection.readBuffer.length)
    (other : s.connection.readState ≠ .Request → lastLength = s.connection.lastLength ∧ s.unread ≠ []) :
    Sound parser requests ⟨{ s.connection with
      pipelineLength := pipelineLength
      lastLength := lastLength
      callback := none },s.unread⟩ := by
  refine ⟨sound.valid,sound.ping,sound.unended,sound.few,sound.held,?_,fun _ state => (other state).2,sound.finished⟩
  have located := sound.located
  unfold Located at located ⊢
  dsimp only at located ⊢
  cases readState : s.connection.readState with
  | Request =>
    rw [readState] at located
    obtain ⟨stream,data,-,-⟩ := located
    exact ⟨stream,data,short,fun r here => ⟨(asleep readState r here).1,fun _ => (asleep readState r here).2⟩⟩
  | Body =>
    rw [readState] at located
    rw [(other (by rw [readState]; exact ReadState.noConfusion)).1]
    exact located
  | Chunked =>
    rw [readState] at located
    rw [(other (by rw [readState]; exact ReadState.noConfusion)).1]
    obtain ⟨i,r,data,coded,plain,holds,fed,last,here,body,decodes,stream,arrived,less,size,state,length,fits,taken,-⟩ :=
      located
    exact ⟨i,r,data,coded,plain,holds,fed,last,here,body,decodes,stream,arrived,less,size,state,length,fits,taken,
      fun running => nomatch running⟩

theorem nextHead (valid : ∀ r ∈ requests, r.Valid parser)
    (state : s.connection.readState = .Request) {r : Sent}
    (next : requests[s.connection.exchanges.length]? = some r) :
    let found := if s.connection.readBuffer = [] then .incomplete
      else parser.parseRequest s.connection.readBuffer s.connection.lastLength
    (s.connection.readBuffer.length < r.head.length → found = .incomplete) ∧
      (r.head.length ≤ s.connection.readBuffer.length → ∃ later, s.connection.readBuffer = r.head ++ later ∧
        later ++ s.unread = r.body.wire ++ wire (requests.drop (s.connection.exchanges.length + 1)) ∧
        ∃ positive, found = .request r.request r.head.length positive) := by
  have located := sound.located
  unfold Located at located
  dsimp only at located ⊢
  rw [state] at located
  obtain ⟨stream,-,short,following⟩ := located
  obtain ⟨started,-⟩ := following r next
  have fine := valid r (List.mem_of_getElem? next)
  rw [wireDrop next] at stream
  have starts : s.connection.readBuffer <+: r.head ++ (r.body.wire ++ wire (requests.drop (s.connection.exchanges.length + 1))) :=
    ⟨s.unread,stream⟩
  have head : r.head <+: r.head ++ (r.body.wire ++ wire (requests.drop (s.connection.exchanges.length + 1))) :=
    List.prefix_append _ _
  constructor
  · intro less
    split
    · rfl
    · rename_i filled
      exact fine.part _ _ (List.prefix_of_prefix_length_le starts head less.le) less filled short
  · intro there
    obtain ⟨later,whole⟩ := List.prefix_of_prefix_length_le head starts there
    have filled : s.connection.readBuffer ≠ [] := by
      rw [← whole]
      exact fun none => fine.filled (List.append_eq_nil_iff.mp none).1
    refine ⟨later,whole.symm,?_,?_⟩
    · rw [← whole,List.append_assoc] at stream
      exact List.append_cancel_left stream
    · rw [if_neg filled,← whole]
      exact ⟨_,fine.whole later _ started⟩

theorem Sound.handed (state : s.connection.readState = .Request)
    (free : s.connection.reqState.blocked = false) (filled : s.connection.readBuffer ≠ []) {r : Sent}
    (next : requests[s.connection.exchanges.length]? = some r) {later : List Byte} {readState : ReadState}
    {contentLength : Int} {decoder : δ} {pipelineLength : Nat} {disableKeepAlive empty : Bool}
    (unread : readState = .Request → r.body.data = none)
    (waits : readState ≠ .Request → later = [] → s.unread ≠ []) :
    let after : Connection δ := { s.connection with
      pipelineLength := pipelineLength
      readBuffer := later
      lastLength := 0
      reqState := { s.connection.reqState with blocked := true }
      exchanges := s.connection.exchanges ++ [.handed r.request disableKeepAlive]
      contentLength := contentLength
      decoder := decoder
      readState := readState
      callback := if later = [] then none else some empty }
    Located parser requests ⟨after,s.unread⟩ → Sound parser requests ⟨after,s.unread⟩ := by
  intro after located
  refine ⟨sound.valid,sound.ping,?_,?_,heldHanded sound state next unread,located,fun idle other => ?_,
    fun shut => absurd (sound.finished shut).2.1 filled⟩
  · have unended := sound.unended
    rw [free] at unended
    simp only [after]
    rw [List.countP_append,unended]
    rfl
  · have inside := (List.getElem?_eq_some_iff.mp next).1
    simp only [after]
    rw [List.length_append,List.length_singleton]
    exact inside
  · refine waits other ?_
    by_contra more
    have running : (if later = [] then none else some empty) = none := idle
    rw [if_neg more] at running
    cases running

theorem Sound.requestRead (valid : ∀ r ∈ requests, r.Valid parser)
    (readable : ∀ r ∈ requests, r.Readable) (state : s.connection.readState = .Request) (empty : Bool) :
    Sound parser requests ⟨s.connection.readRequest parser empty,s.unread⟩ := by
  have located := sound.located
  unfold Located at located
  dsimp only at located
  rw [state] at located
  obtain ⟨stream,data,short,following⟩ := located
  unfold Connection.readRequest
  split
  · rename_i blocked
    refine sound.stopped (fun _ r next => ⟨(following r next).1,fun free => ?_⟩) short (fun other => absurd state other)
    rw [blocked] at free
    cases free
  rename_i free
  rw [Bool.not_eq_true] at free
  dsimp only
  cases next : requests[s.connection.exchanges.length]? with
  | none =>
    have finished : s.connection.readBuffer = [] := by
      rw [List.drop_eq_nil_of_le (List.getElem?_eq_none_iff.mp next)] at stream
      exact (List.append_eq_nil_iff.mp stream).1
    rw [if_pos finished]
    refine sound.stopped (fun _ r here => ?_) (Nat.le_refl _) (fun other => absurd state other)
    rw [next] at here
    cases here
  | some r =>
    obtain ⟨part,whole⟩ := nextHead sound valid state next
    have fine := valid r (List.mem_of_getElem? next)
    rcases Nat.lt_or_ge s.connection.readBuffer.length r.head.length with less | there
    · rw [part less]
      refine sound.stopped (fun _ r' here => ?_) (Nat.le_refl _) (fun other => absurd state other)
      cases next.symm.trans here
      exact ⟨less,fun _ _ => less⟩
    · obtain ⟨later,buffer,rest,_,parsed⟩ := whole there
      rw [parsed,buffer]
      dsimp only
      rw [List.drop_left]
      have announced := readAnnounced fine (readable r (List.mem_of_getElem? next))
      have filled : s.connection.readBuffer ≠ [] := by
        rw [buffer]
        exact fun none => fine.filled (List.append_eq_nil_iff.mp none).1
      have size : ∀ x : Exchange, (s.connection.exchanges ++ [x]).length = s.connection.exchanges.length + 1 :=
        fun x => List.length_append
      unfold Connection.expectBody
      dsimp only
      cases body : r.body with
      | none =>
        rw [body] at announced rest
        obtain ⟨zero,unencoded⟩ := announced
        rw [zero,if_neg (Int.lt_irrefl 0),if_neg unencoded]
        refine sound.handed state free filled next (fun _ => by rw [body]; rfl) (fun other => absurd state other) ?_
        unfold Located
        dsimp only
        rw [state,size]
        refine ⟨rest,data,Nat.zero_le _,fun r' here => ⟨?_,fun _ free => Bool.noConfusion free⟩⟩
        exact List.length_pos_iff.mpr (valid r' (List.mem_of_getElem? here)).filled
      | length content =>
        rw [body] at announced rest
        obtain ⟨length,some⟩ := announced
        have positive : 0 < (content.length : Int) := by exact_mod_cast List.length_pos_iff.mpr some
        rw [length,if_pos positive]
        refine sound.handed state free filled next (fun other => nomatch other)
          (fun _ (none : later = []) read => ?_) ?_
        · rw [none,read] at rest
          exact some (List.append_eq_nil_iff.mp rest.symm).1
        · unfold Located
          dsimp only
          rw [size]
          exact ⟨_,r,content,rfl,next,body,some,rest,rfl,rfl,data⟩
      | chunked content coded =>
        rw [body] at announced rest
        obtain ⟨zero,encoded⟩ := announced
        have decodable := fine.announced
        rw [body] at decodable
        obtain ⟨-,-,plain,holds,decodes⟩ := decodable
        rw [zero,if_neg (Int.lt_irrefl 0),if_pos encoded]
        refine sound.handed state free filled next (fun other => nomatch other)
          (fun _ (none : later = []) read => ?_) ?_
        · rw [none,read] at rest
          exact decodes.filled (List.append_eq_nil_iff.mp rest.symm).1
        · unfold Located
          dsimp only
          rw [size]
          refine ⟨_,r,content,coded,plain,holds,[],rfl,next,body,decodes,rest,List.nil_prefix,
            List.length_pos_iff.mpr decodes.filled,by rw [data],decodes.zero,by rw [decodes.nothing]; rfl,Nat.zero_le _,
            by rw [decodes.nothing]; rfl,fun running => ?_⟩
          refine List.length_pos_iff.mpr (fun none : later = [] => ?_)
          have stopped : (if later = [] then Option.none else some empty) = some false := running
          rw [if_pos none] at stopped
          cases stopped

end

section
variable {before after : Prop} {r : Sent} {x : Exchange} {data : List Byte} (held : Holds before r x)
  (unread : ¬before) (read : after) (body : r.body.data = some data)
include held unread read body

theorem Holds.bodyRead (plain : chunkedBody r.request = false) : Holds after r (x.bodyRead data) := by
  obtain ⟨request,held⟩ := held
  rw [body] at held
  obtain ⟨nothing,pending,handler⟩ := held.1 unread
  unfold Holds Exchange.bodyRead Exchange.callDataHandler
  rw [body,plain,handler]
  cases installed : x.installed with
  | false =>
    exact ⟨request,fun not => absurd read not,fun _ yes => absurd (show false = true from yes) Bool.false_ne_true,
      fun _ _ => ⟨nothing,rfl⟩⟩
  | true =>
    exact ⟨request,fun not => absurd read not,fun _ _ => ⟨by rw [nothing]; rfl,pending⟩,
      fun _ no => absurd (show true = false from no).symm Bool.false_ne_true⟩

theorem Holds.chunksRead (chunked : chunkedBody r.request = true) : Holds after r (x.chunksRead data) := by
  obtain ⟨request,held⟩ := held
  rw [body] at held
  obtain ⟨nothing,pending,handler⟩ := held.1 unread
  unfold Holds Exchange.chunksRead Exchange.callDataHandler
  rw [body,chunked,handler]
  cases installed : x.installed with
  | false =>
    exact ⟨request,fun not => absurd read not,fun _ yes => absurd (installed.symm.trans yes) Bool.false_ne_true,
      fun _ _ => ⟨nothing,pending⟩⟩
  | true =>
    exact ⟨request,fun not => absurd read not,fun _ _ => ⟨by rw [nothing]; rfl,pending⟩,
      fun _ no => absurd (show true = false from no).symm Bool.false_ne_true⟩

end

section
variable (sound : Sound parser requests s) (valid : ∀ r ∈ requests, r.Valid parser)
include sound valid

theorem Sound.bodyDone (state : s.connection.readState ≠ .Request) {i : Nat} {r : Sent} (last : s.connection.exchanges.length = i + 1)
    (here : requests[i]? = some r) {f : Exchange → Exchange} (kept : ∀ x, (f x).ended = x.ended)
    (read : ∀ x, Holds False r x → Holds True r (f x)) {later : List Byte}
    (rest : later ++ s.unread = wire (requests.drop (i + 1))) {requestData : List Byte} (cleared : requestData = [])
    {lastLength : Nat} (reset : lastLength = 0) {contentLength : Int} (empty : Bool) :
    Sound parser requests ⟨{ s.connection with
      readBuffer := later
      requestData := requestData
      lastLength := lastLength
      contentLength := contentLength
      exchanges := s.connection.current f
      readState := .Request
      callback := if later = [] then none else some empty },s.unread⟩ := by
  have index : s.connection.exchanges.length - 1 = i := by omega
  have size : (s.connection.exchanges.modify i f).length = i + 1 := (List.length_modify _ _ _).trans last
  unfold Connection.current
  rw [index]
  refine ⟨sound.valid,sound.ping,(countSame kept).trans sound.unended,?_,fun j r' x here' inside => ?_,?_,
    fun _ other => absurd rfl other,fun shut => absurd (sound.finished shut).2.2 state⟩
  · dsimp only
    rw [size,← last]
    exact sound.few
  · obtain ⟨x',before,rfl⟩ := modified inside
    have held := sound.held j r' x' here' before
    rw [last] at held
    refine Holds.same (iff_of_true trivial (.inr rfl)) ?_
    split
    · rename_i same
      subst same
      cases here.symm.trans here'
      refine read x' (held.same (iff_of_false (fun open' => ?_) id))
      exact open'.elim (Nat.lt_irrefl _) state
    · rename_i other
      have bound : j < i + 1 := last ▸ (List.getElem?_eq_some_iff.mp before).1
      exact held.same (iff_of_true (.inl (by omega)) trivial)
  · unfold Located
    dsimp only
    rw [size]
    rw [reset]
    refine ⟨rest,cleared,Nat.zero_le _,fun r' here' => ?_⟩
    have filled := List.length_pos_iff.mpr (valid r' (List.mem_of_getElem? here')).filled
    refine ⟨filled,fun idle _ _ => ?_⟩
    have none : later = [] := by
      by_contra more
      rw [if_neg more] at idle
      cases idle
    rw [none]
    exact filled

theorem Sound.bodyRead (readable : ∀ r ∈ requests, r.Readable) (state : s.connection.readState = .Body) {empty : Bool}
    (running : s.connection.callback = some empty) (ready : Ready parser s .iterate) :
    Sound parser requests ⟨s.connection.readBody empty,s.unread⟩ := by
  have other : s.connection.readState ≠ .Request := by rw [state]; exact ReadState.noConfusion
  have located := sound.located
  unfold Located at located
  dsimp only at located
  rw [state] at located
  obtain ⟨i,r,data,last,here,body,filled,stream,length,none,nothing⟩ := located
  have stops (more : s.unread ≠ []) : Sound parser requests ⟨s.connection.stop,s.unread⟩ :=
    sound.stopped (fun request => absurd request other) (none ▸ Nat.zero_le _) (fun _ => ⟨rfl,more⟩)
  unfold Connection.readBody
  split
  · rename_i empty
    rw [empty] at running
    exact stops ((ready other).1 running)
  split
  · rename_i there
    rw [length] at there
    have fits : data.length ≤ s.connection.readBuffer.length := by exact_mod_cast there
    have starts : data <+: s.connection.readBuffer :=
      List.prefix_of_prefix_length_le (List.prefix_append _ _) ⟨s.unread,stream⟩ fits
    obtain ⟨later,buffer⟩ := starts
    have rest : later ++ s.unread = wire (requests.drop (i + 1)) := by
      rw [← buffer,List.append_assoc,last] at stream
      exact List.append_cancel_left stream
    have plain : chunkedBody r.request = false := by
      have announced := readAnnounced (valid r (List.mem_of_getElem? here)) (readable r (List.mem_of_getElem? here))
      rw [body] at announced
      have positive : 0 < (data.length : Int) := by exact_mod_cast List.length_pos_iff.mpr filled
      rw [chunkedBody,announced.1,decide_eq_false (Int.not_le.mpr positive),Bool.false_and]
    rw [length,Int.toNat_natCast,← buffer,List.take_left,List.drop_left]
    exact sound.bodyDone valid other last here (fun x => by unfold Exchange.bodyRead; split <;> rfl)
      (fun x held => held.bodyRead id trivial (by rw [body]; rfl) plain) rest nothing none empty
  · rename_i less
    rw [length] at less
    refine stops (fun finished => less ?_)
    rw [finished,List.append_nil] at stream
    rw [stream,List.length_append]
    omega

end

variable {data new : List Byte}

theorem spliceStart {start : Nat} (inside : start ≤ data.length) :
    (Connection.splice data start new).take start = data.take start := by
  rw [Connection.splice,List.append_assoc,List.take_append_of_le_length (by rw [List.length_take]; omega),List.take_take,
    Nat.min_self]

theorem spliceTake {start n : Nat} (inside : start ≤ data.length) (fits : n ≤ new.length) :
    (Connection.splice data start new).take (start + n) = data.take start ++ new.take n := by
  have size : (data.take start).length = start := by rw [List.length_take]; omega
  rw [Connection.splice,List.append_assoc,List.take_append,size,Nat.add_sub_cancel_left,List.take_append_of_le_length fits]
  congr 1
  exact List.take_of_length_le (by omega)

theorem spliceLength {start : Nat} (fits : start + new.length ≤ data.length) :
    (Connection.splice data start new).length = data.length := by
  simp only [Connection.splice,List.length_append,List.length_take,List.length_drop]
  omega

theorem Sound.chunksRead (sound : Sound parser requests s) (valid : ∀ r ∈ requests, r.Valid parser)
    (readable : ∀ r ∈ requests, r.Readable) (state : s.connection.readState = .Chunked) {empty : Bool}
    (running : s.connection.callback = some empty) (ready : Ready parser s .iterate) :
    Sound parser requests ⟨s.connection.readChunks parser empty,s.unread⟩ := by
  have other : s.connection.readState ≠ .Request := by rw [state]; exact ReadState.noConfusion
  have located := sound.located
  unfold Located at located
  dsimp only at located
  rw [state] at located
  obtain ⟨i,r,data,coded,plain,holds,fed,last,here,body,decodes,stream,arrived,less,size,decoding,length,fits,taken,more⟩ :=
    located
  unfold Connection.readChunks
  split
  · rename_i isEmpty
    rw [isEmpty] at running
    exact sound.stopped (fun request => absurd request other) (by
      have := arrived.length_le
      omega) (fun _ => ⟨rfl,(ready other).1 running⟩)
  rename_i nonempty
  rw [Bool.not_eq_true] at nonempty
  rw [nonempty] at running
  obtain ⟨piece,buffer⟩ := arrived
  have longer := more running
  have added : s.connection.readBuffer.drop s.connection.requestData.length = piece := by
    rw [size,← buffer,List.drop_left]
  have filled : piece ≠ [] := by
    intro none
    rw [← buffer,none,List.append_nil] at longer
    exact absurd longer (Nat.lt_irrefl _)
  let resized := Connection.splice (s.connection.requestData ++ List.replicate piece.length 0) s.connection.lastLength piece
  have resizedLength : resized.length = fed.length + piece.length := by
    rw [spliceLength (by rw [List.length_append,List.length_replicate]; omega),List.length_append,List.length_replicate,size]
  have resizedStart : resized.take s.connection.lastLength = plain fed := by
    rw [spliceStart (by rw [List.length_append]; omega),List.take_append_of_le_length fits,taken]
  have received : fed.length + piece.length = s.connection.readBuffer.length := by rw [← buffer,List.length_append]
  have inside : s.connection.lastLength ≤ resized.length := by omega
  have arrives : s.connection.readBuffer <+: coded ++ wire (requests.drop s.connection.exchanges.length) :=
    ⟨s.unread,stream⟩
  dsimp only
  rw [added]
  rcases Nat.lt_or_ge s.connection.readBuffer.length coded.length with part | whole
  · have starts : fed ++ piece <+: coded := by
      rw [buffer]
      exact List.prefix_of_prefix_length_le arrives (List.prefix_append _ _) part.le
    obtain ⟨decoder,buf,bufsz,decoded,decoding',room,short,data'⟩ :=
      decodes.more decoding filled starts (by rw [buffer]; exact part)
    have unread : s.unread ≠ [] := by
      intro finished
      rw [finished,List.append_nil] at stream
      rw [stream,List.length_append] at part
      omega
    rw [decoded]
    refine ⟨sound.valid,sound.ping,sound.unended,sound.few,sound.held,?_,fun _ _ => unread,sound.finished⟩
    unfold Located
    simp only [state]
    have bound : s.connection.lastLength + bufsz ≤ fed.length + piece.length := by omega
    have whole : (Connection.splice resized s.connection.lastLength buf).length = fed.length + piece.length := by
      rw [spliceLength (by omega),resizedLength]
    refine ⟨i,r,data,coded,plain,holds,s.connection.readBuffer,last,here,body,decodes,stream,List.prefix_refl _,part,
      whole.trans received,?_,?_,bound.trans whole.ge,?_,fun running => nomatch running⟩
    · rw [← buffer]
      exact decoding'
    · rw [← buffer,data',List.length_append,List.length_take,Nat.min_eq_left short,← length]
      rfl
    · rw [← buffer,data',← resizedStart]
      exact spliceTake inside short
  · obtain ⟨later,coded'⟩ := List.prefix_of_prefix_length_le (List.prefix_append _ _) arrives whole
    obtain ⟨buf,bufsz,decoded,room,short,data'⟩ := decodes.last decoding less (buffer.trans coded'.symm)
    have silent : bufsz = 0 := by
      have none := (ready other).2 running state
      rw [added,decoded] at none
      exact none
    have all : plain fed = data := by
      rw [silent,List.take_zero,List.append_nil] at data'
      exact data'
    have rest : later ++ s.unread = wire (requests.drop (i + 1)) := by
      rw [← coded',List.append_assoc,last] at stream
      exact List.append_cancel_left stream
    have chunked : chunkedBody r.request = true := by
      have announced := readAnnounced (valid r (List.mem_of_getElem? here)) (readable r (List.mem_of_getElem? here))
      rw [body] at announced
      rw [chunkedBody,announced.1,announced.2]
      rfl
    rw [decoded]
    dsimp only
    have left : s.connection.readBuffer.drop (s.connection.readBuffer.length - later.length) = later := by
      rw [← coded',List.length_append,Nat.add_sub_cancel,List.drop_left]
    have delivered : (Connection.splice resized s.connection.lastLength buf).take s.connection.lastLength = data := by
      rw [spliceStart inside,resizedStart,all]
    rw [left,delivered]
    exact sound.bodyDone valid other last here (fun x => by unfold Exchange.chunksRead; split <;> rfl)
      (fun x held => held.chunksRead id trivial (by rw [body]; rfl) chunked) rest rfl rfl empty

theorem Sound.stepped (valid : ∀ r ∈ requests, r.Valid parser) (readable : ∀ r ∈ requests, r.Readable)
    (sound : Sound parser requests s) (e : ServiceEvent) (ready : Ready parser s e) :
    Sound parser requests (s.step parser e) := by
  have usable : ¬s.connection.invalid = true := by
    rw [sound.valid]
    exact Bool.false_ne_true
  cases e with
  | read n =>
    unfold Service.step
    dsimp only
    split
    · exact sound
    · rename_i can
      rw [not_or,not_or,Bool.not_eq_true,not_not] at can
      unfold Connection.readCallback
      rw [if_neg usable,if_neg (Nat.not_lt.mpr (ready can.1 can.2.1))]
      exact sound.received can.1 (n + 1) s.connection.scheduled
  | ping =>
    unfold Service.step
    dsimp only
    split
    · exact sound
    · rename_i can
      rw [not_or,not_or,Bool.not_eq_true,not_not] at can
      unfold Connection.readCallback
      dsimp only
      rw [if_neg usable,List.length_nil,Nat.add_zero,if_neg (Nat.not_lt.mpr ready)]
      exact sound.received can.1 0 (s.connection.scheduled - 1)
  | iterate =>
    unfold Service.step
    dsimp only
    cases running : s.connection.callback with
    | none => exact sound
    | some empty =>
      rw [Option.elim_some,Connection.iterate,if_neg usable]
      cases state : s.connection.readState with
      | Request => exact sound.requestRead valid readable state empty
      | Body => exact sound.bodyRead valid readable state running ready
      | Chunked => exact sound.chunksRead valid readable state running ready
  | SetDataHandler i => exact sound.set ready
  | End i => exact sound.ended i
  | close i => exact sound.shut ready

theorem Sound.faithful (sound : Sound parser requests s) (valid : ∀ r ∈ requests, r.Valid parser) :
    Faithful requests s := by
  have paired {i : Nat} (inside : i < s.connection.exchanges.length) : ∃ r, requests[i]? = some r :=
    ⟨_,List.getElem?_eq_getElem (Nat.lt_of_lt_of_le inside sound.few)⟩
  refine ⟨?_,fun i r x here inside => ?_,fun finished idle quiet ended => ?_⟩
  · rw [List.prefix_iff_eq_take,List.length_map]
    refine List.ext_getElem? (fun i => ?_)
    rw [List.getElem?_take,List.getElem?_map]
    split
    · rename_i inside
      obtain ⟨r,here⟩ := paired inside
      have exchange : s.connection.exchanges[i]? = some s.connection.exchanges[i] := List.getElem?_eq_getElem inside
      rw [exchange,List.getElem?_map,here]
      exact congrArg some (sound.held i r _ here exchange).1
    · rename_i outside
      rw [List.getElem?_eq_none (Nat.le_of_not_lt outside)]
      rfl
  · have held := (sound.held i r x here inside).2
    cases data : r.body.data with
    | none =>
      rw [data] at held
      exact .inl held.1
    | some data' =>
      rw [data] at held
      obtain ⟨before,after,without⟩ := held
      by_cases read : i + 1 < s.connection.exchanges.length ∨ s.connection.readState = .Request
      · cases installed : x.installed with
        | false => exact .inl (without read installed).1
        | true => exact .inr ⟨data',rfl,(after read installed).1⟩
      · exact .inl (before read).1
  · have state : s.connection.readState = .Request := by
      by_contra other
      exact sound.waits idle other finished
    have free : s.connection.reqState.blocked = false := by
      have unended := sound.unended
      have none : s.connection.exchanges.countP (fun x => !x.ended) = 0 :=
        List.countP_eq_zero.mpr (fun x mem => by simp [ended x mem])
      rw [none] at unended
      cases blocked : s.connection.reqState.blocked with
      | false => rfl
      | true =>
        rw [blocked] at unended
        exact absurd unended (by decide)
    have located := sound.located
    unfold Located at located
    dsimp only at located
    rw [state,finished,List.append_nil] at located
    obtain ⟨stream,-,-,next⟩ := located
    have last : requests[s.connection.exchanges.length]? = none := by
      cases here : requests[s.connection.exchanges.length]? with
      | none => rfl
      | some r =>
        have short : s.connection.readBuffer.length < r.head.length := by
          rcases quiet with none | shut
          · exact (next r here).2 idle free none
          · rw [(sound.finished shut).2.1]
            exact List.length_pos_iff.mpr (valid r (List.mem_of_getElem? here)).filled
        rw [stream,wireDrop here,List.length_append] at short
        omega
    have all : requests.length ≤ s.connection.exchanges.length := List.getElem?_eq_none_iff.mp last
    refine ⟨?_,Nat.le_antisymm sound.few all,fun i r x data here inside body installed => ?_⟩
    · rw [stream,List.drop_eq_nil_of_le all]
      rfl
    · have held := (sound.held i r x here inside).2
      rw [body] at held
      exact (held.2.1 (.inr state) installed).1

section
variable (head : List Byte) (request : HttpRequest) (filled : head ≠ [])

def pico : PicoHttp Nat where
  parseRequest bytes _ :=
    if head <+: bytes then .request request head.length (List.length_pos_iff.mpr filled) else .incomplete
  zero := 0
  decodeChunked fed piece :=
    let data := fed ≤ 3 ∧ 3 < fed + piece.length
    let buf := if data then byte 'a' :: piece.tail else piece
    let bufsz := if data then 1 else 0
    if fed + piece.length < 11 then .incomplete (fed + piece.length) buf bufsz
    else .done buf bufsz (fed + piece.length - 11)

theorem picoHead : (∀ later lastLength, lastLength < head.length →
      (pico head request filled).parseRequest (head ++ later) lastLength =
        .request request head.length (List.length_pos_iff.mpr filled)) ∧
    ∀ part lastLength, part <+: head → part.length < head.length → part ≠ [] → lastLength ≤ part.length →
      (pico head request filled).parseRequest part lastLength = .incomplete := by
  constructor
  · intro later _ _
    exact if_pos (List.prefix_append _ _)
  · intro part _ _ less _ _
    exact if_neg (fun starts => absurd starts.length_le (Nat.not_le.mpr less))

def codedSample : List Byte := text "1" ++ HttpMessage.crlf ++ text "a" ++ HttpMessage.crlf ++ HttpMessage.lastChunk

theorem picoDecodes : Decodes (pico head request filled) (text "a") codedSample
    (fun fed => if 3 < fed.length then text "a" else []) (fun decoder fed => decoder = fed.length) := by
  have size : codedSample.length = 11 := by decide
  have room {p : Prop} [Decidable p] {piece : List Byte} (some : p → piece ≠ []) :
      (if p then byte 'a' :: piece.tail else piece).length = piece.length ∧
        (if p then 1 else 0) ≤ (if p then byte 'a' :: piece.tail else piece).length := by
    split
    · rename_i here
      have positive := List.length_pos_iff.mpr (some here)
      rw [List.length_cons,List.length_tail]
      omega
    · exact ⟨rfl,Nat.zero_le _⟩
  have filled' {fed : Nat} {piece : List Byte} (here : fed ≤ 3 ∧ 3 < fed + piece.length) : piece ≠ [] := by
    intro none
    rw [none] at here
    exact absurd here.2 (Nat.not_lt.mpr here.1)
  have data (fed piece : List Byte) :
      (if 3 < (fed ++ piece).length then text "a" else []) = (if 3 < fed.length then text "a" else []) ++
        (if fed.length ≤ 3 ∧ 3 < fed.length + piece.length then byte 'a' :: piece.tail else piece).take
          (if fed.length ≤ 3 ∧ 3 < fed.length + piece.length then 1 else 0) := by
    rw [List.length_append]
    by_cases before : 3 < fed.length
    · have not : ¬(fed.length ≤ 3 ∧ 3 < fed.length + piece.length) := by omega
      rw [if_pos before,if_neg not,if_pos (by omega),List.take_zero,List.append_nil]
    · by_cases after : 3 < fed.length + piece.length
      · have now : fed.length ≤ 3 ∧ 3 < fed.length + piece.length := ⟨Nat.le_of_not_lt before,after⟩
        rw [if_pos after,if_neg before,if_pos now,if_pos now]
        rfl
      · have not : ¬(fed.length ≤ 3 ∧ 3 < fed.length + piece.length) := by omega
        rw [if_neg after,if_neg before,if_neg not,if_neg not]
        rfl
  refine ⟨rfl,rfl,by decide,?_,?_⟩
  · rintro _ fed piece rfl some - short
    rw [size,List.length_append] at short
    exact ⟨_,_,_,if_pos short,(List.length_append).symm,(room filled').1,(room filled').2,data fed piece⟩
  · rintro _ fed piece rest rfl - whole
    have total := congrArg List.length whole
    rw [List.length_append,List.length_append,size] at total
    have left : fed.length + piece.length - 11 = rest.length := by omega
    refine ⟨_,_,(if_neg (by omega)).trans (congrArg _ left),(room filled').1,(room filled').2,?_⟩
    rw [← data fed piece,List.length_append,if_pos (by omega)]

end

theorem requestsServed {parser : PicoHttp δ} {requests : List Sent} (valid : ∀ r ∈ requests, r.Valid parser)
    (readable : ∀ r ∈ requests, r.Readable) {events : List ServiceEvent}
    (ready : Along (step parser) (Ready parser) (start parser requests) events) :
    Throughout (step parser) (Faithful requests) (start parser requests) events :=
  throughoutMono (fun _ sound => sound.faithful valid)
    (throughoutOfKept (Sound parser requests) (fun _ e sound ready => sound.stepped valid readable e ready)
      (soundStart valid) ready)

section
def chunkedHead : List Byte := text "POST / HTTP/1.1" ++ HttpMessage.crlf ++ text "Transfer-Encoding: chunked" ++
  HttpMessage.crlf ++ HttpMessage.crlf

def chunkedRequest : HttpRequest :=
  ⟨(1,1),text "POST",text "/",HeaderMap.empty.insert (text "Transfer-Encoding") (text "chunked")⟩

def chunkedSent : Sent := ⟨chunkedHead,chunkedRequest,.chunked (text "a") codedSample⟩

theorem chunkedFilled : chunkedHead ≠ [] := by decide

def chunkedPico : PicoHttp Nat := pico chunkedHead chunkedRequest chunkedFilled

theorem chunkedValid : chunkedSent.Valid chunkedPico where
  filled := chunkedFilled
  whole := (picoHead _ _ _).1
  part := (picoHead _ _ _).2
  announced := ⟨by decide,⟨text "chunked",by decide,by decide⟩,_,_,picoDecodes _ _ _⟩

theorem lastChunkApart : Throughout (step chunkedPico) (Faithful [chunkedSent]) (start chunkedPico [chunkedSent])
    [.read (chunkedHead.length + 5),.iterate,.SetDataHandler 0,.iterate,.read 4,.iterate,.End 0,.ping,.iterate] := by
  refine requestsServed (fun r mem => ?_) (fun r mem => ?_) ⟨?_,?_,?_,?_,?_,?_,?_,?_,?_,trivial⟩
  · rw [List.mem_singleton.mp mem]
    exact chunkedValid
  · rw [List.mem_singleton.mp mem]
    change chunkedRequest.headerList.find (text "transfer-encoding") = some (text "chunked")
    decide
  · exact fun _ _ => by decide
  · exact fun other => absurd (by decide) other
  · exact fun _ _ _ _ => by decide
  · exact fun _ => ⟨by decide,fun _ _ => by decide⟩
  · exact fun _ _ => by decide
  · exact fun _ => ⟨by decide,fun _ _ => by decide⟩
  · trivial
  · change List.length _ ≤ Connection.bufferLimit
    decide
  · exact fun other => absurd (by decide) other

end

section
def lengthHead : List Byte := text "POST / HTTP/1.1" ++ HttpMessage.crlf ++ text "Content-Length: 1" ++ HttpMessage.crlf ++
  HttpMessage.crlf

def lengthRequest : HttpRequest := ⟨(1,1),text "POST",text "/",HeaderMap.empty.insert (text "Content-Length") (text "1")⟩

def lengthSent : Sent := ⟨lengthHead,lengthRequest,.length (text "a")⟩

theorem lengthFilled : lengthHead ≠ [] := by decide

def lengthPico : PicoHttp Nat := pico lengthHead lengthRequest lengthFilled

theorem lengthValid : lengthSent.Valid lengthPico where
  filled := lengthFilled
  whole := (picoHead _ _ _).1
  part := (picoHead _ _ _).2
  announced := ⟨by decide,by decide,text "1",by decide,by decide⟩

theorem secondBodyStalls : (∀ r ∈ [lengthSent,lengthSent], r.Valid lengthPico) ∧
    ¬Throughout (step lengthPico) (Faithful [lengthSent,lengthSent]) (start lengthPico [lengthSent,lengthSent])
      [.read (2 * (lengthHead.length + 1)),.iterate,.SetDataHandler 0,.iterate,.iterate,.End 0,.ping,.iterate,
        .SetDataHandler 1,.iterate,.End 1,.ping,.iterate] := by
  constructor
  · intro r mem
    have same : r = lengthSent := by simpa using mem
    rw [same]
    exact lengthValid
  · intro served
    have last := (throughoutLast served).complete (by decide +kernel) (by decide +kernel) (by decide +kernel)
      (by decide +kernel)
    exact absurd last.1 (by decide +kernel)

end

end Service
end Citizen.Http
