import Citizen.Clone.CloneSync
import Citizen.Lib.Adjacent
import Citizen.Lib.Run

/-! Which lost fragments `HandleCloneSync` reports. The cases of `checkFrames` are
mutually exclusive and each reports one range, so of several losses between two received
fragments only one kind is seen. -/
namespace Citizen.Clone
open Sync

def frameOf (p : PackedClones) : Nat := p.word.frameIndex.toNat
def partOf (p : PackedClones) : Nat := p.word.currentFragment.toNat

def sentFrom (codec : Codec) : Nat → List (List SyncCommand) → List PackedClones
  | _,[] => []
  | frame,commands :: rest => execute codec frame commands ++ sentFrom codec (frame + 1) rest

def processed (arrivals : List Arrival) : List PackedClones :=
  (arrivals.filter Arrival.objectMgr).map Arrival.packet

def Reported {γ : Type} (m : CloneManager γ) (frame : Nat) : Prop :=
  ∃ nack first last, ClientPacket.nack nack ∈ m.sent ∧ nack.missingFrames = some (first,last) ∧
    first.toNat ≤ frame ∧ frame ≤ last.toNat

def Lost (sent got : List PackedClones) (frame : Nat) : Prop :=
  ∃ p ∈ sent, frameOf p = frame ∧ p ∉ got

/-- The loss pattern shows: nothing of the frame arrived, or a gap inside it, or its
head is lost right after a finished frame, or its tail is lost and the next frame is not. -/
def Visible (sent got : List PackedClones) (frame : Nat) : Prop :=
  (∀ p ∈ got, frameOf p ≠ frame) ∨
  (∃ p ∈ got, ∃ q ∈ sent, ∃ r ∈ got, frameOf p = frame ∧ frameOf q = frame ∧ frameOf r = frame ∧
    partOf p < partOf q ∧ partOf q < partOf r ∧ q ∉ got) ∨
  ((∃ p ∈ sent, frameOf p = frame ∧ partOf p = 1 ∧ p ∉ got) ∧
    ∃ q ∈ got, frameOf q + 1 = frame ∧ q.word.lastFragment) ∨
  ((∃ p ∈ sent, frameOf p = frame ∧ p.word.lastFragment ∧ p ∉ got) ∧
    ∃ q ∈ got, frameOf q = frame + 1)

def Before (p q : PackedClones) : Prop :=
  frameOf p < frameOf q ∨ frameOf p = frameOf q ∧ partOf p < partOf q

structure Cut (count : Nat → Nat) (sent : List PackedClones) : Prop where
  sorted : sent.Pairwise Before
  positive : ∀ p ∈ sent, 0 < frameOf p
  numbered : ∀ p ∈ sent, 1 ≤ partOf p ∧ partOf p ≤ count (frameOf p)
  flagged : ∀ p ∈ sent, p.word.lastFragment = decide (partOf p = count (frameOf p))
  full : ∀ p ∈ sent, ∀ part, 1 ≤ part → part ≤ count (frameOf p) →
    ∃ q ∈ sent, frameOf q = frameOf p ∧ partOf q = part

theorem Before.trans {p q r : PackedClones} (first : Before p q) (second : Before q r) : Before p r := by
  unfold Before at *
  omega

theorem Cut.comparable {count : Nat → Nat} {sent : List PackedClones} (cut : Cut count sent)
    {p q : PackedClones} (pMem : p ∈ sent) (qMem : q ∈ sent) : p = q ∨ Before p q ∨ Before q p := by
  have forward : sent.Pairwise (fun p q => p = q ∨ Before p q ∨ Before q p) :=
    cut.sorted.imp (fun less => .inr (.inl less))
  have backward : sent.Pairwise (flip (fun p q => p = q ∨ Before p q ∨ Before q p)) :=
    cut.sorted.imp (fun less => .inr (.inr less))
  exact forward.forall_of_forall_of_flip (fun _ _ => .inl rfl) backward pMem qMem

def Misses (a b : FrameIndex) (frame : Nat) : Prop :=
  ∃ first last, checkFrames a b = .missing first last ∧ first.toNat ≤ frame ∧ frame ≤ last.toNat

section
variable {codec : Codec} {frame : Nat} {commands : List SyncCommand} {p : PackedClones}

theorem executeAt {i : Nat} (found : (execute codec frame commands)[i]? = some p)
    (width : frame < 2 ^ 56) (few : (execute codec frame commands).length ≤ 127) :
    frameOf p = frame ∧ partOf p = i + 1 ∧
      p.word.lastFragment = decide (i + 1 = (execute codec frame commands).length) := by
  obtain ⟨inside,-⟩ := List.getElem?_eq_some_iff.mp found
  have word := congrArg (fun words => words[i]?) (executeWords codec frame commands)
  simp only [List.getElem?_map,found,Option.map_some,List.getElem?_range inside,Option.some.injEq] at word
  refine ⟨?_,?_,by rw [word]⟩
  · rw [frameOf,word,BitVec.toNat_ofNat,Nat.mod_eq_of_lt width]
  · rw [partOf,word,BitVec.toNat_ofNat,Nat.mod_eq_of_lt (by omega)]

theorem executeMember (mem : p ∈ execute codec frame commands)
    (width : frame < 2 ^ 56) (few : (execute codec frame commands).length ≤ 127) :
    frameOf p = frame ∧ 1 ≤ partOf p ∧ partOf p ≤ (execute codec frame commands).length ∧
      p.word.lastFragment = decide (partOf p = (execute codec frame commands).length) := by
  obtain ⟨i,found⟩ := List.mem_iff_getElem?.mp mem
  obtain ⟨inside,-⟩ := List.getElem?_eq_some_iff.mp found
  obtain ⟨same,part,flag⟩ := executeAt found width few
  exact ⟨same,by omega,by omega,by rw [flag,part]⟩

theorem executeSorted (width : frame < 2 ^ 56) (few : (execute codec frame commands).length ≤ 127) :
    (execute codec frame commands).Pairwise Before := by
  rw [List.pairwise_iff_getElem]
  intro i j iInside jInside less
  obtain ⟨iFrame,iPart,-⟩ := executeAt (List.getElem?_eq_getElem iInside) width few
  obtain ⟨jFrame,jPart,-⟩ := executeAt (List.getElem?_eq_getElem jInside) width few
  exact .inr ⟨by rw [iFrame,jFrame],by omega⟩

theorem sentMember {start : Nat} {frames : List (List SyncCommand)} : p ∈ sentFrom codec start frames ↔
      ∃ i commands, frames[i]? = some commands ∧ p ∈ execute codec (start + i) commands := by
  induction frames generalizing start with
  | nil => simp [sentFrom]
  | cons commands rest ih =>
    rw [sentFrom,List.mem_append,ih]
    constructor
    · rintro (head | ⟨i,later,found,inside⟩)
      · exact ⟨0,commands,rfl,head⟩
      · exact ⟨i + 1,later,found,by rw [show start + (i + 1) = start + 1 + i by omega]; exact inside⟩
    · rintro ⟨i,later,found,inside⟩
      cases i with
      | zero => exact .inl (by cases found; exact inside)
      | succ i => exact .inr ⟨i,later,found,by rw [show start + 1 + i = start + (i + 1) by omega]; exact inside⟩

def countFrom (codec : Codec) (start : Nat) (frames : List (List SyncCommand)) (frame : Nat) : Nat :=
  (execute codec frame (frames[frame - start]?.getD [])).length

theorem sentCut (codec : Codec) {start : Nat} {frames : List (List SyncCommand)} (first : 1 ≤ start)
    (width : start + frames.length ≤ 2 ^ 56)
    (few : ∀ i commands, frames[i]? = some commands → (execute codec (start + i) commands).length ≤ 127) :
    Cut (countFrom codec start frames) (sentFrom codec start frames) := by
  have each : ∀ p ∈ sentFrom codec start frames, ∃ i commands, frames[i]? = some commands ∧
      start + i < 2 ^ 56 ∧ countFrom codec start frames (start + i) =
        (execute codec (start + i) commands).length ∧ p ∈ execute codec (start + i) commands := by
    intro p mem
    obtain ⟨i,commands,found,inside⟩ := sentMember.mp mem
    obtain ⟨bound,-⟩ := List.getElem?_eq_some_iff.mp found
    refine ⟨i,commands,found,by omega,?_,inside⟩
    rw [countFrom,Nat.add_sub_cancel_left,found,Option.getD_some]
  refine ⟨?_,?_,?_,?_,?_⟩
  · clear each
    induction frames generalizing start with
    | nil => exact .nil
    | cons commands rest ih =>
      have small : start < 2 ^ 56 := by simp only [List.length_cons] at width; omega
      have tail : ∀ i later, rest[i]? = some later → (execute codec (start + 1 + i) later).length ≤ 127 := by
        intro i later found
        have bound := few (i + 1) later found
        rwa [show start + (i + 1) = start + 1 + i by omega] at bound
      rw [sentFrom,List.pairwise_append]
      refine ⟨executeSorted small (few 0 commands rfl),
        ih (by omega) (by simp only [List.length_cons] at width; omega) tail,?_⟩
      intro p pMem q qMem
      obtain ⟨i,later,found,inside⟩ := sentMember.mp qMem
      obtain ⟨bound,-⟩ := List.getElem?_eq_some_iff.mp found
      have pFrame := (executeMember pMem small (few 0 commands rfl)).1
      have qFrame := (executeMember inside (by simp only [List.length_cons] at width; omega) (tail i later found)).1
      exact .inl (by omega)
  · intro p mem
    obtain ⟨i,commands,found,small,-,inside⟩ := each p mem
    have same := (executeMember inside small (few i commands found)).1
    omega
  · intro p mem
    obtain ⟨i,commands,found,small,count,inside⟩ := each p mem
    obtain ⟨same,low,high,-⟩ := executeMember inside small (few i commands found)
    rw [same,count]
    exact ⟨low,high⟩
  · intro p mem
    obtain ⟨i,commands,found,small,count,inside⟩ := each p mem
    obtain ⟨same,-,-,flag⟩ := executeMember inside small (few i commands found)
    rw [same,count,flag]
  · intro p mem part low high
    obtain ⟨i,commands,found,small,count,inside⟩ := each p mem
    have same := (executeMember inside small (few i commands found)).1
    rw [same,count] at high
    have bound : part - 1 < (execute codec (start + i) commands).length := by omega
    have at' := List.getElem?_eq_getElem bound
    obtain ⟨frameEq,partEq,-⟩ := executeAt at' small (few i commands found)
    exact ⟨_,sentMember.mpr ⟨i,commands,found,List.getElem_mem bound⟩,by rw [frameEq,same],by omega⟩

end

section
variable {γ : Type} {reader : Reader} {g : Game γ} {m : CloneManager γ}

theorem handleCloneKeeps (clone : MsgClone) : (handleClone g m clone).lastReceivedFrame = m.lastReceivedFrame ∧
      (handleClone g m clone).syncIsARQ = m.syncIsARQ ∧ (handleClone g m clone).sent = m.sent := by
  unfold handleClone
  split
  · exact ⟨rfl,rfl,rfl⟩
  · dsimp only
    split <;> exact ⟨rfl,rfl,rfl⟩
  · exact ⟨rfl,rfl,rfl⟩

theorem applyClonesKeeps (msg : MsgPackedClones) : (applyClones g msg m).lastReceivedFrame = m.lastReceivedFrame ∧
      (applyClones g msg m).syncIsARQ = m.syncIsARQ ∧ (applyClones g msg m).sent = m.sent := by
  unfold applyClones
  dsimp only
  induction msg.clones generalizing m with
  | nil => exact ⟨rfl,rfl,rfl⟩
  | cons clone rest ih =>
    obtain ⟨last,style,sent⟩ := handleCloneKeeps (g := g) (m := m) clone
    obtain ⟨last',style',sent'⟩ := ih (m := handleClone g m clone)
    exact ⟨last'.trans last,style'.trans style,sent'.trans sent⟩

theorem reportedSend (m : CloneManager γ) (newIndex : FrameIndex) (missing : Option (BitVec 64 × BitVec 64))
    (frame : Nat) : Reported (m.sendNAck newIndex missing) frame ↔ Reported m frame ∨
      ∃ first last, missing = some (first,last) ∧ first.toNat ≤ frame ∧ frame ≤ last.toNat := by
  unfold CloneManager.sendNAck
  split
  · rename_i quiet
    simp only [Bool.and_eq_true,Option.isNone_iff_eq_none] at quiet
    simp [quiet.1.1]
  · constructor
    · rintro ⟨nack,first,last,mem,range,low,high⟩
      rcases List.mem_append.mp mem with old | new
      · exact .inl ⟨nack,first,last,old,range,low,high⟩
      · cases List.mem_singleton.mp new
        exact .inr ⟨first,last,range,low,high⟩
    · rintro (⟨nack,first,last,mem,rest⟩ | ⟨first,last,rest⟩)
      · exact ⟨nack,first,last,List.mem_append_left _ mem,rest⟩
      · exact ⟨_,first,last,List.mem_append_right _ (List.mem_singleton.mpr rfl),rest⟩

theorem receiveReports (msg : MsgPackedClones) (missing : Option (BitVec 64 × BitVec 64))
    (nak : m.syncIsARQ = false) (frame : Nat) :
    (receiveFragment g msg missing m).lastReceivedFrame = .ofFull msg.frameIndex ∧
      (receiveFragment g msg missing m).syncIsARQ = false ∧
      (Reported (receiveFragment g msg missing m) frame ↔ Reported m frame ∨
        ∃ first last, missing = some (first,last) ∧ first.toNat ≤ frame ∧ frame ≤ last.toNat) := by
  have keeps := applyClonesKeeps (g := g) (m := { m with lastReceivedFrame := .ofFull msg.frameIndex }) msg
  unfold receiveFragment
  dsimp only
  generalize applyClones g msg { m with lastReceivedFrame := .ofFull msg.frameIndex } = applied at keeps ⊢
  obtain ⟨last,style,sent⟩ := keeps
  dsimp only at last style sent
  simp only [style.trans nak,Bool.false_eq_true,if_false]
  have same : ∀ frame, Reported applied frame ↔ Reported m frame := by
    intro frame
    unfold Reported
    rw [sent]
  refine ⟨?_,?_,(reportedSend applied _ _ _).trans (or_congr_left (same frame))⟩
  · unfold CloneManager.sendNAck
    split <;> exact last
  · unfold CloneManager.sendNAck
    split <;> exact style.trans nak

theorem readFrameIndex (packet : PackedClones) :
    (MsgPackedClones.read reader packet).frameIndex = packet.frameIndex := by
  have records : ∀ rounds buffer msg, (readRecords reader rounds buffer msg).frameIndex = msg.frameIndex := by
    intro rounds
    induction rounds with
    | zero => exact fun _ _ => rfl
    | succ rounds ih =>
      intro buffer msg
      unfold readRecords
      split
      · rfl
      · dsimp only
        split <;> simp only [ih]
  unfold MsgPackedClones.read
  dsimp only
  split
  · rfl
  · split
    · rfl
    · exact records _ _ _

theorem handleReports (reader : Reader) {arrival : Arrival} (present : arrival.objectMgr = true) (nak : m.syncIsARQ = false)
    (sane : checkFrames m.lastReceivedFrame arrival.packet.word ≠ .cooked) (frame : Nat) :
    (handleCloneSync reader g m arrival).lastReceivedFrame = arrival.packet.word ∧
      (handleCloneSync reader g m arrival).syncIsARQ = false ∧ (Reported (handleCloneSync reader g m arrival) frame ↔
        Reported m frame ∨ Misses m.lastReceivedFrame arrival.packet.word frame) := by
  unfold handleCloneSync Misses
  rw [if_pos present]
  dsimp only
  rw [readFrameIndex]
  change checkFrames m.lastReceivedFrame (.ofFull arrival.packet.frameIndex) ≠ _ at sane
  unfold PackedClones.word
  cases check : checkFrames m.lastReceivedFrame (.ofFull arrival.packet.frameIndex) with
  | cooked => exact absurd check sane
  | whole =>
    have received := receiveReports (g := g) (MsgPackedClones.read reader arrival.packet) none nak frame
    rw [readFrameIndex] at received
    simpa using received
  | missing first last =>
    have received := receiveReports (g := g) (MsgPackedClones.read reader arrival.packet) (some (first,last)) nak frame
    rw [readFrameIndex] at received
    simpa using received

theorem runReports {arrivals : List Arrival} (nak : m.syncIsARQ = false)
    (sane : ∀ a b, Adjacent a b (m.lastReceivedFrame :: (processed arrivals).map PackedClones.word) →
      checkFrames a b ≠ .cooked) (frame : Nat) :
    Reported (run (handleCloneSync reader g) m arrivals) frame ↔ Reported m frame ∨
      ∃ a b, Adjacent a b (m.lastReceivedFrame :: (processed arrivals).map PackedClones.word) ∧ Misses a b frame := by
  induction arrivals generalizing m with
  | nil =>
    refine (or_iff_left ?_).symm
    rintro ⟨a,b,pair,-⟩
    cases pair with
    | tail inner => nomatch inner
  | cons arrival rest ih =>
    rw [runCons]
    cases present : arrival.objectMgr with
    | false =>
      have idle : handleCloneSync reader g m arrival = m := by simp [handleCloneSync,present]
      have skip : processed (arrival :: rest) = processed rest := by simp [processed,present]
      rw [idle]
      rw [skip] at sane ⊢
      exact ih nak sane
    | true =>
      have take : processed (arrival :: rest) = arrival.packet :: processed rest := by
        simp [processed,present]
      rw [take,List.map_cons] at sane ⊢
      obtain ⟨last,style,reports⟩ := handleReports reader (g := g) present nak (sane _ _ .head) frame
      rw [ih style (by rw [last]; exact fun a b pair => sane a b pair.tail),last,reports]
      constructor
      · rintro ((old | first) | ⟨a,b,pair,miss⟩)
        · exact .inl old
        · exact .inr ⟨_,_,.head,first⟩
        · exact .inr ⟨a,b,pair.tail,miss⟩
      · rintro (old | ⟨a,b,pair,miss⟩)
        · exact .inl (.inl old)
        · cases pair with
          | head => exact .inl (.inr miss)
          | tail inner => exact .inr ⟨a,b,inner,miss⟩

end

section
variable {x y : BitVec 56}

theorem wideNat : (x.setWidth 64).toNat = x.toNat :=
  BitVec.toNat_setWidth_of_le (by omega)

theorem wideZero (positive : 0 < x.toNat) : x.setWidth 64 ≠ 0 := by
  intro zero
  have nat := congrArg BitVec.toNat zero
  rw [wideNat] at nat
  exact absurd nat (Nat.ne_of_gt positive)

theorem wideEq : x.setWidth 64 = y.setWidth 64 ↔ x.toNat = y.toNat := by
  rw [← BitVec.toNat_inj,wideNat,wideNat]

theorem wideSucc : (x.setWidth 64 + 1).toNat = x.toNat + 1 := by
  have bound := x.isLt
  rw [BitVec.toNat_add,wideNat]
  exact Nat.mod_eq_of_lt (by change x.toNat + 1 < 2 ^ 64; omega)

theorem widePred (positive : 0 < y.toNat) : (y.setWidth 64 - 1).toNat = y.toNat - 1 := by
  have bound := y.isLt
  have wide := wideNat (x := y)
  have one : (1 : BitVec 64).toNat = 1 := rfl
  rw [BitVec.toNat_sub_of_le (by rw [BitVec.le_def]; omega),wide,one]

end

def Shows (a b : PackedClones) (frame : Nat) : Prop :=
  frameOf a = frame ∧ frameOf b = frame ∧ partOf a + 1 < partOf b ∨
  frameOf a < frame ∧ frame < frameOf b ∨
  frameOf a + 1 = frame ∧ frameOf b = frame ∧ a.word.lastFragment ∧ partOf b ≠ 1 ∨
  frameOf a = frame ∧ frameOf b = frame + 1 ∧ ¬ a.word.lastFragment

section
variable {count : Nat → Nat} {sent : List PackedClones} {a b : PackedClones} {first last : BitVec 64}

theorem missesRange (check : checkFrames a.word b.word = .missing first last) (frame : Nat) :
    Misses a.word b.word frame ↔ first.toNat ≤ frame ∧ frame ≤ last.toNat := by
  unfold Misses
  rw [check]
  simp

theorem missesWhole (check : checkFrames a.word b.word = .whole) (frame : Nat) : ¬ Misses a.word b.word frame := by
  unfold Misses
  rw [check]
  simp

theorem checkFramesNat (aPos : 0 < frameOf a) (bPos : 0 < frameOf b) :
    checkFrames a.word b.word =
      if frameOf a = frameOf b then
        if a.word.lastFragment && b.word.lastFragment then .cooked
        else if partOf a + 1 ≠ partOf b then
          .missing (b.word.frameIndex.setWidth 64) (b.word.frameIndex.setWidth 64)
        else .whole
      else if frameOf a + 1 ≠ frameOf b then
        .missing (a.word.frameIndex.setWidth 64 + 1) (b.word.frameIndex.setWidth 64 - 1)
      else if a.word.lastFragment ∧ partOf b ≠ 1 then
        .missing (a.word.frameIndex.setWidth 64 + 1) (b.word.frameIndex.setWidth 64)
      else if ¬ a.word.lastFragment then
        .missing (a.word.frameIndex.setWidth 64) (a.word.frameIndex.setWidth 64)
      else .whole := by
  have pred : a.word.frameIndex.setWidth 64 = b.word.frameIndex.setWidth 64 - 1 ↔
      frameOf a + 1 = frameOf b := by
    rw [← BitVec.toNat_inj,wideNat,widePred bPos]
    unfold frameOf at *
    omega
  have parts : (a.word.currentFragment.toNat : Int) = b.word.currentFragment.toNat - 1 ↔
      partOf a + 1 = partOf b := by
    unfold partOf
    omega
  have head : b.word.currentFragment = 1 ↔ partOf b = 1 := by
    rw [← BitVec.toNat_inj]
    rfl
  have same : a.word.frameIndex.setWidth 64 = b.word.frameIndex.setWidth 64 ↔ frameOf a = frameOf b :=
    wideEq
  simp only [checkFrames,ne_eq,wideZero aPos,not_false_eq_true,if_true,pred,parts,head,same,
    Bool.and_eq_true,decide_eq_true_eq,Bool.not_eq_true',Bool.not_eq_true]

theorem missesIff (cut : Cut count sent) (aMem : a ∈ sent) (bMem : b ∈ sent) (before : Before a b) (frame : Nat) :
    checkFrames a.word b.word ≠ .cooked ∧ (Misses a.word b.word frame ↔ Shows a b frame) := by
  have aPos := cut.positive a aMem
  have bPos := cut.positive b bMem
  have nat := checkFramesNat aPos bPos
  have aFrame : (a.word.frameIndex.setWidth 64).toNat = frameOf a := wideNat
  have bFrame : (b.word.frameIndex.setWidth 64).toNat = frameOf b := wideNat
  have aNext : (a.word.frameIndex.setWidth 64 + 1).toNat = frameOf a + 1 := wideSucc
  have bPrev : (b.word.frameIndex.setWidth 64 - 1).toNat = frameOf b - 1 := widePred bPos
  unfold Shows
  by_cases same : frameOf a = frameOf b
  · have parts : partOf a < partOf b := by
      unfold Before at before
      omega
    have aOpen : a.word.lastFragment = false := by
      have bNum := cut.numbered b bMem
      rw [cut.flagged a aMem,decide_eq_false_iff_not,same]
      omega
    rw [if_pos same,aOpen,Bool.false_and,if_neg Bool.false_ne_true] at nat
    by_cases next : partOf a + 1 = partOf b
    · rw [if_neg (not_not_intro next)] at nat
      have whole := missesWhole nat frame
      exact ⟨by simp [nat],by constructor <;> intro h <;> first | contradiction | omega⟩
    · rw [if_pos next] at nat
      rw [missesRange nat,bFrame]
      exact ⟨by simp [nat],by omega⟩
  · have frames : frameOf a < frameOf b := by
      unfold Before at before
      omega
    rw [if_neg same] at nat
    by_cases next : frameOf a + 1 = frameOf b
    · rw [if_neg (not_not_intro next)] at nat
      by_cases closed : a.word.lastFragment = true
      · by_cases headed : partOf b = 1
        · rw [if_neg (fun both => both.2 headed),if_neg (not_not_intro closed)] at nat
          have whole := missesWhole nat frame
          exact ⟨by simp [nat],by grind⟩
        · rw [if_pos ⟨closed,headed⟩] at nat
          rw [missesRange nat,aNext,bFrame]
          exact ⟨by simp [nat],by grind⟩
      · rw [if_neg (fun both => closed both.1),if_pos closed] at nat
        rw [missesRange nat,aFrame]
        exact ⟨by simp [nat],by grind⟩
    · rw [if_pos next] at nat
      rw [missesRange nat,aNext,bPrev]
      exact ⟨by simp [nat],by grind⟩

variable {got : List PackedClones} {frame : Nat}

section
variable (cut : Cut count sent) (inOrder : got.Sublist sent)
include cut inOrder

theorem lostBetween {q : PackedClones} (mem : q ∈ sent)
    (lost : q ∉ got) (below : ∃ p ∈ got, Before p q) (above : ∃ r ∈ got, Before q r) :
    ∃ a b, Adjacent a b got ∧ Before a q ∧ Before q b ∧
      (∀ z ∈ got, Before z q → z = a ∨ Before z a) ∧ ∀ z ∈ got, Before q z → z = b ∨ Before b z := by
  have sorted := cut.sorted.sublist inOrder
  have not : ∀ {z}, Before q z → ¬ Before z q := by
    intro z left right
    unfold Before at left right
    omega
  obtain ⟨r,rMem,after⟩ := above
  obtain ⟨a,b,pair,aBefore,bAfter⟩ := Adjacent.crossing (p := fun z => Before z q)
    (sorted.imp (fun less next => less.trans next)) below ⟨r,rMem,not after⟩
  have qb : Before q b := by
    rcases cut.comparable (inOrder.subset pair.right) mem with same | less | more
    · exact absurd (same ▸ pair.right) lost
    · exact absurd less bAfter
    · exact more
  refine ⟨a,b,pair,aBefore,qb,?_,?_⟩
  · intro z zMem less
    rcases pair.separates sorted zMem with same | before | same | after
    · exact .inl same
    · exact .inr before
    · exact absurd (same ▸ less) bAfter
    · exact absurd (after.trans less) bAfter
  · intro z zMem more
    rcases pair.separates sorted zMem with same | before | same | after
    · exact absurd (same ▸ aBefore) (not more)
    · exact absurd (before.trans aBefore) (not more)
    · exact .inl same
    · exact .inr after

theorem visibleOfShows {a b : PackedClones}
    (pair : Adjacent a b got) (shows' : Shows a b frame) : Visible sent got frame := by
  have sorted := cut.sorted.sublist inOrder
  have between : ∀ z, Before a z → Before z b → z ∉ got := by
    intro z after before mem
    unfold Before at after before
    rcases pair.separates sorted mem with same | h | same | h
    · subst same
      omega
    · unfold Before at h
      omega
    · subst same
      omega
    · unfold Before at h
      omega
  have aMem := inOrder.subset pair.left
  have bMem := inOrder.subset pair.right
  have aNum := cut.numbered a aMem
  have bNum := cut.numbered b bMem
  rcases shows' with ⟨left,right,gap⟩ | ⟨left,right⟩ | ⟨left,right,closed,headless⟩ | ⟨left,right,opened⟩
  · obtain ⟨q,qMem,same,part⟩ := cut.full a aMem (partOf a + 1) (by omega) (by rw [left,← right]; omega)
    refine .inr (.inl ⟨a,pair.left,q,qMem,b,pair.right,left,same.trans left,right,by omega,by omega,?_⟩)
    exact between q (.inr ⟨same.symm,by omega⟩) (.inr ⟨by omega,by omega⟩)
  · refine .inl (fun p mem same => ?_)
    exact between p (.inl (by omega)) (.inl (by omega)) mem
  · obtain ⟨q,qMem,same,part⟩ := cut.full b bMem 1 (by omega) (by omega)
    refine .inr (.inr (.inl ⟨⟨q,qMem,same.trans right,part,?_⟩,a,pair.left,left,closed⟩))
    exact between q (.inl (by omega)) (.inr ⟨same,by omega⟩)
  · obtain ⟨q,qMem,same,part⟩ := cut.full a aMem (count (frameOf a)) (by omega) (by omega)
    have flag := cut.flagged q qMem
    have aFlag := cut.flagged a aMem
    have short : partOf a ≠ count (frameOf a) := by
      intro full
      rw [aFlag,decide_eq_true_eq] at opened
      exact opened full
    refine .inr (.inr (.inr ⟨⟨q,qMem,same.trans left,?_,?_⟩,b,pair.right,right⟩))
    · rw [flag,same,part,decide_eq_true_eq]
    · exact between q (.inr ⟨same.symm,by omega⟩) (.inl (by omega))

theorem showsOfVisible (earlier : ∃ p ∈ got, frameOf p < frame) (later : ∃ p ∈ got, frame < frameOf p)
    (visible : Visible sent got frame) : ∃ a b, Adjacent a b got ∧ Shows a b frame := by
  have sorted := cut.sorted.sublist inOrder
  by_cases none : ∀ p ∈ got, frameOf p ≠ frame
  · obtain ⟨y,yMem,yLater⟩ := later
    obtain ⟨a,b,pair,left,right⟩ := Adjacent.crossing (p := fun z => frameOf z < frame)
      (sorted.imp (fun less next => by unfold Before at less; omega)) earlier ⟨y,yMem,by omega⟩
    have other := none b pair.right
    exact ⟨a,b,pair,.inr (.inl ⟨left,by omega⟩)⟩
  · obtain ⟨w,wMem,wFrame⟩ : ∃ w ∈ got, frameOf w = frame := by
      by_contra missing
      exact none (fun p mem same => missing ⟨p,mem,same⟩)
    have wNum := cut.numbered w (inOrder.subset wMem)
    rcases visible with nothing | ⟨p,pMem,q,qMem,r,rMem,pFrame,qFrame,rFrame,pq,qr,lost⟩ |
      ⟨⟨q,qMem,qFrame,qPart,lost⟩,z,zMem,zFrame,zLast⟩ | ⟨⟨q,qMem,qFrame,qLast,lost⟩,z,zMem,zFrame⟩
    · exact absurd nothing none
    · have pBefore : Before p q := .inr ⟨by omega,pq⟩
      have rAfter : Before q r := .inr ⟨by omega,qr⟩
      obtain ⟨a,b,pair,aq,qb,closestLeft,closestRight⟩ :=
        lostBetween cut inOrder qMem lost ⟨p,pMem,pBefore⟩ ⟨r,rMem,rAfter⟩
      have low := closestLeft p pMem pBefore
      have high := closestRight r rMem rAfter
      refine ⟨a,b,pair,.inl ?_⟩
      unfold Before at *
      grind
    · have zBefore : Before z q := .inl (by omega)
      have wAfter : Before q w := by
        rcases cut.comparable qMem (inOrder.subset wMem) with same | less | more
        · exact absurd (same ▸ wMem) lost
        · exact less
        · unfold Before at more
          omega
      obtain ⟨a,b,pair,aq,qb,closestLeft,closestRight⟩ :=
        lostBetween cut inOrder qMem lost ⟨z,zMem,zBefore⟩ ⟨w,wMem,wAfter⟩
      have low := closestLeft z zMem zBefore
      have high := closestRight w wMem wAfter
      have aNum := cut.numbered a (inOrder.subset pair.left)
      have zFull := cut.flagged z (inOrder.subset zMem)
      rw [zLast,eq_comm,decide_eq_true_eq] at zFull
      have same : z = a := by
        rcases low with same | before
        · exact same
        · unfold Before at before aq
          have frames : frameOf a = frameOf z := by omega
          rw [frames] at aNum
          omega
      subst same
      refine ⟨z,b,pair,.inr (.inr (.inl ⟨zFrame,?_,zLast,?_⟩))⟩
      · unfold Before at *
        grind
      · unfold Before at *
        grind
    · have qFull := cut.flagged q qMem
      rw [qLast,eq_comm,decide_eq_true_eq] at qFull
      have wBefore : Before w q := by
        rcases cut.comparable qMem (inOrder.subset wMem) with same | less | more
        · exact absurd (same ▸ wMem) lost
        · unfold Before at less
          rw [wFrame] at wNum
          rw [qFrame] at qFull
          omega
        · exact more
      have zAfter : Before q z := .inl (by omega)
      obtain ⟨a,b,pair,aq,qb,closestLeft,closestRight⟩ :=
        lostBetween cut inOrder qMem lost ⟨w,wMem,wBefore⟩ ⟨z,zMem,zAfter⟩
      have low := closestLeft w wMem wBefore
      have high := closestRight z zMem zAfter
      have bNum := cut.numbered b (inOrder.subset pair.right)
      have aFrame : frameOf a = frame := by
        unfold Before at *
        grind
      have bFrame : frameOf b = frame + 1 := by
        unfold Before at *
        grind
      refine ⟨a,b,pair,.inr (.inr (.inr ⟨aFrame,bFrame,?_⟩))⟩
      rw [cut.flagged a (inOrder.subset pair.left),decide_eq_true_eq]
      unfold Before at aq
      rw [aFrame,← qFrame]
      omega

end
end

section
variable {γ : Type} {reader : Reader} {g : Game γ} {codec : Codec}

theorem runShows {count : Nat → Nat} {sent : List PackedClones} {arrivals : List Arrival}
    (cut : Cut count sent) (inOrder : (processed arrivals).Sublist sent) (game : γ) (frame : Nat) :
    Reported (run (handleCloneSync reader g) (.init false game) arrivals) frame ↔
      ∃ a b, Adjacent a b (processed arrivals) ∧ Shows a b frame := by
  have spec : ∀ {a b}, Adjacent a b (processed arrivals) → checkFrames a.word b.word ≠ .cooked ∧
      (Misses a.word b.word frame ↔ Shows a b frame) := by
    intro a b pair
    exact missesIff cut (inOrder.subset pair.left) (inOrder.subset pair.right)
      (pair.ordered (cut.sorted.sublist inOrder)) frame
  have start : ∀ new, checkFrames ⟨false,0,0⟩ new = .whole := fun _ => rfl
  rw [runReports (m := .init false game) rfl]
  · constructor
    · rintro (⟨nack,first,last,mem,-⟩ | ⟨a,b,pair,miss⟩)
      · exact absurd mem List.not_mem_nil
      · generalize words : (processed arrivals).map PackedClones.word = received at pair
        cases pair with
        | head =>
          obtain ⟨first,last,check,-⟩ := miss
          rw [CloneManager.init,start] at check
          contradiction
        | tail inner =>
          obtain ⟨a',b',inside,rfl,rfl⟩ := Adjacent.ofMap _ (words ▸ inner)
          exact ⟨a',b',inside,(spec inside).2.mp miss⟩
    · rintro ⟨a,b,pair,shown⟩
      exact .inr ⟨a.word,b.word,(pair.map _).tail,(spec pair).2.mpr shown⟩
  · intro a b pair
    generalize words : (processed arrivals).map PackedClones.word = received at pair
    cases pair with
    | head =>
      rw [CloneManager.init,start]
      nofun
    | tail inner =>
      obtain ⟨a',b',inside,rfl,rfl⟩ := Adjacent.ofMap _ (words ▸ inner)
      exact (spec inside).1

theorem lossReportedIff {start : Nat} {frames : List (List SyncCommand)} {arrivals : List Arrival} {frame : Nat}
    (first : 1 ≤ start) (width : start + frames.length ≤ 2 ^ 56)
    (few : ∀ i commands, frames[i]? = some commands → (execute codec (start + i) commands).length ≤ 127)
    (inOrder : (processed arrivals).Sublist (sentFrom codec start frames))
    (earlier : ∃ p ∈ processed arrivals, frameOf p < frame)
    (later : ∃ p ∈ processed arrivals, frame < frameOf p) (game : γ) :
    Reported (run (handleCloneSync reader g) (.init false game) arrivals) frame ↔
      Visible (sentFrom codec start frames) (processed arrivals) frame := by
  have cut := sentCut codec first width few
  rw [runShows cut inOrder]
  constructor
  · rintro ⟨a,b,pair,shown⟩
    exact visibleOfShows cut inOrder pair shown
  · exact showsOfVisible cut inOrder earlier later

end

/-! Four frames of which the second has two fragments; its tail and the whole third are
lost. -/
def plainCodec : Codec := ⟨false,4,fun data => data⟩
def plainReader : Reader := ⟨false,4,some⟩
def idleGame : Game Unit := ⟨fun s _ => (true,s),fun s _ _ => (.ok,s),fun _ _ => 0,fun s _ => s⟩

def largeClone : CloneCommand where
  curTime := 0
  syncType := 2
  handle := 1
  netId := 1
  type := 0
  creationToken := 0
  uniqifier := 0
  frameIndex := 0
  isFirstFrameUpdate := false
  timestamp := 0
  wroteData := true
  mayWrite := true
  unparsed := (Rl.MessageBuffer.ofSize 2400).setCurrentBit 8800

def tailFrames : List (List SyncCommand) := [[],[.clone largeClone],[],[]]
def tailArrivals : List Arrival :=
  ((sentFrom plainCodec 1 tailFrames).take 2 ++ (sentFrom plainCodec 1 tailFrames).drop 4).map (fun p => ⟨p,true⟩)

theorem executeLarge (frame : Nat) : (execute plainCodec frame [.clone largeClone]).length = 2 := by
  have room : ∀ s size, 8608 ≤ size →
      maybeFlushBuffer plainCodec frame size s = flushBuffer plainCodec frame false s := by
    intro s size large
    unfold maybeFlushBuffer LZ4_compressBound
    rw [if_pos (by omega)]
  have timed : (SyncCommandState.init.writeTime plainCodec frame 0).sent = [] := rfl
  unfold execute
  simp only [List.foldl_cons,List.foldl_nil,SyncCommand.callback,runClone,largeClone]
  simp [flushBuffer,room,SyncCommandState.write,timed,Rl.MessageBuffer.setCurrentBit]

theorem tailWords : (sentFrom plainCodec 1 tailFrames).map PackedClones.word =
    [⟨true,1,1⟩,⟨false,1,2⟩,⟨true,2,2⟩,⟨true,1,3⟩,⟨true,1,4⟩] := by
  have large := executeWords plainCodec 2 [.clone largeClone]
  rw [executeLarge] at large
  simp only [tailFrames,sentFrom,List.map_append,large]
  rfl

theorem tailPackets : ∃ p q r s t, sentFrom plainCodec 1 tailFrames = [p,q,r,s,t] ∧
    processed tailArrivals = [p,q,t] ∧ p.word = ⟨true,1,1⟩ ∧ q.word = ⟨false,1,2⟩ ∧
    r.word = ⟨true,2,2⟩ ∧ t.word = ⟨true,1,4⟩ := by
  have words := tailWords
  unfold tailArrivals
  generalize sentFrom plainCodec 1 tailFrames = sent at words ⊢
  simp only [List.map_eq_cons_iff,List.map_eq_nil_iff] at words
  obtain ⟨p,_,rfl,pWord,q,_,rfl,qWord,r,_,rfl,rWord,s,_,rfl,-,t,_,rfl,tWord,rfl⟩ := words
  exact ⟨p,q,r,s,t,rfl,by simp [processed],pWord,qWord,rWord,tWord⟩

theorem tailFew (i : Nat) (commands : List SyncCommand) (found : tailFrames[i]? = some commands) :
    (execute plainCodec (1 + i) commands).length ≤ 127 := by
  match i,found with
  | 0,found | 2,found | 3,found =>
    cases found
    exact Nat.le_of_ble_eq_true rfl
  | 1,found =>
    cases found
    rw [executeLarge]
    omega

theorem tailInOrder : (processed tailArrivals).Sublist (sentFrom plainCodec 1 tailFrames) := by
  obtain ⟨p,q,r,s,t,sent,got,-⟩ := tailPackets
  rw [sent,got]
  exact .cons_cons _ (.cons_cons _ (.cons _ (.cons _ (.refl _))))

theorem lossReportedIffTail : Reported (run (handleCloneSync plainReader idleGame) (.init false ()) tailArrivals) 3 ↔
      Visible (sentFrom plainCodec 1 tailFrames) (processed tailArrivals) 3 := by
  obtain ⟨p,q,r,s,t,sent,got,pWord,qWord,rWord,tWord⟩ := tailPackets
  refine lossReportedIff (by decide) (by decide) tailFew tailInOrder ⟨q,?_,?_⟩ ⟨t,?_,?_⟩ ()
  · simp [got]
  · simp [frameOf,qWord]
  · simp [got]
  · simp [frameOf,tWord]

theorem lostTailUnreported : (processed tailArrivals).Sublist (sentFrom plainCodec 1 tailFrames) ∧
    Lost (sentFrom plainCodec 1 tailFrames) (processed tailArrivals) 2 ∧
    (∃ p ∈ processed tailArrivals, frameOf p < 2) ∧ (∃ p ∈ processed tailArrivals, 2 < frameOf p) ∧
    ¬ Reported (run (handleCloneSync plainReader idleGame) (.init false ()) tailArrivals) 2 := by
  obtain ⟨p,q,r,s,t,sent,got,pWord,qWord,rWord,tWord⟩ := tailPackets
  have cut := sentCut plainCodec (by decide) (by decide) tailFew
  refine ⟨tailInOrder,⟨r,?_,?_,?_⟩,⟨p,?_,?_⟩,⟨t,?_,?_⟩,?_⟩
  · simp [sent]
  · simp [frameOf,rWord]
  · rw [got]
    intro mem
    have word : r.word ∈ [p.word,q.word,t.word] := List.mem_map_of_mem (f := PackedClones.word) mem
    rw [pWord,qWord,rWord,tWord] at word
    revert word
    decide
  · simp [got]
  · simp [frameOf,pWord]
  · simp [got]
  · simp [frameOf,tWord]
  · rw [runShows cut tailInOrder,got]
    rintro ⟨a,b,pair,shown⟩
    unfold Shows at shown
    cases pair with
    | head => simp [frameOf,partOf,pWord,qWord] at shown
    | tail inner =>
      cases inner with
      | head => simp [frameOf,partOf,qWord,tWord] at shown
      | tail inner => cases inner with | tail inner => nomatch inner

end Citizen.Clone
