import Citizen.Net.BitStreamCodec

/-! Sequences of fields in a bit stream, of which some get into each other's way. -/
namespace Citizen.Net.FieldCall
open LittleEndian (lowBit mirror)

abbrev Filled := (f : FieldCall) × f.Value

def total (layout : List FieldCall) : Nat := (layout.map width).sum

theorem totalCons (f : FieldCall) (layout : List FieldCall) : total (f :: layout) = f.width + total layout := by
  simp only [total,List.map_cons,List.sum_cons]

def placed : Nat → List FieldCall → List (Nat × FieldCall)
  | _,[] => []
  | start,f :: layout => (start,f) :: placed (start + f.width) layout

def NoOverlap (start : Nat) (layout : List FieldCall) : Prop :=
  (placed start layout).Pairwise (fun x y => ∀ p, ¬(x.2.Places x.1 p ∧ y.2.Places y.1 p))

def RoundTrips (start : Nat) (layout : List FieldCall) : Prop :=
  ∀ (b : BitBuffer) (fields : List Filled), b.m_offset = start → fields.map Sigma.fst = layout →
    start + total layout ≤ b.m_capacity → ∃ b', writeAll b fields = .done b' ∧
      readAll { b' with m_offset := start } layout = .done (fields.map (fun field => field.2.val),b')

/-- A number does not reach back over a `bool` that mirrors into it, and does not start before the mirrored
place of a `bool` in front of it. -/
def Compatible (x y : Nat × FieldCall) : Prop :=
  match x.2,y.2 with
  | bool,number _ _ _ _ => mirror x.1 < y.1
  | number _ bitSize _ _,bool => ¬(x.1 ≤ mirror y.1 ∧ mirror y.1 < x.1 + bitSize)
  | _,_ => True

def Sound (start : Nat) (layout : List FieldCall) : Prop :=
  (∀ x ∈ placed start layout, x.2.Fine x.1) ∧ (placed start layout).Pairwise Compatible

theorem placedAfter {start : Nat} {layout : List FieldCall} {x : Nat × FieldCall} (mem : x ∈ placed start layout) :
    start ≤ x.1 := by
  induction layout generalizing start with
  | nil => cases mem
  | cons f layout ih =>
    rcases List.mem_cons.mp mem with rfl | later
    · exact Nat.le_refl start
    · exact (Nat.le_add_right ..).trans (ih later)

theorem positive (f : FieldCall) : 0 < f.width := by
  cases f with
  | bool => exact Nat.one_pos
  | boolOfSize => exact Nat.one_pos
  | number type bitSize positive small => exact positive

theorem compatibleKept {o o' p : Nat} {f g : FieldCall} (fine : f.Fine o) (fine' : g.Fine o')
    (behind : o + f.width ≤ o') (compatible : Compatible (o,f) (o',g)) (here : f.Places o p) : ¬g.Touches o' p := by
  cases f with
  | bool =>
    cases g with
    | bool =>
      intro touched
      have same : mirror o = mirror o' := here.symm.trans touched
      have equal := congrArg mirror same
      rw [LittleEndian.mirrorTwice,LittleEndian.mirrorTwice] at equal
      simp only [width] at behind
      omega
    | boolOfSize => exact absurd fine' id
    | number type bitSize positive small =>
      intro touched
      have place : p = mirror o := here
      rw [place] at touched
      exact absurd (Nat.lt_of_lt_of_le compatible touched) (Nat.lt_irrefl _)
  | boolOfSize => exact absurd fine id
  | number type bitSize positive small =>
    cases g with
    | bool =>
      intro touched
      have place : p = mirror o' := touched
      rw [place] at here
      exact compatible here
    | boolOfSize => exact absurd fine' id
    | number type' bitSize' positive' small' =>
      intro touched
      exact absurd (Nat.lt_of_lt_of_le here.2 behind) (Nat.not_lt.mpr touched)

theorem placesTouches {f : FieldCall} {o p : Nat} (here : f.Places o p) : f.Touches o p := by
  cases f with
  | bool => exact here
  | boolOfSize => exact here.1
  | number type bitSize positive small => exact here.1

theorem soundApart {start : Nat} {layout : List FieldCall} (sound : Sound start layout) : NoOverlap start layout := by
  induction layout generalizing start with
  | nil => exact List.Pairwise.nil
  | cons f layout ih =>
    obtain ⟨fine,pairs⟩ := sound
    obtain ⟨first,later⟩ := List.pairwise_cons.mp pairs
    obtain ⟨fineFirst,fineLater⟩ := List.forall_mem_cons.mp fine
    refine List.pairwise_cons.mpr ⟨fun y mem p both => ?_,ih ⟨fineLater,later⟩⟩
    exact compatibleKept fineFirst (fineLater y mem) (placedAfter mem) (first y mem) both.1 (placesTouches both.2)

def HoldsAll (data : List BitField.Byte) : Nat → List Filled → Prop
  | _,[] => True
  | o,⟨f,value⟩ :: fields =>
    (∀ p, f.Places o p → lowBit data p = f.bitOf o value p) ∧ HoldsAll data (o + f.width) fields

section
variable {fields : List Filled} {b : BitBuffer} {layout : List FieldCall} (layoutOf : fields.map Sigma.fst = layout)
include layoutOf

theorem soundWritten (sound : Sound b.m_offset layout) (room : b.m_offset + total layout ≤ b.m_capacity) :
    ∃ b', writeAll b fields = .done b' ∧ b'.m_capacity = b.m_capacity ∧ b'.m_offset = b.m_offset + total layout ∧
      HoldsAll b'.m_data b.m_offset fields ∧
      ∀ p, (∀ y ∈ placed b.m_offset layout, ¬y.2.Touches y.1 p) → lowBit b'.m_data p = lowBit b.m_data p := by
  induction fields generalizing b layout with
  | nil =>
    subst layoutOf
    exact ⟨b,rfl,rfl,rfl,trivial,fun _ _ => rfl⟩
  | cons field fields ih =>
    obtain ⟨f,value⟩ := field
    subst layoutOf
    rw [List.map_cons] at sound room ⊢
    rw [totalCons] at room ⊢
    dsimp only at room ⊢
    obtain ⟨fine,pairs⟩ := sound
    obtain ⟨first,later⟩ := List.pairwise_cons.mp pairs
    obtain ⟨fineFirst,fineLater⟩ := List.forall_mem_cons.mp fine
    obtain ⟨b₁,written⟩ := writeFine value fineFirst (by omega)
    have left := writeLeft value written
    have next : Sound b₁.m_offset (fields.map Sigma.fst) := by
      rw [left.offset]
      exact ⟨fineLater,later⟩
    obtain ⟨b₂,writtenLater,capacity,offset,holds,kept⟩ := ih rfl next (by rw [left.offset,left.capacity]; omega)
    rw [left.offset] at holds kept offset
    refine ⟨b₂,?_,capacity.trans left.capacity,by rw [offset]; omega,⟨fun p here => ?_,holds⟩,fun p away => ?_⟩
    · rw [writeAll,written]
      exact writtenLater
    · rw [kept p (fun y mem =>
        compatibleKept fineFirst (fineLater y mem) (placedAfter mem) (first y mem) here),left.there p here]
    · obtain ⟨notHere,notLater⟩ := List.forall_mem_cons.mp away
      rw [kept p notLater,left.kept p notHere]

theorem soundRead (fine : ∀ x ∈ placed b.m_offset layout, x.2.Fine x.1)
    (room : b.m_offset + total layout ≤ b.m_capacity) (holds : HoldsAll b.m_data b.m_offset fields) :
    readAll b layout = .done (fields.map (fun field => field.2.val),{ b with m_offset := b.m_offset + total layout }) := by
  induction fields generalizing b layout with
  | nil =>
    subst layoutOf
    rfl
  | cons field fields ih =>
    obtain ⟨f,value⟩ := field
    subst layoutOf
    rw [List.map_cons] at fine room ⊢
    rw [totalCons] at room ⊢
    dsimp only at room ⊢
    obtain ⟨fineFirst,fineLater⟩ := List.forall_mem_cons.mp fine
    have read := readFine value fineFirst (by omega) holds.1
    have later := ih (b := { b with m_offset := b.m_offset + f.width }) rfl fineLater
      (by dsimp only; omega) holds.2
    rw [readAll,read,Outcome.bind,later]
    simp only [Outcome.bind,List.map_cons,Nat.add_assoc]

end

variable {start : Nat} {layout : List FieldCall}

theorem soundRoundTrips (sound : Sound start layout) : RoundTrips start layout := by
  rintro b fields rfl layoutOf room
  obtain ⟨b',written,capacity,offset,holds,_⟩ := soundWritten layoutOf sound room
  refine ⟨b',written,?_⟩
  rw [soundRead (b := { b' with m_offset := b.m_offset }) layoutOf sound.1 (by dsimp only; rw [capacity]; exact room)
    holds]
  simp only [← offset]

def zero (f : FieldCall) : Filled := ⟨f,⟨0,Nat.pow_pos (by decide)⟩⟩

theorem zeroBit (f : FieldCall) (o p : Nat) : f.bitOf o (zero f).2.val p = false := by
  cases f <;> exact Nat.zero_testBit _

theorem writeAllAppend (b : BitBuffer) (xs ys : List Filled) :
    writeAll b (xs ++ ys) = (writeAll b xs).bind (fun b => writeAll b ys) := by
  induction xs generalizing b with
  | nil => rfl
  | cons x xs ih =>
    obtain ⟨f,value⟩ := x
    rw [List.cons_append,writeAll,writeAll]
    cases f.write b value.val with
    | done b' => exact ih b'
    | refused => rfl
    | undefined => rfl

theorem zerosWritten {b b' : BitBuffer}
    (written : writeAll b (layout.map zero) = .done b') : b'.m_offset = b.m_offset + total layout ∧
      ∀ p, lowBit b'.m_data p = true → lowBit b.m_data p = true := by
  induction layout generalizing b with
  | nil =>
    cases written
    exact ⟨rfl,fun _ set => set⟩
  | cons f layout ih =>
    obtain ⟨b₁,first,later⟩ := Outcome.bindDone written
    have left : f.Left b b₁ (zero f).2.val := writeLeft (zero f).2 first
    obtain ⟨offset,bits⟩ := ih later
    refine ⟨by rw [offset,left.offset,totalCons]; omega,fun p set => ?_⟩
    rcases left.added p (bits p set) with before | ⟨_,bit⟩
    · exact before
    · rw [zeroBit] at bit
      cases bit

theorem readAllAt {pre : List FieldCall} {f : FieldCall} {post : List FieldCall} {b b' : BitBuffer} {values : List Nat}
    (read : readAll b (pre ++ f :: post) = .done (values,b')) :
    ∃ value r, f.read { b with m_offset := b.m_offset + total pre } = .done (value,r) ∧
      values[pre.length]? = some value := by
  induction pre generalizing b values with
  | nil =>
    obtain ⟨got,first,later⟩ := Outcome.bindDone read
    obtain ⟨rest,_,same⟩ := Outcome.bindDone later
    cases same
    exact ⟨got.1,got.2,first,rfl⟩
  | cons g pre ih =>
    obtain ⟨got,first,later⟩ := Outcome.bindDone read
    obtain ⟨rest,last,same⟩ := Outcome.bindDone later
    cases same
    obtain ⟨value,r,found,there⟩ := ih last
    rw [(readTells first).2] at found
    refine ⟨value,r,?_,there⟩
    rw [totalCons,← Nat.add_assoc]
    exact found

def blank (start : Nat) (layout : List FieldCall) : BitBuffer :=
  ⟨List.replicate (start + total layout) 0,8 * (start + total layout),start,by rw [List.length_replicate]⟩

theorem blankBit (start : Nat) (layout : List FieldCall) (p : Nat) : lowBit (blank start layout).m_data p = false := by
  unfold lowBit blank
  rw [BitField.byteAtZeros]
  exact BitVec.getLsbD_zero

def one (f : FieldCall) : Filled := ⟨f,⟨1,Nat.one_lt_two_pow (Nat.ne_of_gt (positive f))⟩⟩

theorem layoutOfOne (pre : List FieldCall) (f : FieldCall) (post : List FieldCall) :
    (pre.map zero ++ one f :: post.map zero).map Sigma.fst = pre ++ f :: post := by
  have back (l : List FieldCall) : (l.map zero).map Sigma.fst = l := by
    rw [List.map_map]
    exact List.map_id _
  rw [List.map_append,List.map_cons,back,back]
  rfl

theorem oneWritten {pre : List FieldCall} {f : FieldCall} {post : List FieldCall}
    (trips : RoundTrips start (pre ++ f :: post)) : ∃ b₁ b₂ b₃ r,
      f.Left b₁ b₂ 1 ∧ b₁.m_offset = start + total pre ∧ (∀ p, lowBit b₁.m_data p = false) ∧
      writeAll b₂ (post.map zero) = .done b₃ ∧
      f.read { b₃ with m_offset := start + total pre } = .done (1,r) := by
  obtain ⟨b₃,written,read⟩ := trips (blank start (pre ++ f :: post)) (pre.map zero ++ one f :: post.map zero) rfl
    (layoutOfOne pre f post) (by simp only [blank]; omega)
  rw [writeAllAppend] at written
  obtain ⟨b₁,before,written⟩ := Outcome.bindDone written
  obtain ⟨b₂,here,after⟩ := Outcome.bindDone written
  obtain ⟨offset,bits⟩ := zerosWritten before
  obtain ⟨value,r,found,there⟩ := readAllAt read
  have same : value = 1 := by
    rw [List.map_append,List.getElem?_append_right (by simp)] at there
    simp only [List.length_map,Nat.sub_self,List.map_cons,List.getElem?_cons_zero,Option.some.injEq] at there
    exact there.symm
  rw [same] at found
  refine ⟨b₁,b₂,b₃,r,writeLeft (one f).2 here,offset,fun p => ?_,after,found⟩
  by_contra set
  have set' := bits p (Bool.eq_true_of_not_eq_false set)
  rw [blankBit] at set'
  cases set'

theorem readBoolTells {b : BitBuffer} {r : Nat × BitBuffer} (read : b.readBool = .done r) :
    r.1 = (lowBit b.m_data (mirror b.m_offset)).toNat := by
  by_cases room : b.m_offset + 1 ≤ b.m_capacity
  · cases (BitBuffer.readBoolFine room).symm.trans read
    rfl
  · have refused : b.readBool = .refused := if_pos (by omega)
    cases refused.symm.trans read

theorem placedSplit {x : Nat × FieldCall} (mem : x ∈ placed start layout) :
    ∃ pre post, layout = pre ++ x.2 :: post ∧ x.1 = start + total pre := by
  induction layout generalizing start with
  | nil => cases mem
  | cons f layout ih =>
    rcases List.mem_cons.mp mem with rfl | later
    · exact ⟨[],layout,rfl,rfl⟩
    · obtain ⟨pre,post,rfl,place⟩ := ih later
      exact ⟨f :: pre,post,rfl,by rw [place,totalCons]; omega⟩

theorem pairwiseOfSplits {R : Nat × FieldCall → Nat × FieldCall → Prop}
    (all : ∀ pre f mid g post, layout = pre ++ f :: (mid ++ g :: post) →
      R (start + total pre,f) (start + total pre + f.width + total mid,g)) : (placed start layout).Pairwise R := by
  induction layout generalizing start with
  | nil => exact List.Pairwise.nil
  | cons f layout ih =>
    refine List.pairwise_cons.mpr ⟨fun y mem => ?_,ih (fun pre g mid h post split => ?_)⟩
    · obtain ⟨mid,post,split,place⟩ := placedSplit mem
      have first := all [] f mid y.2 post (by rw [split]; rfl)
      have same : y = (start + total [] + f.width + total mid,y.2) := by rw [Prod.ext_iff]; exact ⟨place,rfl⟩
      rw [same]
      exact first
    · have later := all (f :: pre) g mid h post (by rw [split]; rfl)
      rw [totalCons] at later
      rw [show start + f.width + total pre = start + (f.width + total pre) by omega]
      exact later

section
variable {start : Nat} {layout : List FieldCall} (trips : RoundTrips start layout)
include trips

theorem tripsFine : ∀ x ∈ placed start layout, x.2.Fine x.1 := by
  rintro ⟨o,f⟩ mem
  obtain ⟨pre,post,rfl,place⟩ := placedSplit mem
  obtain ⟨b₁,b₂,b₃,r,left,offset,blank,after,read⟩ := oneWritten trips
  dsimp only at left read place ⊢
  rw [← place] at read offset
  have told := (readTells read).1
  cases f with
  | bool => trivial
  | number type bitSize positive small => exact told (by simp)
  | boolOfSize =>
    have bit := readBoolTells read
    have set : lowBit b₃.m_data (mirror o) = true := by
      cases found : lowBit b₃.m_data (mirror o) with
      | true => rfl
      | false =>
        dsimp only at bit
        rw [found] at bit
        cases bit
    rcases left.added _ ((zerosWritten after).2 _ set) with before | ⟨⟨low,high⟩,_⟩
    · rw [blank] at before
      cases before
    · rw [offset] at low high
      simp only [mirror,width] at low high
      omega

theorem tripsApart : (placed start layout).Pairwise (fun x y => x.2 = bool → y.2 ≠ bool → mirror x.1 < y.1) := by
  refine pairwiseOfSplits (fun pre f mid g post split => ?_)
  dsimp only
  rintro rfl other
  subst split
  obtain ⟨b₁,b₂,b₃,r,left,offset,blank,after,read⟩ := oneWritten trips
  rw [List.map_append,List.map_cons,writeAllAppend] at after
  obtain ⟨c₁,between,after⟩ := Outcome.bindDone after
  obtain ⟨c₂,here,after⟩ := Outcome.bindDone after
  have place := (zerosWritten between).1
  have zeroLeft : g.Left c₁ c₂ (zero g).2.val := writeLeft (zero g).2 here
  rw [left.offset,offset] at place
  by_contra reaches
  have bit := readBoolTells read
  have gone : lowBit c₂.m_data (mirror (start + total pre)) = false := by
    by_cases inside : g.Places c₁.m_offset (mirror (start + total pre))
    · rw [zeroLeft.there _ inside,zeroBit]
    · refine zeroLeft.cleared other _ (by rw [place]; omega) ?_ inside
      rw [place]
      simp only [mirror,width] at reaches ⊢
      omega
  have clear : lowBit b₃.m_data (mirror (start + total pre)) = false := by
    by_contra set
    have set' := (zerosWritten after).2 _ (Bool.eq_true_of_not_eq_false set)
    rw [gone] at set'
    cases set'
  dsimp only at bit
  rw [clear] at bit
  cases bit

theorem tripsSound (apart : NoOverlap start layout) : Sound start layout := by
  refine ⟨tripsFine trips,((tripsApart trips).and apart).imp (fun {x y} both => ?_)⟩
  obtain ⟨o,f⟩ := x
  obtain ⟨o',g⟩ := y
  obtain ⟨before,disjoint⟩ := both
  cases f with
  | bool =>
    cases g with
    | bool => trivial
    | boolOfSize => trivial
    | number type bitSize positive small => exact before rfl (by simp)
  | boolOfSize => trivial
  | number type bitSize positive small =>
    cases g with
    | bool => exact fun covered => disjoint (mirror o') ⟨covered,rfl⟩
    | boolOfSize => trivial
    | number type' bitSize' positive' small' => trivial

end

theorem fieldsAgree (start : Nat) (layout : List FieldCall) :
    RoundTrips start layout ∧ NoOverlap start layout ↔ Sound start layout :=
  ⟨fun both => tripsSound both.1 both.2,fun sound => ⟨soundRoundTrips sound,soundApart sound⟩⟩

theorem boolLost : ¬(RoundTrips 0 [bool,number .uint8 7 (by decide) (by decide)] ∧
    NoOverlap 0 [bool,number .uint8 7 (by decide) (by decide)]) := by
  rintro ⟨trips,apart⟩
  have sound := tripsSound trips apart
  have before : mirror 0 < 1 := (List.pairwise_cons.mp sound.2).1 _ (List.mem_singleton.mpr rfl)
  exact absurd before (by decide)

end Citizen.Net.FieldCall
