import Citizen.Packfile.RagePackfile7

/-! Reading and seeking in an entry, against a cursor in its content. -/
namespace Citizen.Packfile
open Inflate (Decoder Decodes Serves Code)
open RagePackfile (bulk)

namespace RagePackfile7

structure Cursor where
  content : Text
  position : Nat

inductive Call where
  | Read (size : Nat)
  | Seek (offset : Int) (seekType : SeekType) (uninitialised : Nat)

inductive Answer where
  | read (count : Nat) (written : Text)
  | seek (position : Nat)

namespace Cursor
variable (cursor : Cursor)

def next (size : Nat) : Text := (cursor.content.drop cursor.position).take size

def target (offset : Int) : SeekType → Option Nat
  | .SEEK_SET => some (wrap offset)
  | .SEEK_CUR => some (min cursor.content.length (wrap (cursor.position + offset)))
  | .SEEK_END => some (wrap (cursor.content.length - offset))
  | .other => none

def answer : Call → Answer
  | .Read size => .read (cursor.next size).length (cursor.next size)
  | .Seek offset seekType _ => .seek ((cursor.target offset seekType).getD (wrap (-1)))

def after : Call → Cursor
  | .Read size => { cursor with position := cursor.position + (cursor.next size).length }
  | .Seek offset seekType _ => { cursor with position := (cursor.target offset seekType).getD cursor.position }

end Cursor

variable {Stream : Type} (decoder : Decoder Stream) (packfile : RagePackfile7 Stream)

def perform (steps handle : Nat) : Call → Option (Except Text (Answer × RagePackfile7 Stream))
  | .Read size => (packfile.Read decoder steps handle size).map (fun result => result.map (fun ((count,written),packfile) =>
      (.read count written,packfile)))
  | .Seek offset seekType uninitialised => (packfile.Seek decoder steps handle offset seekType uninitialised).map (fun result =>
      result.map (fun (position,packfile) => (.seek position,packfile)))

def Returns (handle : Nat) (call : Call) (result : Answer × RagePackfile7 Stream) : Prop :=
  ∃ enough, ∀ steps, enough ≤ steps → packfile.perform decoder steps handle call = some (.ok result)

def RunRight (packfile : RagePackfile7 Stream) (handle : Nat) (cursor : Cursor) : List Call → Prop
  | [] => True
  | call :: calls => ∃ packfile', packfile.Returns decoder handle call (cursor.answer call,packfile') ∧
      RunRight packfile' handle (cursor.after call) calls

/-- A compressed entry is read while less of it was fetched than the content has, and sought inside of the content. -/
def Meets (data : HandleData Stream) : Call → Prop
  | .Read size => data.compressed = true →
      if data.entry.virtFlags ≤ data.curOffset then data.curDecOffset = data.entry.virtFlags ∨ size = 0 else size < 2 ^ 32
  | .Seek offset seekType _ => data.compressed = true →
      match seekType with
      | .SEEK_SET => wrap offset ≤ data.entry.virtFlags
      | .SEEK_CUR => True
      | .SEEK_END => wrap (data.entry.virtFlags - offset) ≤ data.entry.virtFlags
      | .other => False

def RunMeets (packfile : RagePackfile7 Stream) (handle : Nat) : List Call → Prop
  | [] => True
  | call :: calls => (∃ data, packfile.GetHandle handle = some data ∧ Meets data call) ∧
      ∀ answer packfile', packfile.Returns decoder handle call (answer,packfile') → RunMeets packfile' handle calls

structure Holds (entry : Entry) (content : Text) : Prop where
  length : content.length = entry.virtFlags
  near : entry.offset < 2 ^ 22
  placed : packfile.m_parentPtr + entry.offset * 512 + 2 ^ 32 ≤ 2 ^ 64
  stored : entry.size = 0 → content = bulk packfile.parent (packfile.m_parentPtr + entry.offset * 512) entry.virtFlags
  compressed : entry.size ≠ 0 →
    ∃ At, Decodes decoder (bulk packfile.parent (packfile.m_parentPtr + entry.offset * 512) entry.size) content At

variable {decoder packfile} {entry : Entry} {content : Text}

theorem wrapSmall {n : Nat} (small : n < 2 ^ 64) : wrap n = n := by
  unfold wrap
  omega

theorem bulkInside (parent : Text) (place size cur n : Nat) :
    bulk parent (place + cur) (min (size - cur) n) = ((bulk parent place size).drop cur).take n := by
  rw [bulk,bulk,List.drop_take,List.drop_drop,List.take_take,Nat.min_comm]

theorem readEntryAt (holds : packfile.Holds decoder entry content) {data : HandleData Stream} (same : data.entry = entry)
    (near : data.curOffset < 2 ^ 32) (size n : Nat) : packfile.readEntry data (min (size - data.curOffset) n) =
      ((bulk packfile.parent (packfile.m_parentPtr + entry.offset * 512) size).drop data.curOffset).take n := by
  have low := holds.near
  have placed := holds.placed
  have product : Int.bmod (entry.offset * 512) (2 ^ 32) = entry.offset * 512 := by
    rw [Int.bmod_def]
    omega
  have place : wrap (packfile.m_parentPtr + entry.offset * 512 + data.curOffset) =
      packfile.m_parentPtr + entry.offset * 512 + data.curOffset := by
    exact_mod_cast wrapSmall (n := packfile.m_parentPtr + entry.offset * 512 + data.curOffset) (by omega)
  rw [readEntry,same,product,place,bulkInside]

def Streams (compressed content : Text) (At : Stream → Nat → Nat → Prop) (entry : Entry) (data : HandleData Stream) (o : Nat) : Prop :=
  data.entry = entry ∧ data.compressed = true ∧ data.valid = true ∧ o ≤ content.length ∧
    ∃ i ≤ compressed.length, At data.strm i o ∧ i + data.next_in.length = data.curOffset ∧ data.next_in <+: compressed.drop i

section
variable {At : Stream → Nat → Nat → Prop} {compressed : Text}

@[simp] theorem refillCurDecOffset (data : HandleData Stream) : (packfile.refill data).curDecOffset = data.curDecOffset := by
  unfold refill
  split <;> rfl

theorem refillKeeps (packfile : RagePackfile7 Stream) (data : HandleData Stream) :
    (packfile.refill data).curOffset - (packfile.refill data).next_in.length = data.curOffset - data.next_in.length := by
  unfold refill
  split
  · rename_i none'
    simp [none']
  · rfl

theorem internalReadStep {data : HandleData Stream} {n : Nat} (full : n ≠ 0) {e : Inflate.Inflated Stream}
    (call : decoder.inflate (packfile.refill data).strm (packfile.refill data).next_in n = e) (steps : Nat) (written : Text) :
    packfile.InternalRead decoder (steps + 1) data n written =
      match e.code with
      | .Z_STREAM_END => some (.ok ((packfile.refill data).after e,written ++ e.output))
      | .failed => some (.error inflateError)
      | .Z_OK => packfile.InternalRead decoder steps ((packfile.refill data).after e) (n - e.output.length) (written ++ e.output) := by
  subst call
  rw [InternalRead]
  exact if_neg full

theorem refillStreams (holds : packfile.Holds decoder entry content)
    (whole : compressed = bulk packfile.parent (packfile.m_parentPtr + entry.offset * 512) entry.size) {data : HandleData Stream} {o : Nat}
    (streams : Streams compressed content At entry data o) :
    Streams compressed content At entry (packfile.refill data) o ∧
      ((packfile.refill data).next_in = [] → (packfile.refill data).curOffset = compressed.length) := by
  obtain ⟨same,isCompressed,valid,inside,i,inside',at',fetched,begins⟩ := streams
  unfold refill
  split
  · rename_i none'
    rw [none',List.length_nil,Nat.add_zero] at fetched
    have size : compressed.length ≤ entry.size := by
      rw [whole,bulk]
      exact List.length_take_le _ _
    have bits := entry.sizeBits
    have read := readEntryAt holds same (by omega) entry.size sizeofBuffer
    rw [← whole] at read
    simp only [same,read]
    refine ⟨⟨rfl,isCompressed,valid,inside,i,inside',at',by rw [fetched],?_⟩,fun empty => ?_⟩
    · rw [← fetched]
      exact List.take_prefix _ _
    · rw [empty,List.length_nil,Nat.add_zero]
      have short := congrArg List.length empty
      rw [List.length_take,List.length_drop,List.length_nil,sizeofBuffer] at short
      omega
  · rename_i some'
    exact ⟨⟨same,isCompressed,valid,inside,i,inside',at',fetched,begins⟩,fun none' => absurd none' some'⟩

theorem inflateStreams (decodes : Decodes decoder compressed content At) {data : HandleData Stream} {o n : Nat}
    (streams : Streams compressed content At entry data o) (drained : data.next_in = [] → data.curOffset = compressed.length)
    (room : 0 < n) {e : Inflate.Inflated Stream} (call : decoder.inflate data.strm data.next_in n = e) :
    Streams compressed content At entry (data.after e) (o + e.output.length) ∧
      e.code ≠ .failed ∧ e.output = (content.drop o).take e.output.length ∧ e.output.length ≤ n ∧ e.consumed ≤ data.next_in.length ∧
      (e.code = .Z_OK → 0 < e.consumed + e.output.length) ∧ (e.code = .Z_STREAM_END → o + e.output.length = content.length) := by
  obtain ⟨same,isCompressed,valid,inside,i,inside',at',fetched,begins⟩ := streams
  have serves := decodes.serves at' begins room
  have next := decodes.next at' begins room
  rw [call] at serves next
  have few := serves.consumed
  have length := begins.length_le
  rw [List.length_drop] at length
  have produced := congrArg List.length serves.produced
  rw [List.length_take,List.length_drop] at produced
  refine ⟨⟨same,isCompressed,valid,by omega,i + e.consumed,by omega,next,?_,?_⟩,?_,serves.produced,serves.room,few,serves.progress,
    fun ended => (serves.whole ended).2⟩
  · change i + e.consumed + (data.next_in.drop e.consumed).length = data.curOffset
    rw [List.length_drop]
    omega
  · obtain ⟨tail,rest⟩ := begins
    refine ⟨tail,?_⟩
    rw [← List.drop_drop,← rest,List.drop_append_of_le_length few]
    rfl
  · intro failed
    obtain ⟨none',more⟩ := serves.hungry failed
    have all := drained none'
    rw [none',List.length_nil] at fetched
    omega

theorem takeSplit {content output : Text} {o n : Nat} (produced : output = (content.drop o).take output.length)
    (room : output.length ≤ n) :
    (content.drop o).take n = output ++ (content.drop (o + output.length)).take (n - output.length) := by
  have split : n = output.length + (n - output.length) := by omega
  rw [← List.drop_drop]
  conv_lhs => rw [split,List.take_add,← produced]

section
variable (holds : packfile.Holds decoder entry content)
  (whole : compressed = bulk packfile.parent (packfile.m_parentPtr + entry.offset * 512) entry.size)
  (decodes : Decodes decoder compressed content At)
include holds whole decodes

variable {data : HandleData Stream}

theorem internalRead {bound : Nat} {o n : Nat} (written : Text)
    (streams : Streams compressed content At entry data o) (few : compressed.length - (data.curOffset - data.next_in.length) + n ≤ bound) :
    ∃ needed data', (∀ steps, packfile.InternalRead decoder steps data n written =
        if steps < needed then none else some (.ok (data',written ++ (content.drop o).take n))) ∧
      Streams compressed content At entry data' (o + ((content.drop o).take n).length) ∧ data'.curDecOffset = data.curDecOffset := by
  induction bound generalizing data o n written with
  | zero =>
    obtain rfl : n = 0 := by omega
    refine ⟨1,data,fun steps => ?_,streams,rfl⟩
    cases steps <;> simp [InternalRead]
  | succ bound ih =>
    by_cases full : n = 0
    · subst full
      refine ⟨1,data,fun steps => ?_,streams,rfl⟩
      cases steps <;> simp [InternalRead]
    · obtain ⟨refilled,drained⟩ := refillStreams holds whole streams
      generalize call : decoder.inflate (packfile.refill data).strm (packfile.refill data).next_in n = e
      obtain ⟨streams',fine,produced,room,taken,progress,ended⟩ := inflateStreams decodes refilled drained (Nat.pos_of_ne_zero full) call
      have before := refillKeeps packfile data
      have step := internalReadStep full call
      have rest : (content.drop o).take n = e.output ++ (content.drop (o + e.output.length)).take (n - e.output.length) :=
        takeSplit produced room
      cases code : e.code with
      | failed => exact absurd code fine
      | Z_STREAM_END =>
        rw [code] at step
        have beyond : content.drop (o + e.output.length) = [] := List.drop_eq_nil_of_le (by rw [ended code])
        rw [beyond,List.take_nil,List.append_nil] at rest
        refine ⟨1,(packfile.refill data).after e,fun steps => ?_,by rw [rest]; exact streams',refillCurDecOffset data⟩
        cases steps with
        | zero => rfl
        | succ steps => rw [step,rest,if_neg (by omega)]
      | Z_OK =>
        rw [code] at step
        have progress := progress code
        obtain ⟨-,-,-,-,i₀,-,-,fetched₀,-⟩ := refilled
        have fewer := streams'
        obtain ⟨-,-,-,-,i,inside,-,fetched,-⟩ := fewer
        have length : ((packfile.refill data).after e).next_in.length = (packfile.refill data).next_in.length - e.consumed := List.length_drop
        have place : ((packfile.refill data).after e).curOffset = (packfile.refill data).curOffset := rfl
        obtain ⟨needed,data',loop,streams'',kept⟩ := ih (n := n - e.output.length) (written ++ e.output) streams' (by omega)
        refine ⟨needed + 1,data',fun steps => ?_,?_,kept.trans (refillCurDecOffset data)⟩
        · cases steps with
          | zero => rfl
          | succ steps =>
            simp only [step,loop,rest,List.append_assoc,Nat.add_lt_add_iff_right]
        · rw [rest,List.length_append,← Nat.add_assoc]
          exact streams''

theorem seekForwardEnds {target bound : Nat}
    (streams : Streams compressed content At entry data data.curDecOffset) (inside : target ≤ content.length)
    (before : data.curDecOffset ≤ target) (few : target - data.curDecOffset ≤ bound) :
    ∃ enough data', (∀ steps more, enough ≤ steps → enough ≤ more →
        packfile.seekForward decoder steps more data target = some (.ok data')) ∧
      Streams compressed content At entry data' target ∧ data'.curDecOffset = target := by
  induction bound generalizing data with
  | zero =>
    have there : data.curDecOffset = target := by omega
    refine ⟨1,data,fun steps more _ some' => ?_,there ▸ streams,there⟩
    obtain ⟨more,rfl⟩ : ∃ fewer, more = fewer + 1 := ⟨more - 1,by omega⟩
    rw [seekForward,if_neg (by omega)]
  | succ bound ih =>
    by_cases there : data.curDecOffset = target
    · refine ⟨1,data,fun steps more _ some' => ?_,there ▸ streams,there⟩
      obtain ⟨more,rfl⟩ : ∃ fewer, more = fewer + 1 := ⟨more - 1,by omega⟩
      rw [seekForward,if_neg (by omega)]
    · obtain ⟨needed,data',loop,streams',kept⟩ :=
        internalRead (n := min (target - data.curDecOffset) sizeofBuffer) holds whole decodes [] streams (le_refl _)
      have length : ((content.drop data.curDecOffset).take (min (target - data.curDecOffset) sizeofBuffer)).length =
          min (target - data.curDecOffset) sizeofBuffer := by
        rw [List.length_take,List.length_drop]
        omega
      have full : sizeofBuffer = 8192 := rfl
      rw [length] at streams'
      have next : Streams compressed content At entry
          { data' with curDecOffset := data.curDecOffset + min (target - data.curDecOffset) sizeofBuffer }
          (data.curDecOffset + min (target - data.curDecOffset) sizeofBuffer) := streams'
      obtain ⟨enough,last,rest,streams'',finished⟩ := ih next (by simp only; omega) (by simp only; omega)
      refine ⟨max needed enough + 1,last,fun steps more some' more' => ?_,streams'',finished⟩
      obtain ⟨more,rfl⟩ : ∃ fewer, more = fewer + 1 := ⟨more - 1,by omega⟩
      rw [seekForward,if_pos (by omega)]
      simp only [loop,if_neg (show ¬steps < needed by omega),List.nil_append,length,kept]
      exact rest steps more (by omega) (by omega)

theorem seekForwardNever {target : Nat} (steps more : Nat)
    (streams : Streams compressed content At entry data data.curDecOffset) (beyond : content.length < target) :
    packfile.seekForward decoder steps more data target = none := by
  induction more generalizing data with
  | zero => rfl
  | succ more ih =>
    have inside := streams.2.2.2.1
    obtain ⟨needed,data',loop,streams',kept⟩ :=
      internalRead (n := min (target - data.curDecOffset) sizeofBuffer) holds whole decodes [] streams (le_refl _)
    rw [seekForward,if_pos (by omega)]
    simp only [loop,List.nil_append]
    split
    · rfl
    · rename_i absurd'
      split at absurd' <;> cases absurd'
    · rename_i result
      split at result
      · cases result
      · cases result
        refine ih ?_
        simp only [kept]
        exact streams'

end
end

section
variable {handle : Nat} {data data' : HandleData Stream}

theorem setSame (got : packfile.GetHandle handle = some data) : packfile.setHandle handle data = packfile := by
  obtain ⟨listed,-⟩ := Option.filter_eq_some_iff.mp got
  obtain ⟨inside,same⟩ := List.getElem?_eq_some_iff.mp listed
  rw [setHandle,← same,List.set_getElem_self]

theorem getSet (got : packfile.GetHandle handle = some data) (valid : data'.valid = true) :
    (packfile.setHandle handle data').GetHandle handle = some data' := by
  obtain ⟨listed,-⟩ := Option.filter_eq_some_iff.mp got
  obtain ⟨inside,-⟩ := List.getElem?_eq_some_iff.mp listed
  simp only [setHandle,GetHandle,List.getElem?_set_self inside,Option.filter_some,valid,if_true]

theorem Returns.same {call : Call} {first second : Answer × RagePackfile7 Stream} (left : packfile.Returns decoder handle call first)
    (right : packfile.Returns decoder handle call second) : first = second := by
  obtain ⟨n,left⟩ := left
  obtain ⟨m,right⟩ := right
  have same := (left (max n m) (Nat.le_max_left n m)).symm.trans (right (max n m) (Nat.le_max_right n m))
  cases same
  rfl

theorem runAlike {P : RagePackfile7 Stream → Prop} {I : HandleData Stream → Nat → Prop}
    (kept : ∀ {packfile : RagePackfile7 Stream} {handle : Nat} {data : HandleData Stream}, P packfile → P (packfile.setHandle handle data))
    (step : ∀ {packfile : RagePackfile7 Stream} {handle : Nat} {data : HandleData Stream} {position : Nat} (call : Call), P packfile →
      packfile.GetHandle handle = some data → I data position →
      (Meets data call → ∃ data', packfile.Returns decoder handle call ((Cursor.mk content position).answer call,packfile.setHandle handle data') ∧
        data'.valid = true ∧ I data' ((Cursor.mk content position).after call).position) ∧
      (¬Meets data call → ∀ packfile', ¬packfile.Returns decoder handle call ((Cursor.mk content position).answer call,packfile')))
    {packfile : RagePackfile7 Stream} {handle : Nat} {data : HandleData Stream} {position : Nat} (holds : P packfile)
    (got : packfile.GetHandle handle = some data) (stands : I data position) (calls : List Call) :
    RunRight decoder packfile handle ⟨content,position⟩ calls ↔ RunMeets decoder packfile handle calls := by
  induction calls generalizing packfile data position with
  | nil => exact Iff.rfl
  | cons call calls ih =>
    obtain ⟨met,unmet⟩ := step call holds got stands
    have further {data' : HandleData Stream} (valid : data'.valid = true)
        (stands' : I data' ((Cursor.mk content position).after call).position) :
        RunRight decoder (packfile.setHandle handle data') handle ((Cursor.mk content position).after call) calls ↔
          RunMeets decoder (packfile.setHandle handle data') handle calls := by
      cases call <;> exact ih (kept holds) (getSet got valid) stands'
    constructor
    · rintro ⟨packfile',returns,rest⟩
      by_cases meets : Meets data call
      · obtain ⟨data',returns',valid,stands'⟩ := met meets
        cases returns.same returns'
        refine ⟨⟨data,got,meets⟩,fun answer packfile' again => ?_⟩
        cases again.same returns'
        exact (further valid stands').mp rest
      · exact absurd returns (unmet meets packfile')
    · rintro ⟨⟨data₀,got₀,meets⟩,rest⟩
      cases got.symm.trans got₀
      obtain ⟨data',returns,valid,stands'⟩ := met meets
      exact ⟨_,returns,(further valid stands').mpr (rest _ _ returns)⟩

end

section
variable {handle : Nat} {data : HandleData Stream} {position : Nat}

def StoredAt (entry : Entry) (data : HandleData Stream) (position : Nat) : Prop :=
  data.entry = entry ∧ data.compressed = false ∧ data.valid = true ∧ data.curOffset = position

theorem clamp (most n : Nat) : (if most < n then most else n) = min most n := by
  rw [Nat.min_def]
  split <;> split <;> omega

theorem storedRight (holds : packfile.Holds decoder entry content) (isStored : entry.size = 0) (call : Call)
    (got : packfile.GetHandle handle = some data) (stands : StoredAt entry data position) :
    ∃ data', packfile.Returns decoder handle call ((Cursor.mk content position).answer call,packfile.setHandle handle data') ∧
      data'.valid = true ∧ StoredAt entry data' ((Cursor.mk content position).after call).position := by
  obtain ⟨same,isCompressed,valid,rfl⟩ := stands
  have length := holds.length
  cases call with
  | Read size =>
    by_cases finished : entry.virtFlags ≤ data.curOffset
    · have nothing : (Cursor.mk content data.curOffset).next size = [] := by
        rw [Cursor.next,List.drop_eq_nil_of_le (length.trans_le finished),List.take_nil]
      refine ⟨data,⟨0,fun steps _ => ?_⟩,valid,same,isCompressed,valid,?_⟩
      · rw [setSame got]
        simp only [perform,Read,got,same,if_pos finished,Cursor.answer,nothing]
        rfl
      · simp only [Cursor.after,nothing]
        rfl
    · have bits := entry.virtFlagsBits
      have read := readEntryAt holds same (by omega) entry.virtFlags size
      rw [← holds.stored isStored] at read
      refine ⟨{ data with curOffset := data.curOffset + ((Cursor.mk content data.curOffset).next size).length },⟨0,fun steps _ => ?_⟩,valid,
        same,isCompressed,valid,rfl⟩
      simp only [perform,Read,got,same,if_neg finished,isCompressed,Bool.not_false,if_true,read]
      rfl
  | Seek offset seekType uninitialised =>
    refine ⟨{ data with curOffset := ((Cursor.mk content data.curOffset).after (.Seek offset seekType uninitialised)).position },
      ⟨0,fun steps _ => ?_⟩,valid,same,isCompressed,valid,rfl⟩
    cases seekType with
    | SEEK_SET =>
      simp only [perform,Seek,got,isCompressed]
      rfl
    | SEEK_CUR =>
      simp only [perform,Seek,got,isCompressed,same,clamp,← length]
      rfl
    | SEEK_END =>
      simp only [perform,Seek,got,isCompressed,same,← length]
      rfl
    | other =>
      change packfile.perform decoder steps handle (.Seek offset .other uninitialised) =
        some (.ok (.seek (wrap (-1)),packfile.setHandle handle data))
      rw [setSame got]
      simp only [perform,Seek,got,isCompressed]
      rfl

def CompressedAt (compressed content : Text) (At : Stream → Nat → Nat → Prop) (entry : Entry) (data : HandleData Stream)
    (position : Nat) : Prop :=
  Streams compressed content At entry data position ∧ data.curDecOffset = position

variable {At : Stream → Nat → Nat → Prop} {compressed : Text}

theorem readFinished (decoder : Decoder Stream) (got : packfile.GetHandle handle = some data)
    (finished : data.entry.virtFlags ≤ data.curOffset) (steps size : Nat) :
    packfile.perform decoder steps handle (.Read size) = some (.ok (.read 0 [],packfile)) := by
  simp only [perform,Read,got,if_pos finished]
  rfl

section
variable (holds : packfile.Holds decoder entry content)
  (whole : compressed = bulk packfile.parent (packfile.m_parentPtr + entry.offset * 512) entry.size)
  (decodes : Decodes decoder compressed content At) (size : Nat) (got : packfile.GetHandle handle = some data)
include holds whole decodes got

theorem readGoesOn (streams : Streams compressed content At entry data data.curDecOffset) (more : ¬data.entry.virtFlags ≤ data.curOffset) :
    ∃ needed data' count, count = size - (size % 2 ^ 32 - ((Cursor.mk content data.curDecOffset).next (size % 2 ^ 32)).length) ∧
      Streams compressed content At entry data'
        (data.curDecOffset + ((Cursor.mk content data.curDecOffset).next (size % 2 ^ 32)).length) ∧
      ∀ steps, needed ≤ steps → packfile.perform decoder steps handle (.Read size) =
        some (.ok (.read count ((Cursor.mk content data.curDecOffset).next (size % 2 ^ 32)),
          packfile.setHandle handle { data' with curDecOffset := data.curDecOffset + count })) := by
  obtain ⟨needed,data',loop,streams',kept⟩ := internalRead (n := size % 2 ^ 32) holds whole decodes [] streams (le_refl _)
  refine ⟨needed,data',_,rfl,streams',fun steps enough => ?_⟩
  simp only [perform,Read,got,if_neg more,streams.2.1,Bool.not_true,Bool.false_eq_true,if_false,loop,
    if_neg (show ¬steps < needed by omega),List.nil_append,Option.map_some,Except.map,kept]
  rfl

theorem compressedRead (stands : CompressedAt compressed content At entry data position) :
    (Meets data (.Read size) → ∃ data', packfile.Returns decoder handle (.Read size)
        ((Cursor.mk content position).answer (.Read size),packfile.setHandle handle data') ∧
      data'.valid = true ∧ CompressedAt compressed content At entry data' ((Cursor.mk content position).after (.Read size)).position) ∧
    (¬Meets data (.Read size) → ∀ packfile',
      ¬packfile.Returns decoder handle (.Read size) ((Cursor.mk content position).answer (.Read size),packfile')) := by
  obtain ⟨streams,rfl⟩ := stands
  have parts := streams
  obtain ⟨same,isCompressed,valid,inside,-⟩ := parts
  have length := holds.length
  by_cases finished : data.entry.virtFlags ≤ data.curOffset
  · have early := fun steps => readFinished decoder got finished steps size
    simp only [Meets,isCompressed,true_implies,if_pos finished]
    constructor
    · intro beyond
      have nothing : (Cursor.mk content data.curDecOffset).next size = [] := by
        rcases beyond with beyond | rfl
        · rw [Cursor.next,List.drop_eq_nil_of_le (by rw [length,beyond,same]),List.take_nil]
        · exact List.take_zero
      refine ⟨data,⟨0,fun steps _ => ?_⟩,valid,?_⟩
      · rw [early,setSame got,Cursor.answer,nothing]
        rfl
      · rw [Cursor.after,nothing]
        exact ⟨streams,rfl⟩
    · rintro more packfile' ⟨enough,returns⟩
      have result := (early enough).symm.trans (returns enough (le_refl _))
      simp only [Cursor.answer,Option.some.injEq,Except.ok.injEq,Prod.mk.injEq,Answer.read.injEq] at result
      have none' := result.1.1
      simp only [Cursor.next,List.length_take,List.length_drop] at none'
      exact more (by rw [same]; omega)
  · have written : ((Cursor.mk content data.curDecOffset).next (size % 2 ^ 32)).length ≤ size % 2 ^ 32 := List.length_take_le _ _
    obtain ⟨needed,data',count,count',streams',call⟩ := readGoesOn holds whole decodes size got streams finished
    simp only [Meets,isCompressed,true_implies,if_neg finished]
    constructor
    · intro small
      rw [Nat.mod_eq_of_lt small] at call count' written streams'
      obtain rfl : count = ((Cursor.mk content data.curDecOffset).next size).length := by omega
      exact ⟨_,⟨needed,call⟩,streams'.2.2.1,streams',rfl⟩
    · rintro large packfile' ⟨enough,returns⟩
      have result := (call (max needed enough) (Nat.le_max_left _ _)).symm.trans (returns _ (Nat.le_max_right _ _))
      simp only [Cursor.answer,Option.some.injEq,Except.ok.injEq,Prod.mk.injEq,Answer.read.injEq] at result
      have returned := result.1.1
      have bits := entry.virtFlagsBits
      have few : ((Cursor.mk content data.curDecOffset).next size).length ≤ content.length :=
        (List.length_take_le' _ _).trans (List.length_drop.trans_le (Nat.sub_le _ _))
      omega

end

theorem rewound (decodes : Decodes decoder compressed content At) (streams : Streams compressed content At entry data data.curDecOffset)
    (target : Nat) {begun : HandleData Stream} (begins : begun = if target < data.curDecOffset then
      { data with next_in := [], strm := decoder.fresh, curDecOffset := 0, curOffset := 0 } else data) :
    Streams compressed content At entry begun begun.curDecOffset ∧ begun.curDecOffset ≤ target := by
  subst begins
  have parts := streams
  obtain ⟨same,isCompressed,valid,-⟩ := parts
  split
  · exact ⟨⟨same,isCompressed,valid,Nat.zero_le _,0,Nat.zero_le _,decodes.fresh,rfl,List.nil_prefix⟩,Nat.zero_le _⟩
  · rename_i on
    exact ⟨streams,Nat.le_of_not_lt on⟩

theorem seekCall (decoder : Decoder Stream) (isCompressed : data.compressed = true) (got : packfile.GetHandle handle = some data) (steps : Nat) (offset : Int)
    (seekType : SeekType) (uninitialised : Nat) :
    packfile.perform decoder steps handle (.Seek offset seekType uninitialised) =
      (packfile.seekForward decoder steps steps (if offsetTarget data offset seekType uninitialised < data.curDecOffset then
        { data with next_in := [], strm := decoder.fresh, curDecOffset := 0, curOffset := 0 } else data)
        (offsetTarget data offset seekType uninitialised)).map (fun result => result.map (fun handleData =>
          (.seek (offsetTarget data offset seekType uninitialised),packfile.setHandle handle handleData))) := by
  simp only [perform,Seek,got,isCompressed,Bool.not_true,Bool.false_eq_true,if_false]
  cases packfile.seekForward decoder steps steps _ (offsetTarget data offset seekType uninitialised) with
  | none => rfl
  | some result => cases result <;> rfl

theorem targetNamed (length : content.length = data.entry.virtFlags) (offset : Int) {seekType : SeekType} (uninitialised : Nat)
    (named : seekType ≠ .other) :
    (Cursor.mk content data.curDecOffset).target offset seekType = some (offsetTarget data offset seekType uninitialised) := by
  cases seekType with
  | SEEK_CUR => simp [offsetTarget,Cursor.target,length,clamp]
  | other => exact absurd rfl named
  | _ => simp [offsetTarget,Cursor.target,length]

theorem targetMeets (length : content.length = data.entry.virtFlags) (isCompressed : data.compressed = true) (offset : Int)
    (seekType : SeekType) (uninitialised : Nat) : Meets data (.Seek offset seekType uninitialised) ↔
      offsetTarget data offset seekType uninitialised ≤ content.length ∧
        (Cursor.mk content data.curDecOffset).target offset seekType = some (offsetTarget data offset seekType uninitialised) := by
  cases seekType with
  | other => simp [Meets,isCompressed,Cursor.target]
  | _ => simp [Meets,isCompressed,offsetTarget,Cursor.target,length,clamp]

theorem compressedSeek (holds : packfile.Holds decoder entry content)
    (whole : compressed = bulk packfile.parent (packfile.m_parentPtr + entry.offset * 512) entry.size)
    (decodes : Decodes decoder compressed content At) (offset : Int) (seekType : SeekType) (uninitialised : Nat)
    (got : packfile.GetHandle handle = some data) (stands : CompressedAt compressed content At entry data position) :
    (Meets data (.Seek offset seekType uninitialised) → ∃ data', packfile.Returns decoder handle (.Seek offset seekType uninitialised)
        ((Cursor.mk content position).answer (.Seek offset seekType uninitialised),packfile.setHandle handle data') ∧ data'.valid = true ∧
      CompressedAt compressed content At entry data' ((Cursor.mk content position).after (.Seek offset seekType uninitialised)).position) ∧
    (¬Meets data (.Seek offset seekType uninitialised) → ∀ packfile', ¬packfile.Returns decoder handle (.Seek offset seekType uninitialised)
      ((Cursor.mk content position).answer (.Seek offset seekType uninitialised),packfile')) := by
  obtain ⟨streams,rfl⟩ := stands
  have parts := streams
  obtain ⟨same,isCompressed,valid,inside,-⟩ := parts
  have length := holds.length
  rw [← same] at length
  have meets := targetMeets length isCompressed offset seekType uninitialised
  generalize begins : (if offsetTarget data offset seekType uninitialised < data.curDecOffset then
    { data with next_in := [], strm := decoder.fresh, curDecOffset := 0, curOffset := 0 } else data) = begun
  obtain ⟨streams',before⟩ := rewound decodes streams _ begins.symm
  have call (steps : Nat) := seekCall decoder isCompressed got steps offset seekType uninitialised
  simp only [begins] at call
  rw [meets]
  constructor
  · rintro ⟨inside',target⟩
    obtain ⟨enough,data',forward,streams'',there⟩ := seekForwardEnds holds whole decodes streams' inside' before (le_refl _)
    refine ⟨data',⟨enough,fun steps more => ?_⟩,streams''.2.2.1,?_⟩
    · rw [call,forward steps steps more more,Cursor.answer,target]
      rfl
    · rw [Cursor.after,target]
      exact ⟨streams'',there⟩
  · rintro other packfile' ⟨enough,returns⟩
    have result := (call enough).symm.trans (returns enough (le_refl _))
    by_cases inside' : offsetTarget data offset seekType uninitialised ≤ content.length
    · obtain rfl : seekType = .other := by_contra (fun named => other ⟨inside',targetNamed length offset uninitialised named⟩)
      have unnamed : (Cursor.mk content data.curDecOffset).target offset .other = none := rfl
      have minus : wrap (-1) = 2 ^ 64 - 1 := by decide
      have bits := data.entry.virtFlagsBits
      cases forward : packfile.seekForward decoder enough enough begun (offsetTarget data offset .other uninitialised) with
      | none =>
        rw [forward] at result
        cases result
      | some ended =>
        rw [forward,Cursor.answer,unnamed] at result
        cases ended with
        | error => cases result
        | ok data' =>
          have there : offsetTarget data offset .other uninitialised = wrap (-1) := by
            simp only [Option.map_some,Except.map,Option.some.injEq,Except.ok.injEq,Prod.mk.injEq,Answer.seek.injEq,Option.getD_none] at result
            exact result.1
          omega
    · rw [seekForwardNever holds whole decodes enough enough streams' (Nat.lt_of_not_le inside')] at result
      cases result

end

theorem allocated (packfile : RagePackfile7 Stream) {data : HandleData Stream} (valid : data.valid = true) :
    (packfile.AllocateHandle data).2.GetHandle (packfile.AllocateHandle data).1 = some data ∧
      (packfile.AllocateHandle data).2.parent = packfile.parent ∧ (packfile.AllocateHandle data).2.m_parentPtr = packfile.m_parentPtr := by
  unfold AllocateHandle
  split
  · rename_i i found
    obtain ⟨inside,-⟩ := List.findIdx?_eq_some_iff_getElem.mp found
    exact ⟨by simp only [GetHandle,List.getElem?_set_self inside,Option.filter_some,valid,if_true],rfl,rfl⟩
  · exact ⟨by simp only [GetHandle,List.getElem?_concat_length,Option.filter_some,valid,if_true],rfl,rfl⟩

theorem readsRight (decoder : Decoder Stream) (packfile : RagePackfile7 Stream) {entry : Entry} {content : Text}
    (holds : packfile.Holds decoder entry content) {handle : Nat} {packfile' : RagePackfile7 Stream}
    (opened : packfile.Open decoder (some entry) true = (some handle,packfile')) (calls : List Call) :
    RunRight decoder packfile' handle ⟨content,0⟩ calls ↔ RunMeets decoder packfile' handle calls := by
  obtain ⟨got,parent,parentPtr⟩ := allocated packfile
    (show (⟨true,entry.size ≠ 0,entry,0,0,[],decoder.fresh⟩ : HandleData Stream).valid = true from rfl)
  simp only [Open,if_true,Prod.mk.injEq,Option.some.injEq] at opened
  obtain ⟨rfl,rfl⟩ := opened
  by_cases isStored : entry.size = 0
  · refine runAlike (P := fun moved => moved.Holds decoder entry content) (I := StoredAt entry)
      (fun holds => ⟨holds.length,holds.near,holds.placed,holds.stored,holds.compressed⟩) (fun call holds got stands => ?_) ?_ got ?_ calls
    · refine ⟨fun _ => storedRight holds isStored call got stands,fun unmet => absurd ?_ unmet⟩
      cases call <;> exact fun isCompressed => absurd (stands.2.1.symm.trans isCompressed) (by decide)
    · exact ⟨holds.length,holds.near,parentPtr ▸ holds.placed,parent ▸ parentPtr ▸ holds.stored,parent ▸ parentPtr ▸ holds.compressed⟩
    · exact ⟨rfl,by simp [isStored],rfl,rfl⟩
  · obtain ⟨At,decodes⟩ := holds.compressed isStored
    refine runAlike (P := fun moved => moved.Holds decoder entry content ∧
        bulk packfile.parent (packfile.m_parentPtr + entry.offset * 512) entry.size =
          bulk moved.parent (moved.m_parentPtr + entry.offset * 512) entry.size)
      (I := CompressedAt (bulk packfile.parent (packfile.m_parentPtr + entry.offset * 512) entry.size) content At entry)
      (fun holds => ⟨⟨holds.1.length,holds.1.near,holds.1.placed,holds.1.stored,holds.1.compressed⟩,holds.2⟩)
      (fun call holds got stands => ?_) ?_ got ?_ calls
    · cases call with
      | Read size => exact compressedRead holds.1 holds.2 decodes size got stands
      | Seek offset seekType uninitialised => exact compressedSeek holds.1 holds.2 decodes offset seekType uninitialised got stands
    · rw [parent,parentPtr]
      exact ⟨⟨holds.length,holds.near,parentPtr ▸ holds.placed,parent ▸ parentPtr ▸ holds.stored,parent ▸ parentPtr ▸ holds.compressed⟩,rfl⟩
    · exact ⟨⟨rfl,by simp [isStored],rfl,Nat.zero_le _,0,Nat.zero_le _,decodes.fresh,rfl,List.nil_prefix⟩,rfl⟩

def smallEntry : Entry := ⟨8,1,3,by decide,by decide,by decide⟩

def smallPackfile : RagePackfile7 Text := ⟨List.replicate 512 0 ++ Inflate.storedBlock (text "abc"),0,[]⟩

def smallOpened : RagePackfile7 Text := { smallPackfile with m_handles := [⟨true,true,smallEntry,0,0,[],[]⟩] }

def smallRead : RagePackfile7 Text :=
  { smallPackfile with m_handles := [⟨true,true,smallEntry,8,1,text "bc",(Inflate.storedBlock (text "abc")).take 6⟩] }

theorem smallHolds : smallPackfile.Holds Inflate.storedDecoder smallEntry (text "abc") where
  length := rfl
  near := by decide
  placed := by decide
  stored := by decide
  compressed _ := by
    have data : bulk smallPackfile.parent (smallPackfile.m_parentPtr + smallEntry.offset * 512) smallEntry.size =
        Inflate.storedBlock (text "abc") := by
      rw [bulk,smallPackfile,List.drop_left' (by rw [List.length_replicate]; rfl)]
      rfl
    rw [data]
    exact ⟨_,Inflate.storedDecodes (by decide)⟩

theorem smallOpen : smallPackfile.Open Inflate.storedDecoder (some smallEntry) true = (some 0,smallOpened) := rfl

set_option maxRecDepth 8000 in
theorem smallFirst : smallOpened.Returns Inflate.storedDecoder 0 (.Read 1) (.read 1 (text "a"),smallRead) := by
  refine ⟨2,fun steps enough => ?_⟩
  obtain ⟨more,rfl⟩ := Nat.exists_eq_add_of_le' enough
  rfl

theorem smallSecond : smallRead.Returns Inflate.storedDecoder 0 (.Read 1) (.read 0 [],smallRead) := ⟨0,fun _ _ => rfl⟩

theorem readsRightSmall : RunRight Inflate.storedDecoder smallOpened 0 ⟨text "abc",0⟩ [.Read 1,.Seek (-1) .SEEK_CUR 0] := by
  refine (readsRight Inflate.storedDecoder smallPackfile smallHolds smallOpen _).mpr ⟨⟨_,rfl,fun _ => ?_⟩,fun answer packfile' returns => ?_⟩
  · exact (by decide : (1 : Nat) < 2 ^ 32)
  · cases returns.same smallFirst
    exact ⟨⟨_,rfl,fun _ => trivial⟩,fun _ _ _ => trivial⟩

theorem readsShort : smallPackfile.Holds Inflate.storedDecoder smallEntry (text "abc") ∧
    smallPackfile.Open Inflate.storedDecoder (some smallEntry) true = (some 0,smallOpened) ∧
    ¬RunRight Inflate.storedDecoder smallOpened 0 ⟨text "abc",0⟩ [.Read 1,.Read 1] ∧
    ¬RunRight Inflate.storedDecoder smallOpened 0 ⟨text "abc",0⟩ [.Seek 4 .SEEK_SET 0] := by
  refine ⟨smallHolds,smallOpen,?_,?_⟩
  · rintro ⟨first,returns,second,again,-⟩
    cases returns.same smallFirst
    have short := again.same smallSecond
    cases short
  · rintro ⟨moved,returns,-⟩
    obtain ⟨At,decodes⟩ := smallHolds.compressed (by decide)
    have holds : smallOpened.Holds Inflate.storedDecoder smallEntry (text "abc") :=
      ⟨smallHolds.length,smallHolds.near,smallHolds.placed,smallHolds.stored,smallHolds.compressed⟩
    have stands : CompressedAt (bulk smallPackfile.parent (smallPackfile.m_parentPtr + smallEntry.offset * 512) smallEntry.size)
        (text "abc") At smallEntry ⟨true,true,smallEntry,0,0,[],[]⟩ 0 :=
      ⟨⟨rfl,rfl,rfl,Nat.zero_le _,0,Nat.zero_le _,decodes.fresh,rfl,List.nil_prefix⟩,rfl⟩
    have unmet : ¬Meets (⟨true,true,smallEntry,0,0,[],[]⟩ : HandleData Text) (.Seek 4 .SEEK_SET 0) :=
      fun met => absurd (met rfl) (by decide : ¬wrap 4 ≤ 3)
    exact (compressedSeek holds rfl decodes 4 .SEEK_SET 0 rfl stands).2 unmet moved returns

end RagePackfile7
end Citizen.Packfile
