import Citizen.Packfile.ArchiveLayout

/-! What the reader of an archive has of the tree it was written from. -/
namespace Citizen.Packfile
open BitField (Byte)
open LittleEndian (load)
open RagePackfile

theorem loadHead (n : Nat) (rest : Text) : load (code n ++ rest) 0 4 = n % 2 ^ 32 := by
  rw [load,List.drop_zero,List.take_left' (codeFixed n),LittleEndian.valueBytes]
  rfl

theorem loadTail (n i : Nat) (rest : Text) : load (code n ++ rest) (i + 4) 4 = load rest i 4 := by
  rw [load,load,Nat.add_comm i 4,← List.drop_drop,List.drop_left' (codeFixed n)]

theorem fourWords {data rest : Text} {a b c d : Nat} (whole : data = code a ++ (code b ++ (code c ++ (code d ++ rest)))) :
    load data 0 4 = a % 2 ^ 32 ∧ load data 4 4 = b % 2 ^ 32 ∧ load data 8 4 = c % 2 ^ 32 ∧ load data 12 4 = d % 2 ^ 32 := by
  rw [whole]
  refine ⟨loadHead _ _,?_,?_,?_⟩
  · exact (loadTail a 0 _).trans (loadHead _ _)
  · exact (loadTail a 4 _).trans ((loadTail b 0 _).trans (loadHead _ _))
  · exact (loadTail a 8 _).trans ((loadTail b 4 _).trans ((loadTail c 0 _).trans (loadHead _ _)))

theorem readRecord {data : Text} {a b c d : Nat} (record : data.take 16 = code a ++ (code b ++ (code c ++ code d))) :
    readEntry data = ⟨a % 2 ^ 32,b % 2 ^ 32,c % 2 ^ 32 % 2 ^ 31,2 ^ 31 ≤ c % 2 ^ 32,d % 2 ^ 32⟩ := by
  have whole : data = code a ++ (code b ++ (code c ++ (code d ++ data.drop 16))) := by
    conv => lhs; rw [← List.take_append_drop 16 data,record]
    simp only [List.append_assoc]
  obtain ⟨first,second,third,fourth⟩ := fourWords whole
  rw [readEntry,first,second,third,fourth]

theorem readHead {data : Text} {a b c d e : Nat} (header : data = code a ++ (code b ++ (code c ++ (code d ++ code e)))) :
    readHeader data = ⟨a % 2 ^ 32,b % 2 ^ 32,c % 2 ^ 32,d % 2 ^ 32,e % 2 ^ 32⟩ := by
  have whole : data = code a ++ (code b ++ (code c ++ (code d ++ (code e ++ [])))) := by rw [List.append_nil,header]
  obtain ⟨first,second,third,fourth⟩ := fourWords whole
  have fifth : load data 16 4 = e % 2 ^ 32 := by
    rw [whole]
    exact (loadTail a 12 _).trans ((loadTail b 8 _).trans ((loadTail c 4 _).trans ((loadTail d 0 _).trans (loadHead _ _))))
  rw [readHeader,first,second,third,fourth,fifth]

structure Image (OpenRead : Text → Option Text) (root : Entry) (packfile : RagePackfile) (At : Nat → Entry → Prop) : Prop where
  first : At 0 root
  member : ∀ {i d}, At i d → d ∈ root.all
  directory : ∀ {i d}, At i d → (packfile.entryAt i).isDirectory = d.m_isDirectory
  length : ∀ {i d}, At i d →
    (packfile.entryAt i).length = if d.m_isDirectory then d.m_subEntries.length else (content OpenRead d).length
  children : ∀ {i d j sub}, At i d → d.m_isDirectory = true → (Entry.sorted d.m_subEntries)[j]? = some sub →
    At ((packfile.entryAt i).dataOffset + j) sub
  name : ∀ {i d}, At i d → ∃ rest, packfile.nameAt (packfile.entryAt i) = shownName d ++ 0 :: rest
  data : ∀ {i d}, At i d → d.m_isDirectory = false → ∀ cur size,
    bulk packfile.parent (packfile.m_parentPtr + (packfile.entryAt i).dataOffset + cur) (min ((content OpenRead d).length - cur) size) =
      ((content OpenRead d).drop cur).take size

section
variable {OpenRead : Text → Option Text} {root : Entry} {archive before : Text} {V : Text → Nat} {count toc : Nat}

def tocText (archive : Text) (toc : Nat) : Text :=
  (archive.drop 2048).take toc ++ List.replicate (toc - ((archive.drop 2048).take toc).length) 0

def opened (before archive : Text) (count toc : Nat) : RagePackfile where
  parent := before ++ archive
  m_parentPtr := before.length
  m_pathPrefix := []
  m_header := ⟨0x32465052,toc,count,0,0⟩
  m_handles := List.replicate 128 ⟨false,⟨0,0,0,false,0⟩,0⟩
  m_entries := (List.range count).map (fun i => readEntry ((tocText archive toc).drop (i * sizeofEntry)))
  m_nameTable := (tocText archive toc).drop (count * sizeofEntry)

theorem bulkAfter (before archive : Text) (ptr size : Nat) :
    bulk (before ++ archive) (before.length + ptr) size = (archive.drop ptr).take size := by
  rw [bulk,← List.drop_drop,List.drop_left]

theorem openLaid (laid : Laid OpenRead root archive V count toc) (small : archive.length < 2 ^ 31) (before : Text) :
    OpenArchive true (some (before ++ archive,before.length)) = .ok (opened before archive count toc) := by
  have head : bulk (before ++ archive) before.length sizeofHeader =
      code 0x32465052 ++ (code toc ++ (code count ++ (code 0 ++ code 0))) := (bulkAfter before archive 0 20).trans laid.header
  obtain ⟨-,few,inside⟩ := laid.bounds
  have read : readHeader (bulk (before ++ archive) before.length sizeofHeader) = ⟨0x32465052,toc,count,0,0⟩ := by
    rw [readHead head,Nat.mod_eq_of_lt (a := toc) (by omega),Nat.mod_eq_of_lt (a := count) (by omega)]
    rfl
  have length : (bulk (before ++ archive) before.length sizeofHeader).length = sizeofHeader := by
    rw [head]
    simp [sizeofHeader]
  simp only [OpenArchive,Bool.not_true,Bool.false_eq_true,if_false,length,ne_eq,not_true,read,bulkAfter]
  rfl

def Place (root : Entry) (archive : Text) (V : Text → Nat) (count i : Nat) (d : Entry) : Prop :=
  i < count ∧ d ∈ root.all ∧ (archive.drop (tocStart + 16 * i)).take 16 = d.recordText V

theorem tocPrefix {from' size : Nat} (inside : from' + size ≤ toc) (held : tocStart + from' + size ≤ archive.length) :
    ((tocText archive toc).drop from').take size = (archive.drop (tocStart + from')).take size := by
  have read : from' + size ≤ ((archive.drop 2048).take toc).length := by
    rw [List.length_take,List.length_drop]
    unfold tocStart at held
    omega
  rw [tocText,List.drop_append_of_le_length (by omega),List.take_append_of_le_length (by rw [List.length_drop]; omega),
    List.drop_take,List.take_take,Nat.min_eq_left (by omega),List.drop_drop]
  rfl

theorem entryPlaced (before : Text) (laid : Laid OpenRead root archive V count toc) {i : Nat} {d : Entry} (place : Place root archive V count i d) :
    (opened before archive count toc).entryAt i = readEntry ((tocText archive toc).drop (i * sizeofEntry)) ∧
      ((tocText archive toc).drop (i * sizeofEntry)).take 16 = d.recordText V := by
  obtain ⟨inside,mem,record⟩ := place
  obtain ⟨-,few,held⟩ := laid.bounds
  have bound : i * sizeofEntry + 16 ≤ 16 * count := by
    unfold sizeofEntry
    omega
  constructor
  · simp [entryAt,opened,List.getD_eq_getElem?_getD,inside]
  · rw [tocPrefix (by omega) (by omega),← record]
    unfold sizeofEntry
    rw [Nat.mul_comm]

theorem indexParts {c : Nat} (small : c < 2 ^ 31) :
    (c ||| 0x80000000) % 2 ^ 32 % 2 ^ 31 = c ∧ 2 ^ 31 ≤ (c ||| 0x80000000) % 2 ^ 32 := by
  have sum : c ||| 0x80000000 = 2 ^ 31 + c := by
    rw [Nat.or_comm]
    exact (Nat.two_pow_add_eq_or_of_lt small 1).symm
  rw [sum]
  omega

theorem entryFields (before : Text) (laid : Laid OpenRead root archive V count toc) (small : archive.length < 2 ^ 31) {i : Nat} {d : Entry}
    (place : Place root archive V count i d) :
    ((opened before archive count toc).entryAt i).nameOffset = V d.nOff ∧
      ((opened before archive count toc).entryAt i).isDirectory = d.m_isDirectory ∧
      ((opened before archive count toc).entryAt i).length =
        (if d.m_isDirectory then d.m_subEntries.length else (content OpenRead d).length) ∧
      ((opened before archive count toc).entryAt i).dataOffset =
        (if d.m_isDirectory then V d.cIdx % 2 ^ 31 else V d.fOff) := by
  obtain ⟨read,record⟩ := entryPlaced before laid place
  obtain ⟨-,few,held⟩ := laid.bounds
  obtain ⟨-,-,named⟩ := laid.names d place.2.1
  unfold tocStart at few named
  rw [read]
  cases isDirectory : d.m_isDirectory with
  | true =>
    obtain ⟨c,index,inside,-⟩ := laid.children d place.2.1 isDirectory
    have parts := indexParts (c := c) (by omega)
    simp only [Entry.recordText,isDirectory,Bool.not_true,Bool.false_eq_true,if_false,index] at record
    rw [readRecord record]
    simp only [if_true,index,parts.1,decide_eq_true parts.2]
    refine ⟨Nat.mod_eq_of_lt (by omega),trivial,Nat.mod_eq_of_lt (by omega),?_⟩
    omega
  | false =>
    obtain ⟨length,-,-,-,ends⟩ := laid.files d place.2.1 isDirectory
    simp only [Entry.recordText,isDirectory,Bool.not_false,if_true,length] at record
    rw [readRecord record]
    refine ⟨Nat.mod_eq_of_lt (by omega),decide_eq_false (by omega),Nat.mod_eq_of_lt (by omega),?_⟩
    simp only [Bool.false_eq_true,if_false]
    omega

theorem imageLaid (laid : Laid OpenRead root archive V count toc) (small : archive.length < 2 ^ 31) (before : Text) :
    Image OpenRead root (opened before archive count toc) (Place root archive V count) where
  first := ⟨laid.bounds.1,Entry.selfMemAll root,laid.rootRecord⟩
  member place := place.2.1
  directory place := (entryFields before laid small place).2.1
  length place := (entryFields before laid small place).2.2.1
  children := by
    intro i d j sub place isDirectory found
    obtain ⟨c,index,inside,each⟩ := laid.children d place.2.1 isDirectory
    obtain ⟨-,few,held⟩ := laid.bounds
    have offset := (entryFields before laid small place).2.2.2
    rw [if_pos isDirectory,index] at offset
    have sorted : j < (Entry.sorted d.m_subEntries).length := (List.getElem?_eq_some_iff.mp found).1
    rw [(Entry.sortedPerm _).length_eq] at sorted
    have parts := indexParts (c := c) (by omega)
    have same : ((opened before archive count toc).entryAt i).dataOffset = c := by omega
    rw [same]
    exact ⟨by omega,Entry.subMemAll place.2.1 (Entry.memSorted.mp (List.mem_of_getElem? found)),each j sub found⟩
  name := by
    intro i d place
    obtain ⟨rest,text,inside⟩ := laid.names d place.2.1
    obtain ⟨-,few,held⟩ := laid.bounds
    rw [nameAt,(entryFields before laid small place).1]
    have stored : ((tocText archive toc).drop (16 * count + V d.nOff)).take ((shownName d).length + 1) = shownName d ++ [0] := by
      have cut : shownName d ++ 0 :: rest = (shownName d ++ [0]) ++ rest := by simp
      rw [tocPrefix (by omega) (by omega),← Nat.add_assoc,text,cut]
      exact List.take_left' (by simp)
    have table : (opened before archive count toc).m_nameTable.drop (V d.nOff) = (tocText archive toc).drop (16 * count + V d.nOff) := by
      rw [opened,List.drop_drop,Nat.mul_comm]
      rfl
    refine ⟨((tocText archive toc).drop (16 * count + V d.nOff)).drop ((shownName d).length + 1),?_⟩
    rw [table]
    conv => lhs; rw [← List.take_append_drop ((shownName d).length + 1) ((tocText archive toc).drop (16 * count + V d.nOff)),stored]
    simp
  data := by
    intro i d place isFile cur size
    obtain ⟨-,-,rest,text,ends⟩ := laid.files d place.2.1 isFile
    rw [(entryFields before laid small place).2.2.2,if_neg (by rw [isFile]; decide)]
    change bulk (before ++ archive) (before.length + V d.fOff + cur) _ = _
    rw [Nat.add_assoc,bulkAfter,← List.drop_drop,text,List.drop_append,
      List.take_append_of_le_length (by rw [List.length_drop]; exact Nat.min_le_left _ _),List.take_eq_take_iff,List.length_drop]
    omega

end
end Citizen.Packfile
