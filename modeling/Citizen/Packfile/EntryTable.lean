import Citizen.Packfile.RagePackfile
import Mathlib.Data.List.Find
import Mathlib.Data.List.Lex

/-! The table of entries as a tree: what a part of a path means in a directory, and where a path leads. -/
namespace Citizen.Packfile
open RagePackfile

attribute [local instance] byteOrder

namespace RagePackfile
variable (packfile : RagePackfile) {directory : RagePackfile.Entry}

def children (directory : Entry) : List Nat := (List.range directory.length).map (directory.dataOffset + ·)

def named (i : Nat) : Text := cString (packfile.nameAt (packfile.entryAt i))

def pick (directory : Entry) (key : Text) : Option Nat :=
  ((children directory).find? (fun i => packfile.named i = cString key)).or
    ((children directory).find? (fun i => sameUpToCase (cString key) (packfile.named i)))

structure Searchable (directory : Entry) : Prop where
  terminated : ∀ i ∈ children directory, 0 ∈ packfile.nameAt (packfile.entryAt i)
  ordered : ((children directory).map packfile.named).Pairwise (· < ·)

variable {packfile}

section
variable {i : Nat} (terminated : 0 ∈ packfile.nameAt (packfile.entryAt i))
include terminated

theorem nameTerminated : ∃ rest, packfile.nameAt (packfile.entryAt i) = packfile.named i ++ 0 :: rest := by
  obtain ⟨name,rest,split,free⟩ := List.eq_append_cons_of_mem terminated
  exact ⟨rest,by rw [named,split,cStringAppend free]⟩

theorem strcmpNamed (key : Text) :
    strcmp (cString key) (packfile.nameAt (packfile.entryAt i)) =
      if cString key < packfile.named i then .lt else if cString key = packfile.named i then .eq else .gt := by
  obtain ⟨rest,split⟩ := nameTerminated terminated
  rw [split]
  exact strcmpName (cStringFree key) (cStringFree _)

theorem stricmpNamed (key : Text) :
    stricmp (cString key) (packfile.nameAt (packfile.entryAt i)) = true ↔ sameUpToCase (cString key) (packfile.named i) := by
  obtain ⟨rest,split⟩ := nameTerminated terminated
  rw [split]
  exact stricmpName (cStringFree key) (cStringFree _)

end

section
variable (searchable : packfile.Searchable directory)
include searchable

theorem Searchable.child {j : Nat} (inside : j < directory.length) :
    0 ∈ packfile.nameAt (packfile.entryAt (directory.dataOffset + j)) :=
  searchable.terminated _ (List.mem_map.mpr ⟨j,List.mem_range.mpr inside,rfl⟩)

theorem Searchable.search (key : Text) :
    BinarySearch.Ordered (fun j => strcmp (cString key) (packfile.nameAt (packfile.entryAt (directory.dataOffset + j))))
      directory.length := by
  intro j k before inside notAfter
  have below : packfile.named (directory.dataOffset + j) < packfile.named (directory.dataOffset + k) := by
    have pair := List.pairwise_iff_getElem.mp searchable.ordered j k (by simp [children]; omega)
      (by simpa [children] using inside) before
    simpa [children] using pair
  simp only [strcmpNamed (searchable.child (Nat.lt_trans before inside)),strcmpNamed (searchable.child inside)] at notAfter ⊢
  split at notAfter
  · rename_i less
    rw [if_pos (lt_trans less below)]
  · split at notAfter
    · rename_i same
      rw [if_pos (same ▸ below)]
    · exact absurd rfl notAfter

theorem findChildPick (key : Text) : packfile.findChild directory key = packfile.pick directory key := by
  have same (j : Nat) (mem : j ∈ List.range directory.length) :
      decide (strcmp (cString key) (packfile.nameAt (packfile.entryAt (directory.dataOffset + j))) = .eq) =
        decide (packfile.named (directory.dataOffset + j) = cString key) := by
    rw [strcmpNamed (searchable.child (List.mem_range.mp mem)),decide_eq_decide]
    split
    · rename_i less
      exact iff_of_false (by simp) (fun equal => List.lt_irrefl _ (equal ▸ less))
    · split
      · rename_i equal
        exact iff_of_true rfl equal.symm
      · rename_i other
        exact iff_of_false (by simp) (fun equal => other equal.symm)
  have upToCase (j : Nat) (mem : j ∈ List.range directory.length) :
      stricmp (cString key) (packfile.nameAt (packfile.entryAt (directory.dataOffset + j))) =
        decide (sameUpToCase (cString key) (packfile.named (directory.dataOffset + j))) := by
    rw [Bool.eq_iff_iff,stricmpNamed (searchable.child (List.mem_range.mp mem)),decide_eq_true_iff]
  have first := (BinarySearch.searchFind (searchable.search key)).trans (List.find?_congr same)
  have second := List.find?_congr upToCase
  simp only [findChild,pick,children,List.find?_map,Function.comp_def,first,second]
  cases (List.range directory.length).find? (fun j => decide (packfile.named (directory.dataOffset + j) = cString key)) <;> rfl

end

end RagePackfile
end Citizen.Packfile
