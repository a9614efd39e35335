import Mathlib.Data.List.Basic
import Mathlib.Logic.Function.Basic

/-! Memory as a byte at each address. A read may reach past the block that was allocated,
and then returns what lies there. -/
namespace LinuxCourse.Library

abbrev Heap : Type := Nat → UInt8

namespace Heap

def read (heap : Heap) (address size : Nat) : List UInt8 :=
  (List.range size).map fun offset => heap (address+offset)

def write (heap : Heap) (address : Nat) (bytes : List UInt8) : Heap := fun place =>
  if address ≤ place then (bytes[place-address]?).getD (heap place) else heap place

theorem write_outside (heap : Heap) (address place : Nat) (bytes : List UInt8)
    (outside : ¬(address ≤ place ∧ place < address+bytes.length)) :
    heap.write address bytes place = heap place := by
  unfold write
  split
  · rename_i behind
    have none : bytes[place-address]? = none := List.getElem?_eq_none (by omega)
    rw [none,Option.getD_none]
  · rfl

theorem write_inside (first second : Heap) (address place : Nat) (bytes : List UInt8)
    (inside : address ≤ place ∧ place < address+bytes.length) :
    first.write address bytes place = second.write address bytes place := by
  obtain ⟨byte,found⟩ : ∃ byte, bytes[place-address]? = some byte :=
    ⟨_,List.getElem?_eq_getElem (by omega)⟩
  simp only [write,if_pos inside.1,found,Option.getD_some]

theorem read_eq_iff (first second : Heap) (address size : Nat) :
    first.read address size = second.read address size ↔
      ∀ offset, offset < size → first (address+offset) = second (address+offset) := by
  rw [read,read,List.map_inj_left]
  simp only [List.mem_range]

theorem read_write (heap : Heap) (address size : Nat) (bytes : List UInt8) (fits : bytes.length ≤ size) :
    (heap.write address bytes).read address size =
      bytes++heap.read (address+bytes.length) (size-bytes.length) := by
  apply List.ext_getElem
  · simp only [read,List.length_map,List.length_range,List.length_append]
    omega
  · intro index here there
    simp only [read,List.getElem_map,List.getElem_range,write,if_pos (Nat.le_add_right _ _),
      Nat.add_sub_cancel_left,List.getElem_append]
    split
    · rename_i inside
      rw [List.getElem?_eq_getElem inside,Option.getD_some]
    · rename_i outside
      rw [List.getElem?_eq_none (by omega),Option.getD_none]
      congr 1
      omega

/-- The byte at `place` is one that the function looks at: there is a heap in which another
byte there makes it give something else. -/
def Matters {α : Type} (function : Heap → α) (place : Nat) : Prop :=
  ∃ (heap : Heap) (byte : UInt8), function (Function.update heap place byte) ≠ function heap

theorem matters_read (address size place : Nat) :
    Matters (fun heap => heap.read address size) place ↔ address ≤ place ∧ place < address+size := by
  constructor
  · rintro ⟨heap,byte,differ⟩
    by_contra outside
    refine differ ((read_eq_iff _ _ _ _).mpr fun offset small => ?_)
    exact Function.update_of_ne (by omega) _ _
  · rintro ⟨behind,before⟩
    refine ⟨fun _ => 0,1,fun same => ?_⟩
    have equal := (read_eq_iff _ _ _ _).mp same (place-address) (by omega)
    rw [Nat.add_sub_cancel' behind,Function.update_self] at equal
    exact absurd equal (by decide)

end Heap
end LinuxCourse.Library
