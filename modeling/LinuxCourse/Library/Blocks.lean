import Mathlib.Data.List.Basic

/-! A function on blocks of a fixed size, applied block by block to a list. -/
namespace LinuxCourse.Library

def Block (α : Type) (size : Nat) : Type := {bytes : List α // bytes.length = size}

namespace Block
variable {α : Type} {size : Nat}

instance [DecidableEq α] : DecidableEq (Block α size) := inferInstanceAs (DecidableEq (Subtype _))

def mapBlocks (transform : Block α size → Block α size) : Nat → List α → List α
  | 0, _ => []
  | count+1, data =>
    if complete : size ≤ data.length then
      (transform ⟨data.take size,List.length_take_of_le complete⟩).1++
        mapBlocks transform count (data.drop size)
    else []

theorem mapBlocks_length (transform : Block α size → Block α size) (count : Nat) (data : List α)
    (complete : count*size ≤ data.length) : (mapBlocks transform count data).length = count*size := by
  induction count generalizing data with
  | zero => simp [mapBlocks]
  | succ count ih =>
    rw [Nat.succ_mul] at complete ⊢
    rw [mapBlocks,dif_pos (by omega),List.length_append,ih _ (by rw [List.length_drop]; omega)]
    have block := (transform ⟨data.take size,List.length_take_of_le (by omega)⟩).2
    omega

theorem mapBlocks_inverse (forth back : Block α size → Block α size)
    (inverse : Function.LeftInverse back forth) (count : Nat) (data : List α)
    (complete : count*size ≤ data.length) :
    mapBlocks back count (mapBlocks forth count data) = data.take (count*size) := by
  induction count generalizing data with
  | zero => simp [mapBlocks]
  | succ count ih =>
    rw [Nat.succ_mul] at complete
    have whole : size ≤ data.length := by omega
    have rest : count*size ≤ (data.drop size).length := by
      rw [List.length_drop]
      omega
    let block : Block α size := ⟨data.take size,List.length_take_of_le whole⟩
    have size_eq := (forth block).2
    have front : ((forth block).1++mapBlocks forth count (data.drop size)).take size = (forth block).1 :=
      List.take_left' size_eq
    have behind : ((forth block).1++mapBlocks forth count (data.drop size)).drop size =
        mapBlocks forth count (data.drop size) := List.drop_left' size_eq
    have first : mapBlocks forth (count+1) data =
        (forth block).1++mapBlocks forth count (data.drop size) := by
      rw [mapBlocks,dif_pos whole]
    have undone : back ⟨(forth block).1,size_eq⟩ = block := inverse block
    rw [first,mapBlocks,dif_pos (by rw [List.length_append]; omega)]
    simp only [front,behind,undone,ih _ rest]
    rw [Nat.succ_mul,Nat.add_comm,List.take_add]

end Block
end LinuxCourse.Library
