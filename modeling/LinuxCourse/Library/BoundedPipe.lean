import Mathlib.Data.List.Basic

/-! A pipe of finite capacity: bytes leave it in the order in which they came. -/
namespace LinuxCourse.Library

structure BoundedPipe where
  capacity : Nat
  bytes : List UInt8
  within : bytes.length ≤ capacity

namespace BoundedPipe

def empty (capacity : Nat) : BoundedPipe := ⟨capacity,[],Nat.zero_le capacity⟩

def put (pipe : BoundedPipe) (chunk : List UInt8) : Option BoundedPipe :=
  if room : pipe.bytes.length+chunk.length ≤ pipe.capacity then
    some ⟨pipe.capacity,pipe.bytes++chunk,by rwa [List.length_append]⟩
  else none

def drop (pipe : BoundedPipe) (count : Nat) : BoundedPipe :=
  ⟨pipe.capacity,pipe.bytes.drop count,Nat.le_trans (by simp) pipe.within⟩

theorem put_cases (pipe next : BoundedPipe) (chunk : List UInt8) (put : pipe.put chunk = some next) :
    next.capacity = pipe.capacity ∧ next.bytes = pipe.bytes++chunk := by
  unfold BoundedPipe.put at put
  split at put
  · obtain rfl := Option.some.inj put
    exact ⟨rfl,rfl⟩
  · contradiction

theorem put_byte (pipe : BoundedPipe) (byte : UInt8) (room : pipe.bytes.length < pipe.capacity) :
    ∃ next, pipe.put [byte] = some next := ⟨_,dif_pos room⟩

theorem put_full (pipe : BoundedPipe) (chunk : List UInt8) (full : pipe.bytes.length = pipe.capacity)
    (some : 0 < chunk.length) : pipe.put chunk = none := dif_neg (by omega)

end BoundedPipe
end LinuxCourse.Library
