import Mathlib.Data.Nat.Digits.Lemmas
import Mathlib.Data.List.TakeDrop

/-! Bytes in memory: a store that overwrites the front of a block, and the
little-endian layout of 32-bit machine integers. -/
namespace LinuxCourse.Bytes

def zeros (size : Nat) : List UInt8 := List.replicate size 0

/-- The block keeps its size; what would fall behind its end is not part of it. -/
def store (block bytes : List UInt8) : List UInt8 :=
  (bytes ++ block.drop bytes.length).take block.length

@[simp] theorem zeros_length (size : Nat) : (zeros size).length = size := by simp [zeros]

@[simp] theorem store_length (block bytes : List UInt8) :
    (store block bytes).length = block.length := by
  simp only [store,List.length_take,List.length_append,List.length_drop]
  omega

theorem store_within (block bytes : List UInt8) (fits : bytes.length ≤ block.length) :
    store block bytes = bytes ++ block.drop bytes.length := by
  apply List.take_of_length_le
  simp only [List.length_append,List.length_drop]
  omega

theorem store_zeros (size : Nat) (bytes : List UInt8) (fits : bytes.length ≤ size) :
    store (zeros size) bytes = bytes ++ zeros (size-bytes.length) := by
  rw [store_within _ _ (by simpa using fits)]
  simp [zeros]

theorem zero_mem_store (size : Nat) (data : List UInt8) (fits : data.length ≤ size) :
    0 ∈ store (zeros size) data ↔ data.length < size ∨ 0 ∈ data := by
  rw [store_zeros size data fits,List.mem_append,zeros,List.mem_replicate]
  constructor
  · rintro (inside | ⟨some,_⟩)
    · exact Or.inr inside
    · exact Or.inl (by omega)
  · rintro (short | inside)
    · exact Or.inr ⟨by omega,rfl⟩
    · exact Or.inl inside

theorem store_full (block bytes : List UInt8) (size : bytes.length = block.length) :
    store block bytes = bytes := by
  rw [store_within _ _ (Nat.le_of_eq size)]
  simp [size]

theorem store_take (whole part : Nat) (bytes : List UInt8) (inside : part ≤ whole)
    (fits : bytes.length ≤ part) : (store (zeros whole) bytes).take part = store (zeros part) bytes := by
  rw [store_zeros _ _ (by omega),store_zeros _ _ fits,List.take_append,List.take_of_length_le fits]
  simp only [zeros,List.take_replicate]
  congr 2
  omega

theorem take_zeros (bytes : List UInt8) (count first second : Nat)
    (reaches : count ≤ bytes.length+first) (covers : count ≤ bytes.length+second) :
    (bytes++zeros first).take count = (bytes++zeros second).take count := by
  rw [List.take_append,List.take_append]
  simp only [zeros,List.take_replicate]
  congr 2
  omega

theorem store_fill (size : Nat) (bytes : List UInt8) :
    store (zeros size) (bytes.take size) = (bytes++zeros size).take size := by
  have taken : (bytes.take size).length = min size bytes.length := List.length_take
  rw [store_zeros _ _ (by omega),List.take_append,taken]
  simp only [zeros,List.take_replicate]
  congr 2
  omega

def encode (value : BitVec 32) : List UInt8 :=
  [UInt8.ofNat value.toNat,UInt8.ofNat (value.toNat/256),
    UInt8.ofNat (value.toNat/65536),UInt8.ofNat (value.toNat/16777216)]

def decode (bytes : List UInt8) : BitVec 32 :=
  BitVec.ofNat 32 (Nat.ofDigits 256 (bytes.map UInt8.toNat))

@[simp] theorem encode_length (value : BitVec 32) : (encode value).length = 4 := rfl

@[simp] theorem decode_encode (value : BitVec 32) : decode (encode value) = value := by
  apply BitVec.eq_of_toNat_eq
  have bound := value.isLt
  simp only [decode,encode,List.map_cons,List.map_nil,UInt8.toNat_ofNat',Nat.ofDigits_cons,
    Nat.ofDigits_nil,BitVec.toNat_ofNat]
  omega

theorem decode_injective (first second : List UInt8) (four : first.length = 4)
    (size : second.length = first.length) (same : decode first = decode second) : first = second := by
  have digit (bytes : List UInt8) : ∀ d ∈ bytes.map UInt8.toNat, d < 256 := by
    intro d member
    obtain ⟨byte,_,rfl⟩ := List.mem_map.mp member
    exact byte.toNat_lt
  have bound (bytes : List UInt8) (four : bytes.length = 4) :
      Nat.ofDigits 256 (bytes.map UInt8.toNat) < 2^32 := by
    have less := Nat.ofDigits_lt_base_pow_length (by omega : 1 < 256) (digit bytes)
    simpa [four] using less
  have equal := congrArg BitVec.toNat same
  simp only [decode,BitVec.toNat_ofNat,Nat.mod_eq_of_lt (bound first four),
    Nat.mod_eq_of_lt (bound second (size.trans four))] at equal
  have mapped := Nat.ofDigits_inj_of_len_eq (by omega : 1 < 256) (by simp [size])
    (digit first) (digit second) equal
  exact List.map_injective_iff.mpr (fun a b => UInt8.toNat_inj.mp) mapped

/-- The conversion of a 32-bit `int` to a 64-bit `size_t`. -/
def toSize (value : BitVec 32) : Nat := (value.signExtend 64).toNat

theorem toInt_range (value : BitVec 32) (limit : Nat) (less : limit < 2^31) :
    (0 ≤ value.toInt ∧ value.toInt ≤ limit) ↔ value.toNat ≤ limit := by
  have bound := value.isLt
  rw [BitVec.toInt_eq_toNat_cond]
  split <;> omega

theorem toSize_nonneg (value : BitVec 32) (nonneg : value.toNat < 2^31) :
    toSize value = value.toNat := by
  have clear : value.msb = false := by rw [BitVec.msb_eq_false_iff_two_mul_lt]; omega
  rw [toSize,BitVec.signExtend_eq_setWidth_of_msb_false clear]
  simp only [BitVec.toNat_setWidth]
  omega

theorem toSize_negative (value : BitVec 32) (negative : 2^31 ≤ value.toNat) :
    toSize value = 2^64 - 2^32 + value.toNat := by
  have set : value.msb = true := by rw [BitVec.msb_eq_true_iff_two_mul_ge]; omega
  simp only [toSize,BitVec.toNat_signExtend,set,BitVec.toNat_setWidth,if_true]
  omega

end LinuxCourse.Bytes
