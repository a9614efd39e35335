import LinuxCourse.Library.Reading
import LinuxCourse.Processes.Tlv

/-! `processes/piperw.cpp`: TLV messages of a fixed size sent over a pipe. The
object representation of `struct TLV` is explicit, so that a short read leaves
the bytes it did not deliver as they were. -/
namespace LinuxCourse.Piperw
open Library Bytes Tlv

structure TLV where
  type : BitVec 32
  length : BitVec 32
  value : List UInt8
  sized : value.length = 1024
  deriving DecidableEq

namespace TLV

/-- `new TLV()`, whose members all start as zero. -/
def new : TLV := ⟨0,0,zeros 1024,by simp⟩

/-- `TLV tlv = {type, length, "text"}`: the text, then zeros to the end of `value`. -/
def aggregate (type length : BitVec 32) (text : List UInt8) : TLV :=
  ⟨type,length,store (zeros 1024) text,by simp⟩

def bytes (tlv : TLV) : List UInt8 := encode tlv.type ++ encode tlv.length ++ tlv.value

theorem bytes_length (tlv : TLV) : tlv.bytes.length = 1032 := by simp [bytes,tlv.sized]

def ofBytes (memory : List UInt8) (sized : memory.length = 1032) : TLV :=
  ⟨decode (memory.take 4),decode ((memory.drop 4).take 4),memory.drop 8,by simp [sized]⟩

def storeObject (tlv : TLV) (data : List UInt8) : TLV :=
  ofBytes (store tlv.bytes data) (by rw [store_length,bytes_length])

def storeValue (tlv : TLV) (data : List UInt8) : TLV :=
  {tlv with value := store tlv.value data,sized := by rw [store_length,tlv.sized]}

@[simp] theorem storeValue_type (tlv : TLV) (data : List UInt8) :
    (tlv.storeValue data).type = tlv.type := rfl

@[simp] theorem storeValue_length (tlv : TLV) (data : List UInt8) :
    (tlv.storeValue data).length = tlv.length := rfl

@[simp] theorem storeValue_value (tlv : TLV) (data : List UInt8) :
    (tlv.storeValue data).value = store tlv.value data := rfl

end TLV

def readTlvFromPipe : Reading (Option TLV) :=
  .read 1032 8 fun
    | .failed => .done none
    | .bytes header =>
      if 1024 < header.length then .done none
      else
        .read 1024 (toSize (TLV.new.storeObject header).length) fun
          | .failed => .done none
          | .bytes value => .done (some ((TLV.new.storeObject header).storeValue value))

def writeTlvToPipe (tlv : TLV) : List UInt8 :=
  tlv.bytes.take ((8+toSize tlv.length) % 2^64)

def TLV.payload (tlv : TLV) : Payload :=
  ⟨tlv.type,tlv.length,tlv.value.take tlv.length.toNat⟩

@[simp] theorem payload_type (tlv : TLV) : tlv.payload.type = tlv.type := rfl

@[simp] theorem payload_length (tlv : TLV) : tlv.payload.length = tlv.length := rfl

def TLV.Valid (tlv : TLV) : Prop := 0 ≤ tlv.length.toInt ∧ tlv.length.toInt ≤ 1024

@[simp] theorem storeValue_valid (tlv : TLV) (data : List UInt8) :
    (tlv.storeValue data).Valid ↔ tlv.Valid := Iff.rfl

theorem valid_iff (tlv : TLV) : tlv.Valid ↔ tlv.length.toNat ≤ 1024 :=
  toInt_range tlv.length 1024 (by omega)

theorem valid_toSize (tlv : TLV) (valid : tlv.Valid) : toSize tlv.length = tlv.length.toNat := by
  have bound := (valid_iff tlv).mp valid
  exact toSize_nonneg _ (by omega)

/-- A header of at most eight bytes, the missing ones taken as zero. -/
def header (data : List UInt8) : List UInt8 := store (zeros 8) data

theorem storeObject_header (data : List UInt8) (short : data.length ≤ 8) :
    TLV.new.storeObject data =
      ⟨decode ((header data).take 4),decode ((header data).drop 4),zeros 1024,by simp⟩ := by
  have object : TLV.new.bytes = zeros 1032 := by decide +kernel
  have whole : store TLV.new.bytes data = header data ++ zeros 1024 := by
    rw [object,store_zeros _ _ (by omega),header,store_zeros _ _ short,List.append_assoc]
    simp only [zeros,← List.replicate_add]
    congr 2
    omega
  have size : (header data).length = 8 := by simp [header]
  simp only [TLV.storeObject,TLV.ofBytes,whole,TLV.mk.injEq]
  refine ⟨?_,?_,?_⟩
  · rw [List.take_append_of_le_length (by omega)]
  · rw [List.drop_append_of_le_length (by omega),List.take_append_of_le_length (by simp [size]),
      List.take_of_length_le (by simp [size])]
  · exact List.drop_left' size

def TLV.received (tlv : TLV) : TLV :=
  ⟨tlv.type,tlv.length,store (zeros 1024) (tlv.value.take tlv.length.toNat),by simp⟩

theorem received_payload (tlv : TLV) : tlv.received.payload = tlv.payload := by
  have size := tlv.sized
  simp only [TLV.payload,TLV.received,Payload.mk.injEq,true_and]
  rw [store_zeros _ _ (by rw [List.length_take]; omega)]
  by_cases inside : tlv.length.toNat ≤ 1024
  · exact List.take_left' (by rw [List.length_take]; omega)
  · rw [List.take_of_length_le (by omega : tlv.value.length ≤ tlv.length.toNat),size]
    simp [zeros,List.take_of_length_le (by omega : tlv.value.length ≤ tlv.length.toNat)]

theorem storeObject_encoded (type length : BitVec 32) :
    TLV.new.storeObject (encode type++encode length) = ⟨type,length,zeros 1024,by simp⟩ := by
  have whole : header (encode type++encode length) = encode type++encode length :=
    store_full _ _ (by simp)
  rw [storeObject_header _ (by simp)]
  simp only [whole,List.take_left' (encode_length type),List.drop_left' (encode_length type),
    decode_encode]

theorem writeTlvToPipe_frame (tlv : TLV) (valid : tlv.Valid) :
    writeTlvToPipe tlv = encode tlv.type++encode tlv.length++tlv.value.take tlv.length.toNat := by
  have bound := (valid_iff tlv).mp valid
  rw [writeTlvToPipe,valid_toSize tlv valid,TLV.bytes,Nat.mod_eq_of_lt (by omega)]
  rw [List.take_append,List.take_of_length_le (by simp)]
  simp

theorem writeTlvToPipe_length (tlv : TLV) (valid : tlv.Valid) :
    (writeTlvToPipe tlv).length = 8+tlv.length.toNat := by
  have bound := (valid_iff tlv).mp valid
  have size := tlv.sized
  rw [writeTlvToPipe_frame tlv valid]
  simp only [List.length_append,encode_length,List.length_take]
  omega

end LinuxCourse.Piperw
