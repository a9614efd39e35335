import LinuxCourse.Library.Reading
import LinuxCourse.Processes.Tlv

/-! `processes/piperwp.cpp`: TLV messages with a heap block as their value, written
in two calls and read in up to three. `value` is the block that the pointer
points to, `none` for the null pointer. -/
namespace LinuxCourse.Piperwp
open Library Bytes Tlv

structure TLV where
  type : BitVec 32
  length : BitVec 32
  value : Option (List UInt8)
  deriving DecidableEq

/-- `strncpy` of a string into `count` bytes: up to the first NUL, then zeros. -/
def strncpy (source : List UInt8) (count : Nat) : List UInt8 :=
  store (zeros count) ((source.takeWhile (· ≠ 0)).take count)

namespace TLV

def new : TLV := ⟨0,0,none⟩

def construct (type length : BitVec 32) (text : List UInt8) : TLV :=
  ⟨type,length,some (store (zeros (toSize (length+1))) (strncpy text (toSize (length+1))))⟩

def storeType (tlv : TLV) (data : List UInt8) : TLV :=
  {tlv with type := decode (store (encode tlv.type) data)}

def storeLength (tlv : TLV) (data : List UInt8) : TLV :=
  {tlv with length := decode (store (encode tlv.length) data)}

/-- `new char[tlv->length]{0}`, then the bytes of the last read. -/
def storeValue (tlv : TLV) (data : List UInt8) : TLV :=
  {tlv with value := some (store (zeros tlv.length.toNat) data)}

end TLV

def readTlvFromPipe : Reading (Option TLV) :=
  .read 4 4 fun
    | .failed => .done none
    | .bytes type =>
      .read 4 4 fun
        | .failed => .done none
        | .bytes length =>
          if 8 < length.length then .done none
          else
            let tlv := (TLV.new.storeType type).storeLength length
            if 0 < tlv.length.toInt then
              .read tlv.length.toNat (toSize tlv.length) fun
                | .failed => .done none
                | .bytes value => .done (some (tlv.storeValue value))
            else .done (some tlv)

def header (type length : List UInt8) : TLV := (TLV.new.storeType type).storeLength length

/-- `readTlvFromPipe` once it has the length. -/
def afterLength (tlv : TLV) : Reading (Option TLV) :=
  if 0 < tlv.length.toInt then
    .read tlv.length.toNat (toSize tlv.length) fun
      | .failed => .done none
      | .bytes value => .done (some (tlv.storeValue value))
  else .done (some tlv)

/-- `readTlvFromPipe` once it has the type. -/
def afterType (type : List UInt8) : Reading (Option TLV) :=
  .read 4 4 fun
    | .failed => .done none
    | .bytes length => if 8 < length.length then .done none else afterLength (header type length)

theorem readTlvFromPipe_eq : readTlvFromPipe = .read 4 4 fun
    | .failed => .done none
    | .bytes type => afterType type := rfl

def writeTlvToPipe (tlv : TLV) : List (List UInt8) :=
  [encode tlv.type++encode tlv.length,(tlv.value.getD []).take (toSize tlv.length)]

def TLV.payload (tlv : TLV) : Payload :=
  ⟨tlv.type,tlv.length,(tlv.value.getD []).take tlv.length.toNat⟩

def TLV.Holds (tlv : TLV) : Prop :=
  0 ≤ tlv.length.toInt ∧ tlv.length.toNat ≤ (tlv.value.getD []).length

end LinuxCourse.Piperwp
