import Mathlib.Data.List.Basic

/-! What `processes/piperw.cpp` and `processes/piperwp.cpp` have in common: the
message types, and what a message carries from its sender to its receiver. -/
namespace LinuxCourse.Tlv

def TEXT_OP_CODE : BitVec 32 := 0
def END_OP_CODE : BitVec 32 := 1

/-- The largest `write` that becomes visible in a pipe at once. -/
def PIPE_BUF : Nat := 4096

structure Payload where
  type : BitVec 32
  length : BitVec 32
  value : List UInt8
  deriving DecidableEq

end LinuxCourse.Tlv
