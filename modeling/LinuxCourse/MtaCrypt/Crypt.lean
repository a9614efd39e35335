import LinuxCourse.MtaCrypt.Evp

/-! `mta_crypt_lib/mta_crypt.c`: encryption and decryption with RC2 in electronic codebook
mode. Pointers that may be null are options, and a buffer is the list of its bytes. -/
namespace LinuxCourse.MtaCrypt
open Library

inductive Status
  | MTA_CRYPT_RET_OK
  | MTA_CRYPT_RET_ERROR
  | MTA_CRYPT_RET_INIT_NOT_CALLED
  | MTA_CRYPT_RET_NULL_PTR_RECEIVED
  | MTA_CRYPT_RET_DATA_ZERO_LENGTH
  | MTA_CRYPT_RET_DATA_MAX_LENGTH_EXCEEDED
  | MTA_CRYPT_RET_KEY_ZERO_LENGTH
  | MTA_CRYPT_RET_KEY_MAX_LENGTH_EXCEEDED
  | MTA_CRYPT_RET_NOT_8_BYTE_MULTIPLICATION
  deriving DecidableEq

structure Globals where
  provider : Option Nat
  cipher : Option Nat
  deriving DecidableEq

/-- `load` and `byname` are what `OSSL_PROVIDER_load` and `EVP_get_cipherbyname` return. -/
def MTA_crypt_init (load byname : Option Nat) (globals : Globals) : Status × Globals :=
  let globals := {globals with provider := load}
  if globals.provider = none then (.MTA_CRYPT_RET_ERROR,globals)
  else
    let globals := {globals with cipher := byname}
    if globals.cipher = none then (.MTA_CRYPT_RET_ERROR,globals)
    else (.MTA_CRYPT_RET_OK,globals)

def MTA_CRYPT_INPUT_KEY_VALIDATION (key : Option (List UInt8)) (key_length : BitVec 32) :
    Option Status :=
  if key = none then some .MTA_CRYPT_RET_NULL_PTR_RECEIVED
  else if key_length = 0 then some .MTA_CRYPT_RET_KEY_ZERO_LENGTH
  else if EVP_MAX_KEY_LENGTH < key_length.toNat then some .MTA_CRYPT_RET_KEY_MAX_LENGTH_EXCEEDED
  else none

def MTA_CRYPT_INPUT_DATA_VALIDATION (data : Option (List UInt8)) (data_length : BitVec 32) :
    Option Status :=
  if data = none then some .MTA_CRYPT_RET_NULL_PTR_RECEIVED
  else if data_length = 0 then some .MTA_CRYPT_RET_DATA_ZERO_LENGTH
  else if EVP_MAX_KEY_LENGTH*8 < data_length.toNat then some .MTA_CRYPT_RET_DATA_MAX_LENGTH_EXCEEDED
  else if data_length.toNat % 8 ≠ 0 then some .MTA_CRYPT_RET_NOT_8_BYTE_MULTIPLICATION
  else none

def MTA_CRYPT_NULL_VALIDATION {Pointee : Type} (ptr : Option Pointee) : Option Status :=
  match ptr with
  | none => some .MTA_CRYPT_RET_NULL_PTR_RECEIVED
  | some _ => none

def MTA_CRYPT_INIT_VALIDATION (pointer : Option Nat) : Option Status :=
  match pointer with
  | none => some .MTA_CRYPT_RET_INIT_NOT_CALLED
  | some _ => none

structure Result where
  status : Status
  output : Option (List UInt8)
  output_length : Option (BitVec 32)
  calls : List Call
  deriving DecidableEq

/-- The body after the checks: the calls up to the first failure, then the label `fin`. -/
def perform (evp : Evp) (succeeds : Call → Bool) (calls : List Call) (output : Option (List UInt8))
    (output_length : Option (BitVec 32)) : Result :=
  match (Session.start evp (output.getD [])).follow succeeds calls with
  | (true,session) =>
    ⟨.MTA_CRYPT_RET_OK,some session.output,some (BitVec.ofNat 32 session.len),session.free.calls⟩
  | (false,session) => ⟨.MTA_CRYPT_RET_ERROR,some session.output,output_length,session.free.calls⟩

def MTA_encrypt (evp : Evp) (globals : Globals) (succeeds : Call → Bool)
    (key : Option (List UInt8)) (key_length : BitVec 32)
    (plain_data : Option (List UInt8)) (plain_data_length : BitVec 32)
    (encrypted_data : Option (List UInt8)) (encrypted_data_length : Option (BitVec 32)) : Result :=
  let invalid :=
    MTA_CRYPT_INPUT_KEY_VALIDATION key key_length <|>
    MTA_CRYPT_NULL_VALIDATION plain_data <|>
    MTA_CRYPT_NULL_VALIDATION encrypted_data <|>
    MTA_CRYPT_NULL_VALIDATION encrypted_data_length <|>
    MTA_CRYPT_INIT_VALIDATION globals.provider <|>
    MTA_CRYPT_INIT_VALIDATION globals.cipher <|>
    MTA_CRYPT_INPUT_DATA_VALIDATION plain_data plain_data_length
  match invalid with
  | some status => ⟨status,encrypted_data,encrypted_data_length,[]⟩
  | none =>
    perform evp succeeds
      [.new,
        .init true globals.cipher none,
        .setKeyLength key_length,
        .init true none key,
        .setPadding false,
        .update true ((plain_data.getD []).take plain_data_length.toNat)]
      encrypted_data encrypted_data_length

/-- Without the checks of the data length that `MTA_encrypt` makes. -/
def MTA_decrypt (evp : Evp) (globals : Globals) (succeeds : Call → Bool)
    (key : Option (List UInt8)) (key_length : BitVec 32)
    (encrypted_data : Option (List UInt8)) (encrypted_data_length : BitVec 32)
    (plain_data : Option (List UInt8)) (plain_data_length : Option (BitVec 32)) : Result :=
  let invalid :=
    MTA_CRYPT_INPUT_KEY_VALIDATION key key_length <|>
    MTA_CRYPT_NULL_VALIDATION encrypted_data <|>
    MTA_CRYPT_NULL_VALIDATION plain_data <|>
    MTA_CRYPT_NULL_VALIDATION plain_data_length <|>
    MTA_CRYPT_INIT_VALIDATION globals.provider <|>
    MTA_CRYPT_INIT_VALIDATION globals.cipher
  match invalid with
  | some status => ⟨status,plain_data,plain_data_length,[]⟩
  | none =>
    perform evp succeeds
      [.new,
        .init false globals.cipher none,
        .setKeyLength key_length,
        .init false none key,
        .setPadding false,
        .update false ((encrypted_data.getD []).take encrypted_data_length.toNat)]
      plain_data plain_data_length

end LinuxCourse.MtaCrypt
