import LinuxCourse.MtaCrypt.RoundTrip

/-! The data lengths that `MTA_encrypt` and `MTA_decrypt` take. The header gives one rule
for both; only the first checks it. -/
namespace LinuxCourse.MtaCrypt
open Library Bytes

/-- The status that the rule for data lengths asks for. -/
def lengthStatus (length : BitVec 32) : Status :=
  if length = 0 then .MTA_CRYPT_RET_DATA_ZERO_LENGTH
  else if 512 < length.toNat then .MTA_CRYPT_RET_DATA_MAX_LENGTH_EXCEEDED
  else if ¬8 ∣ length.toNat then .MTA_CRYPT_RET_NOT_8_BYTE_MULTIPLICATION
  else .MTA_CRYPT_RET_OK

theorem lengthStatus_ok_iff (length : BitVec 32) :
    lengthStatus length = .MTA_CRYPT_RET_OK ↔
      0 < length.toNat ∧ length.toNat ≤ 512 ∧ 8 ∣ length.toNat := by
  have zero : length = 0 ↔ length.toNat = 0 := by rw [← BitVec.toNat_inj]; rfl
  unfold lengthStatus
  split_ifs with empty long whole
  · simp [zero.mp empty]
  · simp [Nat.not_le_of_lt long]
  · have positive := Nat.pos_of_ne_zero (mt zero.mpr empty)
    exact ⟨fun _ => ⟨positive,Nat.le_of_not_lt long,whole⟩,fun _ => rfl⟩
  · simp [whole]

theorem data_validation (data : List UInt8) (length : BitVec 32) :
    (MTA_CRYPT_INPUT_DATA_VALIDATION (some data) length).getD .MTA_CRYPT_RET_OK = lengthStatus length := by
  have limit : EVP_MAX_KEY_LENGTH*8 = 512 := rfl
  rw [MTA_CRYPT_INPUT_DATA_VALIDATION,if_neg (by simp),limit,lengthStatus]
  by_cases empty : length = 0
  · rw [if_pos empty,if_pos empty,Option.getD_some]
  rw [if_neg empty,if_neg empty]
  by_cases long : 512 < length.toNat
  · rw [if_pos long,if_pos long,Option.getD_some]
  rw [if_neg long,if_neg long]
  by_cases whole : 8 ∣ length.toNat
  · rw [if_neg (by omega),if_neg (not_not.mpr whole),Option.getD_none]
  · rw [if_pos (by omega),if_pos whole,Option.getD_some]

/-- Without padding an update leaves the bytes behind the last whole block in the context. -/
theorem codebook_whole_blocks (rc2 : Rc2) (encrypting : Bool) (key data : List UInt8) :
    (codebook rc2 encrypting key data).length = data.length/8*8 :=
  Block.mapBlocks_length _ _ _ (Nat.div_mul_le_self _ _)

section
variable (evp : Evp) (rc2 : Rc2) (holds : evp.CIPHER_CTX → Ctx)

theorem perform_length (encrypting : Bool) (handle : Nat) (documented : evp.Documented rc2 handle holds)
    (key_length : BitVec 32) (key input : List UInt8) (output : Option (List UInt8))
    (output_length : Option (BitVec 32)) :
    let result := perform evp (fun _ => true)
      [.new,
        .init encrypting (some handle) none,
        .setKeyLength key_length,
        .init encrypting none (some key),
        .setPadding false,
        .update encrypting input] output output_length
    result.status = .MTA_CRYPT_RET_OK ∧
      result.output_length = some (BitVec.ofNat 32 (input.length/8*8)) := by
  obtain ⟨session,followed,_,len⟩ :=
    follow_codebook evp rc2 holds encrypting handle documented key_length key input (output.getD [])
  rw [codebook_whole_blocks] at len
  simp only [perform,followed,len,and_self]

variable (provider cipher : Nat) (documented : evp.Documented rc2 cipher holds)
  (key : List UInt8) (key_length : BitVec 32)
  (keyed : 0 < key_length.toNat) (bound : key_length.toNat ≤ EVP_MAX_KEY_LENGTH)
  (data : List UInt8) (length : BitVec 32) (output : List UInt8) (output_length : BitVec 32)

include documented keyed bound in
theorem encrypt_status :
    (MTA_encrypt evp ⟨some provider,some cipher⟩ (fun _ => true) (some key) key_length
      (some data) length (some output) (some output_length)).status = lengthStatus length := by
  have checked := data_validation data length
  rw [MTA_encrypt,key_accepted key key_length keyed bound]
  simp only [MTA_CRYPT_NULL_VALIDATION,MTA_CRYPT_INIT_VALIDATION,Option.orElse_eq_orElse,Option.orElse_none]
  cases found : MTA_CRYPT_INPUT_DATA_VALIDATION (some data) length with
  | none =>
    rw [found] at checked
    exact (perform_length evp rc2 holds true cipher documented key_length key _ (some output) _).1.trans checked
  | some status =>
    rw [found] at checked
    exact checked

include documented keyed bound in
theorem decrypt_length (complete : length.toNat ≤ data.length) :
    let result := MTA_decrypt evp ⟨some provider,some cipher⟩ (fun _ => true) (some key) key_length
      (some data) length (some output) (some output_length)
    result.status = .MTA_CRYPT_RET_OK ∧
      result.output_length = some (BitVec.ofNat 32 (length.toNat/8*8)) := by
  have taken : (data.take length.toNat).length = length.toNat := List.length_take_of_le complete
  have result := perform_length evp rc2 holds false cipher documented key_length key (data.take length.toNat)
    (some output) (some output_length)
  rw [MTA_decrypt,key_accepted key key_length keyed bound]
  simp only [MTA_CRYPT_NULL_VALIDATION,MTA_CRYPT_INIT_VALIDATION,Option.orElse_eq_orElse,
    Option.orElse_none,Option.getD_some]
  rwa [taken] at result

end

theorem whole_length_iff (length : BitVec 32) :
    BitVec.ofNat 32 (length.toNat/8*8) = length ↔ 8 ∣ length.toNat := by
  have size := length.isLt
  rw [← BitVec.toNat_inj,BitVec.toNat_ofNat,Nat.mod_eq_of_lt (by omega)]
  omega

/-- The two functions agree on the length rule, and a decryption that reports success
has turned the whole input into output. -/
structure EnforcesLengths (encrypted decrypted : Result) (length : BitVec 32) : Prop where
  rule : encrypted.status = lengthStatus length
  same : decrypted.status = encrypted.status
  complete : decrypted.status = .MTA_CRYPT_RET_OK → decrypted.output_length = some length

theorem enforces_lengths_iff (evp : Evp) (rc2 : Rc2) (holds : evp.CIPHER_CTX → Ctx) (load byname : Option Nat)
    (globals : Globals) (documented : ∀ handle, byname = some handle → evp.Documented rc2 handle holds)
    (done : (MTA_crypt_init load byname globals).1 = .MTA_CRYPT_RET_OK)
    (key : List UInt8) (key_length : BitVec 32) (keyed : 0 < key_length.toNat)
    (bound : key_length.toNat ≤ EVP_MAX_KEY_LENGTH) (data : List UInt8) (length : BitVec 32)
    (complete : length.toNat ≤ data.length) (output : List UInt8) (output_length : BitVec 32) :
    EnforcesLengths
      (MTA_encrypt evp (MTA_crypt_init load byname globals).2 (fun _ => true) (some key) key_length
        (some data) length (some output) (some output_length))
      (MTA_decrypt evp (MTA_crypt_init load byname globals).2 (fun _ => true) (some key) key_length
        (some data) length (some output) (some output_length)) length ↔
      0 < length.toNat ∧ length.toNat ≤ 512 ∧ 8 ∣ length.toNat := by
  obtain ⟨provider,cipher,found,handles⟩ := init_ok load byname globals done
  have encrypted := encrypt_status evp rc2 holds provider cipher (documented cipher found) key key_length keyed
    bound data length output output_length
  obtain ⟨decrypted,produced⟩ := decrypt_length evp rc2 holds provider cipher (documented cipher found) key
    key_length keyed bound data length output output_length complete
  rw [handles,← lengthStatus_ok_iff]
  constructor
  · intro enforced
    exact encrypted.symm.trans (enforced.same.symm.trans decrypted)
  · intro accepted
    have whole := (lengthStatus_ok_iff length).mp accepted
    refine ⟨encrypted,decrypted.trans (encrypted.trans accepted).symm,fun _ => ?_⟩
    rw [produced,(whole_length_iff length).mpr whole.2.2]

theorem enforces_lengths_iff_block :
    EnforcesLengths
      (MTA_encrypt vectorEvp (MTA_crypt_init (some 1) (some 2) ⟨none,none⟩).2 (fun _ => true)
        (some vectorKey) 16 (some (zeros 8)) 8 (some (zeros 8)) (some 0))
      (MTA_decrypt vectorEvp (MTA_crypt_init (some 1) (some 2) ⟨none,none⟩).2 (fun _ => true)
        (some vectorKey) 16 (some (zeros 8)) 8 (some (zeros 8)) (some 0)) 8 :=
  (enforces_lengths_iff vectorEvp vectorRc2 id (some 1) (some 2) ⟨none,none⟩
    (fun handle _ => Ctx.evp_documented vectorRc2 handle) (by decide) vectorKey 16 (by decide)
    (by decide) (zeros 8) 8 (by decide) (zeros 8) 0).mpr (by decide)

/-- Twelve bytes are refused by the one function and cut to eight by the other. -/
theorem lengths_not_enforced_12 :
    (MTA_crypt_init (some 1) (some 2) ⟨none,none⟩).1 = .MTA_CRYPT_RET_OK ∧
    ¬EnforcesLengths
      (MTA_encrypt vectorEvp (MTA_crypt_init (some 1) (some 2) ⟨none,none⟩).2 (fun _ => true)
        (some vectorKey) 16 (some (zeros 12)) 12 (some (zeros 16)) (some 0))
      (MTA_decrypt vectorEvp (MTA_crypt_init (some 1) (some 2) ⟨none,none⟩).2 (fun _ => true)
        (some vectorKey) 16 (some (zeros 12)) 12 (some (zeros 16)) (some 0)) 12 ∧
    (MTA_decrypt vectorEvp (MTA_crypt_init (some 1) (some 2) ⟨none,none⟩).2 (fun _ => true)
      (some vectorKey) 16 (some (zeros 12)) 12 (some (zeros 16)) (some 0)).output_length =
        some 8 := by
  refine ⟨by decide,fun enforced => ?_,by decide +kernel⟩
  exact absurd enforced.same (by decide +kernel)

end LinuxCourse.MtaCrypt
