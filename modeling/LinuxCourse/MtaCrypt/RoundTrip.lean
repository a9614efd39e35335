import LinuxCourse.MtaCrypt.Crypt
import Mathlib.Logic.Equiv.Basic

/-! `MTA_encrypt` and `MTA_decrypt` undo each other. Neither makes a final call, so an
update must not keep anything back: padding is off and the data is whole blocks. -/
namespace LinuxCourse.MtaCrypt
open Library Bytes

def codebook (rc2 : Rc2) (encrypting : Bool) (key data : List UInt8) : List UInt8 :=
  Block.mapBlocks (if encrypting then rc2 key else (rc2 key).symm) (data.length/BLOCK_SIZE) data

theorem codebook_length (rc2 : Rc2) (encrypting : Bool) (key data : List UInt8)
    (whole : BLOCK_SIZE ∣ data.length) : (codebook rc2 encrypting key data).length = data.length := by
  have count := Nat.div_mul_cancel whole
  rw [codebook,Block.mapBlocks_length _ _ _ (Nat.le_of_eq count),count]

theorem codebook_inverse (rc2 : Rc2) (encrypting : Bool) (key data : List UInt8)
    (whole : BLOCK_SIZE ∣ data.length) :
    codebook rc2 (!encrypting) key (codebook rc2 encrypting key data) = data := by
  have count := Nat.div_mul_cancel whole
  rw [codebook,codebook_length rc2 encrypting key data whole,codebook,
    Block.mapBlocks_inverse _ _ _ _ _ (Nat.le_of_eq count),count,List.take_length]
  cases encrypting with
  | true => exact (rc2 key).left_inv
  | false => exact (rc2 key).right_inv

/-- The result is OK, and `bytes` lie at the front of the buffer that held `old`. -/
def Result.Produces (result : Result) (old bytes : List UInt8) : Prop :=
  result.status = .MTA_CRYPT_RET_OK ∧
    result.output = some (bytes++old.drop bytes.length) ∧
    result.output_length = some (BitVec.ofNat 32 bytes.length)

structure Accepted (key data : List UInt8) : Prop where
  keyed : 0 < key.length
  keyBound : key.length ≤ EVP_MAX_KEY_LENGTH
  nonempty : 0 < data.length
  bound : data.length ≤ 512
  whole : 8 ∣ data.length

theorem accepted_lengths (key data : List UInt8) (accepted : Accepted key data) :
    (BitVec.ofNat 32 key.length).toNat = key.length ∧
      (BitVec.ofNat 32 data.length).toNat = data.length := by
  have keyBound := accepted.keyBound
  have bound := accepted.bound
  rw [EVP_MAX_KEY_LENGTH] at keyBound
  rw [BitVec.toNat_ofNat,BitVec.toNat_ofNat]
  omega

theorem front_taken (key data rest : List UInt8) (accepted : Accepted key data) :
    (data++rest).take (BitVec.ofNat 32 data.length).toNat = data := by
  rw [(accepted_lengths key data accepted).2,List.take_left]

theorem key_validation_iff (key : Option (List UInt8)) (key_length : BitVec 32) :
    MTA_CRYPT_INPUT_KEY_VALIDATION key key_length = none ↔
      key.isSome ∧ 0 < key_length.toNat ∧ key_length.toNat ≤ EVP_MAX_KEY_LENGTH := by
  have zero : key_length = 0 ↔ key_length.toNat = 0 := by rw [← BitVec.toNat_inj]; rfl
  cases key with
  | none => simp [MTA_CRYPT_INPUT_KEY_VALIDATION]
  | some key =>
    rw [MTA_CRYPT_INPUT_KEY_VALIDATION,if_neg (by simp),Nat.pos_iff_ne_zero,Ne,← zero]
    split_ifs with empty long
    · simp [empty]
    · simp [Nat.not_le_of_lt long]
    · exact ⟨fun _ => ⟨rfl,empty,Nat.le_of_not_lt long⟩,fun _ => rfl⟩

theorem key_accepted (key : List UInt8) (key_length : BitVec 32) (keyed : 0 < key_length.toNat)
    (bound : key_length.toNat ≤ EVP_MAX_KEY_LENGTH) :
    MTA_CRYPT_INPUT_KEY_VALIDATION (some key) key_length = none :=
  (key_validation_iff (some key) key_length).mpr ⟨rfl,keyed,bound⟩

theorem key_valid (key data : List UInt8) (accepted : Accepted key data) :
    MTA_CRYPT_INPUT_KEY_VALIDATION (some key) (BitVec.ofNat 32 key.length) = none := by
  obtain ⟨length,_⟩ := accepted_lengths key data accepted
  exact key_accepted key _ (by rw [length]; exact accepted.keyed) (by rw [length]; exact accepted.keyBound)

theorem data_valid (key data rest : List UInt8) (accepted : Accepted key data) :
    MTA_CRYPT_INPUT_DATA_VALIDATION (some (data++rest)) (BitVec.ofNat 32 data.length) = none := by
  obtain ⟨_,length⟩ := accepted_lengths key data accepted
  have nonzero : BitVec.ofNat 32 data.length ≠ 0 := by
    intro zero
    rw [zero] at length
    exact absurd length (Nat.ne_of_lt accepted.nonempty)
  have whole := Nat.mod_eq_zero_of_dvd accepted.whole
  rw [MTA_CRYPT_INPUT_DATA_VALIDATION,if_neg (by simp),if_neg nonzero,length,
    EVP_MAX_KEY_LENGTH,if_neg (Nat.not_lt_of_le accepted.bound),if_neg (by omega)]

section
variable (evp : Evp) (rc2 : Rc2) (holds : evp.CIPHER_CTX → Ctx)

/-- What the context holds just before the update, and so what the update does. -/
theorem follow_codebook (encrypting : Bool) (handle : Nat) (documented : evp.Documented rc2 handle holds)
    (key_length : BitVec 32) (key input output : List UInt8) :
    ∃ session, (Session.start evp output).follow (fun _ => true)
      [.new,
        .init encrypting (some handle) none,
        .setKeyLength key_length,
        .init encrypting none (some key),
        .setPadding false,
        .update encrypting input] = (true,session) ∧
      session.output = store output (codebook rc2 encrypting (key.take key_length.toNat) input) ∧
      session.len = (codebook rc2 encrypting (key.take key_length.toNat) input).length := by
  let first := evp.init evp.new encrypting (some handle) none
  let second := evp.setKeyLength first key_length
  let third := evp.init second encrypting none (some key)
  let last := evp.setPadding third false
  have fresh := documented.fresh encrypting
  have resized : holds second = {holds first with keyLength := key_length.toNat} :=
    documented.resized first key_length (by rw [fresh])
  have keyed : holds third = {holds second with
      encrypting,key := key.take (holds second).keyLength,buffered := []} :=
    documented.keyed second encrypting key (by rw [resized,fresh])
  have padded : holds last = {holds third with padding := false} :=
    documented.padded third false (by rw [keyed,resized,fresh])
  have ready : holds last =
      ⟨some handle,encrypting,key_length.toNat,key.take key_length.toNat,false,[]⟩ := by
    rw [padded,keyed,resized,fresh]
  obtain ⟨next,updated⟩ := documented.updated last input (by rw [ready]) (by rw [ready])
  have produced : Block.mapBlocks ((holds last).transform rc2) ((holds last).ready input.length) input =
      codebook rc2 encrypting (key.take key_length.toNat) input := by
    rw [ready,codebook]
    simp [Ctx.transform,Ctx.ready]
  rw [produced,ready] at updated
  simp only [Session.follow,Session.issue,Session.apply,Session.start,Option.map_some,Option.bind_some,if_true]
  rw [updated]
  exact ⟨_,rfl,rfl,rfl⟩

theorem perform_produces (encrypting : Bool) (handle : Nat) (documented : evp.Documented rc2 handle holds)
    (key_length : BitVec 32) (key data output : List UInt8) (output_length : Option (BitVec 32))
    (whole : BLOCK_SIZE ∣ data.length) (room : data.length ≤ output.length) :
    (perform evp (fun _ => true)
      [.new,
        .init encrypting (some handle) none,
        .setKeyLength key_length,
        .init encrypting none (some key),
        .setPadding false,
        .update encrypting data] (some output) output_length).Produces output
      (codebook rc2 encrypting (key.take key_length.toNat) data) := by
  obtain ⟨session,followed,bytes,len⟩ :=
    follow_codebook evp rc2 holds encrypting handle documented key_length key data output
  have length := codebook_length rc2 encrypting (key.take key_length.toNat) data whole
  rw [store_within _ _ (by omega)] at bytes
  rw [perform,Option.getD_some,followed]
  exact ⟨rfl,congrArg some bytes,by simp only [len]⟩

/-- The key and the data are the fronts of the buffers behind the pointers. -/
theorem encrypt_front (provider cipher : Nat) (documented : evp.Documented rc2 cipher holds)
    (key data output : List UInt8) (key_length data_length length : BitVec 32)
    (keyed : MTA_CRYPT_INPUT_KEY_VALIDATION (some key) key_length = none)
    (valid : MTA_CRYPT_INPUT_DATA_VALIDATION (some data) data_length = none)
    (whole : BLOCK_SIZE ∣ (data.take data_length.toNat).length)
    (room : (data.take data_length.toNat).length ≤ output.length) :
    (MTA_encrypt evp ⟨some provider,some cipher⟩ (fun _ => true) (some key) key_length
      (some data) data_length (some output) (some length)).Produces output
      (codebook rc2 true (key.take key_length.toNat) (data.take data_length.toNat)) := by
  rw [MTA_encrypt,keyed,valid]
  exact perform_produces evp rc2 holds true cipher documented key_length key _ output (some length) whole room

theorem decrypt_front (provider cipher : Nat) (documented : evp.Documented rc2 cipher holds)
    (key data output : List UInt8) (key_length data_length length : BitVec 32)
    (keyed : MTA_CRYPT_INPUT_KEY_VALIDATION (some key) key_length = none)
    (whole : BLOCK_SIZE ∣ (data.take data_length.toNat).length)
    (room : (data.take data_length.toNat).length ≤ output.length) :
    (MTA_decrypt evp ⟨some provider,some cipher⟩ (fun _ => true) (some key) key_length
      (some data) data_length (some output) (some length)).Produces output
      (codebook rc2 false (key.take key_length.toNat) (data.take data_length.toNat)) := by
  rw [MTA_decrypt,keyed]
  exact perform_produces evp rc2 holds false cipher documented key_length key _ output (some length) whole room

theorem encrypt_produces (provider cipher : Nat) (documented : evp.Documented rc2 cipher holds)
    (key data rest output : List UInt8) (length : BitVec 32) (accepted : Accepted key data)
    (room : data.length ≤ output.length) :
    (MTA_encrypt evp ⟨some provider,some cipher⟩ (fun _ => true) (some key) (BitVec.ofNat 32 key.length)
      (some (data++rest)) (BitVec.ofNat 32 data.length) (some output) (some length)).Produces output
      (codebook rc2 true key data) := by
  have input := front_taken key data rest accepted
  have produced := encrypt_front evp rc2 holds provider cipher documented key (data++rest) output
    (BitVec.ofNat 32 key.length) (BitVec.ofNat 32 data.length) length (key_valid key data accepted)
    (data_valid key data rest accepted) (by rw [input]; exact accepted.whole) (by rwa [input])
  rwa [input,(accepted_lengths key data accepted).1,List.take_length] at produced

theorem decrypt_produces (provider cipher : Nat) (documented : evp.Documented rc2 cipher holds)
    (key data rest output : List UInt8) (length : BitVec 32) (accepted : Accepted key data)
    (room : data.length ≤ output.length) :
    (MTA_decrypt evp ⟨some provider,some cipher⟩ (fun _ => true) (some key) (BitVec.ofNat 32 key.length)
      (some (data++rest)) (BitVec.ofNat 32 data.length) (some output) (some length)).Produces output
      (codebook rc2 false key data) := by
  have input := front_taken key data rest accepted
  have produced := decrypt_front evp rc2 holds provider cipher documented key (data++rest) output
    (BitVec.ofNat 32 key.length) (BitVec.ofNat 32 data.length) length (key_valid key data accepted)
    (by rw [input]; exact accepted.whole) (by rwa [input])
  rwa [input,(accepted_lengths key data accepted).1,List.take_length] at produced

end

theorem init_ok (load byname : Option Nat) (globals : Globals)
    (done : (MTA_crypt_init load byname globals).1 = .MTA_CRYPT_RET_OK) :
    ∃ provider cipher, byname = some cipher ∧
      (MTA_crypt_init load byname globals).2 = ⟨some provider,some cipher⟩ := by
  unfold MTA_crypt_init at done ⊢
  cases load with
  | none => contradiction
  | some provider =>
    cases byname with
    | none => contradiction
    | some cipher => exact ⟨provider,cipher,rfl,rfl⟩

/-- `back` on what `forth` has left in its buffer returns the data, whatever the two output
buffers held before. -/
def Undoes (forth back : Option (List UInt8) → BitVec 32 → Option (List UInt8) → Option (BitVec 32) → Result)
    (data : List UInt8) : Prop :=
  ∀ (first second : List UInt8) (old older : BitVec 32),
    data.length ≤ first.length → data.length ≤ second.length →
    ∃ bytes length, bytes.length = data.length ∧
      (forth (some data) (BitVec.ofNat 32 data.length) (some first) (some old)).Produces first bytes ∧
      (forth (some data) (BitVec.ofNat 32 data.length) (some first) (some old)).output_length = some length ∧
      (back (forth (some data) (BitVec.ofNat 32 data.length) (some first) (some old)).output length
        (some second) (some older)).Produces second data

theorem accepted_codebook (rc2 : Rc2) (encrypting : Bool) (key data : List UInt8)
    (accepted : Accepted key data) : Accepted key (codebook rc2 encrypting key data) := by
  have length := codebook_length rc2 encrypting key data accepted.whole
  obtain ⟨keyed,keyBound,nonempty,bound,whole⟩ := accepted
  exact ⟨keyed,keyBound,by omega,by omega,by rwa [length]⟩

theorem undoes_of_produces (rc2 : Rc2) (encrypting : Bool) (key data : List UInt8)
    (forth back : Option (List UInt8) → BitVec 32 → Option (List UInt8) → Option (BitVec 32) → Result)
    (accepted : Accepted key data)
    (there : ∀ data rest output length, Accepted key data → data.length ≤ output.length →
      (forth (some (data++rest)) (BitVec.ofNat 32 data.length) (some output) (some length)).Produces
        output (codebook rc2 encrypting key data))
    (again : ∀ data rest output length, Accepted key data → data.length ≤ output.length →
      (back (some (data++rest)) (BitVec.ofNat 32 data.length) (some output) (some length)).Produces
        output (codebook rc2 (!encrypting) key data)) : Undoes forth back data := by
  intro first second old older roomFirst roomSecond
  have length := codebook_length rc2 encrypting key data accepted.whole
  have produced := there data [] first old accepted roomFirst
  rw [List.append_nil] at produced
  refine ⟨codebook rc2 encrypting key data,_,length,produced,produced.2.2,?_⟩
  have returned := again (codebook rc2 encrypting key data) (first.drop (codebook rc2 encrypting key data).length)
    second older (accepted_codebook rc2 encrypting key data accepted) (by omega)
  rw [codebook_inverse rc2 encrypting key data accepted.whole] at returned
  rw [produced.2.1]
  exact returned

/-- After an initialisation that succeeded and while OpenSSL does not fail, each of the
two functions undoes the other on all the data that both take. -/
theorem encrypt_decrypt_inverse (evp : Evp) (rc2 : Rc2) (holds : evp.CIPHER_CTX → Ctx)
    (load byname : Option Nat) (globals : Globals)
    (documented : ∀ handle, byname = some handle → evp.Documented rc2 handle holds)
    (done : (MTA_crypt_init load byname globals).1 = .MTA_CRYPT_RET_OK) (key data : List UInt8)
    (accepted : Accepted key data) :
    Undoes
      (MTA_encrypt evp (MTA_crypt_init load byname globals).2 (fun _ => true) (some key)
        (BitVec.ofNat 32 key.length))
      (MTA_decrypt evp (MTA_crypt_init load byname globals).2 (fun _ => true) (some key)
        (BitVec.ofNat 32 key.length)) data ∧
    Undoes
      (MTA_decrypt evp (MTA_crypt_init load byname globals).2 (fun _ => true) (some key)
        (BitVec.ofNat 32 key.length))
      (MTA_encrypt evp (MTA_crypt_init load byname globals).2 (fun _ => true) (some key)
        (BitVec.ofNat 32 key.length)) data := by
  obtain ⟨provider,cipher,found,handles⟩ := init_ok load byname globals done
  rw [handles]
  have encrypts := fun data rest output length =>
    encrypt_produces evp rc2 holds provider cipher (documented cipher found) key data rest output length
  have decrypts := fun data rest output length =>
    decrypt_produces evp rc2 holds provider cipher (documented cipher found) key data rest output length
  exact ⟨undoes_of_produces rc2 true key data _ _ accepted encrypts decrypts,
    undoes_of_produces rc2 false key data _ _ accepted decrypts encrypts⟩

/-- The test vector of RC2 for a key of 16 bytes. -/
def vectorKey : List UInt8 :=
  [0x88,0xbc,0xa9,0x0e,0x90,0x87,0x5a,0x7f,0x0f,0x79,0xc3,0x84,0x62,0x7b,0xaf,0xb2]

def vectorRc2 : Rc2 := fun _ =>
  Equiv.swap ⟨zeros BLOCK_SIZE,rfl⟩ ⟨[0x22,0x69,0x55,0x2a,0xb0,0xf8,0x5c,0xa6],rfl⟩

def vectorEvp : Evp := Ctx.evp vectorRc2

theorem encrypt_decrypt_inverse_vector :
    (MTA_encrypt vectorEvp (MTA_crypt_init (some 1) (some 2) ⟨none,none⟩).2 (fun _ => true)
      (some vectorKey) 16 (some (zeros 8)) 8 (some (zeros 8)) (some 0)).output =
        some [0x22,0x69,0x55,0x2a,0xb0,0xf8,0x5c,0xa6] ∧
    Undoes
      (MTA_encrypt vectorEvp (MTA_crypt_init (some 1) (some 2) ⟨none,none⟩).2 (fun _ => true)
        (some vectorKey) 16)
      (MTA_decrypt vectorEvp (MTA_crypt_init (some 1) (some 2) ⟨none,none⟩).2 (fun _ => true)
        (some vectorKey) 16) (zeros 8) :=
  ⟨by decide +kernel,
    (encrypt_decrypt_inverse vectorEvp vectorRc2 id (some 1) (some 2)
      ⟨none,none⟩ (fun handle _ => Ctx.evp_documented vectorRc2 handle) (by decide) vectorKey (zeros 8)
      ⟨by decide,by decide,by decide,by decide,by decide⟩).1⟩

end LinuxCourse.MtaCrypt
