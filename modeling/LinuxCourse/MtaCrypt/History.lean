import LinuxCourse.MtaCrypt.RoundTrip

/-! Histories of calls to the library. An initialisation writes the two globals one after
the other and returns between them when the first is null. -/
namespace LinuxCourse.MtaCrypt

structure Arguments where
  succeeds : Call → Bool
  key : Option (List UInt8)
  key_length : BitVec 32
  data : Option (List UInt8)
  data_length : BitVec 32
  output : Option (List UInt8)
  output_length : Option (BitVec 32)

inductive Api
  | init (load byname : Option Nat)
  | encrypt (arguments : Arguments)
  | decrypt (arguments : Arguments)

namespace Arguments

def encrypt (evp : Evp) (globals : Globals) (arguments : Arguments) : Result :=
  MTA_encrypt evp globals arguments.succeeds arguments.key arguments.key_length
    arguments.data arguments.data_length arguments.output arguments.output_length

def decrypt (evp : Evp) (globals : Globals) (arguments : Arguments) : Result :=
  MTA_decrypt evp globals arguments.succeeds arguments.key arguments.key_length
    arguments.data arguments.data_length arguments.output arguments.output_length

structure Valid (arguments : Arguments) : Prop where
  key : arguments.key.isSome
  keyed : 0 < arguments.key_length.toNat
  keyBound : arguments.key_length.toNat ≤ EVP_MAX_KEY_LENGTH
  data : arguments.data.isSome
  output : arguments.output.isSome
  output_length : arguments.output_length.isSome

end Arguments

def Api.initialises : Api → Bool
  | .init _ _ => true
  | .encrypt _ => false
  | .decrypt _ => false

def Api.issue (evp : Evp) (globals : Globals) : Api → Status × Globals
  | .init load byname => MTA_crypt_init load byname globals
  | .encrypt arguments => ((arguments.encrypt evp globals).status,globals)
  | .decrypt arguments => ((arguments.decrypt evp globals).status,globals)

/-- The globals after a history of calls; both are null when the program starts. -/
def after (evp : Evp) (history : List Api) : Globals :=
  history.foldl (fun globals call => (call.issue evp globals).2) ⟨none,none⟩

/-- `before` is what precedes the most recent initialisation of the history. -/
def Latest (history before : List Api) (load byname : Option Nat) : Prop :=
  ∃ later, history = before++.init load byname::later ∧ ∀ call ∈ later, call.initialises = false

theorem latest_cases (history : List Api) :
    (∀ call ∈ history, call.initialises = false) ∨
      ∃ before load byname, Latest history before load byname := by
  induction history with
  | nil => exact .inl fun call member => absurd member List.not_mem_nil
  | cons call history ih =>
    obtain none_later | ⟨before,load,byname,later,rfl,quiet⟩ := ih
    · cases call with
      | init load byname => exact .inr ⟨[],load,byname,history,rfl,none_later⟩
      | encrypt arguments => exact .inl (List.forall_mem_cons.mpr ⟨rfl,none_later⟩)
      | decrypt arguments => exact .inl (List.forall_mem_cons.mpr ⟨rfl,none_later⟩)
    · exact .inr ⟨call::before,load,byname,later,rfl,quiet⟩

theorem issue_globals (evp : Evp) (globals : Globals) (call : Api) (quiet : call.initialises = false) :
    (call.issue evp globals).2 = globals := by
  cases call with
  | init load byname => contradiction
  | encrypt arguments => rfl
  | decrypt arguments => rfl

theorem quiet_globals (evp : Evp) (globals : Globals) (calls : List Api)
    (quiet : ∀ call ∈ calls, call.initialises = false) :
    calls.foldl (fun globals call => (call.issue evp globals).2) globals = globals := by
  induction calls with
  | nil => rfl
  | cons call calls ih =>
    obtain ⟨first,rest⟩ := List.forall_mem_cons.mp quiet
    rw [List.foldl_cons,issue_globals evp globals call first,ih rest]

theorem after_latest (evp : Evp) (history before : List Api) (load byname : Option Nat)
    (latest : Latest history before load byname) :
    after evp history = (MTA_crypt_init load byname (after evp before)).2 := by
  obtain ⟨later,rfl,quiet⟩ := latest
  rw [after,List.foldl_append,List.foldl_cons,quiet_globals evp _ later quiet]
  rfl

/-- Whatever the earlier calls left in the globals, both are set exactly after an
initialisation that returns OK, and then by that one. -/
theorem init_globals (load byname : Option Nat) (globals : Globals) :
    (MTA_crypt_init load byname globals).1 = .MTA_CRYPT_RET_OK ∧
        (∃ provider cipher, load = some provider ∧ byname = some cipher ∧
          (MTA_crypt_init load byname globals).2 = ⟨some provider,some cipher⟩) ∨
      (MTA_crypt_init load byname globals).1 ≠ .MTA_CRYPT_RET_OK ∧
        ((MTA_crypt_init load byname globals).2.provider = none ∨
          (MTA_crypt_init load byname globals).2.cipher = none) := by
  unfold MTA_crypt_init
  cases load with
  | none => exact .inr ⟨by simp,.inl rfl⟩
  | some provider =>
    cases byname with
    | none => exact .inr ⟨by simp,.inr rfl⟩
    | some cipher => exact .inl ⟨rfl,provider,cipher,rfl,rfl,rfl⟩

theorem perform_called (evp : Evp) (succeeds : Call → Bool) (calls : List Call)
    (output : Option (List UInt8)) (output_length : Option (BitVec 32)) :
    (perform evp succeeds calls output output_length).status ≠ .MTA_CRYPT_RET_INIT_NOT_CALLED := by
  unfold perform
  split <;> simp

theorem data_called (data : Option (List UInt8)) (length : BitVec 32) :
    MTA_CRYPT_INPUT_DATA_VALIDATION data length ≠ some .MTA_CRYPT_RET_INIT_NOT_CALLED := by
  unfold MTA_CRYPT_INPUT_DATA_VALIDATION
  split_ifs <;> simp

theorem init_validations (globals : Globals) (later : Option Status)
    (called : later ≠ some .MTA_CRYPT_RET_INIT_NOT_CALLED) :
    (MTA_CRYPT_INIT_VALIDATION globals.provider <|> MTA_CRYPT_INIT_VALIDATION globals.cipher <|> later) =
        some .MTA_CRYPT_RET_INIT_NOT_CALLED ↔ globals.provider = none ∨ globals.cipher = none := by
  obtain ⟨provider,cipher⟩ := globals
  cases provider with
  | none => simp [MTA_CRYPT_INIT_VALIDATION]
  | some provider =>
    cases cipher with
    | none => simp [MTA_CRYPT_INIT_VALIDATION]
    | some cipher => simpa [MTA_CRYPT_INIT_VALIDATION] using called

theorem checked_status (invalid : Option Status) (output : Option (List UInt8))
    (output_length : Option (BitVec 32)) (performed : Result)
    (called : performed.status ≠ .MTA_CRYPT_RET_INIT_NOT_CALLED) :
    (match invalid with
      | some status => Result.mk status output output_length []
      | none => performed).status = .MTA_CRYPT_RET_INIT_NOT_CALLED ↔
      invalid = some .MTA_CRYPT_RET_INIT_NOT_CALLED := by
  cases invalid with
  | none => simpa using called
  | some status => simp

theorem not_called_iff (evp : Evp) (globals : Globals) (arguments : Arguments) (valid : arguments.Valid) :
    ((arguments.encrypt evp globals).status = .MTA_CRYPT_RET_INIT_NOT_CALLED ↔
      globals.provider = none ∨ globals.cipher = none) ∧
    ((arguments.decrypt evp globals).status = .MTA_CRYPT_RET_INIT_NOT_CALLED ↔
      globals.provider = none ∨ globals.cipher = none) := by
  obtain ⟨succeeds,key,key_length,data,data_length,output,output_length⟩ := arguments
  obtain ⟨keyFound,keyed,keyBound,dataFound,outputFound,lengthFound⟩ := valid
  obtain ⟨key,rfl⟩ := Option.isSome_iff_exists.mp keyFound
  obtain ⟨data,rfl⟩ := Option.isSome_iff_exists.mp dataFound
  obtain ⟨output,rfl⟩ := Option.isSome_iff_exists.mp outputFound
  obtain ⟨output_length,rfl⟩ := Option.isSome_iff_exists.mp lengthFound
  have accepted := key_accepted key key_length keyed keyBound
  constructor
  · refine (checked_status _ _ _ _ (perform_called evp succeeds _ _ _)).trans ?_
    simp only [accepted,MTA_CRYPT_NULL_VALIDATION,Option.orElse_eq_orElse,Option.orElse_none]
    exact init_validations globals _ (data_called (some data) data_length)
  · refine (checked_status _ _ _ _ (perform_called evp succeeds _ _ _)).trans ?_
    simp only [accepted,MTA_CRYPT_NULL_VALIDATION,Option.orElse_eq_orElse,Option.orElse_none]
    simpa using init_validations globals none (by simp)

/-- The history has no initialisation, or the most recent one did not return OK. -/
def Missing (evp : Evp) (history : List Api) : Prop :=
  (∀ call ∈ history, call.initialises = false) ∨
    ∃ before load byname, Latest history before load byname ∧
      (MTA_crypt_init load byname (after evp before)).1 ≠ .MTA_CRYPT_RET_OK

theorem missing_iff (evp : Evp) (history : List Api) :
    (after evp history).provider = none ∨ (after evp history).cipher = none ↔ Missing evp history := by
  constructor
  · intro unset
    obtain quiet | ⟨before,load,byname,latest⟩ := latest_cases history
    · exact .inl quiet
    · refine .inr ⟨before,load,byname,latest,?_⟩
      rw [after_latest evp history before load byname latest] at unset
      obtain ⟨_,provider,cipher,_,_,set⟩ | ⟨failed,_⟩ := init_globals load byname (after evp before)
      · rw [set] at unset
        simp at unset
      · exact failed
  · rintro (quiet | ⟨before,load,byname,latest,failed⟩)
    · rw [after,quiet_globals evp _ history quiet]
      exact .inl rfl
    · rw [after_latest evp history before load byname latest]
      obtain ⟨ok,_⟩ | ⟨_,unset⟩ := init_globals load byname (after evp before)
      · exact absurd ok failed
      · exact unset

theorem set_of_not_missing (evp : Evp) (history : List Api) (present : ¬Missing evp history) :
    ∃ before provider cipher, Latest history before (some provider) (some cipher) ∧
      after evp history = ⟨some provider,some cipher⟩ := by
  obtain quiet | ⟨before,load,byname,latest⟩ := latest_cases history
  · exact absurd (.inl quiet) present
  · obtain ⟨_,provider,cipher,rfl,rfl,set⟩ | ⟨failed,_⟩ := init_globals load byname (after evp before)
    · refine ⟨before,provider,cipher,latest,?_⟩
      rw [after_latest evp history before _ _ latest,set]
    · exact absurd (.inr ⟨before,load,byname,latest,failed⟩) present

theorem init_protocol (evp : Evp) (history : List Api) (arguments : Arguments) (valid : arguments.Valid) :
    ((arguments.encrypt evp (after evp history)).status = .MTA_CRYPT_RET_INIT_NOT_CALLED ↔
      Missing evp history) ∧
    ((arguments.decrypt evp (after evp history)).status = .MTA_CRYPT_RET_INIT_NOT_CALLED ↔
      Missing evp history) ∧
    (¬Missing evp history →
      ∃ before provider cipher, Latest history before (some provider) (some cipher) ∧
        after evp history = ⟨some provider,some cipher⟩) := by
  obtain ⟨encrypted,decrypted⟩ := not_called_iff evp (after evp history) arguments valid
  exact ⟨encrypted.trans (missing_iff evp history),decrypted.trans (missing_iff evp history),
    set_of_not_missing evp history⟩

def vectorArguments : Arguments :=
  ⟨fun _ => true,some vectorKey,16,some (Bytes.zeros 8),8,some (Bytes.zeros 8),some 0⟩

/-- Only the last initialisation finds the cipher. -/
def retries : List Api :=
  [.init (some 1) none,.init (some 3) none,.encrypt vectorArguments,.init (some 5) (some 6),
    .decrypt vectorArguments]

/-- A second initialisation that fails to find the cipher undoes the first; and after the last
of `retries` both globals are from that one. -/
theorem init_protocol_cipher_failure :
    (vectorArguments.encrypt vectorEvp (after vectorEvp
      [.init (some 1) (some 2),.encrypt vectorArguments,.init (some 3) none])).status =
        .MTA_CRYPT_RET_INIT_NOT_CALLED ∧
    ∃ before, Latest retries before (some 5) (some 6) ∧ after vectorEvp retries = ⟨some 5,some 6⟩ := by
  have valid : vectorArguments.Valid := ⟨rfl,by decide,by decide,rfl,rfl,rfl⟩
  constructor
  · refine (init_protocol vectorEvp [.init (some 1) (some 2),.encrypt vectorArguments,.init (some 3) none]
      vectorArguments valid).1.mpr (.inr ⟨[.init (some 1) (some 2),.encrypt vectorArguments],some 3,none,?_,?_⟩)
    · exact ⟨[],rfl,fun _ member => absurd member List.not_mem_nil⟩
    · decide
  · obtain ⟨encrypted,-,present⟩ := init_protocol vectorEvp retries vectorArguments valid
    have called : ¬Missing vectorEvp retries := fun missing =>
      absurd (encrypted.mpr missing) (by decide +kernel)
    obtain ⟨before,provider,cipher,latest,set⟩ := present called
    have globals : after vectorEvp retries = ⟨some 5,some 6⟩ := rfl
    obtain ⟨rfl,rfl⟩ : provider = 5 ∧ cipher = 6 := by simpa using set.symm.trans globals
    exact ⟨before,latest,globals⟩

end LinuxCourse.MtaCrypt
