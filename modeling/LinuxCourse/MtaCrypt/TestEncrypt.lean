import LinuxCourse.MtaCrypt.RoundTrip
import LinuxCourse.MtaCrypt.Rand

/-! `mta_crypt_lib/test_encrypt.c`: in each round a password is encrypted with a random key,
and the key is guessed so many times. -/
namespace LinuxCourse.TestEncrypt
open Library Bytes MtaCrypt
open MtaRand hiding Call start

def NUM_OF_ROUNDS : Nat := 10

def NUM_OF_ITERATIONS : Nat := 10000000

def PASS_LEN : Nat := 24

def KEY_LEN : Nat := PASS_LEN/8

/-- What the clock shows to each call and which calls of OpenSSL work, by round and iteration. -/
structure Outside where
  passTime : Nat → Timespec
  keyTime : Nat → Timespec
  guessTime : Nat → Nat → Timespec
  encrypts : Nat → Call → Bool
  decrypts : Nat → Nat → Call → Bool

inductive Line
  | round (j : Nat) (decrypted : Int)
  | total (decrypted : Int)
  deriving DecidableEq

structure State where
  pass : Buffer
  key : Buffer
  enc_pass : List UInt8
  guessed_key : Buffer
  dec_pass : List UInt8
  enc_pass_len : BitVec 32
  dec_pass_len : BitVec 32
  iter_dec_counter : BitVec 32
  total_dec_counter : BitVec 32
  output : List Line

def blank : Buffer := ⟨zeros 200,by rw [zeros_length]; decide⟩

def start : State := ⟨blank,blank,zeros 200,blank,zeros 200,0,0,0,0,[]⟩

section Main
variable (evp : Evp) (rc2 : Rc2) (rand_r : BitVec 32 → Nat × BitVec 32) (outside : Outside)

/-- One pass of the inner loop; `none` where its assertion fails. -/
def iteration (globals : Globals) (j i : Nat) (state : State) : Option State :=
  let guessed_key := MTA_get_rand_data rand_r (outside.guessTime j i) state.guessed_key KEY_LEN
  let res := MTA_decrypt evp globals (outside.decrypts j i) (some guessed_key.bytes)
    (BitVec.ofNat 32 KEY_LEN) (some state.enc_pass) state.enc_pass_len (some state.dec_pass)
    (some state.dec_pass_len)
  if res.status = .MTA_CRYPT_RET_OK then
    some {state with
      guessed_key := blank
      dec_pass := zeros 200
      dec_pass_len := res.output_length.getD state.dec_pass_len
      iter_dec_counter :=
        if (res.output.getD []).take PASS_LEN = state.pass.bytes.take PASS_LEN then
          state.iter_dec_counter+1
        else state.iter_dec_counter}
  else none

def iterations (globals : Globals) (j : Nat) : Nat → State → Option State
  | 0,state => some state
  | i+1,state => (iterations globals j i state).bind (iteration evp rand_r outside globals j i)

def round (globals : Globals) (j : Nat) (state : State) : Option State :=
  let pass := MTA_get_rand_data rand_r (outside.passTime j) state.pass PASS_LEN
  let key := MTA_get_rand_data rand_r (outside.keyTime j) state.key KEY_LEN
  let res := MTA_encrypt evp globals (outside.encrypts j) (some key.bytes) (BitVec.ofNat 32 KEY_LEN)
    (some pass.bytes) (BitVec.ofNat 32 PASS_LEN) (some state.enc_pass) (some state.enc_pass_len)
  if res.status = .MTA_CRYPT_RET_OK then
    (iterations evp rand_r outside globals j NUM_OF_ITERATIONS {state with
      pass := pass
      key := key
      enc_pass := res.output.getD []
      enc_pass_len := res.output_length.getD state.enc_pass_len}).map fun state =>
        {state with
          output := state.output++[.round j state.iter_dec_counter.toInt]
          total_dec_counter := state.total_dec_counter+state.iter_dec_counter
          iter_dec_counter := 0}
  else none

def rounds (globals : Globals) : Nat → State → Option State
  | 0,state => some state
  | j+1,state => (rounds globals j state).bind (round evp rand_r outside globals j)

def main (load byname : Option Nat) : Option (List Line) :=
  let (res,globals) := MTA_crypt_init load byname ⟨none,none⟩
  if res = .MTA_CRYPT_RET_OK then
    (rounds evp rand_r outside globals NUM_OF_ROUNDS start).map fun state =>
      state.output++[.total state.total_dec_counter.toInt]
  else none

/-- The buffers of the password and of the key before each round; the random data of one round
goes into the seed of the next. -/
def passBefore : Nat → Buffer
  | 0 => blank
  | j+1 => MTA_get_rand_data rand_r (outside.passTime j) (passBefore j) PASS_LEN

def keyBefore : Nat → Buffer
  | 0 => blank
  | j+1 => MTA_get_rand_data rand_r (outside.keyTime j) (keyBefore j) KEY_LEN

def password (j : Nat) : List UInt8 := (passBefore rand_r outside (j+1)).bytes.take PASS_LEN

def secret (j : Nat) : List UInt8 := (keyBefore rand_r outside (j+1)).bytes.take KEY_LEN

/-- A guess depends on the nanoseconds of the clock only. -/
def guess (j i : Nat) : List UInt8 := randomBytes rand_r (charSeed (outside.guessTime j i)) KEY_LEN

def Opens (key pass guess : List UInt8) : Prop :=
  codebook rc2 false guess (codebook rc2 true key pass) = pass

instance (key pass guess : List UInt8) : Decidable (Opens rc2 key pass guess) :=
  inferInstanceAs (Decidable (_ = _))

/-- How many of the first guesses of a round open its password. -/
def hits (j count : Nat) : Nat :=
  (List.range count).countP fun i =>
    Opens rc2 (secret rand_r outside j) (password rand_r outside j) (guess rand_r outside j i)

def found : Nat → Nat
  | 0 => 0
  | j+1 => found j+hits rc2 rand_r outside j NUM_OF_ITERATIONS

def report (count : Nat) : List Line :=
  (List.range count).map fun j => .round j (hits rc2 rand_r outside j NUM_OF_ITERATIONS)

end Main

section Perform
variable (evp : Evp) (succeeds : Call → Bool)

theorem follow_succeeds (session final : Session evp) (calls : List Call)
    (done : session.follow succeeds calls = (true,final)) :
    session.follow (fun _ => true) calls = (true,final) := by
  induction calls generalizing session with
  | nil => exact done
  | cons call rest ih =>
    rw [Session.follow] at done ⊢
    cases issued : session.issue succeeds call with
    | none =>
      rw [issued] at done
      cases done
    | some next =>
      rw [issued] at done
      have same : session.issue (fun _ => true) call = some next := by
        unfold Session.issue at issued ⊢
        split at issued
        · simpa only [if_true] using issued
        · contradiction
      rw [same]
      exact ih next done

/-- What reports success does what it does where nothing fails. -/
theorem perform_succeeds (calls : List Call) (output : Option (List UInt8)) (length : Option (BitVec 32))
    (done : (perform evp succeeds calls output length).status = .MTA_CRYPT_RET_OK) :
    perform evp succeeds calls output length = perform evp (fun _ => true) calls output length := by
  rw [perform] at done ⊢
  cases followed : (Session.start evp (output.getD [])).follow succeeds calls with
  | mk whole session =>
    cases whole with
    | false =>
      rw [followed] at done
      contradiction
    | true => rw [perform,follow_succeeds evp succeeds _ session calls followed]

theorem encrypt_succeeds (globals : Globals) (key : Option (List UInt8)) (key_length : BitVec 32)
    (data : Option (List UInt8)) (data_length : BitVec 32) (output : Option (List UInt8))
    (length : Option (BitVec 32))
    (done : (MTA_encrypt evp globals succeeds key key_length data data_length output length).status =
      .MTA_CRYPT_RET_OK) :
    MTA_encrypt evp globals succeeds key key_length data data_length output length =
      MTA_encrypt evp globals (fun _ => true) key key_length data data_length output length := by
  unfold MTA_encrypt at done ⊢
  dsimp only at done ⊢
  split
  · rfl
  · rename_i valid
    rw [valid] at done
    exact perform_succeeds evp succeeds _ output length done

theorem decrypt_succeeds (globals : Globals) (key : Option (List UInt8)) (key_length : BitVec 32)
    (data : Option (List UInt8)) (data_length : BitVec 32) (output : Option (List UInt8))
    (length : Option (BitVec 32))
    (done : (MTA_decrypt evp globals succeeds key key_length data data_length output length).status =
      .MTA_CRYPT_RET_OK) :
    MTA_decrypt evp globals succeeds key key_length data data_length output length =
      MTA_decrypt evp globals (fun _ => true) key key_length data data_length output length := by
  unfold MTA_decrypt at done ⊢
  dsimp only at done ⊢
  split
  · rfl
  · rename_i valid
    rw [valid] at done
    exact perform_succeeds evp succeeds _ output length done

variable (rc2 : Rc2) (holds : evp.CIPHER_CTX → Ctx)

theorem key_ok (key : List UInt8) :
    MTA_CRYPT_INPUT_KEY_VALIDATION (some key) (BitVec.ofNat 32 KEY_LEN) = none :=
  key_accepted key _ (by decide) (by decide)

theorem encrypt_pass (provider cipher : Nat) (documented : evp.Documented rc2 cipher holds)
    (key data output : List UInt8) (length : BitVec 32)
    (enough : PASS_LEN ≤ data.length) (room : PASS_LEN ≤ output.length) :
    (MTA_encrypt evp ⟨some provider,some cipher⟩ (fun _ => true) (some key) (BitVec.ofNat 32 KEY_LEN)
      (some data) (BitVec.ofNat 32 PASS_LEN) (some output) (some length)).Produces output
      (codebook rc2 true (key.take KEY_LEN) (data.take PASS_LEN)) := by
  have taken : (data.take PASS_LEN).length = PASS_LEN := List.length_take_of_le enough
  have valid : MTA_CRYPT_INPUT_DATA_VALIDATION (some data) (BitVec.ofNat 32 PASS_LEN) = none := by
    rw [MTA_CRYPT_INPUT_DATA_VALIDATION,if_neg (by simp)]
    rfl
  refine encrypt_front evp rc2 holds provider cipher documented key data output _ _ length (key_ok key) valid ?_ ?_
  · exact taken.symm ▸ (by decide : BLOCK_SIZE ∣ PASS_LEN)
  · exact taken.symm ▸ room

theorem decrypt_pass (provider cipher : Nat) (documented : evp.Documented rc2 cipher holds)
    (key data output : List UInt8) (length : BitVec 32)
    (enough : PASS_LEN ≤ data.length) (room : PASS_LEN ≤ output.length) :
    (MTA_decrypt evp ⟨some provider,some cipher⟩ (fun _ => true) (some key) (BitVec.ofNat 32 KEY_LEN)
      (some data) (BitVec.ofNat 32 PASS_LEN) (some output) (some length)).Produces output
      (codebook rc2 false (key.take KEY_LEN) (data.take PASS_LEN)) := by
  have taken : (data.take PASS_LEN).length = PASS_LEN := List.length_take_of_le enough
  refine decrypt_front evp rc2 holds provider cipher documented key data output _ _ length (key_ok key) ?_ ?_
  · exact taken.symm ▸ (by decide : BLOCK_SIZE ∣ PASS_LEN)
  · exact taken.symm ▸ room

end Perform

section Rounds
variable (evp : Evp) (rc2 : Rc2) (holds : evp.CIPHER_CTX → Ctx) (rand_r : BitVec 32 → Nat × BitVec 32)
  (outside : Outside) (provider cipher : Nat) (documented : evp.Documented rc2 cipher holds)

theorem blank_seed (now : Timespec) : dataSeed now blank = charSeed now := by
  have front : blank.bytes.take 4 = zeros 4 := List.take_replicate
  have zero : decode (zeros 4) = 0 := by decide
  rw [dataSeed,front,zero]
  exact BitVec.add_zero _

theorem randomBytes_length (seed : BitVec 32) (count : Nat) : (randomBytes rand_r seed count).length = count := by
  induction count generalizing seed with
  | zero => rfl
  | succ count ih => rw [randomBytes,List.length_cons,ih]

theorem drawn_bytes (now : Timespec) (data : Buffer) (count : Nat) :
    (MTA_get_rand_data rand_r now data count).bytes =
      store data.bytes (randomBytes rand_r (dataSeed now data) count) := rfl

theorem drawn_length (now : Timespec) (data : Buffer) (count : Nat) :
    (MTA_get_rand_data rand_r now data count).bytes.length = data.bytes.length := by
  rw [drawn_bytes,store_length]

theorem guessed (j i : Nat) :
    (MTA_get_rand_data rand_r (outside.guessTime j i) blank KEY_LEN).bytes.take KEY_LEN =
      guess rand_r outside j i := by
  have length := randomBytes_length rand_r (charSeed (outside.guessTime j i)) KEY_LEN
  have fits : (randomBytes rand_r (charSeed (outside.guessTime j i)) KEY_LEN).length ≤ blank.bytes.length := by
    rw [length,blank,zeros_length]
    decide
  rw [drawn_bytes,blank_seed,store_within _ _ fits]
  exact List.take_left' length

/-- The buffers between two iterations of a round. -/
structure Ready (key pass : List UInt8) (state : State) : Prop where
  plain : state.pass.bytes.take PASS_LEN = pass
  length : pass.length = PASS_LEN
  encrypted : state.enc_pass.take PASS_LEN = codebook rc2 true key pass
  whole : state.enc_pass_len = BitVec.ofNat 32 PASS_LEN
  unguessed : state.guessed_key = blank
  cleared : state.dec_pass = zeros 200

theorem ready_sealed (key pass : List UInt8) (state : State) (ready : Ready rc2 key pass state) :
    (codebook rc2 true key pass).length = PASS_LEN := by
  rw [codebook_length rc2 true key pass (by rw [ready.length]; decide),ready.length]

include documented in
theorem ready_decrypts (key pass : List UInt8) (j i : Nat) (state : State) (ready : Ready rc2 key pass state) :
    (MTA_decrypt evp ⟨some provider,some cipher⟩ (fun _ => true)
      (some (MTA_get_rand_data rand_r (outside.guessTime j i) state.guessed_key KEY_LEN).bytes)
      (BitVec.ofNat 32 KEY_LEN) (some state.enc_pass) state.enc_pass_len (some state.dec_pass)
      (some state.dec_pass_len)).Produces state.dec_pass
      (codebook rc2 false (guess rand_r outside j i) (codebook rc2 true key pass)) := by
  have enough : PASS_LEN ≤ state.enc_pass.length := by
    have taken := congrArg List.length ready.encrypted
    rw [List.length_take,ready_sealed rc2 key pass state ready] at taken
    omega
  have produced := decrypt_pass evp rc2 holds provider cipher documented
    (MTA_get_rand_data rand_r (outside.guessTime j i) state.guessed_key KEY_LEN).bytes state.enc_pass
    state.dec_pass state.dec_pass_len enough (by rw [ready.cleared,zeros_length]; decide)
  rw [ready.encrypted,ready.unguessed,guessed] at produced
  rw [ready.whole,ready.unguessed]
  exact produced

def counted (state : State) (length count : BitVec 32) : State :=
  {state with dec_pass_len := length,iter_dec_counter := state.iter_dec_counter+count}

theorem counted_ready (key pass : List UInt8) (state : State) (length count : BitVec 32)
    (ready : Ready rc2 key pass state) : Ready rc2 key pass (counted state length count) := by
  obtain ⟨plain,size,encrypted,whole,unguessed,cleared⟩ := ready
  exact ⟨plain,size,encrypted,whole,unguessed,cleared⟩

include documented in
theorem iteration_ready (key pass : List UInt8) (j i : Nat) (state next : State)
    (ready : Ready rc2 key pass state)
    (iterated : iteration evp rand_r outside ⟨some provider,some cipher⟩ j i state = some next) :
    next = counted state (BitVec.ofNat 32 PASS_LEN)
      (if Opens rc2 key pass (guess rand_r outside j i) then 1 else 0) := by
  obtain ⟨-,output,length⟩ := ready_decrypts evp rc2 holds rand_r outside provider cipher documented
    key pass j i state ready
  have sealed := ready_sealed rc2 key pass state ready
  have opened := codebook_length rc2 false (guess rand_r outside j i) (codebook rc2 true key pass)
    (by rw [sealed]; decide)
  unfold iteration at iterated
  dsimp only at iterated
  split at iterated
  · rename_i done
    rw [decrypt_succeeds evp _ _ _ _ _ _ _ _ done,output,length] at iterated
    rw [← Option.some.inj iterated,Option.getD_some,Option.getD_some,opened,sealed,
      List.take_left' (opened.trans sealed),ready.plain,counted,← ready.unguessed,← ready.cleared]
    split
    · rename_i same
      have opens : Opens rc2 key pass (guess rand_r outside j i) := same
      rw [if_pos opens]
    · rename_i differ
      have fails : ¬Opens rc2 key pass (guess rand_r outside j i) := differ
      rw [if_neg fails]
      have zero : state.iter_dec_counter+0 = state.iter_dec_counter := BitVec.add_zero _
      rw [zero]
  · contradiction

include documented in
theorem iteration_runs (key pass : List UInt8) (j i : Nat) (state : State) (ready : Ready rc2 key pass state)
    (works : ∀ call, outside.decrypts j i call = true) :
    ∃ next, iteration evp rand_r outside ⟨some provider,some cipher⟩ j i state = some next := by
  obtain ⟨done,-,-⟩ := ready_decrypts evp rc2 holds rand_r outside provider cipher documented
    key pass j i state ready
  rw [iteration,funext works]
  exact ⟨_,if_pos done⟩

include documented in
theorem iterations_ready (j count : Nat) (state next : State)
    (ready : Ready rc2 (secret rand_r outside j) (password rand_r outside j) state)
    (iterated : iterations evp rand_r outside ⟨some provider,some cipher⟩ j count state = some next) :
    ∃ length, next = counted state length (BitVec.ofNat 32 (hits rc2 rand_r outside j count)) := by
  induction count generalizing next with
  | zero =>
    refine ⟨state.dec_pass_len,?_⟩
    rw [← Option.some.inj iterated,counted]
    exact congrArg (fun counter => {state with iter_dec_counter := counter}) (BitVec.add_zero _).symm
  | succ i ih =>
    obtain ⟨middle,before,last⟩ := Option.bind_eq_some_iff.mp iterated
    obtain ⟨length,rfl⟩ := ih middle before
    have after := iteration_ready evp rc2 holds rand_r outside provider cipher documented _ _ j i _ next
      (counted_ready rc2 _ _ state length _ ready) last
    refine ⟨BitVec.ofNat 32 PASS_LEN,?_⟩
    rw [after,counted,counted,counted,hits,hits,List.range_succ,List.countP_append,List.countP_singleton]
    simp only [BitVec.ofNat_add,BitVec.add_assoc,decide_eq_true_eq]
    split <;> rfl

include documented in
theorem iterations_run (j count : Nat) (state : State)
    (ready : Ready rc2 (secret rand_r outside j) (password rand_r outside j) state)
    (works : ∀ i call, outside.decrypts j i call = true) :
    ∃ next, iterations evp rand_r outside ⟨some provider,some cipher⟩ j count state = some next := by
  induction count with
  | zero => exact ⟨state,rfl⟩
  | succ i ih =>
    obtain ⟨middle,before⟩ := ih
    obtain ⟨length,rfl⟩ := iterations_ready evp rc2 holds rand_r outside provider cipher documented
      j i state middle ready before
    rw [iterations,before,Option.bind_some]
    exact iteration_runs evp rc2 holds rand_r outside provider cipher documented _ _ j i _
      (counted_ready rc2 _ _ state length _ ready) (works i)

/-- The state between two rounds. -/
structure Between (j : Nat) (state : State) : Prop where
  pass : state.pass = passBefore rand_r outside j
  key : state.key = keyBefore rand_r outside j
  room : state.enc_pass.length = 200
  unguessed : state.guessed_key = blank
  cleared : state.dec_pass = zeros 200
  reset : state.iter_dec_counter = 0
  total : state.total_dec_counter = BitVec.ofNat 32 (found rc2 rand_r outside j)
  output : state.output = report rc2 rand_r outside j

theorem passBefore_length (j : Nat) : (passBefore rand_r outside j).bytes.length = 200 := by
  induction j with
  | zero => exact zeros_length 200
  | succ j ih => rw [passBefore,drawn_length,ih]

theorem password_length (j : Nat) : (password rand_r outside j).length = PASS_LEN := by
  rw [password,List.length_take_of_le]
  rw [passBefore_length]
  decide

include documented in
theorem drawn_ready (j : Nat) (state : State) (between : Between rc2 rand_r outside j state)
    (output : List UInt8) (length : BitVec 32) :
    let pass := MTA_get_rand_data rand_r (outside.passTime j) state.pass PASS_LEN
    let key := MTA_get_rand_data rand_r (outside.keyTime j) state.key KEY_LEN
    let res := MTA_encrypt evp ⟨some provider,some cipher⟩ (fun _ => true) (some key.bytes)
      (BitVec.ofNat 32 KEY_LEN) (some pass.bytes) (BitVec.ofNat 32 PASS_LEN) (some state.enc_pass)
      (some state.enc_pass_len)
    res.status = .MTA_CRYPT_RET_OK ∧ (res.output.getD output).length = 200 ∧
      Ready rc2 (secret rand_r outside j) (password rand_r outside j) {state with
        pass := pass
        key := key
        enc_pass := res.output.getD output
        enc_pass_len := res.output_length.getD length} := by
  intro pass key res
  have plain : pass.bytes.take PASS_LEN = password rand_r outside j := by
    rw [password,passBefore,← between.pass]
  have keyed : key.bytes.take KEY_LEN = secret rand_r outside j := by
    rw [secret,keyBefore,← between.key]
  have taken := password_length rand_r outside j
  have whole : pass.bytes.length = 200 :=
    (drawn_length rand_r _ _ _).trans (by rw [between.pass,passBefore_length])
  obtain ⟨done,bytes,count⟩ := encrypt_pass evp rc2 holds provider cipher documented key.bytes pass.bytes
    state.enc_pass state.enc_pass_len (by rw [whole]; decide) (by rw [between.room]; decide)
  rw [plain,keyed] at bytes count
  change res.output = _ at bytes
  change res.output_length = _ at count
  have sealed := codebook_length rc2 true (secret rand_r outside j) (password rand_r outside j)
    (by rw [taken]; decide)
  refine ⟨done,?_,⟨plain,taken,?_,?_,between.unguessed,between.cleared⟩⟩
  · rw [bytes,Option.getD_some,List.length_append,List.length_drop,between.room,sealed,taken]
    decide
  · rw [bytes,Option.getD_some]
    exact List.take_left' (sealed.trans taken)
  · rw [count,Option.getD_some,sealed,taken]

theorem hits_le (j count : Nat) : hits rc2 rand_r outside j count ≤ count := by
  have bound := List.countP_le_length (p := fun i => decide
    (Opens rc2 (secret rand_r outside j) (password rand_r outside j) (guess rand_r outside j i)))
    (l := List.range count)
  rwa [List.length_range] at bound

theorem found_le (count : Nat) : found rc2 rand_r outside count ≤ count*NUM_OF_ITERATIONS := by
  induction count with
  | zero => exact Nat.zero_le _
  | succ j ih =>
    have more := hits_le rc2 rand_r outside j NUM_OF_ITERATIONS
    rw [found,Nat.succ_mul]
    exact Nat.add_le_add ih more

theorem toInt_small (count : Nat) (small : count < 2^31) : (BitVec.ofNat 32 count).toInt = count := by
  have value : (BitVec.ofNat 32 count).toNat = count := by
    rw [BitVec.toNat_ofNat]
    omega
  rw [BitVec.toInt_eq_toNat_of_lt (by omega),value]

include documented in
theorem round_between (j : Nat) (state next : State) (between : Between rc2 rand_r outside j state)
    (finished : round evp rand_r outside ⟨some provider,some cipher⟩ j state = some next) :
    Between rc2 rand_r outside (j+1) next := by
  obtain ⟨-,room,ready⟩ :=
    drawn_ready evp rc2 holds rand_r outside provider cipher documented j state between [] state.enc_pass_len
  unfold round at finished
  dsimp only at finished
  split at finished
  · rename_i done
    rw [encrypt_succeeds evp _ _ _ _ _ _ _ _ done] at finished
    obtain ⟨middle,iterated,rfl⟩ := Option.map_eq_some_iff.mp finished
    obtain ⟨length,rfl⟩ := iterations_ready evp rc2 holds rand_r outside provider cipher documented
      j _ _ _ ready iterated
    have few := hits_le rc2 rand_r outside j NUM_OF_ITERATIONS
    have iterations : NUM_OF_ITERATIONS = 10000000 := rfl
    refine ⟨?_,?_,room,between.unguessed,between.cleared,rfl,?_,?_⟩
    · rw [passBefore,← between.pass]
      rfl
    · rw [keyBefore,← between.key]
      rfl
    · simp only [counted,between.reset,between.total]
      rw [found,BitVec.ofNat_add]
      exact congrArg _ (BitVec.zero_add _)
    · simp only [counted,between.reset,between.output]
      rw [report,report,List.range_succ,List.map_append,List.map_singleton]
      have zero (count : BitVec 32) : 0+count = count := BitVec.zero_add _
      rw [zero,toInt_small _ (by omega)]
  · contradiction

include documented in
theorem round_runs (j : Nat) (state : State) (between : Between rc2 rand_r outside j state)
    (encrypts : ∀ call, outside.encrypts j call = true)
    (decrypts : ∀ i call, outside.decrypts j i call = true) :
    ∃ next, round evp rand_r outside ⟨some provider,some cipher⟩ j state = some next := by
  obtain ⟨done,-,ready⟩ :=
    drawn_ready evp rc2 holds rand_r outside provider cipher documented j state between [] state.enc_pass_len
  obtain ⟨middle,iterated⟩ := iterations_run evp rc2 holds rand_r outside provider cipher documented j
    NUM_OF_ITERATIONS _ ready decrypts
  rw [round,funext encrypts,if_pos done,iterated]
  exact ⟨_,rfl⟩

theorem start_between : Between rc2 rand_r outside 0 start :=
  ⟨rfl,rfl,zeros_length 200,rfl,rfl,rfl,rfl,rfl⟩

include documented in
theorem rounds_between (count : Nat) (final : State)
    (finished : rounds evp rand_r outside ⟨some provider,some cipher⟩ count start = some final) :
    Between rc2 rand_r outside count final := by
  induction count generalizing final with
  | zero => exact Option.some.inj finished ▸ start_between rc2 rand_r outside
  | succ j ih =>
    obtain ⟨state,before,last⟩ := Option.bind_eq_some_iff.mp finished
    exact round_between evp rc2 holds rand_r outside provider cipher documented
      j state final (ih state before) last

include documented in
theorem rounds_run (count : Nat) (encrypts : ∀ j call, outside.encrypts j call = true)
    (decrypts : ∀ j i call, outside.decrypts j i call = true) :
    ∃ final, rounds evp rand_r outside ⟨some provider,some cipher⟩ count start = some final := by
  induction count with
  | zero => exact ⟨start,rfl⟩
  | succ j ih =>
    obtain ⟨state,before⟩ := ih
    have between := rounds_between evp rc2 holds rand_r outside provider cipher documented j state before
    rw [rounds,before,Option.bind_some]
    exact round_runs evp rc2 holds rand_r outside provider cipher documented
      j state between (encrypts j) (decrypts j)

theorem opens_secret (key pass : List UInt8) (whole : BLOCK_SIZE ∣ pass.length) : Opens rc2 key pass key :=
  codebook_inverse rc2 true key pass whole

end Rounds

/-- The report counts, for each round and in all, the guesses that open the password; the key
itself is always one of these, and no counter runs over. -/
theorem main_reports (evp : Evp) (rc2 : Rc2) (holds : evp.CIPHER_CTX → Ctx)
    (rand_r : BitVec 32 → Nat × BitVec 32) (outside : Outside) (load byname : Option Nat)
    (documented : ∀ handle, byname = some handle → evp.Documented rc2 handle holds) :
    (∀ lines, main evp rand_r outside load byname = some lines →
      lines = report rc2 rand_r outside NUM_OF_ROUNDS++[.total (found rc2 rand_r outside NUM_OF_ROUNDS)]) ∧
    ((MTA_crypt_init load byname ⟨none,none⟩).1 = .MTA_CRYPT_RET_OK →
      (∀ j call, outside.encrypts j call = true) → (∀ j i call, outside.decrypts j i call = true) →
      (main evp rand_r outside load byname).isSome) ∧
    ∀ j, (List.range NUM_OF_ITERATIONS).countP
        (fun i => guess rand_r outside j i = secret rand_r outside j) ≤
      hits rc2 rand_r outside j NUM_OF_ITERATIONS := by
  refine ⟨?_,?_,?_⟩
  · intro lines printed
    unfold main at printed
    dsimp only at printed
    split at printed
    · rename_i done
      obtain ⟨provider,cipher,known,handles⟩ := init_ok load byname ⟨none,none⟩ done
      obtain ⟨final,finished,rfl⟩ := Option.map_eq_some_iff.mp printed
      rw [handles] at finished
      have between := rounds_between evp rc2 holds rand_r outside provider cipher
        (documented cipher known) NUM_OF_ROUNDS final finished
      have few := found_le rc2 rand_r outside NUM_OF_ROUNDS
      have limit : NUM_OF_ROUNDS*NUM_OF_ITERATIONS = 100000000 := rfl
      rw [between.output,between.total,toInt_small _ (by omega)]
    · contradiction
  · intro done encrypts decrypts
    obtain ⟨provider,cipher,known,handles⟩ := init_ok load byname ⟨none,none⟩ done
    obtain ⟨final,finished⟩ := rounds_run evp rc2 holds rand_r outside provider cipher
      (documented cipher known) NUM_OF_ROUNDS encrypts decrypts
    unfold main
    dsimp only
    rw [if_pos done,handles,finished]
    rfl
  · intro j
    apply List.countP_mono_left
    intro i _ same
    have equal : guess rand_r outside j i = secret rand_r outside j := by simpa using same
    have opens := opens_secret rc2 (secret rand_r outside j) (password rand_r outside j)
      (by rw [password_length]; decide)
    rw [equal]
    exact decide_eq_true opens

/-- A clock that always shows the same time: each guess is the key of the first round. -/
def stopped : Outside :=
  ⟨fun _ => nextSecond,fun _ => nextSecond,fun _ _ => nextSecond,fun _ _ => true,
    fun _ _ _ => true⟩

theorem main_reports_stopped :
    ∃ lines, main vectorEvp rand_r stopped (some 1) (some 2) = some lines ∧
      lines = report vectorRc2 rand_r stopped NUM_OF_ROUNDS++
        [.total (found vectorRc2 rand_r stopped NUM_OF_ROUNDS)] := by
  obtain ⟨reports,prints,-⟩ := main_reports vectorEvp vectorRc2 id rand_r stopped
    (some 1) (some 2) fun handle _ => Ctx.evp_documented vectorRc2 handle
  obtain ⟨lines,printed⟩ := Option.isSome_iff_exists.mp (prints rfl (fun _ _ => rfl) fun _ _ _ => rfl)
  exact ⟨lines,printed,reports lines printed⟩

end LinuxCourse.TestEncrypt
