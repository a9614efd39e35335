import LinuxCourse.Library.Bytes
import Mathlib.Data.Nat.ModEq

/-! `mta_crypt_lib/mta_rand.c`. The seed is taken from the nanoseconds of the monotonic
clock and from the front of the buffer; the seconds have no part in it. -/
namespace LinuxCourse.MtaRand
open Bytes

def NSEC_PER_SEC : Nat := 1000000000

/-- What `clock_gettime` fills in. -/
structure Timespec where
  tv_sec : Nat
  tv_nsec : Nat
  within : tv_nsec < NSEC_PER_SEC
  deriving DecidableEq

/-- A buffer that can be read as an `int`. -/
structure Buffer where
  bytes : List UInt8
  holds : 4 ≤ bytes.length
  deriving DecidableEq

def dataSeed (now : Timespec) (data : Buffer) : BitVec 32 :=
  BitVec.ofNat 32 now.tv_nsec+decode (data.bytes.take 4)

def charSeed (now : Timespec) : BitVec 32 := BitVec.ofNat 32 now.tv_nsec

section Generator
variable (rand_r : BitVec 32 → Nat × BitVec 32)

def randomBytes : BitVec 32 → Nat → List UInt8
  | _, 0 => []
  | seed, count+1 => UInt8.ofNat ((rand_r seed).1%255)::randomBytes (rand_r seed).2 count

def MTA_get_rand_data (now : Timespec) (data : Buffer) (data_length : Nat) : Buffer :=
  ⟨store data.bytes (randomBytes rand_r (dataSeed now data) data_length),by
    rw [store_length]
    exact data.holds⟩

def MTA_get_rand_char (now : Timespec) : UInt8 := UInt8.ofNat ((rand_r (charSeed now)).1%255)

inductive Call
  | data (now : Timespec) (data_length : Nat)
  | char (now : Timespec)

/-- What is done to the buffer before a call. -/
inductive Preparation
  | kept
  | reset

def Preparation.prepare (preparation : Preparation) (original data : Buffer) : Buffer :=
  match preparation with
  | .kept => data
  | .reset => original

/-- Which function a call runs, on which buffer. -/
inductive Input
  | data (data : Buffer)
  | char
  deriving DecidableEq

structure Occasion where
  input : Input
  now : Timespec

/-- The state before each call of a sequence. -/
def occasions (preparation : Preparation) (original : Buffer) : Buffer → List Call → List Occasion
  | _, [] => []
  | data, .data now data_length::rest =>
    ⟨.data (preparation.prepare original data),now⟩::occasions preparation original
      (MTA_get_rand_data rand_r now (preparation.prepare original data) data_length) rest
  | data, .char now::rest => ⟨.char,now⟩::occasions preparation original data rest

end Generator

/-- What `rand_r` starts from. -/
def Occasion.seed (occasion : Occasion) : BitVec 32 :=
  match occasion.input with
  | .data data => dataSeed occasion.now data
  | .char => charSeed occasion.now

/-- What a call stores in the buffer, or returns. -/
def Occasion.drawn (rand_r : BitVec 32 → Nat × BitVec 32) (occasion : Occasion) (data_length : Nat) :
    List UInt8 :=
  match occasion.input with
  | .data data => (MTA_get_rand_data rand_r occasion.now data data_length).bytes
  | .char => [MTA_get_rand_char rand_r occasion.now]

def Timespec.nanoseconds (time : Timespec) : Nat := time.tv_sec*NSEC_PER_SEC+time.tv_nsec

def WholeSecondsApart (first second : Timespec) : Prop :=
  first.nanoseconds ≡ second.nanoseconds [MOD NSEC_PER_SEC]

instance (first second : Timespec) : Decidable (WholeSecondsApart first second) :=
  inferInstanceAs (Decidable (_ = _))

theorem wholeSecondsApart_iff (first second : Timespec) :
    WholeSecondsApart first second ↔ first.tv_nsec = second.tv_nsec := by
  have part (time : Timespec) : time.nanoseconds%NSEC_PER_SEC = time.tv_nsec := by
    rw [Timespec.nanoseconds,Nat.mul_add_mod',Nat.mod_eq_of_lt time.within]
  rw [WholeSecondsApart,Nat.ModEq,part,part]

theorem charSeed_eq_iff (first second : Timespec) :
    charSeed first = charSeed second ↔ WholeSecondsApart first second := by
  have small (time : Timespec) : (charSeed time).toNat = time.tv_nsec := by
    have bound := time.within
    rw [charSeed,BitVec.toNat_ofNat,Nat.mod_eq_of_lt]
    simp only [NSEC_PER_SEC] at bound
    omega
  rw [wholeSecondsApart_iff,← BitVec.toNat_inj,small,small]

theorem dataSeed_eq_iff (first second : Timespec) (data : Buffer) :
    dataSeed first data = dataSeed second data ↔ WholeSecondsApart first second := by
  rw [← charSeed_eq_iff,dataSeed,dataSeed,BitVec.add_left_inj]
  rfl

theorem seed_eq_iff (first second : Occasion) (same : first.input = second.input) :
    first.seed = second.seed ↔ WholeSecondsApart first.now second.now := by
  simp only [Occasion.seed,← same]
  cases first.input with
  | data data => exact dataSeed_eq_iff first.now second.now data
  | char => exact charSeed_eq_iff first.now second.now

theorem drawn_seed (rand_r : BitVec 32 → Nat × BitVec 32) (occasion : Occasion) (data_length : Nat) :
    occasion.drawn rand_r data_length =
      match occasion.input with
      | .data data => store data.bytes (randomBytes rand_r occasion.seed data_length)
      | .char => randomBytes rand_r occasion.seed 1 := by
  obtain ⟨input,now⟩ := occasion
  cases input <;> rfl

/-- Calls a whole number of seconds apart draw the same, whatever the generator. -/
theorem drawn_repeated (rand_r : BitVec 32 → Nat × BitVec 32) (first second : Occasion)
    (same : first.input = second.input) (apart : WholeSecondsApart first.now second.now)
    (data_length : Nat) : first.drawn rand_r data_length = second.drawn rand_r data_length := by
  rw [drawn_seed,drawn_seed,same,(seed_eq_iff first second same).mpr apart]

/-- No two calls of the same function on the same buffer contents start from one seed. -/
def SeedsDistinct (calls : List Occasion) : Prop :=
  calls.Pairwise fun first second => first.input = second.input → first.seed ≠ second.seed

theorem seeds_distinct_iff (rand_r : BitVec 32 → Nat × BitVec 32) (preparation : Preparation)
    (data : Buffer) (calls : List Call) :
    SeedsDistinct (occasions rand_r preparation data data calls) ↔
      (occasions rand_r preparation data data calls).Pairwise fun first second =>
        first.input = second.input → ¬WholeSecondsApart first.now second.now := by
  apply List.Pairwise.iff
  intro first second
  apply forall_congr'
  intro same
  exact not_congr (seed_eq_iff first second same)

/-- Within one second the clock alone keeps the seeds apart. -/
theorem seeds_distinct_within (calls : List Occasion)
    (distinct : calls.Pairwise fun first second => first.now.nanoseconds ≠ second.now.nanoseconds)
    (close : ∀ first ∈ calls, ∀ second ∈ calls,
      first.now.nanoseconds < second.now.nanoseconds+NSEC_PER_SEC) : SeedsDistinct calls := by
  apply List.Pairwise.imp_of_mem _ distinct
  intro first second here there apart same repeated
  apply apart
  have parts := (seed_eq_iff first second same).mp repeated
  refine parts.eq_of_abs_lt ?_
  have before := close first here second there
  have after := close second there first here
  rw [abs_lt]
  omega

/-- The generator of the GNU C library. -/
def rand_r (seed : BitVec 32) : Nat × BitVec 32 :=
  let first := seed*1103515245+12345
  let second := first*1103515245+12345
  let third := second*1103515245+12345
  let high := first.toNat/65536%2048
  let middle := (high*1024) ^^^ (second.toNat/65536%1024)
  ((middle*1024) ^^^ (third.toNat/65536%1024),third)

def start : Timespec := ⟨0,5,by decide⟩
def nextSecond : Timespec := ⟨1,5,by decide⟩

theorem seed_repeated :
    start.nanoseconds ≠ nextSecond.nanoseconds ∧
    ¬SeedsDistinct (occasions rand_r .reset ⟨zeros 4,by decide⟩ ⟨zeros 4,by decide⟩
      [.data start 4,.data nextSecond 4]) ∧
    ¬SeedsDistinct (occasions rand_r .kept ⟨zeros 4,by decide⟩ ⟨zeros 4,by decide⟩
      [.char start,.char nextSecond]) := by
  have apart : WholeSecondsApart start nextSecond := by decide
  refine ⟨by decide,?_,?_⟩
  · intro distinct
    simp only [occasions,SeedsDistinct,List.pairwise_pair] at distinct
    exact distinct rfl ((dataSeed_eq_iff start nextSecond _).mpr apart)
  · intro distinct
    simp only [occasions,SeedsDistinct,List.pairwise_pair] at distinct
    exact distinct trivial ((charSeed_eq_iff start nextSecond).mpr apart)

end LinuxCourse.MtaRand
