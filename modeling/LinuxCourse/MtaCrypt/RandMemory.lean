import LinuxCourse.MtaCrypt.Rand
import Mathlib.Data.List.GetD
import Mathlib.Logic.Function.DependsOn
import Mathlib.Logic.Function.Iterate
import Mathlib.Data.Set.Defs

/-! `MTA_get_rand_data` on the memory that its pointer points into. The seed takes an `int`
from there, whatever the length, and the index is an `int` that is compared with an
unsigned length. An `int` that overflows wraps around, and the overflow is kept on record. -/
namespace LinuxCourse.MtaRandMemory
open Bytes MtaRand

abbrev Memory : Type := Int → UInt8

def bytesAt (memory : Memory) (address : Int) (count : Nat) : List UInt8 :=
  (List.range count).map fun k : Nat => memory (address+k)

def intAt (memory : Memory) (address : Int) : BitVec 32 := decode (bytesAt memory address 4)

/-- `written` are the indices that were stored to, in order. -/
structure Loop (Seed : Type) where
  memory : Memory
  seed : Seed
  i : BitVec 32
  written : List Int
  overflow : Bool

/-- An index below an unsigned length does not wrap around to 0. -/
theorem next_index (i data_length : BitVec 32) (below : i.toNat < data_length.toNat) :
    (i+1).toNat = i.toNat+1 := by
  have bound := data_length.isLt
  have one : (1 : BitVec 32).toNat = 1 := rfl
  rw [BitVec.toNat_add,one,Nat.mod_eq_of_lt (by omega)]

section
variable {Seed : Type} (rand_r : Seed → Nat × Seed) (data : Int)

def body (loop : Loop Seed) : Loop Seed where
  memory := Function.update loop.memory (data+loop.i.toInt) (UInt8.ofNat ((rand_r loop.seed).1%255))
  seed := (rand_r loop.seed).2
  i := loop.i+1
  written := loop.written++[loop.i.toInt]
  overflow := loop.overflow || loop.i.saddOverflow 1

def fill (data_length : BitVec 32) (loop : Loop Seed) : Loop Seed :=
  if loop.i.toNat < data_length.toNat then fill data_length (body rand_r data loop) else loop
termination_by data_length.toNat-loop.i.toNat
decreasing_by
  rename_i below
  rw [body,next_index loop.i data_length below]
  omega

end

def dataSeed (now : Timespec) (memory : Memory) (data : Int) : BitVec 32 :=
  BitVec.ofNat 32 now.tv_nsec+intAt memory data

def MTA_get_rand_data (rand_r : BitVec 32 → Nat × BitVec 32) (now : Timespec) (memory : Memory)
    (data : Int) (data_length : BitVec 32) : Loop (BitVec 32) :=
  fill rand_r data data_length
    ⟨memory,dataSeed now memory data,0,[],
      (BitVec.ofNat 32 now.tv_nsec).saddOverflow (intAt memory data)⟩

/-- The index of a round; it is negative from 2^31 rounds on. -/
def index (round : Nat) : Int := (BitVec.ofNat 32 round).toInt

theorem index_small (round : Nat) (small : round < 2^31) : index round = round := by
  rw [index,BitVec.toInt_eq_toNat_cond,BitVec.toNat_ofNat,Nat.mod_eq_of_lt (by omega),
    if_pos (by omega)]

theorem index_large (round : Nat) (large : 2^31 ≤ round) (bound : round < 2^32) :
    index round = round-2^32 := by
  rw [index,BitVec.toInt_eq_toNat_cond,BitVec.toNat_ofNat,Nat.mod_eq_of_lt bound,if_neg (by omega)]
  norm_num

theorem index_injective (first second : Nat) (here : first < 2^32) (there : second < 2^32)
    (same : index first = index second) : first = second := by
  have values := congrArg BitVec.toNat (BitVec.eq_of_toInt_eq same)
  rwa [BitVec.toNat_ofNat,BitVec.toNat_ofNat,Nat.mod_eq_of_lt here,Nat.mod_eq_of_lt there] at values

theorem index_overflow (round : Nat) (bound : round < 2^32) :
    (BitVec.ofNat 32 round).saddOverflow 1 = true ↔ round+1 = 2^31 := by
  have one : (1 : BitVec 32).toInt = 1 := rfl
  have value : (BitVec.ofNat 32 round).toInt = index round := rfl
  simp only [BitVec.saddOverflow,one,value,Bool.or_eq_true,decide_eq_true_eq]
  rcases Nat.lt_or_ge round (2^31) with small | large
  · rw [index_small round small]
    omega
  · rw [index_large round large bound]
    omega

section
variable {Seed : Type} (rand_r : Seed → Nat × Seed) (data : Int)

def later (seed : Seed) (round : Nat) : Seed := (fun seed => (rand_r seed).2)^[round] seed

def byte (seed : Seed) (round : Nat) : UInt8 := UInt8.ofNat ((rand_r (later rand_r seed round)).1%255)

theorem fill_eq (data_length : BitVec 32) (loop : Loop Seed) :
    fill rand_r data data_length loop =
      (body rand_r data)^[data_length.toNat-loop.i.toNat] loop := by
  fun_induction fill rand_r data data_length loop with
  | case1 loop below ih =>
    have next : (body rand_r data loop).i.toNat = loop.i.toNat+1 :=
      next_index loop.i data_length below
    rw [ih,next,← Function.iterate_succ_apply]
    congr 1
    omega
  | case2 loop done => rw [Nat.sub_eq_zero_of_le (Nat.le_of_not_lt done),Function.iterate_zero_apply]

/-- A loop that has gone through some rounds from the index 0. -/
structure Filled (memory : Memory) (seed : Seed) (overflow : Bool) (rounds : Nat)
    (loop : Loop Seed) : Prop where
  counted : loop.i = BitVec.ofNat 32 rounds
  advanced : loop.seed = later rand_r seed rounds
  listed : loop.written = (List.range rounds).map index
  recorded : loop.overflow = true ↔ overflow = true ∨ 2^31 ≤ rounds
  stored : ∀ round < rounds, loop.memory (data+index round) = byte rand_r seed round
  kept : ∀ address, (∀ round < rounds, address ≠ data+index round) → loop.memory address = memory address

theorem body_filled (memory : Memory) (seed : Seed) (overflow : Bool) (rounds : Nat)
    (bound : rounds < 2^32) (loop : Loop Seed) (filled : Filled rand_r data memory seed overflow rounds loop) :
    Filled rand_r data memory seed overflow (rounds+1) (body rand_r data loop) := by
  have at_index : loop.i.toInt = index rounds := by rw [filled.counted,index]
  constructor
  · simp only [body,filled.counted]
    exact (BitVec.ofNat_add rounds 1).symm
  · simp only [body,filled.advanced,later,Function.iterate_succ_apply']
  · simp only [body,filled.listed,at_index,List.range_succ,List.map_append,List.map_singleton]
  · have wraps := index_overflow rounds bound
    rw [← filled.counted] at wraps
    simp only [body,Bool.or_eq_true,filled.recorded,wraps,or_assoc]
    apply or_congr_right
    omega
  · intro round below
    simp only [body,at_index]
    rcases Nat.lt_succ_iff_lt_or_eq.mp below with before | rfl
    · have apart : data+index round ≠ data+index rounds := by
        intro same
        exact absurd (index_injective round rounds (by omega) bound (Int.add_left_cancel same)) (by omega)
      rw [Function.update_of_ne apart,filled.stored round before]
    · rw [Function.update_self,filled.advanced,byte]
  · intro address outside
    simp only [body,at_index]
    rw [Function.update_of_ne (outside rounds (Nat.lt_succ_self rounds))]
    exact filled.kept address fun round below => outside round (by omega)

theorem fill_filled (memory : Memory) (seed : Seed) (overflow : Bool) (data_length : BitVec 32) :
    Filled rand_r data memory seed overflow data_length.toNat
      (fill rand_r data data_length ⟨memory,seed,0,[],overflow⟩) := by
  rw [fill_eq]
  have rounds (count : Nat) (bound : count ≤ 2^32) :
      Filled rand_r data memory seed overflow count
        ((body rand_r data)^[count] ⟨memory,seed,0,[],overflow⟩) := by
    induction count with
    | zero => exact ⟨rfl,rfl,rfl,by simp,by simp,fun _ _ => rfl⟩
    | succ count ih =>
      rw [Function.iterate_succ_apply']
      exact body_filled rand_r data memory seed overflow count (by omega) _ (ih (by omega))
  exact rounds data_length.toNat (Nat.le_of_lt data_length.isLt)

end

theorem bytesAt_four (memory : Memory) (address : Int) :
    bytesAt memory address 4 =
      [memory address,memory (address+1),memory (address+2),memory (address+3)] := by
  simp [bytesAt,List.range_succ]

theorem bytesAt_append (memory : Memory) (address : Int) (first second : Nat) :
    bytesAt memory address (first+second) =
      bytesAt memory address first++bytesAt memory (address+first) second := by
  rw [bytesAt,List.range_add,List.map_append,List.map_map,bytesAt,bytesAt]
  congr 1
  apply List.map_congr_left
  intro place _
  rw [Function.comp_apply,Int.natCast_add,Int.add_assoc]

theorem bytesAt_congr (first second : Memory) (address : Int) (count : Nat)
    (agree : ∀ place < count, first (address+place) = second (address+place)) :
    bytesAt first address count = bytesAt second address count := by
  apply List.map_congr_left
  intro place member
  exact agree place (List.mem_range.mp member)

section
variable {Seed : Type} (rand_r : Seed → Nat × Seed) (data : Int) (memory : Memory) (seed : Seed)
  (overflow : Bool) (data_length : BitVec 32) (small : data_length.toNat ≤ 2^31)

include small in
theorem fill_bytes :
    bytesAt (fill rand_r data data_length ⟨memory,seed,0,[],overflow⟩).memory data
      data_length.toNat = (List.range data_length.toNat).map (byte rand_r seed) := by
  apply List.map_congr_left
  intro round member
  have below := List.mem_range.mp member
  rw [← (fill_filled rand_r data memory seed overflow data_length).stored round below,
    index_small round (by omega)]

include small in
theorem fill_kept (address : Int) (outside : address < data ∨ data+data_length.toNat ≤ address) :
    (fill rand_r data data_length ⟨memory,seed,0,[],overflow⟩).memory address = memory address := by
  apply (fill_filled rand_r data memory seed overflow data_length).kept
  intro round below same
  rw [index_small round (by omega)] at same
  omega

/-- From the round 2^31 on the loop stores in front of the buffer, and not behind it. -/
theorem fill_long (long : 2^31 < data_length.toNat) :
    (fill rand_r data data_length ⟨memory,seed,0,[],overflow⟩).memory (data-2^31) =
        byte rand_r seed (2^31) ∧
      (fill rand_r data data_length ⟨memory,seed,0,[],overflow⟩).memory (data+(2^31 : Nat)) =
        memory (data+(2^31 : Nat)) := by
  have filled := fill_filled rand_r data memory seed overflow data_length
  have bound := data_length.isLt
  constructor
  · have wrapped : data-2^31 = data+index (2^31) := by
      rw [index_large _ (Nat.le_refl _) (by norm_num)]
      norm_num
      omega
    rw [wrapped,filled.stored _ long]
  · apply filled.kept
    intro round below same
    rcases Nat.lt_or_ge round (2^31) with few | many
    · rw [index_small round few] at same
      omega
    · rw [index_large round many (by omega)] at same
      omega

end

theorem randomBytes_eq (rand_r : BitVec 32 → Nat × BitVec 32) (seed : BitVec 32) (count : Nat) :
    randomBytes rand_r seed count = (List.range count).map (byte rand_r seed) := by
  induction count generalizing seed with
  | zero => rfl
  | succ count ih =>
    rw [randomBytes,ih,List.range_succ_eq_map,List.map_cons,List.map_map]
    congr 1

/-- Up to 2^31 bytes, the memory of the buffer is what the function on buffers returns. -/
theorem rand_data_refines (rand_r : BitVec 32 → Nat × BitVec 32) (now : Timespec) (memory : Memory)
    (data : Int) (data_length : BitVec 32) (buffer : Buffer)
    (held : bytesAt memory data buffer.bytes.length = buffer.bytes)
    (fits : data_length.toNat ≤ buffer.bytes.length) (small : data_length.toNat ≤ 2^31) :
    bytesAt (MTA_get_rand_data rand_r now memory data data_length).memory data buffer.bytes.length =
      (MtaRand.MTA_get_rand_data rand_r now buffer data_length.toNat).bytes := by
  obtain ⟨rest,size⟩ := Nat.exists_eq_add_of_le fits
  have four := buffer.holds
  have seeds : dataSeed now memory data = MtaRand.dataSeed now buffer := by
    obtain ⟨more,long⟩ := Nat.exists_eq_add_of_le four
    rw [dataSeed,MtaRand.dataSeed,intAt,← held,long,bytesAt_append,List.take_left']
    simp [bytesAt]
  have drawn := fill_bytes rand_r data memory (dataSeed now memory data)
    ((BitVec.ofNat 32 now.tv_nsec).saddOverflow (intAt memory data)) data_length small
  rw [← randomBytes_eq,seeds] at drawn
  have length : (randomBytes rand_r (MtaRand.dataSeed now buffer) data_length.toNat).length =
      data_length.toNat := by simp [randomBytes_eq]
  have behind : bytesAt (MTA_get_rand_data rand_r now memory data data_length).memory
      (data+data_length.toNat) rest = buffer.bytes.drop data_length.toNat := by
    rw [← held,size,bytesAt_append,List.drop_left' (by simp [bytesAt])]
    apply bytesAt_congr
    intro place _
    apply fill_kept rand_r data memory _ _ data_length small
    omega
  have stored := store_within buffer.bytes
    (randomBytes rand_r (MtaRand.dataSeed now buffer) data_length.toNat) (by omega)
  rw [length] at stored
  rw [size,bytesAt_append,behind]
  refine Eq.trans ?_ stored.symm
  rw [MTA_get_rand_data,seeds,drawn]

/-- The caller's buffer. -/
def region (data : Int) (data_length : BitVec 32) : Set Int :=
  {address | data ≤ address ∧ address < data+data_length.toNat}

section
variable (rand_r : BitVec 32 → Nat × BitVec 32) (now : Timespec) (data : Int) (data_length : BitVec 32)

structure OwnBuffer : Prop where
  bytes : DependsOn (fun memory : Memory =>
    bytesAt (MTA_get_rand_data rand_r now memory data data_length).memory data data_length.toNat)
    (region data data_length)
  seed : DependsOn (fun memory : Memory => dataSeed now memory data) (region data data_length)
  outside : ∀ memory, ∀ address ∉ region data data_length,
    (MTA_get_rand_data rand_r now memory data data_length).memory address = memory address

theorem dataSeed_congr (first second : Memory)
    (agree : ∀ place : Nat, place < 4 → first (data+place) = second (data+place)) :
    dataSeed now first data = dataSeed now second data := by
  rw [dataSeed,dataSeed,intAt,intAt,bytesAt_congr first second data 4 agree]

theorem seed_dependsOn_iff :
    DependsOn (fun memory : Memory => dataSeed now memory data) (region data data_length) ↔
      4 ≤ data_length.toNat := by
  constructor
  · intro depends
    by_contra short
    have agree : ∀ address ∈ region data data_length,
        (fun _ => 0 : Memory) address = Function.update (fun _ => 0 : Memory) (data+3) 1 address := by
      intro address inside
      have other : address ≠ data+3 := by
        rintro rfl
        exact short (by have := inside.2; omega)
      rw [Function.update_of_ne other]
    have seeds : dataSeed now (fun _ => 0) data =
        dataSeed now (Function.update (fun _ => 0) (data+3) 1) data := depends agree
    have values : decode [0,0,0,0] = decode [0,0,0,1] := by
      simpa [dataSeed,intAt,bytesAt_four] using seeds
    exact absurd values (by decide)
  · intro long first second agree
    apply dataSeed_congr
    intro place below
    apply agree
    constructor
    · omega
    · omega

/-- Two memories that differ in a byte in front of the buffer have the same seed, and a long
run overwrites that byte in both. -/
theorem outside_small
    (outside : ∀ memory, ∀ address ∉ region data data_length,
      (MTA_get_rand_data rand_r now memory data data_length).memory address = memory address) :
    data_length.toNat ≤ 2^31 := by
  by_contra long
  have far : data-2^31 ∉ region data data_length := by
    intro inside
    have := inside.1
    omega
  have overwritten (value : UInt8) :
      byte rand_r (dataSeed now (fun _ => 0) data) (2^31) = value := by
    have kept := outside (Function.update (fun _ => 0) (data-2^31) value) _ far
    rw [MTA_get_rand_data,(fill_long rand_r data _ _ _ data_length (Nat.lt_of_not_le long)).1,
      Function.update_self] at kept
    refine Eq.trans ?_ kept
    congr 1
    apply dataSeed_congr
    intro place _
    rw [Function.update_of_ne (by omega)]
  exact absurd ((overwritten 0).symm.trans (overwritten 1)) (by decide)

theorem own_buffer_iff :
    OwnBuffer rand_r now data data_length ↔ 4 ≤ data_length.toNat ∧ data_length.toNat ≤ 2^31 := by
  constructor
  · intro own
    exact ⟨(seed_dependsOn_iff now data data_length).mp own.seed,
      outside_small rand_r now data data_length own.outside⟩
  · rintro ⟨long,small⟩
    have seed := (seed_dependsOn_iff now data data_length).mpr long
    refine ⟨?_,seed,?_⟩
    · intro first second agree
      have seeds : dataSeed now first data = dataSeed now second data := seed agree
      simp only [MTA_get_rand_data,fill_bytes rand_r data _ _ _ data_length small,seeds]
    · intro memory address outside
      apply fill_kept rand_r data memory _ _ data_length small
      have away : ¬(data ≤ address ∧ address < data+data_length.toNat) := outside
      omega

end

theorem result_bytes (now : Timespec) (memory : Memory) (data : Int) (data_length : BitVec 32)
    (small : data_length.toNat ≤ 2^31) :
    bytesAt (MTA_get_rand_data rand_r now memory data data_length).memory data data_length.toNat =
      (List.range data_length.toNat).map (byte rand_r (dataSeed now memory data)) :=
  fill_bytes rand_r data memory _ _ data_length small

/-- A key of three bytes depends on the byte behind it. -/
theorem key_reads_beyond :
    bytesAt (MTA_get_rand_data rand_r start (fun _ => 0) 0 3).memory 0 3 ≠
        bytesAt (MTA_get_rand_data rand_r start (Function.update (fun _ => 0) 3 1) 0 3).memory 0 3 ∧
      ¬OwnBuffer rand_r start 0 3 := by
  have first := result_bytes start (fun _ => 0) 0 3 (by decide)
  have second := result_bytes start (Function.update (fun _ => 0) 3 1) 0 3 (by decide)
  constructor
  · intro same
    have drawn := first.symm.trans (same.trans second)
    simp only [dataSeed,intAt,bytesAt_four] at drawn
    exact absurd drawn (by decide)
  · intro own
    exact absurd ((seed_dependsOn_iff start 0 3).mp own.seed) (by decide)

/-- The loop stores to each index once, in order, and nothing overflows. -/
structure Covers (loop : Loop (BitVec 32)) (data_length : BitVec 32) : Prop where
  exact_sums : loop.overflow = false
  each_once : loop.written = (List.range data_length.toNat).map Int.ofNat
  stops : loop.i = data_length

theorem seed_overflow_iff (now : Timespec) (value : BitVec 32) :
    (BitVec.ofNat 32 now.tv_nsec).saddOverflow value = true ↔ 2^31 ≤ now.tv_nsec+value.toInt := by
  have within := now.within
  rw [NSEC_PER_SEC] at within
  have nsec : (BitVec.ofNat 32 now.tv_nsec).toInt = now.tv_nsec := index_small now.tv_nsec (by omega)
  have low := BitVec.le_toInt value
  simp only [BitVec.saddOverflow,nsec,Bool.or_eq_true,decide_eq_true_eq]
  omega

theorem covers_iff (rand_r : BitVec 32 → Nat × BitVec 32) (now : Timespec) (memory : Memory)
    (data : Int) (data_length : BitVec 32) :
    Covers (MTA_get_rand_data rand_r now memory data data_length) data_length ↔
      now.tv_nsec+(intAt memory data).toInt < 2^31 ∧ data_length.toNat < 2^31 := by
  have filled := fill_filled rand_r data memory (dataSeed now memory data)
    ((BitVec.ofNat 32 now.tv_nsec).saddOverflow (intAt memory data)) data_length
  have recorded := filled.recorded
  rw [seed_overflow_iff] at recorded
  constructor
  · intro covers
    have sums : ¬(fill rand_r data data_length ⟨memory,dataSeed now memory data,0,[],
        (BitVec.ofNat 32 now.tv_nsec).saddOverflow (intAt memory data)⟩).overflow = true := by
      rw [Bool.not_eq_true]
      exact covers.exact_sums
    rw [recorded] at sums
    omega
  · rintro ⟨sum,small⟩
    constructor
    · rw [← Bool.not_eq_true,MTA_get_rand_data,recorded]
      omega
    · rw [MTA_get_rand_data,filled.listed]
      apply List.map_congr_left
      intro round member
      exact index_small round (Nat.lt_trans (List.mem_range.mp member) small)
    · rw [MTA_get_rand_data,filled.counted,BitVec.ofNat_toNat,BitVec.setWidth_eq]

/-- The bytes of `INT_MAX` at the front of the buffer. -/
def largest : Memory := Function.update (fun _ => 255) 3 127

theorem seed_overflows :
    (intAt largest 0).toInt = 2^31-1 ∧
      ¬Covers (MTA_get_rand_data rand_r start largest 0 4) 4 := by
  have value : intAt largest 0 = 2147483647 := by
    rw [intAt,bytesAt_four]
    rfl
  refine ⟨by rw [value]; rfl,?_⟩
  intro covers
  have recorded := (fill_filled rand_r 0 largest (dataSeed start largest 0)
    ((BitVec.ofNat 32 start.tv_nsec).saddOverflow (intAt largest 0)) 4).recorded
  have overflows := recorded.mpr (Or.inl (by rw [value]; decide))
  exact absurd (overflows.symm.trans covers.exact_sums) (by decide)

/-- `rand_r` by its results alone, one for each call. -/
def nextResult (results : Nat → Nat) : Nat × (Nat → Nat) := (results 0,fun call => results (call+1))

/-- Whatever the buffer holds, the loop can leave these bytes in it. -/
def Reaches (RAND_MAX : Nat) (bytes : List UInt8) : Prop :=
  ∃ data_length : BitVec 32, data_length.toNat = bytes.length ∧
    ∃ results : Nat → Nat, (∀ call, results call ≤ RAND_MAX) ∧
      ∀ memory data, bytesAt (fill nextResult data data_length
        ⟨memory,results,0,[],false⟩).memory data bytes.length = bytes

theorem byte_nextResult (results : Nat → Nat) (round : Nat) :
    byte nextResult results round = UInt8.ofNat (results round%255) := by
  have ahead (results : Nat → Nat) : later nextResult results round = fun call => results (call+round) := by
    induction round generalizing results with
    | zero => rfl
    | succ round ih =>
      rw [later,Function.iterate_succ_apply]
      refine (ih _).trans ?_
      ext call
      exact congrArg results (Nat.add_assoc call round 1)
  rw [byte,ahead,nextResult,Nat.zero_add]

theorem byte_ne_255 (results : Nat → Nat) (round : Nat) : byte nextResult results round ≠ 255 := by
  rw [byte_nextResult]
  intro same
  have value := congrArg UInt8.toNat same
  have below := Nat.mod_lt (results round) (show 0 < 255 by decide)
  rw [UInt8.toNat_ofNat',Nat.mod_eq_of_lt (by omega)] at value
  exact absurd value (Nat.ne_of_lt below)

theorem reaches_sound (RAND_MAX : Nat) (bytes : List UInt8) (reaches : Reaches RAND_MAX bytes) :
    255 ∉ bytes ∧ bytes.length ≤ 2^31 := by
  obtain ⟨data_length,length,results,_,leaves⟩ := reaches
  have bound : bytes.length ≤ 2^31 := by
    by_contra long
    have place : 2^31 < bytes.length := Nat.lt_of_not_le long
    have behind (value : UInt8) : bytes[2^31]? = some value := by
      have kept := (fill_long nextResult 0 (fun _ => value) results false data_length (by omega)).2
      have left := congrArg (fun bytes => bytes[2^31]?) (leaves (fun _ => value) 0)
      simp only [bytesAt,List.getElem?_map,List.getElem?_range place,Option.map_some] at left
      rw [← left,kept]
    exact absurd ((behind 0).symm.trans (behind 1)) (by decide)
  refine ⟨?_,bound⟩
  have drawn := fill_bytes nextResult 0 (fun _ => 0) results false data_length (by omega)
  rw [length,leaves] at drawn
  rw [drawn,List.mem_map]
  rintro ⟨round,_,same⟩
  exact byte_ne_255 results round same

theorem ofNat_mod (value : UInt8) (other : value ≠ 255) : UInt8.ofNat (value.toNat%255) = value := by
  have limit := value.toNat_lt
  have apart : value.toNat ≠ 255 := fun same => other (UInt8.toNat_inj.mp same)
  rw [Nat.mod_eq_of_lt (by omega),UInt8.ofNat_toNat]

/-- The bytes themselves are results that make the loop leave them. -/
theorem reaches_complete (RAND_MAX : Nat) (large : 2^31-1 ≤ RAND_MAX) (bytes : List UInt8)
    (missing : 255 ∉ bytes) (bound : bytes.length ≤ 2^31) : Reaches RAND_MAX bytes := by
  have length : (BitVec.ofNat 32 bytes.length).toNat = bytes.length := by
    rw [BitVec.toNat_ofNat,Nat.mod_eq_of_lt (by omega)]
  refine ⟨BitVec.ofNat 32 bytes.length,length,fun call => (bytes.getD call 0).toNat,?_,?_⟩
  · intro call
    have limit := (bytes.getD call 0).toNat_lt
    exact Nat.le_trans (Nat.le_of_lt_succ limit) (Nat.le_trans (by norm_num) large)
  · intro memory data
    have drawn := fill_bytes nextResult data memory (fun call => (bytes.getD call 0).toNat) false
      (BitVec.ofNat 32 bytes.length) (by omega)
    rw [length] at drawn
    rw [drawn]
    apply List.ext_getElem
    · simp
    · intro place _ inside
      have other : bytes[place] ≠ 255 := by
        intro same
        exact missing (same ▸ List.getElem_mem inside)
      rw [List.getElem_map,List.getElem_range,byte_nextResult,List.getD_eq_getElem _ _ inside,
        ofNat_mod _ other]

theorem reaches_iff (RAND_MAX : Nat) (large : 2^31-1 ≤ RAND_MAX) (bytes : List UInt8) :
    Reaches RAND_MAX bytes ↔ 255 ∉ bytes ∧ bytes.length ≤ 2^31 := by
  constructor
  · exact reaches_sound RAND_MAX bytes
  · rintro ⟨missing,bound⟩
    exact reaches_complete RAND_MAX large bytes missing bound

theorem reaches_254 : Reaches (2^31-1) [0,254] ↔ 255 ∉ ([0,254] : List UInt8) ∧ [0,254].length ≤ 2^31 :=
  reaches_iff (2^31-1) (Nat.le_refl _) [0,254]

theorem byte_missing : ¬Reaches (2^31-1) [255] := fun reaches =>
  (reaches_sound _ _ reaches).1 (List.mem_singleton.mpr rfl)

end LinuxCourse.MtaRandMemory
