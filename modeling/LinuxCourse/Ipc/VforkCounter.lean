import LinuxCourse.Ipc.Vfork
import Mathlib.Tactic.FieldSimp
import Mathlib.Tactic.NormNum

/-! The numbers of the typed messages. Halves are added to a binary32 counter, which has
room for them up to `2^23` and then stays there. -/
namespace LinuxCourse.MqIpcVfork
open Library Binary32 Rounding

def counter : ℕ → ℚ
  | 0 => 0
  | n+1 => next (counter n)

theorem half_representable (n : ℕ) (small : n ≤ 2^24) : Representable PRECISION (n/2) := by
  rcases Nat.lt_or_eq_of_le small with less | rfl
  · refine ⟨n,-1,by simp only [Nat.abs_cast,PRECISION]; exact_mod_cast less,?_⟩
    rw [zpow_neg_one]
    push_cast
    ring
  · -- the last one has 25 bits as it stands
    exact ⟨1,23,by norm_num [PRECISION],by norm_num⟩

theorem counter_half (n : ℕ) (small : n ≤ 2^24) : counter n = n/2 := by
  induction n with
  | zero => simp [counter]
  | succ n ih =>
    have sum : (n : ℚ)/2+1/2 = (n+1 : ℕ)/2 := by
      push_cast
      ring
    rw [counter,next,ih (Nat.le_of_succ_le small),sum]
    exact round_representable PRECISION (by decide) _ (half_representable (n+1) small)

/-- The sum lies half-way between two neighbours, and the even one is the old value. -/
theorem next_stuck : next (2^23) = 2^23 := by decide +kernel

theorem counter_stuck (n : ℕ) : counter (2^24+n) = 2^23 := by
  induction n with
  | zero =>
    rw [Nat.add_zero,counter_half (2^24) (Nat.le_refl _)]
    norm_num
  | succ n ih => rw [← Nat.add_assoc,counter,ih,next_stuck]

theorem counter_range (n : ℕ) (positive : 1 ≤ n) :
    Representable PRECISION (counter n) ∧ 1/2 ≤ counter n ∧ counter n ≤ 2^23 := by
  rcases Nat.le_total n (2^24) with small | large
  · have first : (1 : ℚ) ≤ n := by exact_mod_cast positive
    have last : (n : ℚ) ≤ 2^24 := by exact_mod_cast small
    rw [counter_half n small]
    refine ⟨half_representable n small,?_,?_⟩ <;> linarith
  · obtain ⟨more,rfl⟩ := Nat.exists_eq_add_of_le large
    rw [counter_stuck]
    exact ⟨⟨1,23,by norm_num [PRECISION],by norm_num⟩,by norm_num,le_refl _⟩

theorem counter_half_iff (n : ℕ) : counter n = n/2 ↔ n ≤ 2^24 := by
  refine ⟨?_,counter_half n⟩
  intro half
  by_contra large
  obtain ⟨more,rfl⟩ := Nat.exists_eq_add_of_le (Nat.le_of_not_le large)
  have beyond : (2^24 : ℚ) < (2^24+more : ℕ) := by exact_mod_cast Nat.lt_of_not_le large
  rw [counter_stuck] at half
  push_cast at half beyond
  linarith

theorem floor_range (value : ℚ) (low : 0 ≤ value) (high : value ≤ 2^23) :
    0 ≤ ⌊value⌋ ∧ ⌊value⌋ ≤ 2^23 := by
  have below := (Int.floor_le value).trans high
  exact ⟨Int.floor_nonneg.mpr low,by exact_mod_cast below⟩

theorem toUnsigned_toNat (value : ℚ) (low : 0 ≤ value) (high : value ≤ 2^23) :
    ((toUnsigned value).toNat : ℚ) = ⌊value⌋ := by
  obtain ⟨nonneg,bound⟩ := floor_range value low high
  have word : ((toUnsigned value).toNat : ℤ) = ⌊value⌋ := by
    rw [toUnsigned,BitVec.toNat_ofInt]
    omega
  exact_mod_cast word

/-- The comparison finds out whether the value is an integer. -/
theorem toFloat_toUnsigned (value : ℚ) (low : 0 ≤ value) (high : value ≤ 2^23) :
    toFloat (toUnsigned value) = ⌊value⌋ := by
  obtain ⟨nonneg,bound⟩ := floor_range value low high
  rw [toFloat,toUnsigned_toNat value low high]
  refine round_representable PRECISION (by decide) _ ⟨⌊value⌋,0,?_,by simp⟩
  rw [abs_of_nonneg nonneg]
  exact lt_of_le_of_lt bound (by decide)

theorem reader_layout (type data : BitVec 32) (rest : List UInt8) :
    reader (Bytes.encode type++Bytes.encode data++rest) =
      if type = NUMBER_TYPE_E.UINT.code then some (data.toNat : ℚ) else decode data := by
  have front : (Bytes.encode type++Bytes.encode data++rest).take 4 = Bytes.encode type := by
    rw [List.append_assoc]
    exact List.take_left' rfl
  have behind : (Bytes.encode type++Bytes.encode data++rest).drop 4 = Bytes.encode data++rest := by
    rw [List.append_assoc]
    exact List.drop_left' rfl
  have middle : (Bytes.encode data++rest).take 4 = Bytes.encode data := List.take_left' rfl
  simp only [reader,front,behind,middle,Bytes.decode_encode]

theorem reader_fields (value : ℚ) (representable : Representable PRECISION value) (low : 1/2 ≤ value)
    (high : value ≤ 2^23) (rest : List UInt8) : reader (fields value++rest) = some value := by
  have nonneg : 0 ≤ value := le_trans (by norm_num) low
  unfold fields
  split
  · rename_i integral
    rw [toFloat_toUnsigned value nonneg high] at integral
    rw [reader_layout,if_pos rfl,toUnsigned_toNat value nonneg high,← integral]
  · rw [reader_layout,if_neg (by decide)]
    exact decode_encode value representable (le_trans (by norm_num) low) (lt_of_le_of_lt high (by norm_num))

/-- The run has sent the fields of the first so many counters, each before some bytes of
the heap. -/
structure Counted (own : Writer) : Prop where
  count : own.counter = counter own.sent.length
  numbers : ∀ index message, own.sent[index]? = some message →
    ∃ rest, message = fields (counter (index+1))++rest

theorem iteration_counted (own : Writer) (turn : Turn) (counted : Counted own) :
    Counted (iteration own turn) := by
  by_cases full : turn.curmsgs = MQ_MAX_SIZE
  · rwa [iteration,if_pos full]
  · have sends := iteration_sends own turn full
    constructor
    · rw [sends,List.length_append,List.length_singleton,counter,← counted.count,iteration,if_neg full]
    · intro index message found
      rw [sends] at found
      rcases Nat.lt_trichotomy index own.sent.length with before | rfl | behind
      · rw [List.getElem?_append_left before] at found
        exact counted.numbers index message found
      · rw [List.getElem?_concat_length] at found
        obtain rfl := Option.some.inj found
        rw [counter,← counted.count]
        exact ⟨_,rfl⟩
      · rw [List.getElem?_eq_none (by rw [List.length_append,List.length_singleton]; omega)] at found
        contradiction

theorem writer_counted (heap : Heap) (turns : List Turn) : Counted (writer heap turns) := by
  induction turns using List.reverseRecOn with
  | nil => exact ⟨rfl,nofun⟩
  | append_singleton before turn ih =>
    rw [writer_append]
    exact iteration_counted _ turn ih

theorem message_counter (heap : Heap) (turns : List Turn) (index : ℕ) (message : List UInt8)
    (found : (writer heap turns).sent[index]? = some message) :
    reader message = some (counter (index+1)) := by
  obtain ⟨rest,rfl⟩ := (writer_counted heap turns).numbers index message found
  obtain ⟨representable,low,high⟩ := counter_range (index+1) (Nat.le_add_left 1 index)
  exact reader_fields _ representable low high rest

/-- The first message has index zero. -/
theorem message_half_iff (heap : Heap) (turns : List Turn) (index : ℕ) (message : List UInt8)
    (found : (writer heap turns).sent[index]? = some message) :
    reader message = some (((index+1 : ℕ) : ℚ)/2) ↔ index+1 ≤ 2^24 := by
  rw [message_counter heap turns index message found,Option.some.injEq]
  exact counter_half_iff (index+1)

theorem message_half_third :
    ∃ message, (writer (fun _ => 0) [⟨0,0⟩,⟨10,0⟩,⟨1,0⟩,⟨2,0⟩]).sent[2]? = some message ∧
      reader message = some (((2+1 : ℕ) : ℚ)/2) :=
  ⟨_,rfl,(message_half_iff (fun _ => 0) [⟨0,0⟩,⟨10,0⟩,⟨1,0⟩,⟨2,0⟩] 2 _ rfl).mpr (by decide)⟩

theorem writer_length (heap : Heap) (turn : Turn) (room : turn.curmsgs ≠ MQ_MAX_SIZE) (count : ℕ) :
    (writer heap (List.replicate count turn)).sent.length = count := by
  induction count with
  | zero => rfl
  | succ count ih =>
    rw [List.replicate_succ',writer_append,iteration_sends _ _ room,List.length_append,ih]
    rfl

theorem message_exists (heap : Heap) (turn : Turn) (room : turn.curmsgs ≠ MQ_MAX_SIZE) (index : ℕ) :
    ∃ message, (writer heap (List.replicate (index+1) turn)).sent[index]? = some message ∧
      reader message = some (counter (index+1)) := by
  have length := writer_length heap turn room (index+1)
  have found : (writer heap (List.replicate (index+1) turn)).sent[index]? = some _ :=
    List.getElem?_eq_getElem (by rw [length]; exact Nat.lt_succ_self index)
  exact ⟨_,found,message_counter _ _ _ _ found⟩

/-- The message after the one for `2^23` has the same number again. -/
theorem message_stuck :
    ∃ message, (writer (fun _ => 0) (List.replicate (2^24+1) ⟨0,0⟩)).sent[2^24]? = some message ∧
      reader message = some (2^23) ∧ reader message ≠ some (((2^24+1 : ℕ) : ℚ)/2) := by
  obtain ⟨message,found,number⟩ := message_exists (fun _ => 0) ⟨0,0⟩ (by decide) (2^24)
  rw [counter_stuck 1] at number
  refine ⟨message,found,number,?_⟩
  rw [number]
  norm_num

end LinuxCourse.MqIpcVfork
