import LinuxCourse.Library.Binary32
import LinuxCourse.Library.Bytes
import LinuxCourse.Library.Heap

/-! `ipc/execv/mq_ipc_vfork_writer.c` and `mq_ipc_vfork_reader.c`. The message is allocated
for its type, and sent with the one size that the two programs share. -/
namespace LinuxCourse.MqIpcVfork
open Library Binary32

def MQ_MAX_SIZE : Nat := 10

def MQ_MAX_MSG_SIZE : Nat := 100

inductive NUMBER_TYPE_E
  | FLOAT
  | UINT

def NUMBER_TYPE_E.code : NUMBER_TYPE_E → BitVec 32
  | .FLOAT => 0
  | .UINT => 1

/-- The conversion of a `float` to `unsigned int`, which cuts the fraction off. -/
def toUnsigned (counter : ℚ) : BitVec 32 := BitVec.ofInt 32 ⌊counter⌋

def toFloat (word : BitVec 32) : ℚ := Rounding.round PRECISION word.toNat

/-- What is stored in a message: its type, and the data of that type. -/
def fields (counter : ℚ) : List UInt8 :=
  if counter = toFloat (toUnsigned counter) then
    Bytes.encode NUMBER_TYPE_E.UINT.code++Bytes.encode (toUnsigned counter)
  else Bytes.encode NUMBER_TYPE_E.FLOAT.code++Bytes.encode (encode counter)

def sizeof_MSG_T : Nat := 4

def sizeof_UINT_MSG_DATA_T : Nat := 4

def sizeof_FLOAT_MSG_DATA_T : Nat := 4

/-- What `malloc` is asked for. -/
def allocated (counter : ℚ) : Nat :=
  if counter = toFloat (toUnsigned counter) then sizeof_MSG_T+sizeof_UINT_MSG_DATA_T
  else sizeof_MSG_T+sizeof_FLOAT_MSG_DATA_T

/-- What an iteration of the Writer finds: the length of the queue, and the block that
`malloc` returns. -/
structure Turn where
  curmsgs : Nat
  address : Nat

structure Writer where
  counter : ℚ
  heap : Heap
  sent : List (List UInt8)

def next (counter : ℚ) : ℚ := Rounding.round PRECISION (counter+1/2)

def iteration (writer : Writer) (turn : Turn) : Writer :=
  if turn.curmsgs = MQ_MAX_SIZE then writer
  else
    let counter := next writer.counter
    let heap := writer.heap.write turn.address (fields counter)
    ⟨counter,heap,writer.sent++[heap.read turn.address MQ_MAX_MSG_SIZE]⟩

def writer (heap : Heap) (turns : List Turn) : Writer := turns.foldl iteration ⟨0,heap,[]⟩

def reader (message : List UInt8) : Option ℚ :=
  let type := Bytes.decode (message.take 4)
  let data := Bytes.decode ((message.drop 4).take 4)
  if type = NUMBER_TYPE_E.UINT.code then some data.toNat else decode data

theorem fields_length (counter : ℚ) : (fields counter).length = 8 := by
  unfold fields
  split <;> rfl

theorem allocated_fields (counter : ℚ) : allocated counter = (fields counter).length := by
  rw [fields_length]
  unfold allocated
  split <;> rfl

theorem writer_append (heap : Heap) (before : List Turn) (turn : Turn) :
    writer heap (before++[turn]) = iteration (writer heap before) turn := by
  rw [writer,writer,List.foldl_append,List.foldl_cons,List.foldl_nil]

theorem iteration_sends (own : Writer) (turn : Turn) (room : turn.curmsgs ≠ MQ_MAX_SIZE) :
    (iteration own turn).sent = own.sent++[fields (next own.counter)++own.heap.read (turn.address+8) 92] := by
  have fits : (fields (next own.counter)).length ≤ MQ_MAX_MSG_SIZE := by
    rw [fields_length]
    decide
  rw [iteration,if_neg room]
  simp only [Heap.read_write _ _ _ _ fits,fields_length]
  rfl

def Written (turns : List Turn) (place : Nat) : Prop :=
  ∃ turn ∈ turns, turn.curmsgs ≠ MQ_MAX_SIZE ∧ turn.address ≤ place ∧ place < turn.address+8

theorem written_append (before : List Turn) (turn : Turn) (place : Nat) :
    Written (before++[turn]) place ↔ Written before place ∨
      turn.curmsgs ≠ MQ_MAX_SIZE ∧ turn.address ≤ place ∧ place < turn.address+8 := by
  simp only [Written,List.mem_append,List.mem_singleton,or_and_right,exists_or,exists_eq_left]

/-- Two runs in step: their counters are the same, and their heaps can differ only where
the initial ones do and nothing has been written. -/
theorem writer_aligned (first second : Heap) (turns : List Turn) :
    (writer first turns).counter = (writer second turns).counter ∧
      ∀ place, (writer first turns).heap place = (writer second turns).heap place ↔
        Written turns place ∨ first place = second place := by
  induction turns using List.reverseRecOn with
  | nil => simp [writer,Written]
  | append_singleton before turn ih =>
    obtain ⟨counters,heaps⟩ := ih
    rw [writer_append,writer_append]
    by_cases full : turn.curmsgs = MQ_MAX_SIZE
    · simp only [iteration,written_append,full,if_true,ne_eq,not_true,false_and,or_false]
      exact ⟨counters,heaps⟩
    · -- both runs write the same fields to the same block
      simp only [iteration,if_neg full,counters,written_append]
      refine ⟨trivial,?_⟩
      intro place
      by_cases inside : turn.address ≤ place ∧ place < turn.address+8
      · have same := Heap.write_inside (writer first before).heap (writer second before).heap turn.address
          place (fields (next (writer second before).counter)) (by rwa [fields_length])
        exact ⟨fun _ => Or.inl (Or.inr ⟨full,inside⟩),fun _ => same⟩
      · rw [Heap.write_outside _ _ _ _ (by rwa [fields_length]),
          Heap.write_outside _ _ _ _ (by rwa [fields_length]),heaps place]
        simp only [inside,and_false,or_false]

/-- The two heaps agree on the bytes behind the block of this iteration, as far as no
earlier one has written them. -/
def AgreeBehind (first second : Heap) (before : List Turn) (turn : Turn) : Prop :=
  ∀ place, turn.address+8 ≤ place → place < turn.address+MQ_MAX_MSG_SIZE →
    ¬Written before place → first place = second place

theorem messages_equal_iff (first second : Heap) (before : List Turn) (turn : Turn)
    (room : turn.curmsgs ≠ MQ_MAX_SIZE) :
    (writer first (before++[turn])).sent.getLast? = (writer second (before++[turn])).sent.getLast? ↔
      AgreeBehind first second before turn := by
  obtain ⟨counters,heaps⟩ := writer_aligned first second before
  rw [writer_append,writer_append,iteration_sends _ _ room,iteration_sends _ _ room,counters,
    List.getLast?_concat,List.getLast?_concat,Option.some.injEq,List.append_cancel_left_eq,
    Heap.read_eq_iff]
  constructor
  · intro same place behind reached fresh
    have equal := same (place-(turn.address+8)) (by rw [MQ_MAX_MSG_SIZE] at reached; omega)
    rw [Nat.add_sub_cancel' behind,heaps place] at equal
    exact equal.resolve_left fresh
  · intro agree offset small
    refine (heaps _).mpr ?_
    by_cases written : Written before (turn.address+8+offset)
    · exact Or.inl written
    · exact Or.inr (agree _ (Nat.le_add_right _ _) (by rw [MQ_MAX_MSG_SIZE]; omega) written)

/-- The message depends on the counter only once earlier blocks have covered every byte behind
the block. -/
theorem counter_only_iff (before : List Turn) (turn : Turn) (room : turn.curmsgs ≠ MQ_MAX_SIZE) :
    (∀ first second : Heap, (writer first (before++[turn])).sent.getLast? =
      (writer second (before++[turn])).sent.getLast?) ↔
    ∀ place, turn.address+8 ≤ place → place < turn.address+MQ_MAX_MSG_SIZE → Written before place := by
  simp only [messages_equal_iff _ _ before turn room,AgreeBehind]
  constructor
  · intro agree place behind reached
    by_contra fresh
    exact absurd (agree (fun _ => 0) (fun _ => 1) place behind reached fresh) (by decide)
  · intro covered first second place behind reached fresh
    exact absurd (covered place behind reached) fresh

/-- The byte that the iteration finds at `place` goes into its message. -/
def ReadInto (counter : ℚ) (turn : Turn) (place : Nat) : Prop :=
  Heap.Matters (fun heap => (iteration ⟨counter,heap,[]⟩ turn).sent) place

/-- The first bytes are the fields, written before the send; the other 92 are as the heap has
them. -/
theorem read_into_iff (counter : ℚ) (turn : Turn) (place : Nat) (room : turn.curmsgs ≠ MQ_MAX_SIZE) :
    ReadInto counter turn place ↔
      turn.address+allocated (next counter) ≤ place ∧ place < turn.address+MQ_MAX_MSG_SIZE := by
  have reads := Heap.matters_read (turn.address+8) 92 place
  rw [allocated_fields,fields_length,MQ_MAX_MSG_SIZE,show turn.address+100 = turn.address+8+92 from rfl,← reads]
  simp only [ReadInto,Heap.Matters,iteration_sends _ _ room,List.nil_append,ne_eq,List.cons.injEq,
    List.append_cancel_left_eq,and_true]

/-- The message of the iteration carries nothing but the counter: it is the same whatever the
heap held, and the bytes it takes from the heap are those of its own block. -/
structure Contained (before : List Turn) (turn : Turn) : Prop where
  counterOnly : ∀ first second : Heap, (writer first (before++[turn])).sent.getLast? =
    (writer second (before++[turn])).sent.getLast?
  insideBlock : ∀ (heap : Heap) (place : Nat), ReadInto (writer heap before).counter turn place →
    turn.address ≤ place ∧ place < turn.address+allocated (next (writer heap before).counter)

/-- No message is. -/
theorem contained_never (before : List Turn) (turn : Turn) (room : turn.curmsgs ≠ MQ_MAX_SIZE) :
    ¬Contained before turn := by
  intro contained
  have last : ReadInto (writer (fun _ => 0) before).counter turn (turn.address+99) := by
    rw [read_into_iff _ _ _ room,allocated_fields,fields_length,MQ_MAX_MSG_SIZE]
    omega
  have inside := (contained.insideBlock _ _ last).2
  rw [allocated_fields,fields_length] at inside
  omega

theorem contained_never_first : ¬Contained [] ⟨0,0⟩ := contained_never [] ⟨0,0⟩ (by decide)

/-- Old bytes of the heap are in the first message. -/
theorem messages_differ :
    (writer (fun _ => 0) [⟨0,0⟩]).sent.getLast? ≠ (writer (fun _ => 1) [⟨0,0⟩]).sent.getLast? := by
  have room : (⟨0,0⟩ : Turn).curmsgs ≠ MQ_MAX_SIZE := by decide
  have first := writer_append (fun _ => 0) [] ⟨0,0⟩
  have second := writer_append (fun _ => 1) [] ⟨0,0⟩
  rw [List.nil_append] at first second
  rw [first,second,iteration_sends _ _ room,iteration_sends _ _ room,List.getLast?_concat,
    List.getLast?_concat]
  intro same
  have rest := List.append_cancel_left (Option.some.inj same)
  exact absurd ((Heap.read_eq_iff _ _ _ _).mp rest 0 (by decide)) (by decide)

end LinuxCourse.MqIpcVfork
