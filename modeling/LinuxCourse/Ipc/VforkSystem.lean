import LinuxCourse.Ipc.VforkCounter
import LinuxCourse.Library.Execution
import LinuxCourse.Library.Queue
import Mathlib.Logic.Function.Basic

/-! The Writer and any number of Readers of `ipc/execv` on their queue. The allocator of
the Writer is free in its choices: which block `malloc` returns, and what memory holds
after `free`. `receipts` logs what each `mq_receive` returned. -/
namespace LinuxCourse.MqIpcVforkSystem
open Library MqIpcVfork

inductive Line (ι : Type)
  | reached (maxmsg : Nat)
  | writer (counter : ℚ)
  | unsigned (id : ι) (ucounter : BitVec 32) (remaining : Nat)
  | float (id : ι) (fcounter : Option ℚ) (remaining : Nat)

inductive WriterStage
  | getattr
  | test
  | send
  | print
  | free

structure WriterProcess where
  stage : WriterStage
  counter : ℚ
  mqAttr : Attr
  msg : Nat
  heap : Heap

inductive ReaderStage
  | receive
  | getattr
  | print

structure ReaderProcess where
  stage : ReaderStage
  msg : List UInt8
  mqAttr : Attr

structure System (ι : Type) where
  queue : Queue (List UInt8)
  writer : WriterProcess
  readers : ι → ReaderProcess
  receipts : List (ι × List UInt8)
  output : List (Line ι)

inductive Action (ι : Type)
  | writer (malloc : Nat) (freed : Heap)
  | reader (id : ι)

variable {ι : Type} [DecidableEq ι]

def writerStep (malloc : Nat) (freed : Heap) (system : System ι) : Option (System ι) :=
  let own := system.writer
  match own.stage with
  | .getattr => some {system with writer := {own with stage := .test,mqAttr := system.queue.getattr}}
  | .test =>
    if own.mqAttr.curmsgs = MQ_MAX_SIZE then
      some {system with
        writer := {own with stage := .getattr}
        output := system.output++[.reached own.mqAttr.maxmsg]}
    else
      let counter := next own.counter
      let heap := own.heap.write malloc (fields counter)
      some {system with writer := ⟨.send,counter,own.mqAttr,malloc,heap⟩}
  | .send =>
    -- `mq_send` blocks while the queue is full
    (system.queue.send (own.heap.read own.msg MQ_MAX_MSG_SIZE)).map fun queue =>
      {system with queue := queue,writer := {own with stage := .print}}
  | .print =>
    some {system with
      writer := {own with stage := .free}
      output := system.output++[.writer own.counter]}
  | .free => some {system with writer := {own with stage := .getattr,heap := freed}}

/-- The two branches of the cast to the concrete type. -/
def line (id : ι) (own : ReaderProcess) : Line ι :=
  let type := Bytes.decode (own.msg.take 4)
  let data := Bytes.decode ((own.msg.drop 4).take 4)
  if type = NUMBER_TYPE_E.UINT.code then .unsigned id data own.mqAttr.curmsgs
  else .float id (Binary32.decode data) own.mqAttr.curmsgs

/-- `mq_receive` overwrites as much of the buffer as the message has bytes, and blocks
while the queue is empty. -/
def readerStep (id : ι) (system : System ι) : Option (System ι) :=
  let own := system.readers id
  match own.stage with
  | .receive =>
    system.queue.receive.map fun received => {system with
      queue := received.2
      readers := Function.update system.readers id
        {own with stage := .getattr,msg := received.1++own.msg.drop received.1.length}
      receipts := system.receipts++[(id,received.1)]}
  | .getattr =>
    some {system with
      readers := Function.update system.readers id {own with stage := .print,mqAttr := system.queue.getattr}}
  | .print =>
    some {system with
      readers := Function.update system.readers id {own with stage := .receive}
      output := system.output++[line id own]}

def step (system : System ι) : Action ι → Option (System ι)
  | .writer malloc freed => writerStep malloc freed system
  | .reader id => readerStep id system

/-- Memory has any contents, also in the buffers of the Readers. -/
def initial (heap : Heap) (buffers : ι → List UInt8) : System ι :=
  ⟨Queue.create MQ_MAX_SIZE,⟨.getattr,0,⟨0,0⟩,0,heap⟩,fun id => ⟨.receive,buffers id,⟨0,0⟩⟩,[],[]⟩

def System.history (system : System ι) : List (List UInt8) :=
  Queue.history system.receipts system.queue

/-- The number in a line of the Reader `id`. -/
def Line.number (id : ι) : Line ι → Option (Option ℚ)
  | .unsigned own ucounter _ => if own = id then some (some (ucounter.toNat : ℚ)) else none
  | .float own fcounter _ => if own = id then some fcounter else none
  | _ => none

def Line.written : Line ι → Option ℚ
  | .writer counter => some counter
  | _ => none

def counters (count : Nat) : List ℚ := (List.range' 1 count).map counter

theorem counters_succ (count : Nat) : counters (count+1) = counters count++[counter (count+1)] := by
  rw [counters,counters,List.range'_1_concat,List.map_append,List.map_cons,List.map_nil,Nat.add_comm 1]

/-- What the Writer has counted but not printed yet. -/
def WriterProcess.unprinted (own : WriterProcess) : List ℚ :=
  match own.stage with
  | .print => [own.counter]
  | _ => []

/-- What a Reader has received but not printed yet. -/
def ReaderProcess.unprinted (own : ReaderProcess) : List (Option ℚ) :=
  match own.stage with
  | .receive => []
  | _ => [reader own.msg]

theorem line_number (id : ι) (own : ReaderProcess) : (line id own).number id = some (reader own.msg) := by
  simp only [line,reader]
  split <;> simp only [Line.number,if_true]

theorem line_number_other (id other : ι) (own : ReaderProcess) (differ : id ≠ other) :
    (line id own).number other = none := by
  simp only [line]
  split <;> simp only [Line.number,if_neg differ]

omit [DecidableEq ι] in
theorem line_written (id : ι) (own : ReaderProcess) : (line id own).written = none := by
  simp only [line]
  split <;> rfl

theorem reader_append (message rest : List UInt8) (long : 8 ≤ message.length) :
    reader (message++rest) = reader message := by
  have front : (message++rest).take 4 = message.take 4 := List.take_append_of_le_length (by omega)
  have behind : (message++rest).drop 4 = message.drop 4++rest := List.drop_append_of_le_length (by omega)
  have middle : (message.drop 4++rest).take 4 = (message.drop 4).take 4 :=
    List.take_append_of_le_length (by rw [List.length_drop]; omega)
  simp only [reader,front,behind,middle]

theorem sent_number (heap : Heap) (msg count : Nat) :
    reader ((heap.write msg (fields (counter (count+1)))).read msg MQ_MAX_MSG_SIZE) =
      some (counter (count+1)) := by
  have fits : (fields (counter (count+1))).length ≤ MQ_MAX_MSG_SIZE := by
    rw [fields_length]
    decide
  obtain ⟨representable,low,high⟩ := counter_range (count+1) (Nat.le_add_left 1 count)
  rw [Heap.read_write _ _ _ _ fits]
  exact reader_fields _ representable low high _

theorem read_length (heap : Heap) (address size : Nat) : (heap.read address size).length = size := by
  rw [Heap.read,List.length_map,List.length_range]

/-- The queue, all that was sent through it, and what is on its way to the output. -/
structure Delivered (system : System ι) (count : Nat) : Prop where
  maxmsg : system.queue.maxmsg = MQ_MAX_SIZE
  numbers : system.history.map reader = (counters count).map some
  sizes : ∀ message ∈ system.history, message.length = MQ_MAX_MSG_SIZE
  readers : ∀ id, (Queue.taken system.receipts id).map reader =
    system.output.filterMap (Line.number id)++(system.readers id).unprinted
  writer : system.output.filterMap Line.written++system.writer.unprinted = counters count

/-- What the Writer's locals say at its stage: the counter is one ahead while a message is
under way, and the length read before can only have gone down. -/
def Ready (own : WriterProcess) (queue : Queue (List UInt8)) (count : Nat) : Prop :=
  match own.stage with
  | .test => own.counter = counter count ∧ queue.messages.length ≤ own.mqAttr.curmsgs ∧
      own.mqAttr.curmsgs ≤ MQ_MAX_SIZE
  | .send => own.counter = counter (count+1) ∧ queue.messages.length < MQ_MAX_SIZE ∧
      reader (own.heap.read own.msg MQ_MAX_MSG_SIZE) = some (counter (count+1))
  | _ => own.counter = counter count

theorem ready_shorter (own : WriterProcess) (queue next : Queue (List UInt8)) (count : Nat)
    (ready : Ready own queue count) (shorter : next.messages.length ≤ queue.messages.length) :
    Ready own next count := by
  unfold Ready at ready ⊢
  cases stage : own.stage with
  | test =>
    simp only [stage] at ready ⊢
    exact ⟨ready.1,shorter.trans ready.2.1,ready.2.2⟩
  | send =>
    simp only [stage] at ready ⊢
    exact ⟨ready.1,shorter.trans_lt ready.2.1,ready.2.2⟩
  | getattr | print | free => simpa only [stage] using ready

/-- A step that touches neither queue nor output, and leaves nothing more unprinted. -/
theorem delivered_local (system : System ι) (own : WriterProcess) (count : Nat)
    (delivered : Delivered system count) (silent : own.unprinted = system.writer.unprinted) :
    Delivered {system with writer := own} count :=
  ⟨delivered.maxmsg,delivered.numbers,delivered.sizes,delivered.readers,silent ▸ delivered.writer⟩

theorem delivered_line (system : System ι) (own : WriterProcess) (line : Line ι) (count : Nat)
    (delivered : Delivered system count) (silent : ∀ id, line.number id = none)
    (printed : system.writer.unprinted = line.written.toList++own.unprinted) :
    Delivered {system with writer := own,output := system.output++[line]} count := by
  have written : [line].filterMap Line.written = line.written.toList := by
    cases shown : line.written <;> simp [shown]
  refine ⟨delivered.maxmsg,delivered.numbers,delivered.sizes,?_,?_⟩
  · intro id
    have none : [line].filterMap (Line.number id) = [] := by simp [silent id]
    rw [List.filterMap_append,none,List.append_nil]
    exact delivered.readers id
  · rw [List.filterMap_append,written,List.append_assoc,← printed]
    exact delivered.writer

theorem delivered_sent (system : System ι) (queue : Queue (List UInt8)) (own : WriterProcess)
    (message : List UInt8) (count : Nat) (delivered : Delivered system count)
    (sent : system.queue.send message = some queue) (number : reader message = some (counter (count+1)))
    (size : message.length = MQ_MAX_MSG_SIZE) (printed : system.writer.unprinted = [])
    (unprinted : own.unprinted = [counter (count+1)]) :
    Delivered {system with queue := queue,writer := own} (count+1) := by
  have history : ({system with queue := queue,writer := own} : System ι).history =
      system.history++[message] := Queue.history_send _ _ _ _ sent
  constructor
  · exact (Queue.send_cases _ _ _ sent).2.1.trans delivered.maxmsg
  · rw [history,List.map_append,delivered.numbers,counters_succ,List.map_append,List.map_singleton,
      List.map_singleton,number]
  · intro other member
    rw [history,List.mem_append,List.mem_singleton] at member
    rcases member with before | rfl
    · exact delivered.sizes other before
    · exact size
  · exact delivered.readers
  · have before := delivered.writer
    rw [printed,List.append_nil] at before
    rw [unprinted,counters_succ,before]

theorem writerStep_invariant (malloc : Nat) (freed : Heap) (system next : System ι) (count : Nat)
    (delivered : Delivered system count) (ready : Ready system.writer system.queue count)
    (stepped : writerStep malloc freed system = some next) :
    ∃ count, Delivered next count ∧ Ready next.writer next.queue count := by
  unfold writerStep at stepped
  unfold Ready at ready
  cases stage : system.writer.stage with
  | getattr =>
    simp only [stage,Option.some.injEq] at stepped ready
    subst stepped
    refine ⟨count,delivered_local _ _ _ delivered ?_,ready,le_refl _,?_⟩
    · simp only [WriterProcess.unprinted,stage]
    · exact system.queue.within.trans_eq delivered.maxmsg
  | test =>
    simp only [stage] at stepped ready
    obtain ⟨same,before,bound⟩ := ready
    split at stepped
    · obtain rfl := Option.some.inj stepped
      refine ⟨count,delivered_line system _ _ count delivered (fun _ => rfl) ?_,same⟩
      simp only [WriterProcess.unprinted,stage,Line.written,Option.toList_none,List.append_nil]
    · rename_i room
      obtain rfl := Option.some.inj stepped
      refine ⟨count,delivered_local _ _ _ delivered ?_,?_⟩
      · simp only [WriterProcess.unprinted,stage]
      · have shorter := Nat.lt_of_le_of_ne bound room
        refine ⟨?_,before.trans_lt shorter,?_⟩
        · rw [counter,same]
        · rw [same]
          exact sent_number _ _ _
  | send =>
    simp only [stage,Option.map_eq_some_iff] at stepped ready
    obtain ⟨queue,sent,rfl⟩ := stepped
    obtain ⟨same,-,number⟩ := ready
    refine ⟨count+1,delivered_sent system queue _ _ count delivered sent number (read_length _ _ _) ?_ ?_,
      same⟩
    · simp only [WriterProcess.unprinted,stage]
    · simp only [WriterProcess.unprinted,same]
  | print =>
    simp only [stage,Option.some.injEq] at stepped ready
    subst stepped
    refine ⟨count,delivered_line system _ _ count delivered (fun _ => rfl) ?_,ready⟩
    simp only [WriterProcess.unprinted,stage,Line.written,Option.toList_some,List.append_nil]
  | free =>
    simp only [stage,Option.some.injEq] at stepped ready
    subst stepped
    refine ⟨count,delivered_local _ _ _ delivered ?_,ready⟩
    simp only [WriterProcess.unprinted,stage]

theorem taken_append (receipts : List (ι × List UInt8)) (id other : ι) (message : List UInt8) :
    Queue.taken (receipts++[(id,message)]) other =
      Queue.taken receipts other++if id = other then [message] else [] := by
  by_cases same : id = other <;> simp [Queue.taken,List.filter_append,same]

/-- A step of the Reader `id` that receives nothing: it may print what it has. -/
theorem delivered_reader (system : System ι) (id : ι) (own : ReaderProcess) (lines : List (Line ι))
    (count : Nat) (delivered : Delivered system count)
    (silent : lines.filterMap Line.written = []) (others : ∀ other, id ≠ other →
      lines.filterMap (Line.number other) = [])
    (printed : (system.readers id).unprinted = lines.filterMap (Line.number id)++own.unprinted) :
    Delivered {system with
      readers := Function.update system.readers id own
      output := system.output++lines} count := by
  refine ⟨delivered.maxmsg,delivered.numbers,delivered.sizes,?_,?_⟩
  · intro other
    rw [List.filterMap_append]
    by_cases same : id = other
    · subst same
      simp only [Function.update_self,List.append_assoc,← printed]
      exact delivered.readers id
    · simp only [Function.update_of_ne (Ne.symm same),others other same,List.append_nil]
      exact delivered.readers other
  · rw [List.filterMap_append,silent,List.append_nil]
    exact delivered.writer

theorem delivered_received (system : System ι) (queue : Queue (List UInt8)) (id : ι)
    (own : ReaderProcess) (message : List UInt8) (count : Nat) (delivered : Delivered system count)
    (received : system.queue.receive = some (message,queue)) (before : (system.readers id).unprinted = [])
    (unprinted : 8 ≤ message.length → own.unprinted = [reader message]) :
    Delivered {system with
      queue := queue
      readers := Function.update system.readers id own
      receipts := system.receipts++[(id,message)]} count := by
  have history : Queue.history (system.receipts++[(id,message)]) queue = system.history :=
    Queue.history_receive _ _ _ _ _ received
  obtain ⟨maxmsg,messages⟩ := Queue.receive_cases _ _ _ received
  have size : message.length = MQ_MAX_MSG_SIZE := by
    apply delivered.sizes
    rw [System.history,Queue.history,messages]
    exact List.mem_append_right _ List.mem_cons_self
  refine ⟨maxmsg.trans delivered.maxmsg,?_,?_,?_,delivered.writer⟩
  · rw [System.history,history]
    exact delivered.numbers
  · rw [System.history,history]
    exact delivered.sizes
  · intro other
    rw [taken_append,List.map_append,delivered.readers other]
    by_cases same : id = other
    · subst same
      have own := unprinted (by rw [size]; decide)
      simp only [Function.update_self,if_true,before,List.append_nil,own,List.map_singleton]
    · simp only [Function.update_of_ne (Ne.symm same),if_neg same,List.map_nil,List.append_nil]

theorem readerStep_invariant (id : ι) (system next : System ι) (count : Nat)
    (delivered : Delivered system count) (ready : Ready system.writer system.queue count)
    (stepped : readerStep id system = some next) :
    Delivered next count ∧ Ready next.writer next.queue count := by
  unfold readerStep at stepped
  cases stage : (system.readers id).stage with
  | receive =>
    simp only [stage,Option.map_eq_some_iff] at stepped
    obtain ⟨⟨message,queue⟩,received,rfl⟩ := stepped
    obtain ⟨-,messages⟩ := Queue.receive_cases _ _ _ received
    refine ⟨delivered_received system queue id _ message count delivered received ?_ ?_,
      ready_shorter _ _ _ _ ready ?_⟩
    · simp only [ReaderProcess.unprinted,stage]
    · intro long
      simp only [ReaderProcess.unprinted,reader_append _ _ long]
    · rw [messages]
      exact Nat.le_succ _
  | getattr =>
    simp only [stage,Option.some.injEq] at stepped
    subst stepped
    have kept := delivered_reader system id
      {system.readers id with stage := .print,mqAttr := system.queue.getattr} [] count delivered rfl
      (fun _ _ => rfl) (by simp only [ReaderProcess.unprinted,stage]; rfl)
    rw [List.append_nil] at kept
    exact ⟨kept,ready⟩
  | print =>
    simp only [stage,Option.some.injEq] at stepped
    subst stepped
    refine ⟨delivered_reader system id _ _ count delivered ?_ ?_ ?_,ready⟩
    · simp [line_written]
    · intro other differ
      simp [line_number_other id other _ differ]
    · simp [line_number,ReaderProcess.unprinted,stage]

theorem step_invariant (system next : System ι) (action : Action ι)
    (holds : ∃ count, Delivered system count ∧ Ready system.writer system.queue count)
    (stepped : step system action = some next) :
    ∃ count, Delivered next count ∧ Ready next.writer next.queue count := by
  obtain ⟨count,delivered,ready⟩ := holds
  cases action with
  | writer malloc freed => exact writerStep_invariant malloc freed system next count delivered ready stepped
  | reader id => exact ⟨count,readerStep_invariant id system next count delivered ready stepped⟩

theorem initial_delivered (heap : Heap) (buffers : ι → List UInt8) :
    Delivered (initial heap buffers) 0 :=
  ⟨rfl,rfl,nofun,fun _ => rfl,rfl⟩

theorem run_invariant (heap : Heap) (buffers : ι → List UInt8) (actions : List (Action ι))
    (final : System ι) (reached : Execution.run step (initial heap buffers) actions = some final) :
    ∃ count, Delivered final count ∧ Ready final.writer final.queue count :=
  Execution.run_invariant step _ (fun state action next => step_invariant state next action) actions _ final
    ⟨0,initial_delivered heap buffers,rfl⟩ reached

/-- Memory may be overwritten by what the allocator keeps there. -/
def firstRun : List (Action Bool) :=
  [.writer 0 fun _ => 1,.writer 8 fun _ => 1,.writer 0 fun _ => 1,.reader true]

theorem counters_halves (count : Nat) (small : count ≤ 2^24) :
    counters count = (List.range' 1 count).map fun number : ℕ => (number : ℚ)/2 := by
  refine List.map_congr_left fun number member => ?_
  have bound := (List.mem_range'_1.mp member).2
  exact counter_half number (by omega)

/-- Received or queued, every value of the counter is there once and in order, as long as
they fit the halves; the Readers print what they receive, and the Writer what it sends. -/
theorem run_delivers (heap : Heap) (buffers : ι → List UInt8) (actions : List (Action ι))
    (final : System ι) (reached : Execution.run step (initial heap buffers) actions = some final) :
    ∃ count, final.history.map reader = (counters count).map some ∧
      (count ≤ 2^24 → counters count = (List.range' 1 count).map fun number : ℕ => (number : ℚ)/2) ∧
      (∀ id, (Queue.taken final.receipts id).map reader =
        final.output.filterMap (Line.number id)++(final.readers id).unprinted) ∧
      final.output.filterMap Line.written++final.writer.unprinted = counters count := by
  obtain ⟨count,delivered,_⟩ := run_invariant heap buffers actions final reached
  exact ⟨count,delivered.numbers,counters_halves count,delivered.readers,delivered.writer⟩

/-- One message is on its way: received by one of the two Readers, not printed yet. -/
theorem run_delivers_first :
    ∃ final, Execution.run step (initial (fun _ => 0) fun _ : Bool => []) firstRun = some final ∧
      final.receipts.length = 1 ∧ ∃ count, final.history.map reader = (counters count).map some ∧
        (count ≤ 2^24 → counters count = (List.range' 1 count).map fun number : ℕ => (number : ℚ)/2) ∧
        (∀ id, (Queue.taken final.receipts id).map reader =
          final.output.filterMap (Line.number id)++(final.readers id).unprinted) ∧
        final.output.filterMap Line.written++final.writer.unprinted = counters count := by
  have reached : Execution.run step (initial (fun _ => 0) fun _ : Bool => []) firstRun = some _ := rfl
  exact ⟨_,reached,rfl,run_delivers _ _ _ _ reached⟩

theorem counters_increasing (count : Nat) (small : count ≤ 2^24) : (counters count).Pairwise (· < ·) := by
  rw [counters,List.pairwise_map]
  refine List.Pairwise.imp_of_mem ?_ List.pairwise_lt_range'
  intro first second _ member less
  have bound := (List.mem_range'_1.mp member).2
  rw [counter_half first (by omega),counter_half second (by omega)]
  have cast : (first : ℚ) < second := by exact_mod_cast less
  linarith

theorem printed_sublist (system : System ι) (count : Nat) (delivered : Delivered system count) (id : ι) :
    ∃ numbers : List ℚ, system.output.filterMap (Line.number id) = numbers.map some ∧
      numbers.Sublist (counters count) := by
  have whole : ((Queue.taken system.receipts id).map reader).Sublist ((counters count).map some) := by
    rw [← delivered.numbers]
    exact (Queue.taken_sublist system.receipts system.queue id).map reader
  rw [delivered.readers id] at whole
  obtain ⟨numbers,part,same⟩ := List.sublist_map_iff.mp ((List.sublist_append_left _ _).trans whole)
  exact ⟨numbers,same,part⟩

theorem printed_receipt (system : System ι) (count : Nat) (delivered : Delivered system count) (id : ι)
    (number : Option ℚ) (printed : number ∈ system.output.filterMap (Line.number id)) :
    ∃ message, (id,message) ∈ system.receipts ∧ reader message = number := by
  have member : number ∈ (Queue.taken system.receipts id).map reader := by
    rw [delivered.readers id]
    exact List.mem_append_left _ printed
  obtain ⟨message,taken,same⟩ := List.mem_map.mp member
  obtain ⟨⟨own,_⟩,kept,rfl⟩ := List.mem_map.mp taken
  obtain ⟨inside,equal⟩ := List.mem_filter.mp kept
  obtain rfl : own = id := of_decide_eq_true equal
  exact ⟨_,inside,same⟩

theorem receipts_distinct (system : System ι) (count : Nat) (delivered : Delivered system count)
    (small : count ≤ 2^24) : (system.receipts.map fun receipt => reader receipt.2).Nodup := by
  have whole : (system.history.map reader).Nodup := by
    rw [delivered.numbers]
    exact List.Nodup.map (Option.some_injective ℚ) ((counters_increasing count small).imp ne_of_lt)
  refine whole.sublist ?_
  rw [System.history,Queue.history,List.map_append,List.map_map]
  exact List.sublist_append_left _ _

/-- As long as the halves fit, each Reader prints increasing numbers, and no two Readers
print the same one. -/
theorem run_shares (heap : Heap) (buffers : ι → List UInt8) (actions : List (Action ι))
    (final : System ι) (reached : Execution.run step (initial heap buffers) actions = some final)
    (small : final.history.length ≤ 2^24) :
    (∀ id, ∃ numbers : List ℚ, final.output.filterMap (Line.number id) = numbers.map some ∧
      numbers.Pairwise (· < ·)) ∧
    ∀ id other, id ≠ other → List.Disjoint (final.output.filterMap (Line.number id))
      (final.output.filterMap (Line.number other)) := by
  obtain ⟨count,delivered,_⟩ := run_invariant heap buffers actions final reached
  have length : final.history.length = count := by
    have lengths := congrArg List.length delivered.numbers
    simpa [counters] using lengths
  rw [length] at small
  constructor
  · intro id
    obtain ⟨numbers,same,part⟩ := printed_sublist final count delivered id
    exact ⟨numbers,same,(counters_increasing count small).sublist part⟩
  · intro id other differ number first second
    obtain ⟨message,here,equal⟩ := printed_receipt final count delivered id number first
    obtain ⟨copy,there,again⟩ := printed_receipt final count delivered other number second
    apply differ
    have same := List.inj_on_of_nodup_map (receipts_distinct final count delivered small) here there
      (equal.trans again.symm)
    exact congrArg Prod.fst same

theorem run_shares_first :
    ∃ final, Execution.run step (initial (fun _ => 0) fun _ : Bool => []) firstRun = some final ∧
      (∀ id, ∃ numbers : List ℚ, final.output.filterMap (Line.number id) = numbers.map some ∧
        numbers.Pairwise (· < ·)) ∧
      ∀ id other, id ≠ other → List.Disjoint (final.output.filterMap (Line.number id))
        (final.output.filterMap (Line.number other)) := by
  have reached : Execution.run step (initial (fun _ => 0) fun _ : Bool => []) firstRun = some _ := rfl
  exact ⟨_,reached,run_shares _ _ _ _ reached (Nat.succ_le_of_lt (Nat.two_pow_pos 24))⟩

/-- After so many steps of the Writer alone, a message is there for the Readers. -/
def Feeds (malloc : Nat) (freed : Heap) (system : System ι) (steps : Nat) : Prop :=
  ∃ next, Execution.run step system (List.replicate steps (.writer malloc freed)) = some next ∧
    next.queue.messages ≠ [] ∧ next.readers = system.readers

theorem feeds_step (malloc : Nat) (freed : Heap) (system next : System ι) (steps : Nat)
    (stepped : writerStep malloc freed system = some next) (same : next.readers = system.readers)
    (feeds : Feeds malloc freed next steps) : Feeds malloc freed system (steps+1) := by
  obtain ⟨final,reached,there,readers⟩ := feeds
  exact ⟨final,(Execution.run_cons step _ _ _ _).mpr ⟨next,stepped,reached⟩,there,readers.trans same⟩

theorem feeds_send (malloc : Nat) (freed : Heap) (system : System ι) (stage : system.writer.stage = .send)
    (room : system.queue.messages.length < system.queue.maxmsg) : Feeds malloc freed system 1 := by
  obtain ⟨queue,sent⟩ := Option.isSome_iff_exists.mp ((Queue.send_isSome system.queue
    (system.writer.heap.read system.writer.msg MQ_MAX_MSG_SIZE)).mpr room)
  refine ⟨{system with queue := queue,writer := {system.writer with stage := .print}},?_,?_,rfl⟩
  · simp only [List.replicate_one,Execution.run,step,writerStep,stage,sent,Option.map_some,Option.bind_some]
  · rw [(Queue.send_cases _ _ _ sent).2.2]
    exact List.append_ne_nil_of_right_ne_nil _ (List.cons_ne_nil _ _)

omit [DecidableEq ι] in
theorem writerStep_getattr (malloc : Nat) (freed : Heap) (system : System ι)
    (stage : system.writer.stage = .getattr) :
    writerStep malloc freed system =
      some {system with writer := {system.writer with stage := .test,mqAttr := system.queue.getattr}} := by
  simp only [writerStep,stage]

omit [DecidableEq ι] in
theorem writerStep_full (malloc : Nat) (freed : Heap) (system : System ι)
    (stage : system.writer.stage = .test) (full : system.writer.mqAttr.curmsgs = MQ_MAX_SIZE) :
    writerStep malloc freed system = some {system with
      writer := {system.writer with stage := .getattr}
      output := system.output++[.reached system.writer.mqAttr.maxmsg]} := by
  simp only [writerStep,stage,if_pos full]

omit [DecidableEq ι] in
theorem writerStep_room (malloc : Nat) (freed : Heap) (system : System ι)
    (stage : system.writer.stage = .test) (room : system.writer.mqAttr.curmsgs ≠ MQ_MAX_SIZE) :
    ∃ own, own.stage = .send ∧ writerStep malloc freed system = some {system with writer := own} := by
  simp only [writerStep,stage,if_neg room]
  exact ⟨_,rfl,rfl⟩

omit [DecidableEq ι] in
theorem writerStep_free (malloc : Nat) (freed : Heap) (system : System ι)
    (stage : system.writer.stage = .free) :
    writerStep malloc freed system =
      some {system with writer := {system.writer with stage := .getattr,heap := freed}} := by
  simp only [writerStep,stage]

omit [DecidableEq ι] in
theorem writerStep_print (malloc : Nat) (freed : Heap) (system : System ι)
    (stage : system.writer.stage = .print) :
    writerStep malloc freed system = some {system with
      writer := {system.writer with stage := .free}
      output := system.output++[.writer system.writer.counter]} := by
  simp only [writerStep,stage]

theorem feeds_room (malloc : Nat) (freed : Heap) (system : System ι) (stage : system.writer.stage = .test)
    (room : system.writer.mqAttr.curmsgs ≠ MQ_MAX_SIZE) (empty : system.queue.messages = [])
    (maxmsg : system.queue.maxmsg = MQ_MAX_SIZE) : Feeds malloc freed system 2 := by
  obtain ⟨own,sends,stepped⟩ := writerStep_room malloc freed system stage room
  apply feeds_step malloc freed system _ 1 stepped rfl
  apply feeds_send malloc freed _ sends
  rw [empty,maxmsg]
  decide

theorem feeds_getattr (malloc : Nat) (freed : Heap) (system : System ι)
    (stage : system.writer.stage = .getattr) (empty : system.queue.messages = [])
    (maxmsg : system.queue.maxmsg = MQ_MAX_SIZE) : Feeds malloc freed system 3 := by
  have none : system.queue.getattr.curmsgs ≠ MQ_MAX_SIZE := by
    rw [Queue.getattr,empty,List.length_nil]
    exact Nat.zero_ne_add_one 9
  apply feeds_step malloc freed system _ 2 (writerStep_getattr malloc freed system stage) rfl
  exact feeds_room malloc freed _ rfl none empty maxmsg

/-- The length that the Writer tests may be an old one: then it reads it again. -/
theorem feeds_test (malloc : Nat) (freed : Heap) (system : System ι)
    (stage : system.writer.stage = .test) (empty : system.queue.messages = [])
    (maxmsg : system.queue.maxmsg = MQ_MAX_SIZE) : ∃ steps ≤ 4, Feeds malloc freed system steps := by
  by_cases full : system.writer.mqAttr.curmsgs = MQ_MAX_SIZE
  · refine ⟨4,le_refl _,feeds_step malloc freed system _ 3 (writerStep_full malloc freed system stage full) rfl ?_⟩
    exact feeds_getattr malloc freed _ rfl empty maxmsg
  · exact ⟨2,by decide,feeds_room malloc freed system stage full empty maxmsg⟩

theorem feeds_free (malloc : Nat) (freed : Heap) (system : System ι) (stage : system.writer.stage = .free)
    (empty : system.queue.messages = []) (maxmsg : system.queue.maxmsg = MQ_MAX_SIZE) :
    Feeds malloc freed system 4 := by
  apply feeds_step malloc freed system _ 3 (writerStep_free malloc freed system stage) rfl
  exact feeds_getattr malloc freed _ rfl empty maxmsg

theorem feeds_empty (malloc : Nat) (freed : Heap) (system : System ι) (empty : system.queue.messages = [])
    (maxmsg : system.queue.maxmsg = MQ_MAX_SIZE) : ∃ steps ≤ 5, Feeds malloc freed system steps := by
  cases stage : system.writer.stage with
  | getattr => exact ⟨3,by decide,feeds_getattr malloc freed system stage empty maxmsg⟩
  | test =>
    obtain ⟨steps,few,feeds⟩ := feeds_test malloc freed system stage empty maxmsg
    exact ⟨steps,Nat.le_succ_of_le few,feeds⟩
  | send =>
    refine ⟨1,by decide,feeds_send malloc freed system stage ?_⟩
    rw [empty,maxmsg]
    decide
  | print =>
    refine ⟨5,le_refl _,feeds_step malloc freed system _ 4 (writerStep_print malloc freed system stage) rfl ?_⟩
    exact feeds_free malloc freed _ rfl empty maxmsg
  | free => exact ⟨4,by decide,feeds_free malloc freed system stage empty maxmsg⟩

omit [DecidableEq ι] in
theorem writerStep_isSome (malloc : Nat) (freed : Heap) (system : System ι) (count : Nat)
    (maxmsg : system.queue.maxmsg = MQ_MAX_SIZE) (ready : Ready system.writer system.queue count) :
    (writerStep malloc freed system).isSome := by
  unfold Ready at ready
  cases stage : system.writer.stage with
  | getattr => rw [writerStep_getattr malloc freed system stage,Option.isSome_some]
  | test =>
    by_cases full : system.writer.mqAttr.curmsgs = MQ_MAX_SIZE
    · rw [writerStep_full malloc freed system stage full,Option.isSome_some]
    · obtain ⟨_,-,stepped⟩ := writerStep_room malloc freed system stage full
      rw [stepped,Option.isSome_some]
  | send =>
    simp only [stage] at ready
    simp only [writerStep,stage,Option.isSome_map,Queue.send_isSome,maxmsg]
    exact ready.2.1
  | print => rw [writerStep_print malloc freed system stage,Option.isSome_some]
  | free => rw [writerStep_free malloc freed system stage,Option.isSome_some]

theorem receive_isSome (queue : Queue (List UInt8)) (there : queue.messages ≠ []) : queue.receive.isSome := by
  obtain ⟨maxmsg,messages,within⟩ := queue
  cases messages with
  | nil => exact absurd rfl there
  | cons message rest => rfl

theorem readerStep_isSome (id : ι) (system : System ι) (there : system.queue.messages ≠ []) :
    (readerStep id system).isSome := by
  unfold readerStep
  cases stage : (system.readers id).stage with
  | receive =>
    simp only [stage,Option.isSome_map]
    exact receive_isSome system.queue there
  | getattr | print => simp only [stage,Option.isSome_some]

/-- Nothing but the Writer adds to the queue, so what it has tested still holds at `mq_send`;
and a Reader waits for at most five of its steps. -/
theorem run_ready (heap : Heap) (buffers : ι → List UInt8) (actions : List (Action ι))
    (final : System ι) (reached : Execution.run step (initial heap buffers) actions = some final)
    (malloc : Nat) (freed : Heap) :
    (step final (.writer malloc freed)).isSome ∧
      ∀ id, ∃ steps ≤ 5, ∃ next,
        Execution.run step final (List.replicate steps (.writer malloc freed)) = some next ∧
          (step next (.reader id)).isSome := by
  obtain ⟨count,delivered,ready⟩ := run_invariant heap buffers actions final reached
  refine ⟨writerStep_isSome malloc freed final count delivered.maxmsg ready,?_⟩
  intro id
  by_cases empty : final.queue.messages = []
  · obtain ⟨steps,few,next,ran,there,_⟩ := feeds_empty malloc freed final empty delivered.maxmsg
    exact ⟨steps,few,next,ran,readerStep_isSome id next there⟩
  · exact ⟨0,Nat.zero_le _,final,rfl,readerStep_isSome id final empty⟩

theorem run_ready_first :
    ∃ final, Execution.run step (initial (fun _ => 0) fun _ : Bool => []) firstRun = some final ∧
      (step final (.writer 0 fun _ => 0)).isSome ∧
      ∀ id, ∃ steps ≤ 5, ∃ next,
        Execution.run step final (List.replicate steps (.writer 0 fun _ => 0)) = some next ∧
          (step next (.reader id)).isSome := by
  have reached : Execution.run step (initial (fun _ => 0) fun _ : Bool => []) firstRun = some _ := rfl
  exact ⟨_,reached,run_ready _ _ _ _ reached 0 fun _ => 0⟩

end LinuxCourse.MqIpcVforkSystem
