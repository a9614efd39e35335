import LinuxCourse.ReaderWriter.MessageQueue

/-! The Writer of `threads/reader_writer/mq_withoverflow.c`, which polls the queue
length and sends only when there was room. The length may be out of date by the
time of the send, but only on the safe side: nobody else adds messages. -/
namespace LinuxCourse.MqWithoverflow
open Library MessageQueue

inductive Stage
  | getattr
  | test
  | report
  | increment
  | send
  | print
  deriving DecidableEq

/-- `increments` and `sends` count what the Writer has done; the program has neither. -/
structure Writer where
  stage : Stage
  counter : BitVec 32
  mqAttr : Attr
  increments : Nat
  sends : Nat

variable {ι : Type}

def writer (own : Writer) (queue : Queue (BitVec 32)) :
    Option (Writer × Queue (BitVec 32) × List (Line ι)) :=
  match own.stage with
  | .getattr => some ({own with stage := .test,mqAttr := queue.getattr},queue,[])
  | .test =>
    some ({own with stage := if own.mqAttr.curmsgs = MQ_MAX_SIZE then .report else .increment},queue,[])
  | .report => some ({own with stage := .getattr},queue,[.reached own.mqAttr.maxmsg])
  | .increment =>
    some ({own with stage := .send,counter := own.counter+1,increments := own.increments+1},queue,[])
  | .send =>
    (queue.send own.counter).map fun next => ({own with stage := .print,sends := own.sends+1},next,[])
  | .print => some ({own with stage := .getattr},queue,[.writer own.counter])

def Writer.start : Writer := ⟨.getattr,0,⟨0,0⟩,0,0⟩

def step [DecidableEq ι] : System Writer ι → Action ι → Option (System Writer ι) :=
  MessageQueue.step writer

structure Promise (own : Writer) (queue : Queue (BitVec 32)) (history : List (BitVec 32)) : Prop where
  capacity : queue.maxmsg = MQ_MAX_SIZE
  sent : history = counted own.sends
  counter : own.counter = BitVec.ofNat 32 own.increments
  ahead : own.increments = own.sends+if own.stage = .send then 1 else 0
  seen : own.stage = .test → queue.messages.length ≤ own.mqAttr.curmsgs ∧ own.mqAttr.curmsgs ≤ MQ_MAX_SIZE
  room : own.stage = .increment ∨ own.stage = .send → queue.messages.length < MQ_MAX_SIZE

theorem promise_lasting : Lasting Promise := by
  intro own queue next history message holds received
  obtain ⟨maxmsg,messages⟩ := Queue.receive_cases queue next message received
  have shorter : queue.messages.length = next.messages.length+1 := by rw [messages,List.length_cons]
  refine ⟨maxmsg.trans holds.capacity,holds.sent,holds.counter,holds.ahead,?_,?_⟩
  · intro testing
    have bound := holds.seen testing
    omega
  · intro sending
    have bound := holds.room sending
    omega

theorem promise_kept : Kept (@writer ι) (fun _ _ => True) Promise := by
  intro own queue history ran holds _ worked
  obtain ⟨capacity,sent,counter,ahead,seen,room⟩ := holds
  unfold writer at worked
  cases stage : own.stage with
  | getattr =>
    simp only [stage,Option.some.injEq] at worked
    subst worked
    have within := queue.within
    refine Or.inl ⟨rfl,capacity,sent,counter,by simpa [stage] using ahead,?_,by simp⟩
    intro _
    simp only [Queue.getattr]
    omega
  | test =>
    simp only [stage,Option.some.injEq] at worked
    subst worked
    have bound := seen stage
    refine Or.inl ⟨rfl,capacity,sent,counter,?_,?_,?_⟩
    · simp only [stage,reduceCtorEq,if_false] at ahead
      simp only
      split <;> simpa using ahead
    · simp only
      split <;> simp
    · simp only
      split
      · simp
      · simp only [true_or,forall_const]
        omega
  | report =>
    simp only [stage,Option.some.injEq] at worked
    subst worked
    exact Or.inl ⟨rfl,capacity,sent,counter,by simpa [stage] using ahead,by simp,by simp⟩
  | increment =>
    simp only [stage,Option.some.injEq] at worked
    subst worked
    simp only [stage,reduceCtorEq,if_false] at ahead
    refine Or.inl ⟨rfl,capacity,sent,?_,by simpa using ahead,by simp,fun _ => room (Or.inl stage)⟩
    rw [counter,BitVec.ofNat_add]
    rfl
  | send =>
    simp only [stage,Option.map_eq_some_iff] at worked
    obtain ⟨next,queued,rfl⟩ := worked
    obtain ⟨_,maxmsg,_⟩ := Queue.send_cases queue next own.counter queued
    simp only [stage,if_true] at ahead
    refine Or.inr ⟨own.counter,queued,maxmsg.trans capacity,?_,counter,by simpa using ahead,by simp,by simp⟩
    rw [sent,counted_succ,counter,ahead]
  | print =>
    simp only [stage,Option.some.injEq] at worked
    subst worked
    exact Or.inl ⟨rfl,capacity,sent,counter,by simpa [stage] using ahead,by simp,by simp⟩

end LinuxCourse.MqWithoverflow

/-! `ipc/mq_ipc.c`, with processes for the threads: every process inherits the queue,
and the loops are those of `mq_withoverflow.c`. -/
namespace LinuxCourse.MqIpc
open Library MessageQueue MqWithoverflow

variable {ι : Type} [DecidableEq ι]

def writer : Writer → Queue (BitVec 32) → Option (Writer × Queue (BitVec 32) × List (Line ι)) :=
  MqWithoverflow.writer

def step : System Writer ι → Action ι → Option (System Writer ι) := MessageQueue.step writer

end LinuxCourse.MqIpc

namespace LinuxCourse.MqWithoverflow
open Library MessageQueue

variable {ι : Type} [DecidableEq ι]

/-- The Writer never meets a full queue in `mq_send`, and the numbers that it sent are
received in order, each once. -/
structure Orderly (system : System Writer ι) : Prop where
  room : system.writer.stage = .send →
    system.queue.messages.length < MQ_MAX_SIZE ∧ (step system .writer).isSome
  once : system.history.map BitVec.toNat = List.range' 1 system.writer.sends
  consecutive : system.queue.messages.map BitVec.toNat =
    List.range' (system.receipts.length+1) system.queue.messages.length
  increasing : ∀ id, ((Queue.taken system.receipts id).map BitVec.toNat).Pairwise (· < ·)

theorem promise_orderly (system : System Writer ι) (small : system.writer.increments < 2^32)
    (holds : Promise system.writer system.queue system.history) : Orderly system := by
  have sends : system.writer.sends < 2^32 := by
    have ahead := holds.ahead
    omega
  have numbers : system.history.map BitVec.toNat = List.range' 1 system.writer.sends := by
    rw [holds.sent,counted_toNat _ sends]
  have ascending : system.history.Pairwise (fun first second => first.toNat < second.toNat) := by
    rw [← List.pairwise_map (R := (· < ·)),numbers]
    exact List.pairwise_lt_range'
  refine ⟨?_,numbers,Queue.messages_consecutive _ _ _ _ numbers,?_⟩
  · intro sending
    have room := holds.room (Or.inr sending)
    refine ⟨room,?_⟩
    simp only [step,MessageQueue.step,writer,sending,Option.isSome_map]
    rw [Queue.send_isSome,holds.capacity]
    exact room
  · intro id
    rw [List.pairwise_map]
    exact Queue.taken_pairwise _ _ _ ascending id

theorem run_promise (actions : List (Action ι)) (final : System Writer ι)
    (reached : Execution.run step (initial Writer.start) actions = some final) :
    Promise final.writer final.queue final.history := by
  refine MessageQueue.run_promise writer (fun _ _ => True) Promise promise_lasting promise_kept _ final
    actions ?_ (Execution.meets_always _ _ (fun _ _ _ => trivial) _ _) reached
  exact ⟨rfl,rfl,rfl,rfl,by simp [initial,Writer.start],by simp [initial,Writer.start]⟩

/-- Both polling programs, for any number of Readers and in every state before the
counter wraps. -/
theorem polling_orderly (actions : List (Action ι)) (final : System Writer ι)
    (reached : Execution.run MqWithoverflow.step (initial Writer.start) actions = some final ∨
      Execution.run MqIpc.step (initial Writer.start) actions = some final)
    (small : final.writer.increments < 2^32) : Orderly final := by
  apply promise_orderly final small
  rcases reached with threads | processes
  · exact run_promise actions final threads
  · exact run_promise actions final processes

def twoSends : List (Action Bool) :=
  [.writer,.writer,.writer,.writer,.reader true,.writer,.writer,.writer,.writer,.writer]

/-- The second message goes to the other Reader. -/
def oneTaken : List (Action Bool) := twoSends++[.writer,.reader false]

theorem polling_orderly_two :
    (∃ final, Execution.run MqWithoverflow.step (initial Writer.start) twoSends = some final ∧
      Queue.taken final.receipts true = [1] ∧ Orderly final) ∧
    ∃ final, Execution.run MqIpc.step (initial Writer.start) oneTaken = some final ∧
      Queue.taken final.receipts false = [2] ∧ Orderly final := by
  constructor
  · have ran : (Execution.run MqWithoverflow.step (initial Writer.start) twoSends).map
        (fun final => (final.writer.increments,Queue.taken final.receipts true)) = some (2,[1]) := by
      decide +kernel
    obtain ⟨final,reached,values⟩ := Option.map_eq_some_iff.mp ran
    obtain ⟨increments,taken⟩ := Prod.mk.inj values
    exact ⟨final,reached,taken,polling_orderly _ final (Or.inl reached) (by omega)⟩
  · have ran : (Execution.run MqIpc.step (initial Writer.start) oneTaken).map
        (fun final => (final.writer.increments,Queue.taken final.receipts false)) = some (2,[2]) := by
      decide +kernel
    obtain ⟨final,reached,values⟩ := Option.map_eq_some_iff.mp ran
    obtain ⟨increments,taken⟩ := Prod.mk.inj values
    exact ⟨final,reached,taken,polling_orderly _ final (Or.inr reached) (by omega)⟩

end LinuxCourse.MqWithoverflow
