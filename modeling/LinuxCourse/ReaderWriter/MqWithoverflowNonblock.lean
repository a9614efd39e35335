import LinuxCourse.ReaderWriter.MessageQueue
import Mathlib.Data.List.Perm.Basic

/-! The Writer of `threads/reader_writer/mq_withoverflow_nonblock.c`. It counts up
before it knows whether there is room, so a number that the queue refuses is
skipped: the next round sends the one after it. -/
namespace LinuxCourse.MqWithoverflowNonblock
open Library MessageQueue

def EAGAIN : Int := 11

inductive Stage
  | increment
  | send
  | test
  | getattr
  | report
  | print
  deriving DecidableEq

/-- `increments`, `sends` and `refused` record what the Writer has done; the program
has none of them. -/
structure Writer where
  stage : Stage
  counter : BitVec 32
  mqAttr : Attr
  ret : Int
  errno : Int
  increments : Nat
  sends : Nat
  refused : List (BitVec 32)

variable {ι : Type}

/-- `mq_send` on a descriptor that does not block, and then the test of `errno`, which
a call that succeeds leaves as it was. -/
def writer (own : Writer) (queue : Queue (BitVec 32)) :
    Option (Writer × Queue (BitVec 32) × List (Line ι)) :=
  match own.stage with
  | .increment =>
    some ({own with stage := .send,counter := own.counter+1,increments := own.increments+1},queue,[])
  | .send =>
    match queue.send own.counter with
    | some next => some ({own with stage := .test,ret := 0,sends := own.sends+1},next,[])
    | none =>
      some ({own with stage := .test,ret := -1,errno := EAGAIN,refused := own.refused++[own.counter]},
        queue,[])
  | .test => some ({own with stage := if own.errno = EAGAIN then .getattr else .print},queue,[])
  | .getattr => some ({own with stage := .report,mqAttr := queue.getattr},queue,[])
  | .report => some ({own with stage := .increment},queue,[.reached own.mqAttr.maxmsg])
  | .print => some ({own with stage := .increment},queue,[.returned own.ret own.counter])

def Writer.start : Writer := ⟨.increment,0,⟨0,0⟩,0,0,0,0,[]⟩

def step [DecidableEq ι] : System Writer ι → Action ι → Option (System Writer ι) :=
  MessageQueue.step writer

/-- The steps that matter to what is sent: counting up, and `mq_send` with either outcome. -/
theorem writer_steps (own : Writer) (queue : Queue (BitVec 32))
    (ran : Writer × Queue (BitVec 32) × List (Line ι)) (worked : writer own queue = some ran) :
    (own.stage = .increment ∧ ran.2.1 = queue ∧
      ran.1 = {own with stage := .send,counter := own.counter+1,increments := own.increments+1}) ∨
    (own.stage = .send ∧ queue.send own.counter = some ran.2.1 ∧
      ran.1 = {own with stage := .test,ret := 0,sends := own.sends+1}) ∨
    (own.stage = .send ∧ queue.send own.counter = none ∧ ran.2.1 = queue ∧
      ran.1 = {own with
        stage := .test
        ret := -1
        errno := EAGAIN
        refused := own.refused++[own.counter]}) ∨
    (own.stage ≠ .send ∧ ran.2.1 = queue ∧
      ∃ stage mqAttr, stage ≠ .send ∧ ran.1 = {own with stage := stage,mqAttr := mqAttr}) := by
  unfold writer at worked
  cases stage : own.stage with
  | increment =>
    simp only [stage,Option.some.injEq] at worked
    subst worked
    exact Or.inl ⟨rfl,rfl,rfl⟩
  | send =>
    simp only [stage] at worked
    cases queued : queue.send own.counter with
    | some next =>
      simp only [queued,Option.some.injEq] at worked
      subst worked
      exact Or.inr (Or.inl ⟨rfl,rfl,rfl⟩)
    | none =>
      simp only [queued,Option.some.injEq] at worked
      subst worked
      exact Or.inr (Or.inr (Or.inl ⟨rfl,rfl,rfl,rfl⟩))
  | test =>
    simp only [stage,Option.some.injEq] at worked
    subst worked
    refine Or.inr (Or.inr (Or.inr ⟨by simp,rfl,_,own.mqAttr,?_,rfl⟩))
    split <;> simp
  | getattr | report | print =>
    simp only [stage,Option.some.injEq] at worked
    subst worked
    exact Or.inr (Or.inr (Or.inr ⟨by simp,rfl,_,_,by simp,rfl⟩))

def Writer.attempts (own : Writer) : Nat := own.sends+own.refused.length

/-- Each number that was tried is received, queued or refused, and those that were
not refused stay in order. -/
structure Accounted (own : Writer) (queue : Queue (BitVec 32)) (history : List (BitVec 32)) : Prop where
  capacity : queue.maxmsg = MQ_MAX_SIZE
  counter : own.counter = BitVec.ofNat 32 own.increments
  ahead : own.increments = own.attempts+if own.stage = .send then 1 else 0
  sends : history.length = own.sends
  ordered : history.Sublist (counted own.attempts)
  complete : (history++own.refused).Perm (counted own.attempts)

theorem accounted_lasting : Lasting Accounted := by
  intro own queue next history message holds received
  obtain ⟨maxmsg,_⟩ := Queue.receive_cases queue next message received
  exact ⟨maxmsg.trans holds.capacity,holds.counter,holds.ahead,holds.sends,holds.ordered,holds.complete⟩

theorem accounted_sent (own : Writer) (queue next : Queue (BitVec 32)) (history : List (BitVec 32))
    (holds : Accounted own queue history) (stage : own.stage = .send)
    (queued : queue.send own.counter = some next) :
    Accounted {own with stage := .test,ret := 0,sends := own.sends+1} next (history++[own.counter]) := by
  obtain ⟨capacity,counter,ahead,sends,ordered,complete⟩ := holds
  simp only [stage,if_true] at ahead
  obtain ⟨_,maxmsg,_⟩ := Queue.send_cases queue next own.counter queued
  have number : own.counter = BitVec.ofNat 32 (own.attempts+1) := by rw [counter,ahead]
  have tried : ({own with stage := .test,ret := 0,sends := own.sends+1} : Writer).attempts =
      own.attempts+1 := by
    simp only [Writer.attempts]
    omega
  refine ⟨maxmsg.trans capacity,counter,?_,by simp [sends],?_,?_⟩
  · rw [tried]
    simpa using ahead
  · rw [tried,counted_succ,← number]
    exact ordered.append (List.Sublist.refl _)
  · rw [tried,counted_succ,← number,List.append_assoc]
    refine (List.Perm.append_left history List.perm_append_comm).trans ?_
    rw [← List.append_assoc]
    exact complete.append_right _

theorem accounted_refused (own : Writer) (queue : Queue (BitVec 32)) (history : List (BitVec 32))
    (holds : Accounted own queue history) (stage : own.stage = .send) :
    Accounted {own with
      stage := .test
      ret := -1
      errno := EAGAIN
      refused := own.refused++[own.counter]} queue history := by
  obtain ⟨capacity,counter,ahead,sends,ordered,complete⟩ := holds
  simp only [stage,if_true] at ahead
  have number : own.counter = BitVec.ofNat 32 (own.attempts+1) := by rw [counter,ahead]
  have tried : ({own with
      stage := .test
      ret := -1
      errno := EAGAIN
      refused := own.refused++[own.counter]} : Writer).attempts = own.attempts+1 := by
    simp only [Writer.attempts,List.length_append,List.length_singleton]
    omega
  refine ⟨capacity,counter,?_,sends,?_,?_⟩
  · rw [tried]
    simpa using ahead
  · rw [tried,counted_succ]
    exact ordered.trans (List.sublist_append_left _ _)
  · rw [tried,counted_succ,← number,← List.append_assoc]
    exact complete.append_right _

theorem accounted_kept : Kept (@writer ι) (fun _ _ => True) Accounted := by
  intro own queue history ⟨after,next,lines⟩ holds _ worked
  have ⟨capacity,counter,ahead,sends,ordered,complete⟩ := holds
  rcases writer_steps own queue _ worked with
    ⟨stage,rfl,rfl⟩ | ⟨stage,queued,rfl⟩ | ⟨stage,_,rfl,rfl⟩ | ⟨stage,rfl,later,_,idle,rfl⟩
  · simp only [stage,reduceCtorEq,if_false] at ahead
    refine Or.inl ⟨rfl,capacity,?_,?_,sends,ordered,complete⟩
    · rw [counter,BitVec.ofNat_add]
      rfl
    · simp only [ahead,Writer.attempts,if_true,Nat.add_zero]
  · exact Or.inr ⟨own.counter,queued,accounted_sent own queue next history holds stage queued⟩
  · exact Or.inl ⟨rfl,accounted_refused own next history holds stage⟩
  · refine Or.inl ⟨rfl,capacity,counter,?_,sends,ordered,complete⟩
    rw [if_neg stage] at ahead
    rw [if_neg idle]
    exact ahead

theorem run_accounted [DecidableEq ι] (actions : List (Action ι)) (final : System Writer ι)
    (reached : Execution.run step (initial Writer.start) actions = some final) :
    Accounted final.writer final.queue final.history := by
  refine MessageQueue.run_promise writer (fun _ _ => True) Accounted accounted_lasting accounted_kept _
    final actions ?_ (Execution.meets_always _ _ (fun _ _ _ => trivial) _ _) reached
  exact ⟨rfl,rfl,rfl,rfl,List.Sublist.refl _,List.Perm.refl _⟩

def Room (own : Writer) (queue : Queue (BitVec 32)) : Prop :=
  own.stage = .send → queue.messages.length < MQ_MAX_SIZE

instance (own : Writer) (queue : Queue (BitVec 32)) : Decidable (Room own queue) :=
  inferInstanceAs (Decidable (_ → _))

def Unrefused (own : Writer) (queue : Queue (BitVec 32)) (_ : List (BitVec 32)) : Prop :=
  queue.maxmsg = MQ_MAX_SIZE ∧ own.refused = []

theorem unrefused_lasting : Lasting Unrefused := by
  intro own queue next history message ⟨capacity,refused⟩ received
  obtain ⟨maxmsg,_⟩ := Queue.receive_cases queue next message received
  exact ⟨maxmsg.trans capacity,refused⟩

theorem unrefused_kept : Kept (@writer ι) Room Unrefused := by
  intro own queue history ⟨after,next,lines⟩ ⟨capacity,refused⟩ room worked
  rcases writer_steps own queue _ worked with
    ⟨_,rfl,rfl⟩ | ⟨_,queued,rfl⟩ | ⟨stage,full,_⟩ | ⟨_,rfl,_,_,_,rfl⟩
  · exact Or.inl ⟨rfl,capacity,refused⟩
  · obtain ⟨_,maxmsg,_⟩ := Queue.send_cases queue next own.counter queued
    exact Or.inr ⟨own.counter,queued,maxmsg.trans capacity,refused⟩
  · have accepted := (Queue.send_isSome queue own.counter).mpr (by rw [capacity]; exact room stage)
    rw [full] at accepted
    contradiction
  · exact Or.inl ⟨rfl,capacity,refused⟩

/-- No number is lost in a run in which each `mq_send` finds room. -/
theorem gap_free_when [DecidableEq ι] (actions : List (Action ι)) (final : System Writer ι)
    (room : Execution.Meets step
      (fun state action => action = .writer → Room state.writer state.queue)
      (initial Writer.start) actions)
    (reached : Execution.run step (initial Writer.start) actions = some final)
    (small : final.writer.increments < 2^32) :
    ∃ k, final.history.map BitVec.toNat = List.range' 1 k := by
  obtain ⟨_,refused⟩ := MessageQueue.run_promise writer Room Unrefused unrefused_lasting
    unrefused_kept _ final actions ⟨rfl,rfl⟩ room reached
  obtain ⟨_,_,ahead,sends,ordered,_⟩ := run_accounted actions final reached
  have attempts : final.writer.attempts = final.writer.sends := by
    rw [Writer.attempts,refused,List.length_nil,Nat.add_zero]
  rw [attempts] at ahead ordered
  have whole : final.history = counted final.writer.sends :=
    ordered.eq_of_length (by rw [sends,counted,List.length_map,List.length_range'])
  refine ⟨final.writer.sends,?_⟩
  rw [whole,counted_toNat _ (by omega)]

def oneSend : List (Action Bool) := [.writer,.writer,.writer,.reader false,.writer]

theorem gap_free_when_one : ∃ final,
    Execution.run step (initial Writer.start) oneSend = some final ∧
    Queue.taken final.receipts false = [1] ∧ ∃ k, final.history.map BitVec.toNat = List.range' 1 k := by
  have ran : (Execution.run step (initial Writer.start) oneSend).map
      (fun final => (final.writer.increments,Queue.taken final.receipts false)) = some (1,[1]) := by
    decide +kernel
  obtain ⟨final,reached,values⟩ := Option.map_eq_some_iff.mp ran
  obtain ⟨increments,taken⟩ := Prod.mk.inj values
  exact ⟨final,reached,taken,gap_free_when _ final (by decide +kernel) reached (by omega)⟩

/-- Ten rounds fill the queue, the eleventh `mq_send` is refused, and the twelfth is not. -/
def twelveRounds : List (Action Bool) :=
  List.replicate 45 .writer++[.reader false,.writer,.writer]

theorem eleven_skipped : ∃ final,
    Execution.run step (initial Writer.start) twelveRounds = some final ∧
    final.writer.increments < 2^32 ∧
    ¬ ∃ k, final.history.map BitVec.toNat = List.range' 1 k := by
  have ran : (Execution.run step (initial Writer.start) twelveRounds).map
      (fun final => (final.writer.increments,final.history.map BitVec.toNat)) =
      some (12,[1,2,3,4,5,6,7,8,9,10,12]) := by
    decide +kernel
  obtain ⟨final,reached,values⟩ := Option.map_eq_some_iff.mp ran
  obtain ⟨increments,numbers⟩ := Prod.mk.inj values
  refine ⟨final,reached,by omega,?_⟩
  rintro ⟨k,counted⟩
  rw [numbers] at counted
  have length : 11 = k := by simpa using congrArg List.length counted
  rw [← length] at counted
  contradiction

end LinuxCourse.MqWithoverflowNonblock
