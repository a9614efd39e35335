import LinuxCourse.Library.Execution
import LinuxCourse.Library.Queue
import Mathlib.Algebra.Ring.Nat
import Mathlib.Logic.Function.Basic

/-! One Writer and any number of Readers on a message queue, as in
`threads/reader_writer/mq_withoverflow.c`, `mq_withoverflow_nonblock.c` and
`ipc/mq_ipc.c`. The Readers of the three programs are the same; the Writer is a
parameter, with its own locals. `receipts` logs what each `mq_receive` returned. -/
namespace LinuxCourse.MessageQueue
open Library

def MQ_MAX_SIZE : Nat := 10

inductive Line (ι : Type)
  | reached (maxmsg : Nat)
  | writer (counter : BitVec 32)
  | returned (ret : Int) (counter : BitVec 32)
  | reader (id : ι) (counter : BitVec 32) (remaining : Nat)
  deriving DecidableEq

inductive Stage
  | receive
  | getattr
  | print
  deriving DecidableEq

structure Reader where
  stage : Stage
  counter : BitVec 32
  mqAttr : Attr

structure System (Writer ι : Type) where
  queue : Queue (BitVec 32)
  writer : Writer
  readers : ι → Reader
  receipts : List (ι × BitVec 32)
  output : List (Line ι)

inductive Action (ι : Type)
  | writer
  | reader (id : ι)
  deriving DecidableEq

variable {Writer ι : Type} [DecidableEq ι]

def System.history (system : System Writer ι) : List (BitVec 32) :=
  Queue.history system.receipts system.queue

/-- A Reader that finds the queue empty is blocked in `mq_receive`. -/
def reader (id : ι) (system : System Writer ι) : Option (System Writer ι) :=
  let own := system.readers id
  match own.stage with
  | .receive =>
    system.queue.receive.map fun received => {system with
      queue := received.2
      readers := Function.update system.readers id {own with stage := .getattr,counter := received.1}
      receipts := system.receipts++[(id,received.1)]}
  | .getattr =>
    some {system with
      readers := Function.update system.readers id
        {own with stage := .print,mqAttr := system.queue.getattr}}
  | .print =>
    some {system with
      readers := Function.update system.readers id {own with stage := .receive}
      output := system.output++[.reader id own.counter own.mqAttr.curmsgs]}

def step (writer : Writer → Queue (BitVec 32) → Option (Writer × Queue (BitVec 32) × List (Line ι)))
    (system : System Writer ι) : Action ι → Option (System Writer ι)
  | .writer =>
    (writer system.writer system.queue).map fun ran => {system with
      writer := ran.1
      queue := ran.2.1
      output := system.output++ran.2.2}
  | .reader id => reader id system

def initial (writer : Writer) : System Writer ι :=
  ⟨Queue.create MQ_MAX_SIZE,writer,fun _ => ⟨.receive,0,⟨0,0⟩⟩,[],[]⟩

theorem reader_cases (id : ι) (system next : System Writer ι) (stepped : reader id system = some next) :
    next.writer = system.writer ∧
      ((next.queue = system.queue ∧ next.receipts = system.receipts) ∨
      ∃ message, system.queue.receive = some (message,next.queue) ∧
        next.receipts = system.receipts++[(id,message)]) := by
  unfold reader at stepped
  cases stage : (system.readers id).stage with
  | receive =>
    simp only [stage,Option.map_eq_some_iff] at stepped
    obtain ⟨⟨message,queue⟩,received,rfl⟩ := stepped
    exact ⟨rfl,Or.inr ⟨message,received,rfl⟩⟩
  | getattr =>
    simp only [stage,Option.some.injEq] at stepped
    subst stepped
    exact ⟨rfl,Or.inl ⟨rfl,rfl⟩⟩
  | print =>
    simp only [stage,Option.some.injEq] at stepped
    subst stepped
    exact ⟨rfl,Or.inl ⟨rfl,rfl⟩⟩

section Promises
variable (writer : Writer → Queue (BitVec 32) → Option (Writer × Queue (BitVec 32) × List (Line ι)))
  (allowed : Writer → Queue (BitVec 32) → Prop)
  (promise : Writer → Queue (BitVec 32) → List (BitVec 32) → Prop)

/-- A promise about the Writer's locals, the queue and all that was sent survives what
the Readers do. -/
def Lasting : Prop :=
  ∀ own queue next history message, promise own queue history →
    queue.receive = some (message,next) → promise own next history

/-- The Writer's own steps keep the promise; the history grows by what a step sends. -/
def Kept : Prop :=
  ∀ own queue history ran, promise own queue history → allowed own queue →
    writer own queue = some ran →
    (ran.2.1 = queue ∧ promise ran.1 queue history) ∨
    ∃ message, queue.send message = some ran.2.1 ∧ promise ran.1 ran.2.1 (history++[message])

theorem step_promise (lasting : Lasting promise) (kept : Kept writer allowed promise)
    (system next : System Writer ι) (action : Action ι)
    (holds : promise system.writer system.queue system.history)
    (admitted : action = .writer → allowed system.writer system.queue)
    (stepped : step writer system action = some next) :
    promise next.writer next.queue next.history := by
  cases action with
  | writer =>
    obtain ⟨ran,worked,rfl⟩ := Option.map_eq_some_iff.mp stepped
    rcases kept _ _ _ ran holds (admitted rfl) worked with ⟨same,after⟩ | ⟨message,sent,after⟩
    · simp only [System.history,same]
      exact after
    · simp only [System.history,Queue.history_send _ _ _ _ sent]
      exact after
  | reader id =>
    obtain ⟨writes,⟨queue,receipts⟩ | ⟨message,received,receipts⟩⟩ := reader_cases id system next stepped
    · rw [System.history,writes,queue,receipts]
      exact holds
    · rw [System.history,writes,receipts,Queue.history_receive _ _ _ _ _ received]
      exact lasting _ _ _ _ _ holds received

theorem run_promise (lasting : Lasting promise) (kept : Kept writer allowed promise)
    (system final : System Writer ι) (actions : List (Action ι))
    (holds : promise system.writer system.queue system.history)
    (met : Execution.Meets (step writer)
      (fun state action => action = .writer → allowed state.writer state.queue) system actions)
    (reached : Execution.run (step writer) system actions = some final) :
    promise final.writer final.queue final.history := by
  refine Execution.run_meets (step writer) _
    (fun state => promise state.writer state.queue state.history) ?_ actions system final holds met reached
  intro state action next before admitted stepped
  exact step_promise writer allowed promise lasting kept state next action before admitted stepped

end Promises

def counted (count : Nat) : List (BitVec 32) := (List.range' 1 count).map (BitVec.ofNat 32)

theorem counted_succ (count : Nat) : counted (count+1) = counted count++[BitVec.ofNat 32 (count+1)] := by
  rw [counted,counted,List.range'_1_concat,List.map_append,List.map_cons,List.map_nil,Nat.add_comm 1]

theorem counted_toNat (count : Nat) (small : count < 2^32) :
    (counted count).map BitVec.toNat = List.range' 1 count := by
  have same : ∀ number ∈ List.range' 1 count, (BitVec.toNat ∘ BitVec.ofNat 32) number = id number := by
    intro number member
    have bound := (List.mem_range'_1.mp member).2
    rw [Function.comp_apply,BitVec.toNat_ofNat,Nat.mod_eq_of_lt (by omega),id_eq]
  rw [counted,List.map_map,List.map_congr_left same,List.map_id]

end LinuxCourse.MessageQueue
