import LinuxCourse.Library.Execution
import Mathlib.Logic.Function.Basic

/-! Threads that share a mutex and one condition variable. A thread is a program
that maps its stage and the shared data to one command; `step` runs the command of
one thread, or one of the events that no thread asks for. -/
namespace LinuxCourse.Library

/-- `waiting` are the threads blocked in a wait. A wake-up moves them to `woken`, the end of
their time to `expired`, and from there they need the mutex to return. -/
structure Monitor (Thread : Type) where
  owner : Option Thread
  waiting : List Thread
  woken : List Thread
  expired : List Thread

inductive Command (Stage Shared : Type)
  | lock (next : Stage)
  | unlock (next : Stage)
  | wait (next : Stage)
  | resume (awake : Stage) (late : Option Stage)
  | signal (next : Stage)
  | broadcast (next : Stage)
  | compute (shared : Shared) (next : Stage)
  | stop

namespace Monitor

section Operations
variable {Thread : Type} [DecidableEq Thread]

def free : Monitor Thread := ⟨none,[],[],[]⟩

def lock (monitor : Monitor Thread) (thread : Thread) : Option (Monitor Thread) :=
  if monitor.owner = none then some {monitor with owner := some thread} else none

def unlock (monitor : Monitor Thread) (thread : Thread) : Option (Monitor Thread) :=
  if monitor.owner = some thread then some {monitor with owner := none} else none

def wait (monitor : Monitor Thread) (thread : Thread) : Option (Monitor Thread) :=
  if monitor.owner = some thread then
    some {monitor with owner := none,waiting := thread::monitor.waiting}
  else none

/-- Any choice of waiters that has at least one, if there is one. -/
def signal (monitor : Monitor Thread) (chosen : List Thread) : Option (Monitor Thread) :=
  if monitor.waiting = [] ∨ ∃ thread ∈ chosen, thread ∈ monitor.waiting then
    some {monitor with
      waiting := monitor.waiting.filter (· ∉ chosen)
      woken := monitor.woken++monitor.waiting.filter (· ∈ chosen)}
  else none

def broadcast (monitor : Monitor Thread) : Monitor Thread :=
  {monitor with waiting := [],woken := monitor.woken++monitor.waiting}

def spurious (monitor : Monitor Thread) (thread : Thread) : Option (Monitor Thread) :=
  if thread ∈ monitor.waiting then
    some {monitor with
      waiting := monitor.waiting.filter (· ≠ thread)
      woken := monitor.woken++[thread]}
  else none

def timeout (monitor : Monitor Thread) (thread : Thread) : Option (Monitor Thread) :=
  if thread ∈ monitor.waiting then
    some {monitor with
      waiting := monitor.waiting.filter (· ≠ thread)
      expired := monitor.expired++[thread]}
  else none

def resumeWoken (monitor : Monitor Thread) (thread : Thread) : Option (Monitor Thread) :=
  if monitor.owner = none ∧ thread ∈ monitor.woken then
    some {monitor with owner := some thread,woken := monitor.woken.filter (· ≠ thread)}
  else none

def resumeExpired (monitor : Monitor Thread) (thread : Thread) : Option (Monitor Thread) :=
  if monitor.owner = none ∧ thread ∈ monitor.expired then
    some {monitor with owner := some thread,expired := monitor.expired.filter (· ≠ thread)}
  else none

end Operations

structure State (Thread Stage Shared : Type) where
  monitor : Monitor Thread
  stages : Thread → Stage
  shared : Shared

/-- `chosen` are the threads that a signal picks, if the command is one. -/
inductive Action (Thread : Type)
  | run (thread : Thread) (chosen : List Thread)
  | spurious (thread : Thread)
  | timeout (thread : Thread)
  deriving DecidableEq

variable {Thread Stage Shared : Type} [DecidableEq Thread]

def State.move (state : State Thread Stage Shared) (thread : Thread) (stage : Stage)
    (monitor : Monitor Thread) : State Thread Stage Shared :=
  {state with monitor,stages := Function.update state.stages thread stage}

def perform (state : State Thread Stage Shared) (thread : Thread) (chosen : List Thread) :
    Command Stage Shared → Option (State Thread Stage Shared)
  | .lock next => (state.monitor.lock thread).map (state.move thread next)
  | .unlock next => (state.monitor.unlock thread).map (state.move thread next)
  | .wait next => (state.monitor.wait thread).map (state.move thread next)
  | .resume awake late =>
    match state.monitor.resumeWoken thread,late with
    | some monitor,_ => some (state.move thread awake monitor)
    | none,some late => (state.monitor.resumeExpired thread).map (state.move thread late)
    | none,none => none
  | .signal next => (state.monitor.signal chosen).map (state.move thread next)
  | .broadcast next => some (state.move thread next state.monitor.broadcast)
  | .compute shared next => some {state.move thread next state.monitor with shared}
  | .stop => none

/-- Only a wait that has a time limit can run out of time. -/
def step (program : Thread → Stage → Shared → Command Stage Shared)
    (state : State Thread Stage Shared) : Action Thread → Option (State Thread Stage Shared)
  | .run thread chosen =>
    perform state thread chosen (program thread (state.stages thread) state.shared)
  | .spurious thread =>
    (state.monitor.spurious thread).map fun monitor => {state with monitor}
  | .timeout thread =>
    match program thread (state.stages thread) state.shared with
    | .resume _ (some _) => (state.monitor.timeout thread).map fun monitor => {state with monitor}
    | _ => none

def run (program : Thread → Stage → Shared → Command Stage Shared) :
    State Thread Stage Shared → List (Action Thread) → Option (State Thread Stage Shared) :=
  Execution.run (step program)

theorem move_self (state : State Thread Stage Shared) (thread : Thread) (stage : Stage)
    (monitor : Monitor Thread) : (state.move thread stage monitor).stages thread = stage := by
  simp [State.move]

theorem move_other (state : State Thread Stage Shared) (thread other : Thread) (stage : Stage)
    (monitor : Monitor Thread) (different : other ≠ thread) :
    (state.move thread stage monitor).stages other = state.stages other := by
  simp [State.move,different]

inductive Performed (state : State Thread Stage Shared) (thread : Thread) :
    Command Stage Shared → State Thread Stage Shared → Prop
  | lock (next : Stage) (unowned : state.monitor.owner = none) :
    Performed state thread (.lock next)
      (state.move thread next {state.monitor with owner := some thread})
  | unlock (next : Stage) (own : state.monitor.owner = some thread) :
    Performed state thread (.unlock next) (state.move thread next {state.monitor with owner := none})
  | wait (next : Stage) (own : state.monitor.owner = some thread) :
    Performed state thread (.wait next) (state.move thread next
      {state.monitor with owner := none,waiting := thread::state.monitor.waiting})
  | awake (awake : Stage) (late : Option Stage) (unowned : state.monitor.owner = none) :
    Performed state thread (.resume awake late) (state.move thread awake
      {state.monitor with
        owner := some thread
        woken := state.monitor.woken.filter (· ≠ thread)})
  | late (awake late : Stage) (unowned : state.monitor.owner = none) :
    Performed state thread (.resume awake (some late)) (state.move thread late
      {state.monitor with
        owner := some thread
        expired := state.monitor.expired.filter (· ≠ thread)})
  | signal (next : Stage) (chosen : List Thread)
      (reached : state.monitor.waiting = [] ∨ ∃ thread ∈ chosen, thread ∈ state.monitor.waiting) :
    Performed state thread (.signal next) (state.move thread next
      {state.monitor with
        waiting := state.monitor.waiting.filter (· ∉ chosen)
        woken := state.monitor.woken++state.monitor.waiting.filter (· ∈ chosen)})
  | broadcast (next : Stage) :
    Performed state thread (.broadcast next) (state.move thread next state.monitor.broadcast)
  | compute (shared : Shared) (next : Stage) :
    Performed state thread (.compute shared next) {state.move thread next state.monitor with shared}

theorem enabled {α : Type} {condition : Prop} [Decidable condition] {value result : α}
    (taken : (if condition then some value else none) = some result) : condition ∧ value = result := by
  simpa using taken

theorem perform_cases (state next : State Thread Stage Shared) (thread : Thread) (chosen : List Thread)
    (command : Command Stage Shared) (performed : perform state thread chosen command = some next) :
    Performed state thread command next := by
  cases command with
  | lock stage =>
    obtain ⟨monitor,locked,rfl⟩ := Option.map_eq_some_iff.mp performed
    obtain ⟨unowned,rfl⟩ := enabled locked
    exact .lock stage unowned
  | unlock stage =>
    obtain ⟨monitor,unlocked,rfl⟩ := Option.map_eq_some_iff.mp performed
    obtain ⟨own,rfl⟩ := enabled unlocked
    exact .unlock stage own
  | wait stage =>
    obtain ⟨monitor,waited,rfl⟩ := Option.map_eq_some_iff.mp performed
    obtain ⟨own,rfl⟩ := enabled waited
    exact .wait stage own
  | resume awake late =>
    simp only [perform] at performed
    split at performed
    · rename_i monitor _ woken
      obtain ⟨⟨unowned,_⟩,rfl⟩ := enabled woken
      obtain rfl := Option.some.inj performed
      exact .awake awake _ unowned
    · rename_i stage _
      obtain ⟨monitor,expired,rfl⟩ := Option.map_eq_some_iff.mp performed
      obtain ⟨⟨unowned,_⟩,rfl⟩ := enabled expired
      exact .late awake stage unowned
    · contradiction
  | signal stage =>
    obtain ⟨monitor,signalled,rfl⟩ := Option.map_eq_some_iff.mp performed
    obtain ⟨reached,rfl⟩ := enabled signalled
    exact .signal stage chosen reached
  | broadcast stage =>
    obtain rfl := Option.some.inj performed
    exact .broadcast stage
  | compute shared stage =>
    obtain rfl := Option.some.inj performed
    exact .compute shared stage
  | stop => contradiction

/-- Who returns late from a wait has run out of time and was not woken. -/
theorem resume_late (state next : State Thread Stage Shared) (thread : Thread) (chosen : List Thread)
    (awake late : Stage)
    (resumed : perform state thread chosen (.resume awake (some late)) = some next) :
    next.shared = state.shared ∧ (next.stages thread = awake ∨
      thread ∈ state.monitor.expired ∧ thread ∉ state.monitor.woken ∧ state.monitor.owner = none) := by
  simp only [perform] at resumed
  split at resumed
  · obtain rfl := Option.some.inj resumed
    exact ⟨rfl,Or.inl (move_self state thread awake _)⟩
  · rename_i stage asleep same
    obtain rfl := Option.some.inj same
    obtain ⟨monitor,expired,rfl⟩ := Option.map_eq_some_iff.mp resumed
    obtain ⟨⟨unowned,member⟩,_⟩ := enabled expired
    refine ⟨rfl,Or.inr ⟨member,?_,unowned⟩⟩
    intro woken
    rw [Monitor.resumeWoken,if_pos ⟨unowned,woken⟩] at asleep
    contradiction
  · contradiction

def Disturbed (state next : State Thread Stage Shared) : Prop :=
  next.stages = state.stages ∧ next.shared = state.shared ∧
    next.monitor.owner = state.monitor.owner ∧ next.monitor.waiting ⊆ state.monitor.waiting

theorem step_cases (program : Thread → Stage → Shared → Command Stage Shared)
    (state next : State Thread Stage Shared) (action : Action Thread)
    (stepped : step program state action = some next) :
    (∃ thread chosen, action = .run thread chosen ∧
      Performed state thread (program thread (state.stages thread) state.shared) next) ∨
      Disturbed state next := by
  cases action with
  | run thread chosen =>
    exact Or.inl ⟨thread,chosen,rfl,perform_cases state next thread chosen _ stepped⟩
  | spurious thread =>
    obtain ⟨monitor,woken,rfl⟩ := Option.map_eq_some_iff.mp stepped
    obtain ⟨_,rfl⟩ := enabled woken
    exact Or.inr ⟨rfl,rfl,rfl,List.filter_subset_self _⟩
  | timeout thread =>
    simp only [step] at stepped
    split at stepped
    · obtain ⟨monitor,expired,rfl⟩ := Option.map_eq_some_iff.mp stepped
      obtain ⟨_,rfl⟩ := enabled expired
      exact Or.inr ⟨rfl,rfl,rfl,List.filter_subset_self _⟩
    · contradiction

end Monitor
end LinuxCourse.Library
