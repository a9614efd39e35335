import LinuxCourse.Library.BoundedPipe
import LinuxCourse.Library.Execution
import Mathlib.Logic.Function.Basic

/-! `execute` of `processes/pipe.cpp` after a `fork` that succeeds, together with its child.
The child runs a list of writes, and each is done in as many pieces as the pipe asks for. -/
namespace LinuxCourse.Pipe
open Library

inductive Stream
  | out
  | err
  deriving DecidableEq

/-- What the parent is at: closing its write end of a pipe, in `waitpid`, or in the loop
that reads a pipe to its end. -/
inductive Parent
  | close (stream : Stream)
  | wait
  | read (stream : Stream)
  | done
  deriving DecidableEq

structure State where
  pipes : Stream → BoundedPipe
  holds : Stream → Bool
  parent : Parent
  script : List (Stream × List UInt8)
  exited : Bool
  received : Stream → List (List UInt8)

def READ_SIZE : Nat := 256/8

/-- A read of an empty pipe returns nothing once neither process holds its write end, and
does not return before. -/
def execute (state : State) (count : Nat) : Option State :=
  match state.parent with
  | .close .out =>
    some {state with holds := Function.update state.holds .out false,parent := .close .err}
  | .close .err => some {state with holds := Function.update state.holds .err false,parent := .wait}
  | .wait => if state.exited = true then some {state with parent := .read .out} else none
  | .read stream =>
    if (state.pipes stream).bytes = [] then
      if state.holds stream = false ∧ state.exited = true then
        some {state with
          parent := match stream with
            | .out => .read .err
            | .err => .done}
      else none
    else if 0 < count ∧ count ≤ READ_SIZE then
      some {state with
        pipes := Function.update state.pipes stream ((state.pipes stream).drop count)
        received := Function.update state.received stream
          (state.received stream++[(state.pipes stream).bytes.take count])}
    else none
  | .done => none

def child (state : State) (count : Nat) : Option State :=
  if state.exited = true then none
  else
    match state.script with
    | [] => some {state with exited := true}
    | (_,[])::later => some {state with script := later}
    | (stream,byte::rest)::later =>
      if 0 < count then
        ((state.pipes stream).put ((byte::rest).take count)).map fun pipe => {state with
          pipes := Function.update state.pipes stream pipe
          script := (stream,(byte::rest).drop count)::later}
      else none

/-- `count` is how many bytes a read or a piece of a write moves. -/
inductive Action
  | parent (count : Nat)
  | child (count : Nat)
  deriving DecidableEq

def step (state : State) : Action → Option State
  | .parent count => execute state count
  | .child count => child state count

def run : State → List Action → Option State := Execution.run step

def initial (capacity : Stream → Nat) (script : List (Stream × List UInt8)) : State :=
  ⟨fun stream => .empty (capacity stream),fun _ => true,.close .out,script,false,fun _ => []⟩

/-- The child is in a write to a full pipe, the parent in `waitpid` or in a read of the
other pipe, which is empty. -/
def Deadlocked (state : State) : Prop :=
  ∃ stream byte rest later, state.exited = false ∧ state.script = (stream,byte::rest)::later ∧
    (state.pipes stream).bytes.length = (state.pipes stream).capacity ∧
    (state.parent = .wait ∨
      ∃ other, other ≠ stream ∧ state.parent = .read other ∧ (state.pipes other).bytes = [])

theorem deadlocked_stuck (state : State) (deadlocked : Deadlocked state) (action : Action) :
    step state action = none := by
  obtain ⟨stream,byte,rest,later,running,script,full,blocked⟩ := deadlocked
  cases action with
  | parent count =>
    rcases blocked with waits | ⟨other,_,reads,empty⟩
    · simp [step,execute,waits,running]
    · simp [step,execute,reads,empty,running]
  | child count =>
    simp only [step,child,running,script,Bool.false_eq_true,if_false]
    split
    · rename_i positive
      have some : 0 < ((byte::rest).take count).length := by
        rw [List.length_take]
        exact Nat.lt_min.mpr ⟨positive,Nat.succ_pos _⟩
      rw [BoundedPipe.put_full _ _ full some]
      rfl
    · rfl

theorem execute_steps (state next : State) (count : Nat) (stepped : execute state count = some next) :
    (state.parent = .close .out ∧
      next = {state with holds := Function.update state.holds .out false,parent := .close .err}) ∨
    (state.parent = .close .err ∧
      next = {state with holds := Function.update state.holds .err false,parent := .wait}) ∨
    (state.parent = .wait ∧ state.exited = true ∧ next = {state with parent := .read .out}) ∨
    ∃ stream, state.parent = .read stream ∧
      (((state.pipes stream).bytes = [] ∧ state.holds stream = false ∧ state.exited = true ∧
        next = {state with
          parent := match stream with
            | .out => .read .err
            | .err => .done}) ∨
      ((state.pipes stream).bytes ≠ [] ∧ 0 < count ∧ count ≤ READ_SIZE ∧
        next = {state with
          pipes := Function.update state.pipes stream ((state.pipes stream).drop count)
          received := Function.update state.received stream
            (state.received stream++[(state.pipes stream).bytes.take count])})) := by
  unfold execute at stepped
  split at stepped
  · rename_i closing
    exact Or.inl ⟨closing,(Option.some.inj stepped).symm⟩
  · rename_i closing
    exact Or.inr (Or.inl ⟨closing,(Option.some.inj stepped).symm⟩)
  · rename_i waits
    split at stepped
    · rename_i ended
      exact Or.inr (Or.inr (Or.inl ⟨waits,ended,(Option.some.inj stepped).symm⟩))
    · contradiction
  · rename_i stream reading
    refine Or.inr (Or.inr (Or.inr ⟨stream,reading,?_⟩))
    split at stepped
    · rename_i empty
      split at stepped
      · rename_i ended
        exact Or.inl ⟨empty,ended.1,ended.2,(Option.some.inj stepped).symm⟩
      · contradiction
    · rename_i present
      split at stepped
      · rename_i asked
        exact Or.inr ⟨present,asked.1,asked.2,(Option.some.inj stepped).symm⟩
      · contradiction
  · contradiction

theorem child_steps (state next : State) (count : Nat) (stepped : child state count = some next) :
    state.exited = false ∧
    ((state.script = [] ∧ next = {state with exited := true}) ∨
    (∃ stream later, state.script = (stream,[])::later ∧ next = {state with script := later}) ∨
    ∃ stream byte rest later pipe, state.script = (stream,byte::rest)::later ∧ 0 < count ∧
      (state.pipes stream).put ((byte::rest).take count) = some pipe ∧
      next = {state with
        pipes := Function.update state.pipes stream pipe
        script := (stream,(byte::rest).drop count)::later}) := by
  unfold child at stepped
  split at stepped
  · contradiction
  · rename_i running
    refine ⟨Bool.eq_false_iff.mpr running,?_⟩
    split at stepped
    · rename_i script
      exact Or.inl ⟨script,(Option.some.inj stepped).symm⟩
    · rename_i stream later script
      exact Or.inr (Or.inl ⟨stream,later,script,(Option.some.inj stepped).symm⟩)
    · rename_i stream byte rest later script
      split at stepped
      · rename_i positive
        obtain ⟨pipe,put,rfl⟩ := Option.map_eq_some_iff.mp stepped
        exact Or.inr (Or.inr ⟨stream,byte,rest,later,pipe,script,positive,put,rfl⟩)
      · contradiction

/-- The byte string that the writes of a script send to one stream. -/
def written (stream : Stream) : List (Stream × List UInt8) → List UInt8
  | [] => []
  | (target,bytes)::later => (if target = stream then bytes else [])++written stream later

theorem execute_conserved (state next : State) (count : Nat) (stream : Stream)
    (stepped : execute state count = some next) :
    next.script = state.script ∧ (next.pipes stream).capacity = (state.pipes stream).capacity ∧
      (next.received stream).flatten++(next.pipes stream).bytes =
        (state.received stream).flatten++(state.pipes stream).bytes := by
  rcases execute_steps state next count stepped with
    ⟨_,rfl⟩ | ⟨_,rfl⟩ | ⟨_,_,rfl⟩ | ⟨target,_,⟨_,_,_,rfl⟩ | ⟨_,_,_,rfl⟩⟩
  · exact ⟨rfl,rfl,rfl⟩
  · exact ⟨rfl,rfl,rfl⟩
  · exact ⟨rfl,rfl,rfl⟩
  · exact ⟨rfl,rfl,rfl⟩
  · refine ⟨rfl,?_⟩
    by_cases same : stream = target
    · subst same
      simp [BoundedPipe.drop]
    · simp [same]

theorem child_conserved (state next : State) (count : Nat) (stream : Stream)
    (stepped : child state count = some next) :
    next.received = state.received ∧ (next.pipes stream).capacity = (state.pipes stream).capacity ∧
      (next.pipes stream).bytes++written stream next.script =
        (state.pipes stream).bytes++written stream state.script := by
  obtain ⟨_,⟨_,rfl⟩ | ⟨target,later,script,rfl⟩ | ⟨target,byte,rest,later,pipe,script,_,put,rfl⟩⟩ :=
    child_steps state next count stepped
  · exact ⟨rfl,rfl,rfl⟩
  · refine ⟨rfl,rfl,?_⟩
    simp [script,written]
  · obtain ⟨capacity,bytes⟩ := BoundedPipe.put_cases _ _ _ put
    refine ⟨rfl,?_⟩
    rw [script]
    by_cases same : target = stream
    · subst same
      simp only [Function.update_self,written,if_true]
      refine ⟨capacity,?_⟩
      rw [bytes,List.append_assoc,← List.append_assoc (List.take _ _),List.take_append_drop]
    · simp [Function.update_of_ne (Ne.symm same),written,same]

/-- What the parent has read from a stream, what is in its pipe, and what the child has
yet to write to it. -/
def flow (state : State) (stream : Stream) : List UInt8 :=
  (state.received stream).flatten++((state.pipes stream).bytes++written stream state.script)

theorem step_flow (state next : State) (action : Action) (stream : Stream)
    (stepped : step state action = some next) :
    (next.pipes stream).capacity = (state.pipes stream).capacity ∧ flow next stream = flow state stream := by
  cases action with
  | parent count =>
    obtain ⟨script,capacity,moved⟩ := execute_conserved state next count stream stepped
    refine ⟨capacity,?_⟩
    rw [flow,flow,script,← List.append_assoc,moved,List.append_assoc]
  | child count =>
    obtain ⟨received,capacity,moved⟩ := child_conserved state next count stream stepped
    exact ⟨capacity,by rw [flow,flow,received,moved]⟩

theorem run_flow (capacity : Stream → Nat) (script : List (Stream × List UInt8)) (actions : List Action)
    (final : State) (reached : run (initial capacity script) actions = some final) (stream : Stream) :
    (final.pipes stream).capacity = capacity stream ∧ flow final stream = written stream script := by
  refine Execution.run_invariant step
    (fun state => (state.pipes stream).capacity = capacity stream ∧ flow state stream = written stream script)
    ?_ actions _ final ⟨rfl,rfl⟩ reached
  rintro state action next ⟨size,conserved⟩ stepped
  obtain ⟨capacity,flowed⟩ := step_flow state next action stream stepped
  exact ⟨capacity.trans size,flowed.trans conserved⟩

theorem deadlock_overfills (state : State) (deadlocked : Deadlocked state) :
    ∃ stream, (state.pipes stream).capacity < (flow state stream).length := by
  obtain ⟨stream,byte,rest,later,_,script,full,_⟩ := deadlocked
  refine ⟨stream,?_⟩
  simp only [flow,script,written,if_true,List.length_append,List.length_cons]
  omega

/-- The writes that are left, counted so that each step of the child makes it less. -/
def work : List (Stream × List UInt8) → Nat
  | [] => 0
  | (_,bytes)::later => bytes.length+1+work later

theorem child_cases (state : State) (waits : state.parent = .wait) (running : state.exited = false) :
    state.script = [] ∨ Deadlocked state ∨
      ∃ next, step state (.child 1) = some next ∧ next.exited = false ∧ next.parent = .wait ∧
        work next.script+1 = work state.script := by
  match script : state.script with
  | [] => exact Or.inl rfl
  | (target,[])::later =>
    refine Or.inr (Or.inr ⟨{state with script := later},?_,running,waits,?_⟩)
    · simp [step,child,running,script]
    · simp only [work,List.length_nil]
      omega
  | (target,byte::rest)::later =>
    rcases Nat.lt_or_eq_of_le (state.pipes target).within with room | full
    · obtain ⟨pipe,put⟩ := BoundedPipe.put_byte (state.pipes target) byte room
      refine Or.inr (Or.inr ⟨{state with
        pipes := Function.update state.pipes target pipe
        script := (target,rest)::later},?_,running,waits,?_⟩)
      · simp [step,child,running,script,put]
      · simp only [work,List.length_cons]
        omega
    · exact Or.inr (Or.inl ⟨target,byte,rest,later,running,script,full,Or.inl waits⟩)

/-- The parent is in `waitpid`; the child writes until a pipe is full. -/
theorem waiting_fills (left : Nat) (state : State) (waits : state.parent = .wait)
    (running : state.exited = false) (size : work state.script = left) (stream : Stream)
    (large : (state.pipes stream).capacity <
      ((state.pipes stream).bytes++written stream state.script).length) :
    ∃ actions final, run state actions = some final ∧ Deadlocked final := by
  induction left using Nat.strongRecOn generalizing state with
  | ind left ih =>
    rcases child_cases state waits running with finished | deadlocked | ⟨next,stepped,still,waiting,less⟩
    · rw [finished,written,List.append_nil] at large
      exact absurd (state.pipes stream).within (Nat.not_le_of_lt large)
    · exact ⟨[],state,rfl,deadlocked⟩
    · obtain ⟨_,capacity,kept⟩ := child_conserved state next 1 stream stepped
      obtain ⟨actions,final,reached,deadlocked⟩ :=
        ih (work next.script) (by omega) next waiting still rfl (by rw [capacity,kept]; exact large)
      exact ⟨.child 1::actions,final,(Execution.run_cons step state _ actions final).mpr
        ⟨next,stepped,reached⟩,deadlocked⟩

theorem large_deadlocks (capacity : Stream → Nat) (script : List (Stream × List UInt8)) (stream : Stream)
    (large : capacity stream < (written stream script).length) :
    ∃ actions final, run (initial capacity script) actions = some final ∧ Deadlocked final := by
  obtain ⟨actions,final,reached,deadlocked⟩ := waiting_fills (work script)
    {initial capacity script with
      holds := Function.update (Function.update (fun _ => true) .out false) .err false
      parent := .wait} rfl rfl rfl stream large
  exact ⟨.parent 0::.parent 0::actions,final,reached,deadlocked⟩

theorem deadlock_free_iff (capacity : Stream → Nat) (script : List (Stream × List UInt8)) :
    (∀ actions final, run (initial capacity script) actions = some final → ¬Deadlocked final) ↔
      ∀ stream, (written stream script).length ≤ capacity stream := by
  constructor
  · intro free stream
    by_contra large
    obtain ⟨actions,final,reached,deadlocked⟩ :=
      large_deadlocks capacity script stream (Nat.lt_of_not_le large)
    exact free actions final reached deadlocked
  · intro small actions final reached deadlocked
    obtain ⟨stream,overfull⟩ := deadlock_overfills final deadlocked
    obtain ⟨size,flowed⟩ := run_flow capacity script actions final reached stream
    rw [size,flowed] at overfull
    exact absurd (small stream) (Nat.not_le_of_lt overfull)

/-- One byte more than a pipe holds. -/
theorem deadlock_65537 :
    ∃ actions final, run (initial (fun _ => 65536) [(.out,List.replicate 65537 0)]) actions = some final ∧
      Deadlocked final := by
  refine large_deadlocks (fun _ => 65536) _ .out ?_
  rw [written,written,if_pos rfl,List.append_nil,List.length_replicate]
  decide

end LinuxCourse.Pipe
