import LinuxCourse.Library.Execution
import Mathlib.Data.Nat.Find
import Mathlib.Tactic.Push

/-! `main` of `ipc/execv/mq_ipc_vfork_parent.c`. A child that fails in `execv` goes on in the
same code, and its parent stays suspended. The two share their variables, but only one of
them runs from then on. -/
namespace LinuxCourse.MqIpcVforkParent

/-- Stage 0 is before the Writer's `vfork`, and stage `i+1` at the head of the loop with
that `i`, so past stage `n` a process is in `pause`. `exec` is a child about to call
`execv`, and `started` one that runs another program. -/
inductive Place
  | code (stage : Nat)
  | exec (stage : Nat)
  | started
  deriving DecidableEq

structure Process where
  place : Place
  suspended : Bool
  parent : Option Nat
  deriving DecidableEq

/-- `execs` counts the calls of `execv` so far. -/
structure State where
  processes : List Process
  execs : Nat
  deriving DecidableEq

def resume (processes : List Process) (parent : Option Nat) : List Process :=
  match parent with
  | some pid => processes.modify pid fun process => {process with suspended := false}
  | none => processes

/-- A step of one process, for `n` readers; `pattern` says which calls of `execv` succeed. -/
def step (n : Nat) (pattern : Nat → Bool) (state : State) (pid : Nat) : Option State :=
  match state.processes[pid]? with
  | some ⟨.code stage,false,parent⟩ =>
    if stage ≤ n then
      some {state with processes :=
        state.processes.set pid ⟨.code (stage+1),true,parent⟩++[⟨.exec stage,false,some pid⟩]}
    else none
  | some ⟨.exec stage,false,parent⟩ =>
    if pattern state.execs = true then
      some ⟨resume (state.processes.set pid ⟨.started,false,parent⟩) parent,state.execs+1⟩
    else some ⟨state.processes.set pid ⟨.code (stage+1),false,parent⟩,state.execs+1⟩
  | _ => none

def initial : State := ⟨[⟨.code 0,false,none⟩],0⟩

def run (n : Nat) (pattern : Nat → Bool) : List Nat → Option State :=
  Execution.run (step n pattern) initial

def State.children (state : State) : Nat := state.processes.length-1

/-- Only the initial process is in the loop or in `pause`. -/
def OnlyInitial (state : State) : Prop :=
  ∀ pid process, state.processes[pid]? = some process → pid ≠ 0 → ∀ stage, process.place ≠ .code stage

/-- A process that has finished its loop. -/
def Paused (n : Nat) (state : State) (pid : Nat) : Prop :=
  ∃ parent, state.processes[pid]? = some ⟨.code (n+1),false,parent⟩

structure Intended (n : Nat) (pattern : Nat → Bool) : Prop where
  only : ∀ actions final, run n pattern actions = some final → OnlyInitial final
  bounded : ∀ actions final, run n pattern actions = some final → final.children ≤ 1+n
  ends : ∀ actions final, run n pattern actions = some final → actions.length ≤ 2*(n+1)
  finishes : ∀ actions final, run n pattern actions = some final →
    (∀ pid, step n pattern final pid = none) → Paused n final 0

theorem step_cases (n : Nat) (pattern : Nat → Bool) (state next : State) (pid : Nat)
    (stepped : step n pattern state pid = some next) :
    (∃ stage parent, state.processes[pid]? = some ⟨.code stage,false,parent⟩ ∧ stage ≤ n ∧
      next = {state with processes :=
        state.processes.set pid ⟨.code (stage+1),true,parent⟩++[⟨.exec stage,false,some pid⟩]}) ∨
    (∃ stage parent, state.processes[pid]? = some ⟨.exec stage,false,parent⟩ ∧
      pattern state.execs = true ∧
      next = ⟨resume (state.processes.set pid ⟨.started,false,parent⟩) parent,state.execs+1⟩) ∨
    ∃ stage parent, state.processes[pid]? = some ⟨.exec stage,false,parent⟩ ∧
      pattern state.execs = false ∧
      next = ⟨state.processes.set pid ⟨.code (stage+1),false,parent⟩,state.execs+1⟩ := by
  unfold step at stepped
  split at stepped
  · rename_i stage parent found
    split at stepped
    · rename_i room
      exact Or.inl ⟨stage,parent,found,room,(Option.some.inj stepped).symm⟩
    · contradiction
  · rename_i stage parent found
    split at stepped
    · rename_i succeeds
      exact Or.inr (Or.inl ⟨stage,parent,found,succeeds,(Option.some.inj stepped).symm⟩)
    · rename_i fails
      exact Or.inr (Or.inr ⟨stage,parent,found,Bool.eq_false_iff.mpr fails,
        (Option.some.inj stepped).symm⟩)
  · contradiction

@[simp] theorem resume_length (processes : List Process) (parent : Option Nat) :
    (resume processes parent).length = processes.length := by
  cases parent <;> simp [resume]

/-- Each step makes a process or calls `execv`. -/
theorem run_counted (n : Nat) (pattern : Nat → Bool) (actions : List Nat) (state final : State)
    (reached : Execution.run (step n pattern) state actions = some final) :
    final.processes.length+final.execs = state.processes.length+state.execs+actions.length := by
  induction actions generalizing state with
  | nil =>
    obtain rfl := Option.some.inj reached
    rfl
  | cons pid rest ih =>
    obtain ⟨next,stepped,continued⟩ := (Execution.run_cons _ _ _ _ _).mp reached
    rw [ih next continued,List.length_cons]
    rcases step_cases n pattern state next pid stepped with
      ⟨stage,parent,_,_,rfl⟩ | ⟨stage,parent,_,_,rfl⟩ | ⟨stage,parent,_,_,rfl⟩
    · simp only [List.length_append,List.length_set,List.length_singleton]
      omega
    · simp only [resume_length,List.length_set]
      omega
    · simp only [List.length_set]
      omega

/-- Each process but one has started another program or waits for its child. -/
def Others (state : State) (current : Nat) : Prop :=
  ∀ pid process, pid ≠ current → state.processes[pid]? = some process →
    process.suspended = true ∨ process.place = .started

/-- What the one process is at that can go on, and how far the stages are. -/
def Current (n : Nat) (state : State) (current stage : Nat) : Prop :=
  (∃ parent, state.processes[current]? = some ⟨.code stage,false,parent⟩ ∧ stage ≤ n+1 ∧
    state.processes.length = stage+1 ∧ state.execs = stage) ∨
  ∃ parent grand, parent ≠ current ∧
    state.processes[current]? = some ⟨.exec stage,false,some parent⟩ ∧
    state.processes[parent]? = some ⟨.code (stage+1),true,grand⟩ ∧ stage ≤ n ∧
    state.processes.length = stage+2 ∧ state.execs = stage

def Lone (n : Nat) (state : State) : Prop :=
  ∃ current stage, Current n state current stage ∧ Others state current

theorem lone_current (n : Nat) (pattern : Nat → Bool) (state next : State) (current pid : Nat)
    (others : Others state current) (stepped : step n pattern state pid = some next) :
    pid = current := by
  by_contra other
  rcases step_cases n pattern state next pid stepped with
    ⟨stage,parent,found,_⟩ | ⟨stage,parent,found,_⟩ | ⟨stage,parent,found,_⟩ <;>
  · have idle := others pid _ other found
    simp at idle

theorem lone_forks (n : Nat) (state : State) (pid stage : Nat) (parent : Option Nat)
    (others : Others state pid) (here : state.processes[pid]? = some ⟨.code stage,false,parent⟩)
    (room : stage ≤ n) (size : state.processes.length = stage+1) (execs : state.execs = stage) :
    Lone n {state with processes :=
      state.processes.set pid ⟨.code (stage+1),true,parent⟩++[⟨.exec stage,false,some pid⟩]} := by
  have bound : pid < state.processes.length := (List.getElem?_eq_some_iff.mp here).1
  have set : (state.processes.set pid ⟨.code (stage+1),true,parent⟩).length = state.processes.length :=
    List.length_set
  refine ⟨state.processes.length,stage,Or.inr ⟨pid,parent,Nat.ne_of_lt bound,?_,?_,room,?_,execs⟩,?_⟩
  · rw [List.getElem?_append_right (Nat.le_of_eq set),set,Nat.sub_self]
    rfl
  · rw [List.getElem?_append_left (by rwa [set]),List.getElem?_set_self bound]
  · simp only [List.length_append,List.length_set,size,List.length_singleton]
  · intro other process apart found
    have earlier : other < state.processes.length := by
      have inside := (List.getElem?_eq_some_iff.mp found).1
      simp only [List.length_append,List.length_set,List.length_singleton] at inside
      omega
    simp only [List.getElem?_append_left (set.symm ▸ earlier)] at found
    by_cases same : other = pid
    · subst same
      rw [List.getElem?_set_self bound,Option.some.injEq] at found
      subst found
      exact Or.inl rfl
    · rw [List.getElem?_set_ne (Ne.symm same)] at found
      exact others other process same found

theorem lone_starts (n : Nat) (state : State) (pid parent stage : Nat) (grand : Option Nat)
    (others : Others state pid) (apart : parent ≠ pid) (bound : pid < state.processes.length)
    (waits : state.processes[parent]? = some ⟨.code (stage+1),true,grand⟩) (inside : stage ≤ n)
    (size : state.processes.length = stage+2) (execs : state.execs = stage) :
    Lone n ⟨resume (state.processes.set pid ⟨.started,false,some parent⟩) (some parent),
      state.execs+1⟩ := by
  refine ⟨parent,stage+1,Or.inl ⟨grand,?_,Nat.succ_le_succ inside,by simp [size],by rw [execs]⟩,?_⟩
  · simp [resume,List.getElem?_set_ne (Ne.symm apart),waits]
  · intro other process different found
    simp only [resume,List.getElem?_modify,if_neg (Ne.symm different)] at found
    by_cases same : other = pid
    · subst same
      simp only [List.getElem?_set_self bound,Option.map_eq_map,Option.map_some,
        Option.some.injEq] at found
      subst found
      exact Or.inr rfl
    · rw [List.getElem?_set_ne (Ne.symm same)] at found
      apply others other process same
      simpa using found

theorem lone_stays (n : Nat) (state : State) (pid stage : Nat) (parent : Option Nat)
    (others : Others state pid) (bound : pid < state.processes.length) (inside : stage ≤ n)
    (size : state.processes.length = stage+2) (execs : state.execs = stage) :
    Lone n ⟨state.processes.set pid ⟨.code (stage+1),false,parent⟩,state.execs+1⟩ := by
  refine ⟨pid,stage+1,Or.inl ⟨parent,List.getElem?_set_self bound,Nat.succ_le_succ inside,
    by rw [List.length_set,size],by rw [execs]⟩,?_⟩
  intro other process different found
  rw [List.getElem?_set_ne (Ne.symm different)] at found
  exact others other process different found

/-- Whatever fails, one process at a time goes through the stages that are left. -/
theorem step_lone (n : Nat) (pattern : Nat → Bool) (state next : State) (pid : Nat)
    (lone : Lone n state) (stepped : step n pattern state pid = some next) : Lone n next := by
  obtain ⟨current,stage,active,others⟩ := lone
  obtain rfl := lone_current n pattern state next current pid others stepped
  rcases active with ⟨parent,here,inside,size,execs⟩ |
    ⟨parent,grand,apart,here,waits,inside,size,execs⟩ <;>
  have bound : pid < state.processes.length := (List.getElem?_eq_some_iff.mp here).1
  · rcases step_cases n pattern state next pid stepped with
      ⟨_,_,found,room,rfl⟩ | ⟨_,_,found,_⟩ | ⟨_,_,found,_⟩ <;>
    simp only [here,Option.some.injEq,Process.mk.injEq,Place.code.injEq,reduceCtorEq,false_and] at found
    obtain ⟨rfl,_,rfl⟩ := found
    exact lone_forks n state pid stage parent others here room size execs
  · rcases step_cases n pattern state next pid stepped with
      ⟨_,_,found,_⟩ | ⟨_,_,found,_,rfl⟩ | ⟨_,_,found,_,rfl⟩ <;>
    simp only [here,Option.some.injEq,Process.mk.injEq,Place.exec.injEq,reduceCtorEq,false_and] at found
    · obtain ⟨rfl,_,rfl⟩ := found
      exact lone_starts n state pid parent stage grand others apart bound waits inside size execs
    · obtain ⟨rfl,_,rfl⟩ := found
      exact lone_stays n state pid stage (some parent) others bound inside size execs

theorem run_lone (n : Nat) (pattern : Nat → Bool) (actions : List Nat) (final : State)
    (reached : run n pattern actions = some final) : Lone n final := by
  refine Execution.run_invariant (step n pattern) (Lone n)
    (fun state pid next lone stepped => step_lone n pattern state next pid lone stepped)
    actions initial final ⟨0,0,Or.inl ⟨none,rfl,Nat.zero_le _,rfl,rfl⟩,?_⟩ reached
  intro pid process other found
  have none : initial.processes[pid]? = none := List.getElem?_eq_none (Nat.one_le_iff_ne_zero.mpr other)
  rw [none] at found
  contradiction

/-- A failing `execv` makes no process more. -/
theorem run_bounded (n : Nat) (pattern : Nat → Bool) (actions : List Nat) (final : State)
    (reached : run n pattern actions = some final) :
    final.children ≤ 1+n ∧ actions.length ≤ 2*(n+1) := by
  have counted := run_counted n pattern actions initial final reached
  have start : initial.processes.length+initial.execs = 1 := rfl
  rw [start] at counted
  rw [State.children]
  obtain ⟨current,stage,⟨_,_,inside,size,execs⟩ | ⟨_,_,_,_,_,inside,size,execs⟩,_⟩ :=
    run_lone n pattern actions final reached <;>
  omega

section Success
variable (n : Nat) (pattern : Nat → Bool)

def child : Process := ⟨.started,false,some 0⟩

/-- The initial process is about to go into a stage, and all its children have started. -/
def between (stage : Nat) : State := ⟨⟨.code stage,false,none⟩::List.replicate stage child,stage⟩

/-- The child of a stage is about to call `execv`. -/
def during (stage : Nat) : State :=
  ⟨⟨.code (stage+1),true,none⟩::(List.replicate stage child++[⟨.exec stage,false,some 0⟩]),stage⟩

theorem step_between (stage : Nat) (inside : stage ≤ n) :
    step n pattern (between stage) 0 = some (during stage) := by
  simp [step,between,during,inside]

theorem during_exec (stage : Nat) :
    (during stage).processes[stage+1]? = some ⟨.exec stage,false,some 0⟩ := by
  simp [during]

theorem step_during (stage : Nat) (succeeds : pattern stage = true) :
    step n pattern (during stage) (stage+1) = some (between (stage+1)) := by
  have last : (List.replicate stage child++[(⟨.exec stage,false,some 0⟩ : Process)]).set stage child =
      List.replicate (stage+1) child := by
    rw [List.set_append_right _ _ (by simp),List.length_replicate,Nat.sub_self,List.set_cons_zero,
      List.replicate_succ']
  rw [step,during_exec]
  simp only [during,succeeds,if_true,between,resume,List.set_cons_succ]
  rw [← child,last,List.modify_zero_cons]

/-- The child is in the loop, or in `pause`, from here on. -/
theorem step_during_fails (stage : Nat) (fails : pattern stage = false) :
    ∃ next, step n pattern (during stage) (stage+1) = some next ∧
      next.processes[stage+1]? = some ⟨.code (stage+1),false,some 0⟩ := by
  have stepped : step n pattern (during stage) (stage+1) = some
      ⟨(during stage).processes.set (stage+1) ⟨.code (stage+1),false,some 0⟩,stage+1⟩ := by
    rw [step,during_exec]
    simp only [during,fails,Bool.false_eq_true,if_false]
  exact ⟨_,stepped,by simp [during]⟩

theorem others_between (stage : Nat) : Others (between stage) 0 := by
  intro pid process apart found
  obtain ⟨pid,rfl⟩ := Nat.exists_eq_succ_of_ne_zero apart
  have member : process ∈ List.replicate stage child := List.mem_of_getElem? (i := pid) found
  rw [List.eq_of_mem_replicate member]
  exact Or.inr rfl

theorem others_during (stage : Nat) : Others (during stage) (stage+1) := by
  intro pid process apart found
  cases pid with
  | zero =>
    obtain rfl := Option.some.inj found
    exact Or.inl rfl
  | succ pid =>
    simp only [during,List.getElem?_cons_succ] at found
    rcases Nat.lt_or_ge pid stage with before | behind
    · rw [List.getElem?_append_left (by simpa using before)] at found
      rw [List.eq_of_mem_replicate (List.mem_of_getElem? found)]
      exact Or.inr rfl
    · have bound := (List.getElem?_eq_some_iff.mp found).1
      simp only [List.length_append,List.length_replicate,List.length_singleton] at bound
      omega

theorem stepped_between (stage pid : Nat) (next : State)
    (stepped : step n pattern (between stage) pid = some next) :
    pid = 0 ∧ stage ≤ n := by
  obtain rfl := lone_current n pattern (between stage) next 0 pid (others_between stage) stepped
  refine ⟨rfl,?_⟩
  by_contra past
  simp [step,between,past] at stepped

theorem reaches_between (stage : Nat) (inside : stage ≤ n+1)
    (succeed : ∀ k < stage, pattern k = true) :
    ∃ actions, run n pattern actions = some (between stage) := by
  induction stage with
  | zero => exact ⟨[],rfl⟩
  | succ stage ih =>
    obtain ⟨actions,reached⟩ := ih (Nat.le_of_succ_le inside)
      fun k before => succeed k (Nat.lt_succ_of_lt before)
    refine ⟨actions++[0,stage+1],?_⟩
    rw [run] at reached ⊢
    rw [Execution.run_append,reached,Option.bind_some]
    simp only [Execution.run,step_between n pattern stage (Nat.le_of_succ_le_succ inside),
      step_during n pattern stage (succeed stage (Nat.lt_succ_self stage)),Option.bind_some]

theorem reaches_during (stage : Nat) (inside : stage ≤ n) (succeed : ∀ k < stage, pattern k = true) :
    ∃ actions, run n pattern actions = some (during stage) := by
  obtain ⟨actions,reached⟩ := reaches_between n pattern stage (Nat.le_succ_of_le inside) succeed
  refine ⟨actions++[0],?_⟩
  rw [run] at reached ⊢
  rw [Execution.run_append,reached,Option.bind_some]
  simp only [Execution.run,step_between n pattern stage inside,Option.bind_some]

/-- The states of a run in which each `execv` succeeds. -/
def Regular (state : State) : Prop :=
  (∃ stage, stage ≤ n+1 ∧ state = between stage) ∨ ∃ stage, stage ≤ n ∧ state = during stage

theorem run_regular (succeed : ∀ k ≤ n, pattern k = true) (actions : List Nat) (final : State)
    (reached : run n pattern actions = some final) : Regular n final := by
  refine Execution.run_invariant (step n pattern) (Regular n) ?_ actions initial final
    (Or.inl ⟨0,Nat.zero_le _,rfl⟩) reached
  rintro state pid next (⟨stage,inside,rfl⟩ | ⟨stage,inside,rfl⟩) stepped
  · obtain ⟨rfl,room⟩ := stepped_between n pattern stage pid next stepped
    rw [step_between n pattern stage room] at stepped
    exact Or.inr ⟨stage,room,(Option.some.inj stepped).symm⟩
  · obtain rfl := lone_current n pattern _ next (stage+1) pid (others_during stage) stepped
    rw [step_during n pattern stage (succeed stage inside)] at stepped
    exact Or.inl ⟨stage+1,Nat.succ_le_succ inside,(Option.some.inj stepped).symm⟩

end Success

theorem regular_only (n : Nat) (state : State) (regular : Regular n state) : OnlyInitial state := by
  intro pid process found other stage here
  obtain ⟨pid,rfl⟩ := Nat.exists_eq_succ_of_ne_zero other
  rcases regular with ⟨stage,_,rfl⟩ | ⟨stage,_,rfl⟩
  · have member : process ∈ List.replicate stage child := List.mem_of_getElem? (i := pid) found
    rw [List.eq_of_mem_replicate member] at here
    contradiction
  · have member : process ∈ List.replicate stage child++[⟨.exec stage,false,some 0⟩] :=
      List.mem_of_getElem? (i := pid) found
    rcases List.mem_append.mp member with started | last
    · rw [List.eq_of_mem_replicate started] at here
      contradiction
    · rw [List.mem_singleton.mp last] at here
      contradiction

theorem regular_ends (n : Nat) (pattern : Nat → Bool) (succeed : ∀ k ≤ n, pattern k = true)
    (state : State) (regular : Regular n state) (ended : ∀ pid, step n pattern state pid = none) :
    Paused n state 0 := by
  rcases regular with ⟨stage,inside,rfl⟩ | ⟨stage,inside,rfl⟩
  · rcases Nat.lt_or_eq_of_le inside with room | rfl
    · have more := ended 0
      rw [step_between n pattern stage (Nat.le_of_lt_succ room)] at more
      contradiction
    · exact ⟨none,rfl⟩
  · have more := ended (stage+1)
    rw [step_during n pattern stage (succeed stage inside)] at more
    contradiction

/-- The first `execv` that fails leaves a second process in the code of `main`. -/
theorem failure_spreads (n : Nat) (pattern : Nat → Bool) (stage : Nat) (inside : stage ≤ n)
    (succeed : ∀ k < stage, pattern k = true) (fails : pattern stage = false) :
    ∃ actions final, run n pattern actions = some final ∧ ¬OnlyInitial final := by
  obtain ⟨actions,reached⟩ := reaches_during n pattern stage inside succeed
  obtain ⟨next,stepped,spread⟩ := step_during_fails n pattern stage fails
  refine ⟨actions++[stage+1],next,?_,?_⟩
  · rw [run] at reached ⊢
    rw [Execution.run_append,reached,Option.bind_some]
    simp only [Execution.run,stepped,Option.bind_some]
  · intro only
    exact only (stage+1) _ spread (Nat.succ_ne_zero stage) (stage+1) rfl

theorem intended_iff (n : Nat) (pattern : Nat → Bool) :
    Intended n pattern ↔ ∀ k ≤ n, pattern k = true := by
  constructor
  · intro intended
    by_contra failing
    push Not at failing
    have least := Nat.find_spec failing
    obtain ⟨actions,final,reached,spread⟩ := failure_spreads n pattern (Nat.find failing) least.1
      (fun k before => by
        have earlier := Nat.find_min failing before
        push Not at earlier
        exact earlier (Nat.le_trans (Nat.le_of_lt before) least.1))
      (Bool.eq_false_iff.mpr least.2)
    exact spread (intended.only actions final reached)
  · intro succeed
    constructor
    · intro actions final reached
      exact regular_only n final (run_regular n pattern succeed actions final reached)
    · intro actions final reached
      exact (run_bounded n pattern actions final reached).1
    · intro actions final reached
      exact (run_bounded n pattern actions final reached).2
    · intro actions final reached ended
      exact regular_ends n pattern succeed final (run_regular n pattern succeed actions final reached) ended

/-- No binary is there: the last of four processes is in `pause`, and the initial one waits. -/
theorem readers_missing : ∃ final, run 2 (fun _ => false) [0,1,1,2,2,3] = some final ∧
    Paused 2 final 3 ∧ ¬OnlyInitial final ∧
    final.processes[0]? = some ⟨.code 1,true,none⟩ := by
  refine ⟨_,rfl,⟨some 2,rfl⟩,?_,rfl⟩
  intro only
  exact only 3 _ rfl (by decide) 3 rfl

end LinuxCourse.MqIpcVforkParent
