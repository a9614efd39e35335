import LinuxCourse.Library.Waiting
import LinuxCourse.Processes.PipeDescriptors

/-! `processes/waitpid.cpp`: what the kernel reports about a child in one `int`, and the
parent that takes it apart with the macros of `sys/wait.h`. -/
namespace LinuxCourse.Waitpid
open Library Library.Signals
open PipeDescriptors (WIFEXITED WEXITSTATUS)

/-- How a change of the child is put into `status`. -/
def encode : Change Nat → BitVec 32
  | .exited status => (status &&& 0xff) <<< 8
  | .signaled signal core => BitVec.ofNat 32 signal ||| if core then 0x80 else 0
  | .stopped signal => BitVec.ofNat 32 signal <<< 8 ||| 0x7f
  | .continued => 0xffff

def WTERMSIG (status : BitVec 32) : BitVec 32 := status &&& 0x7f

/-- The sum is cut to a `signed char`. -/
def WIFSIGNALED (status : BitVec 32) : Bool :=
  0 < (((status &&& 0x7f)+1).setWidth 8 |>.sshiftRight 1).toInt

def WIFSTOPPED (status : BitVec 32) : Bool := status &&& 0xff = 0x7f

def WSTOPSIG (status : BitVec 32) : BitVec 32 := WEXITSTATUS status

def WIFCONTINUED (status : BitVec 32) : Bool := status = 0xffff

inductive Report
  | exited (status : BitVec 32)
  | killed (signal : BitVec 32)
  | stopped (signal : BitVec 32)
  | continued
  deriving DecidableEq

/-- The branches of the loop; none of them need be taken. -/
def report (status : BitVec 32) : Option Report :=
  if WIFEXITED status then some (.exited (WEXITSTATUS status))
  else if WIFSIGNALED status then some (.killed (WTERMSIG status))
  else if WIFSTOPPED status then some (.stopped (WSTOPSIG status))
  else if WIFCONTINUED status then some .continued
  else none

/-- The condition of the loop. -/
def again (status : BitVec 32) : Bool := !WIFEXITED status && !WIFSIGNALED status

/-- What the line should say. -/
def stated : Change Nat → Report
  | .exited status => .exited (status &&& 0xff)
  | .signaled signal _ => .killed (BitVec.ofNat 32 signal)
  | .stopped signal => .stopped (BitVec.ofNat 32 signal)
  | .continued => .continued

/-- The signals that `kill` accepts. -/
def SIGRTMAX : Nat := 64

def valid (signal : Nat) : Prop := 1 ≤ signal ∧ signal ≤ SIGRTMAX

def Named : Change Nat → Prop
  | .signaled signal _ => valid signal
  | .stopped signal => valid signal
  | _ => True

theorem low_byte (status : BitVec 32) : ∃ low : Fin 256, status &&& 0xff = BitVec.ofNat 32 low := by
  refine ⟨⟨status.toNat % 256,Nat.mod_lt _ (by decide)⟩,?_⟩
  apply BitVec.eq_of_toNat_eq
  have mask : status.toNat &&& 0xff = status.toNat % 2^8 := Nat.and_two_pow_sub_one_eq_mod _ 8
  have small : status.toNat % 256 < 2^32 := (Nat.mod_lt _ (by decide)).trans (by decide)
  rw [BitVec.toNat_and,BitVec.toNat_ofNat,Nat.mod_eq_of_lt small]
  exact mask

theorem report_exited : ∀ low : Fin 256,
    report (BitVec.ofNat 32 low <<< 8) = some (.exited (BitVec.ofNat 32 low)) ∧
      again (BitVec.ofNat 32 low <<< 8) = false := by decide +kernel

theorem report_signaled : ∀ signal : Fin 65, 1 ≤ signal.val → ∀ core,
    report (encode (.signaled signal core)) = some (.killed (BitVec.ofNat 32 signal)) ∧
      again (encode (.signaled signal core)) = false := by decide +kernel

theorem report_stopped : ∀ signal : Fin 65,
    report (encode (.stopped signal)) = some (.stopped (BitVec.ofNat 32 signal)) ∧
      again (encode (.stopped signal)) = true := by decide +kernel

theorem report_stated (change : Change Nat) (named : Named change) :
    report (encode change) = some (stated change) := by
  cases change with
  | exited status =>
    obtain ⟨low,same⟩ := low_byte status
    rw [encode,stated,same]
    exact (report_exited low).1
  | signaled signal core =>
    obtain ⟨positive,bound⟩ := named
    exact (report_signaled ⟨signal,Nat.lt_succ_of_le bound⟩ positive core).1
  | stopped signal => exact (report_stopped ⟨signal,Nat.lt_succ_of_le named.2⟩).1
  | continued => decide

theorem again_ends (change : Change Nat) (named : Named change) :
    again (encode change) = !change.ends := by
  cases change with
  | exited status =>
    obtain ⟨low,same⟩ := low_byte status
    rw [encode,same]
    exact (report_exited low).2
  | signaled signal core =>
    obtain ⟨positive,bound⟩ := named
    exact (report_signaled ⟨signal,Nat.lt_succ_of_le bound⟩ positive core).2
  | stopped signal => exact (report_stopped ⟨signal,Nat.lt_succ_of_le named.2⟩).2
  | continued => decide

/-- The macros take every report apart as it was put together: exactly one branch is taken,
with the right number, and the loop ends with the child. -/
theorem report_encode (change : Change Nat) (named : Named change) :
    report (encode change) = some (stated change) ∧
      again (encode change) = !change.ends :=
  ⟨report_stated change named,again_ends change named⟩

theorem report_encode_core :
    report (encode (.signaled SIGSEGV true)) = some (stated (.signaled SIGSEGV true)) ∧
      again (encode (.signaled SIGSEGV true)) = !(Change.signaled SIGSEGV true).ends :=
  report_encode (.signaled SIGSEGV true) ⟨by decide,by decide⟩

inductive Line
  | child
  | waiting
  | continues
  | sigterm
  | sigusr1
  | unknown
  deriving DecidableEq

/-- Each `printf` of the child has its own `fflush`. -/
inductive Out
  | printf (line : Line)
  | fflush
  deriving DecidableEq

inductive Stage
  | child
  | childFlush
  | signal
  | waiting
  | waitingFlush
  | pause
  | paused
  | continues
  | continuesFlush
  | exit
  deriving DecidableEq

def call : Stage → Call Nat Out
  | .child => .print (.printf .child)
  | .childFlush => .print .fflush
  | .signal => .install SIGTERM
  | .waiting => .print (.printf .waiting)
  | .waitingFlush => .print .fflush
  | .pause => .pause
  | .paused => .paused
  | .continues => .print (.printf .continues)
  | .continuesFlush => .print .fflush
  | .exit => .exit 0

def next : Stage → Stage
  | .child => .childFlush
  | .childFlush => .signal
  | .signal => .waiting
  | .waiting => .waitingFlush
  | .waitingFlush => .pause
  | .pause => .paused
  | .paused => .continues
  | .continues => .continuesFlush
  | .continuesFlush => .exit
  | .exit => .exit

def signaHandler (signal_number : Nat) : List Out :=
  if signal_number = SIGTERM then [.printf .sigterm,.fflush]
  else if signal_number = SIGUSR1 then [.printf .sigusr1,.fflush]
  else [.printf .unknown,.fflush]

/-- The child does not look at what `signal` returns. -/
def program : Program Nat Out Stage where
  call := call
  next stage _ := next stage
  lines := signaHandler
  exits _ := none

def EXIT_SUCCESS : BitVec 32 := 0

def EXIT_FAILURE : BitVec 32 := 1

/-- `perror` is its line on the standard error. -/
inductive ParentLine
  | parent
  | child (report : Report)
  | perror

inductive ParentStage
  | parent
  | waitpid
  | show (status : BitVec 32)
  | perror
  | exited (status : BitVec 32)

/-- `seen` logs the changes that `waitpid` returned. -/
structure System where
  child : Process Nat Out Stage
  stage : ParentStage
  seen : List (Change Nat)
  output : List ParentLine

inductive Actor
  | child (action : Action Nat)
  | parent
  deriving DecidableEq

def admits : Action Nat → Bool
  | .send signal => 1 ≤ signal ∧ signal ≤ SIGRTMAX
  | _ => true

/-- Without a handler of its own no signal interrupts the parent's `waitpid`, so the call
fails only where it finds no child. -/
def parent (reaps : Bool) (system : System) : Option System :=
  match system.stage with
  | .parent => some {system with stage := .waitpid,output := system.output++[.parent]}
  | .waitpid =>
    (waitpid reaps system.child).map fun returned =>
      match returned.1 with
      | some change => {system with
          child := returned.2
          seen := system.seen++[change]
          stage := .show (encode change)}
      | none => {system with stage := .perror}
  | .show status => some {system with
      stage := if again status then .waitpid else .exited EXIT_SUCCESS
      output := system.output++(report status).toList.map .child}
  | .perror => some {system with stage := .exited EXIT_FAILURE,output := system.output++[.perror]}
  | .exited _ => none

/-- `reaps` says that SIGCHLD was ignored when the program was started. -/
def step (table : Table Nat) (reaps : Bool) (system : System) : Actor → Option System
  | .child action =>
    if admits action then
      (Signals.step table program system.child action).map fun child => {system with child := child}
    else none
  | .parent => parent reaps system

/-- After `fork` no signal is pending for the child; its mask is that of the parent. -/
def initial (mask : Nat → Bool) : System :=
  ⟨Signals.initial mask (fun _ => false) .child,.parent,[],[]⟩

def ParentLine.shown : ParentLine → Option Report
  | .parent => none
  | .child shown => some shown
  | .perror => none

def Report.ends : Report → Bool
  | .exited _ => true
  | .killed _ => true
  | .stopped _ => false
  | .continued => false

theorem stated_ends (change : Change Nat) : (stated change).ends = change.ends := by
  cases change <;> rfl

/-- The line that is still to be printed for a status. -/
def ParentStage.unprinted : ParentStage → List Report
  | .parent => []
  | .waitpid => []
  | .show status => (report status).toList
  | .perror => []
  | .exited _ => []

/-- What the parent's place in its loop says about the changes that it has seen. -/
def Looped (reaps : Bool) (seen : List (Change Nat)) : ParentStage → Prop
  | .parent => ∀ change ∈ seen, change.ends = false
  | .waitpid => ∀ change ∈ seen, change.ends = false
  | .show status => ∃ before change, seen = before++[change] ∧ status = encode change ∧
      (∀ change ∈ before, change.ends = false) ∧ (reaps = true → change.ends = false)
  | .perror => reaps = true ∧ ∀ change ∈ seen, change.ends = false
  | .exited status =>
    (reaps = false ∧ status = EXIT_SUCCESS ∧ ∃ before change, seen = before++[change] ∧ change.ends = true) ∨
      reaps = true ∧ status = EXIT_FAILURE ∧ ∀ change ∈ seen, change.ends = false

/-- The stages that follow the child's end. -/
def ParentStage.after : ParentStage → Bool
  | .perror => true
  | .exited _ => true
  | _ => false

structure Sound (reaps : Bool) (system : System) : Prop where
  watched : Watched system.child system.seen
  pending : ∀ signal, system.child.pending signal = true → valid signal
  named : ∀ change ∈ system.child.changes, Named change
  printed : system.output.filterMap ParentLine.shown++system.stage.unprinted = system.seen.map stated
  looped : Looped reaps system.seen system.stage
  gone : system.stage.after = true → ∃ change, system.child.status = .ended change

variable {table : Table Nat} {reaps : Bool}

theorem child_sound (system : System) (child : Process Nat Out Stage) (action : Action Nat)
    (sound : Sound reaps system) (admitted : admits action = true)
    (stepped : Signals.step table program system.child action = some child) :
    Sound reaps {system with child := child} := by
  refine ⟨watched_step system.child child action system.seen sound.watched stepped,?_,?_,sound.printed,
    sound.looped,?_⟩
  · intro signal pending
    rcases step_pending system.child child action signal stepped pending with before | rfl
    · exact sound.pending signal before
    · exact (of_decide_eq_true admitted : 1 ≤ signal ∧ signal ≤ SIGRTMAX)
  · intro change member
    rcases step_change system.child child action stepped with ⟨changes,-,-⟩ | ⟨other,reported⟩
    · rw [changes] at member
      exact sound.named change member
    · rw [reported.changes,List.mem_append,List.mem_singleton] at member
      rcases member with before | rfl
      · exact sound.named change before
      · cases change with
        | signaled signal core => exact sound.pending signal (reported.named signal rfl)
        | stopped signal => exact sound.pending signal (reported.named signal rfl)
        | exited | continued => trivial
  · intro after
    obtain ⟨change,ended⟩ := sound.gone after
    rcases step_change system.child child action stepped with ⟨-,-,status⟩ | ⟨other,reported⟩
    · exact ⟨change,status.trans ended⟩
    · rcases reported.alive with alive | alive <;> rw [ended] at alive <;> contradiction

theorem waitpid_sound (system : System) (child : Process Nat Out Stage) (change : Change Nat)
    (sound : Sound reaps system) (stage : system.stage = .waitpid)
    (waited : wait system.child = some (change,child))
    (alive : reaps = true → ∀ last, system.child.status ≠ .ended last) :
    Sound reaps {system with
      child := child
      seen := system.seen++[change]
      stage := .show (encode change)} := by
  obtain ⟨watched,member⟩ := watched_wait system.child child change system.seen sound.watched waited
  have lives (reaped : reaps = true) : change.ends = false :=
    watched_alive system.child child change system.seen sound.watched waited (alive reaped)
  obtain ⟨taken,-,same⟩ := Option.map_eq_some_iff.mp waited
  obtain ⟨rfl,rfl⟩ := Prod.mk.inj same
  have printed := sound.printed
  have looped := sound.looped
  rw [stage] at printed looped
  refine ⟨watched,sound.pending,sound.named,?_,⟨system.seen,taken,rfl,rfl,looped,lives⟩,?_⟩
  · rw [ParentStage.unprinted,List.append_nil] at printed
    rw [printed,ParentStage.unprinted,report_stated taken (sound.named taken member),List.map_append]
    rfl
  · intro after
    contradiction

theorem show_sound (system : System) (status : BitVec 32) (sound : Sound reaps system)
    (stage : system.stage = .show status) :
    Sound reaps {system with
      stage := if again status then .waitpid else .exited EXIT_SUCCESS
      output := system.output++(report status).toList.map .child} := by
  have printed := sound.printed
  have looped := sound.looped
  rw [stage] at printed looped
  obtain ⟨before,change,seen,rfl,alive,lives⟩ := looped
  have member : change ∈ system.child.changes := by
    apply sound.watched.order.subset
    rw [seen]
    exact List.mem_append_left _ (List.mem_append_right _ List.mem_cons_self)
  have loop := again_ends change (sound.named change member)
  refine ⟨sound.watched,sound.pending,sound.named,?_,?_,?_⟩
  · have silent :
        (if again (encode change) then ParentStage.waitpid else .exited EXIT_SUCCESS).unprinted = [] := by
      split <;> rfl
    have shown : ((report (encode change)).toList.map ParentLine.child).filterMap ParentLine.shown =
        (report (encode change)).toList := by
      cases report (encode change) with
      | none => rfl
      | some line => simp [ParentLine.shown]
    simp only [List.filterMap_append,silent,shown,List.append_nil]
    exact printed
  · rw [loop]
    simp only [seen]
    cases ends : change.ends with
    | false =>
      intro other inside
      rcases List.mem_append.mp inside with early | last
      · exact alive other early
      · exact List.mem_singleton.mp last ▸ ends
    | true =>
      refine Or.inl ⟨?_,rfl,before,change,rfl,ends⟩
      rw [← Bool.not_eq_true]
      intro reaped
      rw [lives reaped] at ends
      contradiction
  · intro after
    cases ends : change.ends with
    | false =>
      rw [loop,ends] at after
      contradiction
    | true => exact ⟨change,sound.watched.ends change member ends⟩

theorem step_sound (system next : System) (actor : Actor) (sound : Sound reaps system)
    (stepped : step table reaps system actor = some next) : Sound reaps next := by
  cases actor with
  | child action =>
    simp only [step] at stepped
    split at stepped
    · rename_i admitted
      obtain ⟨child,ran,rfl⟩ := Option.map_eq_some_iff.mp stepped
      exact child_sound system child action sound admitted ran
    · contradiction
  | parent =>
    have printed := sound.printed
    have looped := sound.looped
    simp only [step,parent] at stepped
    cases stage : system.stage with
    | parent =>
      simp only [stage,Option.some.injEq] at stepped
      subst stepped
      rw [stage] at printed looped
      refine ⟨sound.watched,sound.pending,sound.named,?_,looped,nofun⟩
      have silent : [ParentLine.parent].filterMap ParentLine.shown = [] := rfl
      rw [List.filterMap_append,silent,List.append_nil]
      exact printed
    | waitpid =>
      simp only [stage] at stepped
      obtain ⟨⟨result,child⟩,returned,rfl⟩ := Option.map_eq_some_iff.mp stepped
      cases waitpid_cases reaps system.child child result returned with
      | change change _ waited alive => exact waitpid_sound system child change sound stage waited alive
      | failed last reaped ended =>
        rw [stage] at printed looped
        exact ⟨sound.watched,sound.pending,sound.named,printed,⟨reaped,looped⟩,fun _ => ⟨last,ended⟩⟩
    | «show» status =>
      simp only [stage,Option.some.injEq] at stepped
      exact stepped ▸ show_sound system status sound stage
    | perror =>
      simp only [stage,Option.some.injEq] at stepped
      subst stepped
      rw [stage] at printed looped
      refine ⟨sound.watched,sound.pending,sound.named,?_,Or.inr ⟨looped.1,rfl,looped.2⟩,fun _ => ?_⟩
      · have silent : [ParentLine.perror].filterMap ParentLine.shown = [] := rfl
        rw [List.filterMap_append,silent,List.append_nil]
        exact printed
      · exact sound.gone (by rw [stage]; rfl)
    | exited status =>
      simp only [stage] at stepped
      contradiction

theorem initial_sound (mask : Nat → Bool) : Sound reaps (initial mask) := by
  refine ⟨watched_initial mask (fun _ => false) Stage.child,?_,?_,rfl,?_,nofun⟩
  · intro signal pending
    contradiction
  · intro change member
    contradiction
  · intro change member
    contradiction

theorem run_sound (mask : Nat → Bool) (actors : List Actor) (final : System)
    (reached : Execution.run (step table reaps) (initial mask) actors = some final) : Sound reaps final :=
  Execution.run_invariant (step table reaps) (Sound reaps)
    (fun system actor next => step_sound system next actor) actors _ final (initial_sound mask) reached

/-- The parent prints some of the changes of the child, in order and rightly. Where it has
exited, the child has ended, and the end was printed last; only with SIGCHLD ignored it fails,
with no end printed. -/
theorem run_reports (table : Table Nat) (reaps : Bool) (mask : Nat → Bool) (actors : List Actor)
    (final : System) (reached : Execution.run (step table reaps) (initial mask) actors = some final) :
    (final.output.filterMap ParentLine.shown).Sublist (final.child.changes.map stated) ∧
      ∀ status, final.stage = .exited status → ∃ change, final.child.status = .ended change ∧
        (reaps = false → status = EXIT_SUCCESS ∧
          (final.output.filterMap ParentLine.shown).getLast? = some (stated change)) ∧
        (reaps = true → status = EXIT_FAILURE ∧
          ∀ shown ∈ final.output.filterMap ParentLine.shown, shown.ends = false) := by
  have sound := run_sound mask actors final reached
  have part : final.seen.Sublist final.child.changes :=
    (List.sublist_append_left _ _).trans sound.watched.order
  constructor
  · apply (List.sublist_append_left _ final.stage.unprinted).trans
    rw [sound.printed]
    exact part.map stated
  · intro status stage
    have printed := sound.printed
    have looped := sound.looped
    rw [stage] at printed looped
    rw [ParentStage.unprinted,List.append_nil] at printed
    rcases looped with ⟨kept,success,before,change,seen,ends⟩ | ⟨reaped,failure,alive⟩
    · refine ⟨change,sound.watched.ends change ?_ ends,fun _ => ⟨success,?_⟩,fun reaped => ?_⟩
      · apply part.subset
        rw [seen]
        exact List.mem_append_right _ List.mem_cons_self
      · rw [printed,seen,List.map_append,List.map_singleton,List.getLast?_concat]
      · rw [kept] at reaped
        contradiction
    · obtain ⟨change,ended⟩ := sound.gone (by rw [stage]; rfl)
      refine ⟨change,ended,fun kept => ?_,fun _ => ⟨failure,?_⟩⟩
      · rw [reaped] at kept
        contradiction
      · intro shown member
        rw [printed] at member
        obtain ⟨other,early,rfl⟩ := List.mem_map.mp member
        rw [stated_ends]
        exact alive other early

/-- The child is stopped, continued and killed, and the parent misses that it was stopped. -/
def killing : List Actor :=
  [.child (.send SIGSTOP),.child (.take SIGSTOP),.child (.send SIGCONT),.parent,.parent,.parent,
    .child (.send SIGKILL),.child (.take SIGKILL),.parent,.parent]

theorem run_reports_killing :
    (∃ final, Execution.run (step (linux fun _ => false) false) (initial fun _ => false) killing = some final ∧
      final.child.changes.length = 3 ∧ final.stage = .exited EXIT_SUCCESS ∧
      (final.output.filterMap ParentLine.shown).Sublist (final.child.changes.map stated) ∧
      ∃ change, final.child.status = .ended change ∧
        (final.output.filterMap ParentLine.shown).getLast? = some (stated change)) ∧
    ∃ final, Execution.run (step (linux fun _ => false) true) (initial fun _ => false) killing = some final ∧
      final.stage = .exited EXIT_FAILURE ∧
      ∀ shown ∈ final.output.filterMap ParentLine.shown, shown.ends = false := by
  constructor
  · have reached : Execution.run (step (linux fun _ => false) false) (initial fun _ => false) killing =
      some _ := rfl
    obtain ⟨part,exits⟩ := run_reports _ _ _ _ _ reached
    obtain ⟨change,ended,kept,-⟩ := exits EXIT_SUCCESS rfl
    exact ⟨_,reached,rfl,rfl,part,change,ended,(kept rfl).2⟩
  · have reached : Execution.run (step (linux fun _ => false) true) (initial fun _ => false) killing =
      some _ := rfl
    obtain ⟨_,_,-,reaped⟩ := (run_reports _ _ _ _ _ reached).2 EXIT_FAILURE rfl
    exact ⟨_,reached,rfl,(reaped rfl).2⟩

/-- The parent alone takes so many steps to its exit. -/
def Leaves (table : Table Nat) (reaps : Bool) (system : System) (steps : Nat) : Prop :=
  ∃ final, Execution.run (step table reaps) system (List.replicate steps .parent) = some final ∧
    final.stage = .exited (if reaps then EXIT_FAILURE else EXIT_SUCCESS)

theorem leaves_step (system next : System) (steps : Nat) (stepped : parent reaps system = some next)
    (leaves : Leaves table reaps next steps) : Leaves table reaps system (steps+1) := by
  obtain ⟨final,reached,exited⟩ := leaves
  exact ⟨final,(Execution.run_cons _ _ _ _ _).mpr ⟨next,stepped,reached⟩,exited⟩

theorem leaves_show (system : System) (status : BitVec 32) (sound : Sound reaps system)
    (stage : system.stage = .show status) (past : again status = false) : Leaves table reaps system 1 := by
  have stepped : parent reaps system = some {system with
      stage := .exited EXIT_SUCCESS
      output := system.output++(report status).toList.map .child} := by
    simp only [parent,stage,past,Bool.false_eq_true,if_false]
  have ran : step table reaps system .parent = some _ := stepped
  have looped := (step_sound system _ .parent sound ran).looped
  refine leaves_step system _ 0 stepped ⟨_,rfl,?_⟩
  rcases looped with ⟨kept,-⟩ | ⟨-,failure,-⟩
  · rw [kept]
    rfl
  · contradiction

theorem leaves_perror (system : System) (reaped : reaps = true) (stage : system.stage = .perror) :
    Leaves table reaps system 1 := by
  have stepped : parent reaps system = some {system with
      stage := .exited EXIT_FAILURE
      output := system.output++[.perror]} := by
    simp only [parent,stage]
  exact leaves_step system _ 0 stepped ⟨_,rfl,by rw [reaped]; rfl⟩

theorem leaves_waitpid (system : System) (sound : Sound reaps system) (stage : system.stage = .waitpid)
    (change : Change Nat) (ended : system.child.status = .ended change) :
    Leaves table reaps system 2 := by
  have looped := sound.looped
  rw [stage] at looped
  obtain ⟨last,ends⟩ := sound.watched.past change ended
  cases kept : reaps with
  | true =>
    have stepped : parent true system = some {system with stage := .perror} := by
      simp only [parent,stage,waitpid,ended,Option.map_some]
    exact leaves_step system _ 1 stepped (leaves_perror _ rfl rfl)
  | false =>
    rcases watched_ready system.child system.seen change sound.watched ended with ⟨child,waited⟩ | member
    · have stepped : parent false system = some {system with
          child := child
          seen := system.seen++[change]
          stage := .show (encode change)} := by
        simp only [parent,stage,waitpid,waited,Option.map_some]
      apply leaves_step system _ 1 stepped
      subst kept
      have ran : step table false system .parent = some _ := stepped
      refine leaves_show _ (encode change) (step_sound system _ .parent sound ran) rfl ?_
      have named := sound.named change (List.mem_of_getLast? last)
      rw [again_ends change named,ends]
      rfl
    · -- the loop would have been left already
      rw [looped change member] at ends
      contradiction

/-- An ended child is waited for: the parent is never stuck before its exit, nor in a loop. -/
theorem run_leaves (table : Table Nat) (reaps : Bool) (mask : Nat → Bool) (actors : List Actor)
    (final : System) (reached : Execution.run (step table reaps) (initial mask) actors = some final)
    (change : Change Nat) (ended : final.child.status = .ended change) :
    ∃ steps ≤ 3, Leaves table reaps final steps := by
  have sound := run_sound mask actors final reached
  cases stage : final.stage with
  | parent =>
    have stepped : step table reaps final .parent =
        some {final with stage := .waitpid,output := final.output++[.parent]} := by
      simp only [step,parent,stage]
    refine ⟨3,le_refl _,leaves_step final _ 2 stepped ?_⟩
    exact leaves_waitpid _ (step_sound final _ .parent sound stepped) rfl change ended
  | waitpid => exact ⟨2,by decide,leaves_waitpid final sound stage change ended⟩
  | «show» status =>
    cases past : again status with
    | false => exact ⟨1,by decide,leaves_show final status sound stage past⟩
    | true =>
      have stepped : step table reaps final .parent = some {final with
          stage := .waitpid
          output := final.output++(report status).toList.map .child} := by
        simp only [step,parent,stage,past,if_true]
      refine ⟨3,le_refl _,leaves_step final _ 2 stepped ?_⟩
      exact leaves_waitpid _ (step_sound final _ .parent sound stepped) rfl change ended
  | perror =>
    have looped := sound.looped
    rw [stage] at looped
    exact ⟨1,by decide,leaves_perror final looped.1 stage⟩
  | exited status =>
    have looped := sound.looped
    rw [stage] at looped
    refine ⟨0,Nat.zero_le _,final,rfl,?_⟩
    rcases looped with ⟨kept,rfl,-⟩ | ⟨reaped,rfl,-⟩
    · rw [kept]
      exact stage
    · rw [reaped]
      exact stage

/-- The same run with SIGCHLD ignored: the end is not there to be waited for. -/
theorem run_leaves_killing :
    ∃ final, Execution.run (step (linux fun _ => false) true) (initial fun _ => false) (killing.take 8) =
        some final ∧
      ∃ steps ≤ 3, Leaves (linux fun _ => false) true final steps := by
  have reached : Execution.run (step (linux fun _ => false) true) (initial fun _ => false) (killing.take 8) =
    some _ := rfl
  exact ⟨_,reached,run_leaves _ _ _ _ _ reached (.signaled SIGKILL false) rfl⟩

end LinuxCourse.Waitpid
