import LinuxCourse.Library.SignalsRules

/-! `processes/signals.cpp`: four handlers, a mask that is set and taken back, and a loop
that only a signal ends. -/
namespace LinuxCourse.Signals
open Library Library.Signals

inductive Line
  | alive
  | intBlocked
  | unblocked
  | still
  | failed
  | received (signal : Nat)
  | gracefully
  | unknown
  deriving DecidableEq

inductive Stage
  | sigint
  | sigsegv
  | sigterm
  | sigusr1
  | failed
  | return1
  | alive
  | sigemptyset
  | sigaddset
  | block
  | blocked
  | sigaddsets
  | unblock
  | unblocked
  | sleep
  | still
  deriving DecidableEq

structure Own where
  stage : Stage
  mask : Nat → Bool
  i : BitVec 64

def sigaddset (mask : Nat → Bool) (signal : Nat) : Nat → Bool := Function.update mask signal true

def call (own : Own) : Call Nat Line :=
  match own.stage with
  | .sigint => .install SIGINT
  | .sigsegv => .install SIGSEGV
  | .sigterm => .install SIGTERM
  | .sigusr1 => .install SIGUSR1
  | .failed => .print .failed
  | .return1 => .exit 1
  | .alive => .print .alive
  | .sigemptyset => .skip
  | .sigaddset => .skip
  | .block => .block own.mask
  | .blocked => .print .intBlocked
  | .sigaddsets => .skip
  | .unblock => .unblock own.mask
  | .unblocked => .print .unblocked
  | .sleep => .skip
  | .still => .print .still

def next (own : Own) (ok : Bool) : Own :=
  match own.stage with
  | .sigint => {own with stage := if ok then .sigsegv else .failed}
  | .sigsegv => {own with stage := if ok then .sigterm else .failed}
  | .sigterm => {own with stage := if ok then .sigusr1 else .failed}
  | .sigusr1 => {own with stage := if ok then .alive else .failed}
  | .failed => {own with stage := .return1}
  | .return1 => own
  | .alive => {own with stage := .sigemptyset}
  | .sigemptyset => {own with stage := .sigaddset,mask := fun _ => false}
  | .sigaddset => {own with stage := .block,mask := sigaddset own.mask SIGINT}
  | .block => {own with stage := .blocked}
  | .blocked => {own with stage := .sigaddsets}
  | .sigaddsets => {own with
      stage := .unblock
      mask := sigaddset (sigaddset (sigaddset (sigaddset own.mask SIGINT) SIGTERM) SIGSEGV) SIGUSR1}
  | .unblock => {own with stage := .unblocked}
  | .unblocked => {own with stage := .sleep}
  | .sleep => {own with stage := .still}
  | .still => {own with stage := .sleep,i := own.i+1}

/-- The `switch` of the handler. -/
def signaHandler (signal_number : Nat) : List Line :=
  if signal_number = SIGINT then [.received SIGINT]
  else if signal_number = SIGTERM then [.received SIGTERM]
  else if signal_number = SIGSEGV then [.received SIGSEGV,.gracefully]
  else if signal_number = SIGUSR1 then [.received SIGUSR1]
  else [.unknown]

def program : Program Nat Line Own where
  call := call
  next := next
  lines := signaHandler
  exits signal_number := if signal_number = SIGSEGV then some 1 else none

def SIGNALS : List Nat := [SIGINT,SIGSEGV,SIGTERM,SIGUSR1]

/-- The handlers that are set before a statement. -/
def installed : Stage → List Nat
  | .sigint => []
  | .sigsegv => [SIGINT]
  | .sigterm => [SIGINT,SIGSEGV]
  | .sigusr1 => [SIGINT,SIGSEGV,SIGTERM]
  | _ => SIGNALS

/-- The program's own mask before a statement: SIGINT is blocked for a while. -/
def masks (inherited : Nat → Bool) (signal : Nat) : Stage → Bool
  | .blocked => inherited signal || signal = SIGINT
  | .sigaddsets => inherited signal || signal = SIGINT
  | .unblock => inherited signal || signal = SIGINT
  | .unblocked => inherited signal && !SIGNALS.contains signal
  | .sleep => inherited signal && !SIGNALS.contains signal
  | .still => inherited signal && !SIGNALS.contains signal
  | _ => inherited signal

/-- What the variable `mask` holds where its value is used later. -/
def sets (signal : Nat) : Stage → Option Bool
  | .sigaddset => some false
  | .block => some (signal = SIGINT)
  | .blocked => some (signal = SIGINT)
  | .sigaddsets => some (signal = SIGINT)
  | .unblock => some (SIGNALS.contains signal)
  | _ => none

structure Promise (inherited : Nat → Bool) (own : Own) (mask handled : Nat → Bool) : Prop where
  mask : ∀ signal, mask signal = masks inherited signal own.stage
  handled : ∀ signal, handled signal = (installed own.stage).contains signal
  set : ∀ signal, ∀ member ∈ sets signal own.stage, own.mask signal = member
  set_up : own.stage ≠ .failed ∧ own.stage ≠ .return1

variable {ignored inherited : Nat → Bool}

theorem contains_signals (signal : Nat) : SIGNALS.contains signal =
    (decide (signal = SIGINT) || (decide (signal = SIGSEGV) || (decide (signal = SIGTERM) ||
      decide (signal = SIGUSR1)))) := by
  simp [SIGNALS]

theorem update_true (set : Nat → Bool) (added signal : Nat) :
    Function.update set added true signal = (set signal || decide (signal = added)) := by
  rw [Function.update_apply]
  by_cases same : signal = added <;> simp [same]

theorem call_succeeds (own : Own) : (call own).succeeds (linux ignored) = true := by
  unfold call
  cases own.stage <;> rfl

theorem next_mask (own : Own) (mask : Nat → Bool) (signal : Nat)
    (set : ∀ member ∈ sets signal own.stage, own.mask signal = member)
    (masked : mask signal = masks inherited signal own.stage) :
    (call own).masked mask signal = masks inherited signal (next own true).stage := by
  obtain ⟨stage,stored,i⟩ := own
  cases stage with
  | block =>
    have member : stored signal = decide (signal = SIGINT) := set _ rfl
    simp only [masks] at masked
    simp only [call,next,Call.masked,masks,member,masked]
  | unblock =>
    have member : stored signal = SIGNALS.contains signal := set _ rfl
    simp only [masks] at masked
    simp only [call,next,Call.masked,masks,member,masked]
    -- SIGINT is one of those that are unblocked
    have inside : SIGNALS.contains SIGINT = true := rfl
    by_cases int : signal = SIGINT
    · rw [int,inside,Bool.not_true,Bool.and_false,Bool.and_false]
    · rw [decide_eq_false int,Bool.or_false]
  | _ => exact masked

theorem next_handled (own : Own) (handled : Nat → Bool) (signal : Nat)
    (handles : handled signal = (installed own.stage).contains signal) :
    (call own).installed (linux ignored) handled signal =
      (installed (next own true).stage).contains signal := by
  obtain ⟨stage,stored,i⟩ := own
  cases stage with
  | sigint => exact (update_true handled SIGINT signal).trans (by rw [handles]; simp [installed,next])
  | sigsegv => exact (update_true handled SIGSEGV signal).trans (by rw [handles]; simp [installed,next])
  | sigterm => exact (update_true handled SIGTERM signal).trans (by rw [handles]; simp [installed,next,Bool.or_assoc])
  | sigusr1 => exact (update_true handled SIGUSR1 signal).trans (by rw [handles]; simp [installed,next,SIGNALS,Bool.or_assoc])
  | _ => exact handles

theorem next_set (own : Own) (signal : Nat)
    (set : ∀ member ∈ sets signal own.stage, own.mask signal = member) :
    ∀ member ∈ sets signal (next own true).stage, (next own true).mask signal = member := by
  obtain ⟨stage,stored,i⟩ := own
  cases stage with
  | sigemptyset =>
    rintro member ⟨⟩
    rfl
  | sigaddset =>
    rintro member ⟨⟩
    have empty : stored signal = false := set _ rfl
    exact (update_true stored SIGINT signal).trans (by rw [empty,Bool.false_or])
  | sigaddsets =>
    rintro member ⟨⟩
    have int : stored signal = decide (signal = SIGINT) := set _ rfl
    simp only [next,sigaddset,update_true,int,contains_signals]
    simp [Bool.or_assoc,Bool.or_left_comm,Bool.or_comm]
  | block | blocked => exact set
  | _ => nofun

theorem next_set_up (own : Own) (set_up : own.stage ≠ .failed ∧ own.stage ≠ .return1) :
    (next own true).stage ≠ .failed ∧ (next own true).stage ≠ .return1 := by
  obtain ⟨stage,stored,i⟩ := own
  cases stage <;> simp_all [next]

theorem program_keeps : Keeps (linux ignored) program (Promise inherited) := by
  intro own mask handled promise
  change Promise inherited (next own ((call own).succeeds (linux ignored))) _ _
  rw [call_succeeds]
  constructor
  · exact fun signal => next_mask own mask signal (promise.set signal) (promise.mask signal)
  · exact fun signal => next_handled own handled signal (promise.handled signal)
  · exact fun signal => next_set own signal (promise.set signal)
  · exact next_set_up own promise.set_up

theorem signals_cases (signal : Nat) (member : signal ∈ SIGNALS) :
    signal = SIGINT ∨ signal = SIGSEGV ∨ signal = SIGTERM ∨ signal = SIGUSR1 := by
  simpa [SIGNALS] using member

theorem signaHandler_received (signal other : Nat) (member : signal ∈ SIGNALS) :
    (signaHandler other).count (.received signal) = if other = signal then 1 else 0 := by
  unfold signaHandler
  rcases signals_cases signal member with rfl | rfl | rfl | rfl <;> split_ifs <;> simp_all +decide

theorem signaHandler_unknown (signal : Nat) (member : signal ∈ SIGNALS) : .unknown ∉ signaHandler signal := by
  rcases signals_cases signal member with rfl | rfl | rfl | rfl <;> decide

theorem call_print (own : Own) (line : Line) (handlers : line = .unknown ∨ ∃ signal, line = .received signal) :
    call own ≠ .print line := by
  unfold call
  rcases handlers with rfl | ⟨signal,rfl⟩ <;> cases own.stage <;> nofun

theorem call_exit (own : Own) (status : BitVec 32) (exits : call own = .exit status) :
    own.stage = .return1 := by
  unfold call at exits
  cases stage : own.stage with
  | return1 => rfl
  | _ => rw [stage] at exits; contradiction

theorem installed_signals (stage : Stage) (signal : Nat) (member : signal ∈ installed stage) :
    signal ∈ SIGNALS := by
  have part : installed stage ⊆ SIGNALS := by cases stage <;> decide
  exact part member

theorem linux_lasts (signal : Nat) (member : signal ∈ SIGNALS) : Lasts (linux ignored) signal := by
  intro other
  have default : (linux ignored).default signal = .ignore ∨
      ∃ core, (linux ignored).default signal = .terminate core := by
    rcases signals_cases signal member with rfl | rfl | rfl | rfl <;> simp only [linux] <;> split_ifs <;> simp_all +decide
  rcases default with same | ⟨core,same⟩ <;> rw [same] <;> cases (linux ignored).default other <;> rfl

def start : Own := ⟨.sigint,fun _ => false,0⟩

theorem start_promise (inherited : Nat → Bool) : Promise inherited start inherited fun _ => false :=
  ⟨fun _ => rfl,fun _ => rfl,nofun,nofun,nofun⟩

variable {pending : Nat → Bool} {actions : List (Action Nat)} {final : Process Nat Line Own}

theorem run_promise
    (reached : Execution.run (step (linux ignored) program) (initial inherited pending start) actions =
      some final) : Nested (linux ignored) (Promise inherited) final :=
  run_nested (Promise inherited) program_keeps inherited pending start (start_promise inherited) actions
    final reached

theorem nested_signals (nested : Nested (linux ignored) (Promise inherited) final) (signal : Nat)
    (handled : final.handled signal = true) : signal ∈ installed final.own.stage := by
  obtain ⟨base,promise,-⟩ := nested.masked
  have member := promise.handled signal
  rw [handled] at member
  exact List.contains_iff_mem.mp member.symm

/-- The process ends in the handler of SIGSEGV, with its status, or by a signal that has no
handler yet and ends it by default. -/
theorem run_endings (ignored inherited pending : Nat → Bool) (actions : List (Action Nat))
    (final : Process Nat Line Own) (change : Change Nat)
    (reached : Execution.run (step (linux ignored) program) (initial inherited pending start) actions =
      some final) (ended : final.status = .ended change) :
    (change = .exited 1 ∧ ∃ saved rest, final.frames = ⟨SIGSEGV,saved,[]⟩::rest) ∨
      ∃ signal core, change = .signaled signal core ∧ signal ∉ installed final.own.stage ∧
        (linux ignored).default signal = .terminate core := by
  obtain ⟨base,promise,-⟩ := (run_promise reached).masked
  have ends := run_ends inherited pending start actions final reached change ended
  cases change with
  | exited status =>
    left
    rcases ends with ⟨-,exits⟩ | ⟨signal,saved,rest,top,exits⟩
    · exact absurd (call_exit final.own status exits) promise.set_up.2
    · change (if signal = SIGSEGV then some 1 else none) = some status at exits
      split at exits
      · rename_i same
        obtain rfl := Option.some.inj exits
        exact ⟨rfl,saved,rest,same ▸ top⟩
      · contradiction
  | signaled signal core =>
    right
    obtain ⟨unhandled,default⟩ := ends
    refine ⟨signal,core,rfl,?_,default⟩
    intro member
    have handled := promise.handled signal
    rw [unhandled,List.contains_iff_mem.mpr member] at handled
    contradiction
  | stopped | continued => exact ends.elim

theorem run_endings_kill :
    ∃ final, Execution.run (step (linux fun _ => false) program) (initial (fun _ => true) (fun _ => false) start)
        [.run,.send SIGKILL,.take SIGKILL] = some final ∧
      ((Change.signaled SIGKILL false = .exited 1 ∧ ∃ saved rest, final.frames = ⟨SIGSEGV,saved,[]⟩::rest) ∨
        ∃ signal core, Change.signaled SIGKILL false = .signaled signal core ∧
          signal ∉ installed final.own.stage ∧ (linux fun _ => false).default signal = .terminate core) := by
  have reached : Execution.run (step (linux fun _ => false) program)
      (initial (fun _ => true) (fun _ => false) start) [.run,.send SIGKILL,.take SIGKILL] = some _ := rfl
  exact ⟨_,reached,run_endings _ _ _ _ _ (.signaled SIGKILL false) reached rfl⟩

/-- SIGTERM interrupts the handler of SIGINT, in the loop. -/
def nesting : List (Action Nat) :=
  List.replicate 12 .run++[.send SIGINT,.take SIGINT,.send SIGTERM,.send SIGINT,.take SIGTERM,.run]

/-- From the first `sleep` on. -/
def looping (own : Own) : Prop := own.stage = .sleep ∨ own.stage = .still

theorem masks_looping (own : Own) (loops : looping own) (signal : Nat) :
    masks inherited signal own.stage = (inherited signal && !SIGNALS.contains signal) := by
  rcases loops with stage | stage <;> rw [stage] <;> rfl

/-- In the loop none of the four is blocked but by its own handler, whatever mask the process
inherited; so they can be taken, and nest four deep at most. -/
theorem run_nests (ignored inherited pending : Nat → Bool) (actions : List (Action Nat))
    (final : Process Nat Line Own)
    (reached : Execution.run (step (linux ignored) program) (initial inherited pending start) actions =
      some final) (loops : looping final.own) :
    (final.frames.map Frame.signal).Nodup ∧ final.frames.length ≤ 4 ∧
      (∀ signal, final.mask signal = true ↔ signal ∈ final.frames.map Frame.signal ∨
        inherited signal = true ∧ signal ∉ SIGNALS) ∧
      ∀ signal ∈ SIGNALS, final.status = .running → final.pending signal = true →
        signal ∈ final.frames.map Frame.signal ∨
          (step (linux ignored) program final (.take signal)).isSome := by
  have nested := run_promise reached
  obtain ⟨base,promise,masked⟩ := nested.masked
  have distinct := masked_nodup base final.mask final.frames masked
  have mask : ∀ signal, final.mask signal = true ↔ signal ∈ final.frames.map Frame.signal ∨
      inherited signal = true ∧ signal ∉ SIGNALS := by
    intro signal
    rw [masked_iff base final.mask final.frames masked,promise.mask,masks_looping final.own loops,or_comm]
    simp
  refine ⟨distinct,?_,mask,?_⟩
  · have part : final.frames.map Frame.signal ⊆ SIGNALS := by
      intro signal member
      obtain ⟨frame,inside,rfl⟩ := List.mem_map.mp member
      exact installed_signals _ _ (nested_signals nested frame.signal (nested.handled frame inside))
    have bound := (List.subperm_of_subset distinct part).length_le
    rwa [List.length_map] at bound
  · intro signal member alive waits
    by_cases running : signal ∈ final.frames.map Frame.signal
    · exact Or.inl running
    · right
      have unmasked : final.mask signal = false := by
        rw [← Bool.not_eq_true,mask]
        exact not_or.mpr ⟨running,fun other => other.2 member⟩
      simp only [step,take,waits,unmasked,alive,ready,Bool.not_false,Bool.true_or,Bool.and_true,if_true]
      split <;> rfl

theorem run_nests_twice :
    ∃ final, Execution.run (step (linux fun _ => false) program) (initial (fun _ => true) (fun _ => false) start)
        nesting = some final ∧ final.frames.length = 2 ∧
      (final.frames.map Frame.signal).Nodup ∧ final.frames.length ≤ 4 ∧
        (∀ signal, final.mask signal = true ↔ signal ∈ final.frames.map Frame.signal ∨
          (fun _ => true) signal = true ∧ signal ∉ SIGNALS) ∧
        ∀ signal ∈ SIGNALS, final.status = .running → final.pending signal = true →
          signal ∈ final.frames.map Frame.signal ∨
            (step (linux fun _ => false) program final (.take signal)).isSome := by
  have reached : Execution.run (step (linux fun _ => false) program)
      (initial (fun _ => true) (fun _ => false) start) nesting = some _ := rfl
  exact ⟨_,reached,rfl,run_nests _ _ _ _ _ reached (Or.inl rfl)⟩

/-- Every one of the four that is sent is handled after that, unless it is still pending; its
line is printed once for each time, and there is no other line of a handler. -/
theorem run_answers (ignored inherited pending : Nat → Bool) (actions : List (Action Nat))
    (final : Process Nat Line Own)
    (reached : Execution.run (step (linux ignored) program) (initial inherited pending start) actions =
      some final) (signal : Nat) (member : signal ∈ SIGNALS) :
    final.pending signal = owed pending final.log signal ∧ Counted pending signal final ∧
      final.output.count (.received signal)+printing (.received signal) final.frames =
        final.log.count (.entered signal) ∧ .unknown ∉ final.output := by
  refine ⟨run_owed inherited pending start signal (linux_lasts signal member) actions final reached,
    run_counted inherited pending start signal actions final reached,?_,?_⟩
  · have shown := run_accounted (.received signal)
      (fun own => call_print own _ (Or.inr ⟨signal,rfl⟩)) inherited pending start actions final reached
    rwa [Accounted,starts_count _ signal fun other => signaHandler_received signal other member] at shown
  · have shown := run_accounted .unknown (fun own => call_print own _ (Or.inl rfl)) inherited pending start
      actions final reached
    have nested := run_promise reached
    rw [Accounted,starts_none] at shown
    · exact List.count_eq_zero.mp (Nat.eq_zero_of_add_eq_zero_right shown)
    · intro other entered
      apply signaHandler_unknown
      exact installed_signals _ _ (nested_signals nested other (nested.entered other entered))

theorem run_answers_twice :
    ∃ final, Execution.run (step (linux fun _ => false) program) (initial (fun _ => true) (fun _ => false) start)
        nesting = some final ∧
      final.pending SIGINT = owed (fun _ => false) final.log SIGINT ∧ Counted (fun _ => false) SIGINT final ∧
        final.output.count (.received SIGINT)+printing (.received SIGINT) final.frames =
          final.log.count (.entered SIGINT) ∧ .unknown ∉ final.output := by
  have reached : Execution.run (step (linux fun _ => false) program)
      (initial (fun _ => true) (fun _ => false) start) nesting = some _ := rfl
  exact ⟨_,reached,run_answers _ _ _ _ _ reached SIGINT List.mem_cons_self⟩

end LinuxCourse.Signals
