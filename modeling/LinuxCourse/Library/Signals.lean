import LinuxCourse.Library.Execution
import Mathlib.Data.List.Count
import Mathlib.Data.List.Nodup
import Mathlib.Logic.Function.Basic

/-! A process under signals. A signal that was sent is pending, once, until the process
takes it; the handler of a signal runs with that signal blocked, on top of whatever it
interrupts. The program and the defaults of the signals are parameters. -/
namespace LinuxCourse.Library.Signals

inductive Disposition
  | terminate (core : Bool)
  | ignore
  | stop
  | cont
  deriving DecidableEq

/-- What happens to a signal without a handler, and which signals can have none and cannot
be blocked. -/
structure Table (σ : Type) where
  default : σ → Disposition
  fixed : σ → Bool

def SIGINT : Nat := 2
def SIGKILL : Nat := 9
def SIGUSR1 : Nat := 10
def SIGSEGV : Nat := 11
def SIGTERM : Nat := 15
def SIGCHLD : Nat := 17
def SIGCONT : Nat := 18
def SIGSTOP : Nat := 19
def SIGTTOU : Nat := 22
def SIGURG : Nat := 23
def SIGWINCH : Nat := 28

/-- The signals that end a process with a dump of its memory. -/
def CORES : List Nat := [3,4,5,6,7,8,SIGSEGV,24,25,31]

/-- The defaults, where a process does not inherit that a signal is ignored. -/
def linux (ignored : Nat → Bool) : Table Nat where
  default signal :=
    if signal = SIGCONT then .cont
    else if ignored signal || signal = SIGCHLD || signal = SIGURG || signal = SIGWINCH then .ignore
    else if SIGSTOP ≤ signal ∧ signal ≤ SIGTTOU then .stop
    else .terminate (CORES.contains signal)
  fixed signal := signal = SIGKILL || signal = SIGSTOP

/-- A change of state that the parent can wait for. -/
inductive Change (σ : Type)
  | exited (status : BitVec 32)
  | signaled (signal : σ) (core : Bool)
  | stopped (signal : σ)
  | continued
  deriving DecidableEq

inductive Status (σ : Type)
  | running
  | stopped
  | ended (change : Change σ)
  deriving DecidableEq

/-- What the next statement of a program asks for. -/
inductive Call (σ Line : Type)
  | print (line : Line)
  | install (signal : σ)
  | block (set : σ → Bool)
  | unblock (set : σ → Bool)
  | skip
  | pause
  | paused
  | exit (status : BitVec 32)

/-- A handler prints its lines, and then returns or exits. -/
structure Program (σ Line Local : Type) where
  call : Local → Call σ Line
  next : Local → Bool → Local
  lines : σ → List Line
  exits : σ → Option (BitVec 32)

/-- A handler that runs: the mask to be restored, and the lines it has still to print. -/
structure Frame (σ Line : Type) where
  signal : σ
  saved : σ → Bool
  lines : List Line

inductive Event (σ : Type)
  | sent (signal : σ)
  | entered (signal : σ)
  | defaulted (signal : σ)
  deriving DecidableEq

structure Process (σ Line Local : Type) where
  mask : σ → Bool
  pending : σ → Bool
  handled : σ → Bool
  frames : List (Frame σ Line)
  woken : Bool
  status : Status σ
  own : Local
  report : Option (Change σ)
  changes : List (Change σ)
  output : List Line
  log : List (Event σ)

inductive Action (σ : Type)
  | send (signal : σ)
  | take (signal : σ)
  | run
  deriving DecidableEq

variable {σ Line Local : Type} [DecidableEq σ]

/-- The later change takes the place of one that was not waited for. -/
def Process.change (process : Process σ Line Local) (status : Status σ) (change : Change σ) :
    Process σ Line Local :=
  {process with status := status,report := some change,changes := process.changes++[change]}

/-- Stopping and continuing take each other's pending signals away. -/
def opposes : Disposition → Disposition → Bool
  | .stop, .cont => true
  | .cont, .stop => true
  | _, _ => false

def added (table : Table σ) (signal : σ) (pending : σ → Bool) : σ → Bool := fun other =>
  other = signal || (pending other && !opposes (table.default signal) (table.default other))

def send (table : Table σ) (signal : σ) (process : Process σ Line Local) : Process σ Line Local :=
  match process.status with
  | .ended _ => process
  | status =>
    let process := {process with
      pending := added table signal process.pending
      log := process.log++[.sent signal]}
    if status = .stopped ∧ table.default signal = .cont then process.change .running .continued
    else process

def enter (program : Program σ Line Local) (signal : σ) (process : Process σ Line Local) :
    Process σ Line Local :=
  {process with
    pending := Function.update process.pending signal false
    mask := Function.update process.mask signal true
    frames := ⟨signal,process.mask,program.lines signal⟩::process.frames
    log := process.log++[.entered signal]}

def byDefault (table : Table σ) (signal : σ) (process : Process σ Line Local) : Process σ Line Local :=
  let process := {process with
    pending := Function.update process.pending signal false
    log := process.log++[.defaulted signal]}
  match table.default signal with
  | .terminate core => process.change (.ended (.signaled signal core)) (.signaled signal core)
  | .stop => process.change .stopped (.stopped signal)
  | _ => process

/-- A stopped process takes nothing but what kills it in any case. -/
def ready (table : Table σ) (signal : σ) : Status σ → Bool
  | .running => true
  | .stopped =>
    match table.default signal with
    | .terminate _ => table.fixed signal
    | _ => false
  | .ended _ => false

def take (table : Table σ) (program : Program σ Line Local) (signal : σ)
    (process : Process σ Line Local) : Option (Process σ Line Local) :=
  if process.pending signal && (!process.mask signal || table.fixed signal) &&
      ready table signal process.status then
    if process.handled signal then some (enter program signal process)
    else some (byDefault table signal process)
  else none

def Call.masked : Call σ Line → (σ → Bool) → σ → Bool
  | .block set, mask => fun signal => mask signal || set signal
  | .unblock set, mask => fun signal => mask signal && !set signal
  | _, mask => mask

/-- Only a handler for a fixed signal is refused. -/
def Call.succeeds (table : Table σ) : Call σ Line → Bool
  | .install signal => !table.fixed signal
  | _ => true

def Call.installed (table : Table σ) : Call σ Line → (σ → Bool) → σ → Bool
  | .install signal, handled => if table.fixed signal then handled else Function.update handled signal true
  | _, handled => handled

def Call.printed : Call σ Line → List Line
  | .print line => [line]
  | _ => []

def proceed (table : Table σ) (program : Program σ Line Local) (process : Process σ Line Local) :
    Process σ Line Local :=
  let call := program.call process.own
  {process with
    own := program.next process.own (call.succeeds table)
    mask := call.masked process.mask
    handled := call.installed table process.handled
    output := process.output++call.printed}

/-- The program itself, when no handler interrupts it. -/
def main (table : Table σ) (program : Program σ Line Local) (process : Process σ Line Local) :
    Option (Process σ Line Local) :=
  match program.call process.own with
  | .exit status => some (process.change (.ended (.exited status)) (.exited status))
  | .paused => if process.woken then some (proceed table program process) else none
  | .pause => some {proceed table program process with woken := false}
  | _ => some (proceed table program process)

def run (table : Table σ) (program : Program σ Line Local) (process : Process σ Line Local) :
    Option (Process σ Line Local) :=
  if process.status = .running then
    match process.frames with
    | [] => main table program process
    | ⟨signal,saved,line::lines⟩::rest =>
      some {process with frames := ⟨signal,saved,lines⟩::rest,output := process.output++[line]}
    | ⟨signal,saved,[]⟩::rest =>
      match program.exits signal with
      | some status => some (process.change (.ended (.exited status)) (.exited status))
      | none => some {process with frames := rest,mask := saved,woken := true}
  else none

def step (table : Table σ) (program : Program σ Line Local) (process : Process σ Line Local) :
    Action σ → Option (Process σ Line Local)
  | .send signal => some (send table signal process)
  | .take signal => take table program signal process
  | .run => run table program process

/-- What a process inherits: a mask, and signals that are pending already. -/
def initial (mask pending : σ → Bool) (own : Local) : Process σ Line Local :=
  ⟨mask,pending,fun _ => false,[],false,.running,own,none,[],[],[]⟩

section Steps
variable (table : Table σ) (program : Program σ Line Local) (process : Process σ Line Local)

/-- All that a step can do. -/
inductive Stepped : Action σ → Process σ Line Local → Prop
  | late (signal change) (past : process.status = .ended change) : Stepped (.send signal) process
  | sent (signal) (alive : process.status = .running ∨ process.status = .stopped) :
    Stepped (.send signal) {process with
      pending := added table signal process.pending
      log := process.log++[.sent signal]}
  | continued (signal) (stopped : process.status = .stopped) (continues : table.default signal = .cont) :
    Stepped (.send signal) (Process.change {process with
      pending := added table signal process.pending
      log := process.log++[.sent signal]} .running .continued)
  | entered (signal) (pending : process.pending signal = true) (handled : process.handled signal = true)
    (unblocked : process.mask signal = false ∨ table.fixed signal = true)
    (alive : process.status = .running ∨ process.status = .stopped ∧ table.fixed signal = true) :
    Stepped (.take signal) (enter program signal process)
  | defaulted (signal) (pending : process.pending signal = true) (unhandled : process.handled signal = false)
    (alive : process.status = .running ∨ process.status = .stopped) :
    Stepped (.take signal) (byDefault table signal process)
  | printed (signal saved line lines rest) (alive : process.status = .running)
    (top : process.frames = ⟨signal,saved,line::lines⟩::rest) :
    Stepped .run {process with frames := ⟨signal,saved,lines⟩::rest,output := process.output++[line]}
  | exited (signal saved rest status) (alive : process.status = .running)
    (top : process.frames = ⟨signal,saved,[]⟩::rest) (exits : program.exits signal = some status) :
    Stepped .run (process.change (.ended (.exited status)) (.exited status))
  | returned (signal saved rest) (alive : process.status = .running)
    (top : process.frames = ⟨signal,saved,[]⟩::rest) :
    Stepped .run {process with frames := rest,mask := saved,woken := true}
  | main (next) (alive : process.status = .running) (idle : process.frames = [])
    (stepped : main table program process = some next) : Stepped .run next

variable {table program process}

omit [DecidableEq σ] in
theorem ready_alive (signal : σ) (status : Status σ) (can : ready table signal status = true) :
    status = .running ∨ status = .stopped ∧ table.fixed signal = true := by
  cases status with
  | running => exact Or.inl rfl
  | stopped =>
    cases default : table.default signal with
    | terminate core => exact Or.inr ⟨rfl,by simpa only [ready,default] using can⟩
    | ignore | stop | cont => simp only [ready,default,Bool.false_eq_true] at can
  | ended change => contradiction

theorem send_stepped (signal : σ) : Stepped table program process (.send signal) (send table signal process) := by
  unfold send
  cases status : process.status with
  | ended change => exact .late signal change status
  | running => simpa [status] using Stepped.sent signal (Or.inl status)
  | stopped =>
    by_cases continues : table.default signal = .cont
    · simpa [status,continues] using Stepped.continued signal status continues
    · simpa [status,continues] using Stepped.sent signal (Or.inr status)

theorem take_stepped (signal : σ) (next : Process σ Line Local)
    (stepped : take table program signal process = some next) :
    Stepped table program process (.take signal) next := by
  unfold take at stepped
  split at stepped
  · rename_i can
    simp only [Bool.and_eq_true,Bool.or_eq_true,Bool.not_eq_true'] at can
    obtain ⟨⟨pending,unblocked⟩,can⟩ := can
    have alive := ready_alive signal process.status can
    split at stepped
    · rename_i handled
      exact Option.some.inj stepped ▸ .entered signal pending handled unblocked alive
    · rename_i unhandled
      have awake : process.status = .running ∨ process.status = .stopped := alive.imp_right And.left
      exact Option.some.inj stepped ▸ .defaulted signal pending (Bool.not_eq_true _ ▸ unhandled) awake
  · contradiction

theorem run_stepped (next : Process σ Line Local) (stepped : run table program process = some next) :
    Stepped table program process .run next := by
  unfold run at stepped
  split at stepped
  · rename_i alive
    split at stepped
    · rename_i idle
      exact .main next alive idle stepped
    · rename_i signal saved line lines rest top
      exact Option.some.inj stepped ▸ .printed signal saved line lines rest alive top
    · rename_i signal saved rest top
      split at stepped
      · rename_i status exits
        exact Option.some.inj stepped ▸ .exited signal saved rest status alive top exits
      · exact Option.some.inj stepped ▸ .returned signal saved rest alive top
  · contradiction

theorem step_stepped (action : Action σ) (next : Process σ Line Local)
    (stepped : step table program process action = some next) :
    Stepped table program process action next := by
  cases action with
  | send signal => exact Option.some.inj stepped ▸ send_stepped signal
  | take signal => exact take_stepped signal next stepped
  | run => exact run_stepped next stepped

theorem main_cases (next : Process σ Line Local) (stepped : main table program process = some next) :
    (∃ woken, next = {proceed table program process with woken := woken} ∧
      (woken = true → process.woken = true) ∧ (program.call process.own = .paused → process.woken = true)) ∨
      ∃ status, program.call process.own = .exit status ∧
        next = process.change (.ended (.exited status)) (.exited status) := by
  unfold main at stepped
  split at stepped
  · rename_i status call
    exact Or.inr ⟨status,call,(Option.some.inj stepped).symm⟩
  · split at stepped
    · rename_i awake
      exact Or.inl ⟨_,(Option.some.inj stepped).symm,id,fun _ => awake⟩
    · contradiction
  · rename_i call
    refine Or.inl ⟨_,(Option.some.inj stepped).symm,?_,?_⟩
    · intro awake
      contradiction
    · intro paused
      rw [call] at paused
      contradiction
  · rename_i _ other _
    exact Or.inl ⟨_,(Option.some.inj stepped).symm,id,fun call => (other call).elim⟩

end Steps

end LinuxCourse.Library.Signals
