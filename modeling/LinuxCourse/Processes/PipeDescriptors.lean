import LinuxCourse.Library.Ledger
import LinuxCourse.Processes.PipeCapture

/-! The descriptors of `execute` in `processes/pipe.cpp`, on every path of the parent. Each
call that fails has its own way out, apart from `fork`: the code after it cleans up, and
then goes on as if there were a child. -/
namespace LinuxCourse.PipeDescriptors
open Library Bytes Pipe PipeCapture

/-- An `int[2]` for `pipe`. -/
structure Fds where
  readEnd : Int
  writeEnd : Int
  deriving DecidableEq

def Fds.both (fds : Fds) : List Int := [fds.readEnd,fds.writeEnd]

structure Statics where
  infd : Fds
  outfd : Fds
  errfd : Fds
  StdOut : List UInt8
  StdErr : List UInt8
  ExitStatus : BitVec 32
  deriving DecidableEq

inductive Event
  | close (fd : Int)
  | waitpid (pid : Int)
  | read (fd : Int)
  deriving DecidableEq

def Event.closed : Event → Option Int
  | .close fd => some fd
  | _ => none

def obtained : Option Fds → Option Fds → Option Fds → List Int
  | none, _, _ => []
  | some infd, none, _ => infd.both
  | some infd, some outfd, none => infd.both++outfd.both
  | some infd, some outfd, some errfd => infd.both++outfd.both++errfd.both

/-- How the calls of a run come back: `none` is -1. A descriptor that is open is not given
out again. `status` is what `waitpid` leaves in that variable, and `buffer` what is on the
stack. -/
structure Calls where
  infd : Option Fds
  outfd : Option Fds
  errfd : Option Fds
  fork : Option {pid : Nat // 0 < pid}
  status : BitVec 32
  reads : Stream → List Received
  buffer : Stack
  distinct : (obtained infd outfd errfd).Nodup

structure Run where
  statics : Statics
  events : List Event

def Run.close (run : Run) (fds : List Int) : Run := {run with events := run.events++fds.map .close}

def cleanup (run : Run) : Run :=
  run.close (run.statics.infd.both++run.statics.outfd.both++run.statics.errfd.both)

/-- The calls of `read` in a loop: one for each result up to the one that ends it. -/
def readCalls : List Received → Nat
  | .bytes (_::_)::later => readCalls later+1
  | _ => 1

/-- What a loop reads: a descriptor that was closed answers with -1. -/
def Run.answers (run : Run) (calls : Calls) (stream : Stream) (fd : Int) : List Received :=
  if .close fd ∈ run.events then [.failed] else calls.reads stream

def WIFEXITED (status : BitVec 32) : Bool := status &&& 0x7f = 0

def WEXITSTATUS (status : BitVec 32) : BitVec 32 := (status &&& 0xff00) >>> 8

/-- From `waitpid` to the end. -/
def collect (calls : Calls) (pid : Int) (run : Run) : Run :=
  let out := run.answers calls .out run.statics.outfd.readEnd
  let err := run.answers calls .err run.statics.errfd.readEnd
  let first := copyLoop ⟨calls.buffer,[]⟩ out
  let second := copyLoop ⟨first.buffer,[]⟩ err
  cleanup ⟨{run.statics with
      StdOut := store run.statics.StdOut (first.copied++[0])
      StdErr := store run.statics.StdErr (second.copied++[0])
      ExitStatus := if WIFEXITED calls.status then WEXITSTATUS calls.status else run.statics.ExitStatus},
    run.events++[.waitpid pid]++List.replicate (readCalls out) (.read run.statics.outfd.readEnd)++
      List.replicate (readCalls err) (.read run.statics.errfd.readEnd)⟩

def execute (calls : Calls) (statics : Statics) : Run :=
  match calls.infd, calls.outfd, calls.errfd with
  | none, _, _ => ⟨statics,[]⟩
  | some infd, none, _ => Run.close ⟨{statics with infd},[]⟩ infd.both
  | some infd, some outfd, none =>
    Run.close ⟨{statics with infd,outfd},[]⟩ (infd.both++outfd.both)
  | some infd, some outfd, some errfd =>
    let run : Run := ⟨{statics with infd,outfd,errfd},[]⟩
    match calls.fork with
    | some pid =>
      collect calls pid.val (run.close [infd.readEnd,outfd.writeEnd,errfd.writeEnd,infd.writeEnd])
    | none => collect calls (-1) (cleanup run)

def ledger (calls : Calls) (statics : Statics) : Ledger Int :=
  ⟨obtained calls.infd calls.outfd calls.errfd,(execute calls statics).events.filterMap Event.closed⟩

def Calls.Fails (calls : Calls) : Prop :=
  calls.infd = none ∨ calls.outfd = none ∨ calls.errfd = none ∨ calls.fork = none

def Statics.results (statics : Statics) : List UInt8 × List UInt8 × BitVec 32 :=
  (statics.StdOut,statics.StdErr,statics.ExitStatus)

/-- Every descriptor is closed once, and a failure leaves the results alone, with no
process waited for and nothing read. -/
structure Tidy (calls : Calls) (statics : Statics) : Prop where
  closed : (ledger calls statics).ExactlyOnce
  idle : calls.Fails → (∀ pid, .waitpid pid ∉ (execute calls statics).events) ∧
    ∀ fd, .read fd ∉ (execute calls statics).events
  kept : calls.Fails → (execute calls statics).statics.results = statics.results

def Calls.NoPipe (calls : Calls) : Prop :=
  calls.infd = none ∨ calls.outfd = none ∨ calls.errfd = none

@[simp] theorem closed_close (fds : List Int) :
    (fds.map Event.close).filterMap Event.closed = fds := by
  induction fds with
  | nil => rfl
  | cons fd fds ih => rw [List.map_cons,List.filterMap_cons,ih,Event.closed]

@[simp] theorem closed_read (count : Nat) (fd : Int) :
    (List.replicate count (Event.read fd)).filterMap Event.closed = [] := by
  apply List.filterMap_eq_nil_iff.mpr
  intro event member
  cases List.eq_of_mem_replicate member
  rfl

theorem execute_noPipe (calls : Calls) (statics : Statics) (fails : calls.NoPipe) :
    (execute calls statics).events =
        (obtained calls.infd calls.outfd calls.errfd).map .close ∧
      (execute calls statics).statics.results = statics.results := by
  obtain ⟨infd,outfd,errfd,fork,status,reads,buffer,distinct⟩ := calls
  cases infd with
  | none => exact ⟨rfl,rfl⟩
  | some infd =>
    cases outfd with
    | none => exact ⟨rfl,rfl⟩
    | some outfd =>
      cases errfd with
      | none => exact ⟨rfl,rfl⟩
      | some errfd => simp [Calls.NoPipe] at fails

theorem noPipe_tidy (calls : Calls) (statics : Statics) (fails : calls.NoPipe) : Tidy calls statics := by
  obtain ⟨events,results⟩ := execute_noPipe calls statics fails
  have owes : (ledger calls statics).Owes [] := by
    constructor
    · exact calls.distinct
    · rw [ledger,events,closed_close,List.append_nil]
  refine ⟨(Ledger.exactlyOnce_iff _ _ owes).mpr rfl,fun _ => ?_,fun _ => results⟩
  rw [events]
  exact ⟨by simp,by simp⟩

/-- What was closed before `waitpid`, and then all six. -/
theorem collect_closed (calls : Calls) (pid : Int) (run : Run) :
    (collect calls pid run).events.filterMap Event.closed =
      run.events.filterMap Event.closed++
        (run.statics.infd.both++run.statics.outfd.both++run.statics.errfd.both) := by
  have waited : [Event.waitpid pid].filterMap Event.closed = [] := rfl
  simp only [collect,cleanup,Run.close,List.filterMap_append,closed_close,closed_read,waited,
    List.append_nil]

theorem closed_twice (calls : Calls) (pid : Int) (run : Run)
    (before : run.statics.infd.readEnd ∈ run.events.filterMap Event.closed) :
    2 ≤ ((collect calls pid run).events.filterMap Event.closed).count run.statics.infd.readEnd := by
  rw [collect_closed,List.count_append]
  have first := List.count_pos_iff.mpr before
  have second : 0 < (run.statics.infd.both++run.statics.outfd.both++
      run.statics.errfd.both).count run.statics.infd.readEnd := by
    apply List.count_pos_iff.mpr
    simp [Fds.both]
  omega

theorem three_pipes (infd outfd errfd : Option Fds)
    (succeed : ¬(infd = none ∨ outfd = none ∨ errfd = none)) :
    ∃ first second third, infd = some first ∧ outfd = some second ∧ errfd = some third := by
  simp only [not_or] at succeed
  obtain ⟨here,there,last⟩ := succeed
  obtain ⟨first,rfl⟩ := Option.ne_none_iff_exists'.mp here
  obtain ⟨second,rfl⟩ := Option.ne_none_iff_exists'.mp there
  obtain ⟨third,rfl⟩ := Option.ne_none_iff_exists'.mp last
  exact ⟨first,second,third,rfl,rfl,rfl⟩

/-- With three pipes the parent gets to `waitpid` in any case, and has closed one end before. -/
theorem execute_collects (calls : Calls) (statics : Statics) (succeed : ¬calls.NoPipe) :
    ∃ pid run, execute calls statics = collect calls pid run ∧
      run.statics.infd.readEnd ∈ (ledger calls statics).taken ∧
      run.statics.infd.readEnd ∈ run.events.filterMap Event.closed := by
  obtain ⟨infd,outfd,errfd,fork,status,reads,buffer,distinct⟩ := calls
  obtain ⟨infd,outfd,errfd,rfl,rfl,rfl⟩ := three_pipes infd outfd errfd succeed
  cases fork with
  | none =>
    refine ⟨-1,cleanup ⟨{statics with infd,outfd,errfd},[]⟩,rfl,?_,?_⟩
    · simp [ledger,obtained,cleanup,Run.close,Fds.both]
    · simp [cleanup,Run.close,Fds.both,Event.closed]
  | some pid =>
    refine ⟨pid.val,Run.close ⟨{statics with infd,outfd,errfd},[]⟩
      [infd.readEnd,outfd.writeEnd,errfd.writeEnd,infd.writeEnd],rfl,?_,?_⟩
    · simp [ledger,obtained,Run.close,Fds.both]
    · simp [Run.close,Event.closed]

theorem tidy_iff (calls : Calls) (statics : Statics) : Tidy calls statics ↔ calls.NoPipe := by
  constructor
  · intro tidy
    by_contra succeed
    obtain ⟨pid,run,collects,taken,before⟩ := execute_collects calls statics succeed
    have once := tidy.closed.1 run.statics.infd.readEnd taken
    rw [ledger,collects] at once
    exact absurd once (Nat.ne_of_gt (closed_twice calls pid run before))
  · exact noPipe_tidy calls statics

/-- With a child, the results are what the two loops capture. -/
theorem execute_captures (calls : Calls) (statics : Statics) (succeed : ¬calls.NoPipe)
    (forked : calls.fork ≠ none) (out : statics.StdOut = zeros GLOBAL_SIZE)
    (err : statics.StdErr = zeros GLOBAL_SIZE) :
    Globals.mk (execute calls statics).statics.StdOut (execute calls statics).statics.StdErr =
      capture calls.buffer (calls.reads .out) (calls.reads .err) := by
  obtain ⟨infd,outfd,errfd,fork,status,reads,buffer,distinct⟩ := calls
  obtain ⟨infd,outfd,errfd,rfl,rfl,rfl⟩ := three_pipes infd outfd errfd succeed
  obtain ⟨pid,rfl⟩ := Option.ne_none_iff_exists'.mp forked
  simp only [obtained,Fds.both,List.cons_append,List.nil_append] at distinct
  -- the parent has closed neither of the ends that it reads
  have open_out : outfd.readEnd ∉ [infd.readEnd,outfd.writeEnd,errfd.writeEnd,infd.writeEnd] := by
    grind
  have open_err : errfd.readEnd ∉ [infd.readEnd,outfd.writeEnd,errfd.writeEnd,infd.writeEnd] := by
    grind
  simp only [execute,collect,cleanup,Run.close,Run.answers,List.nil_append,List.mem_map,Event.close.injEq,
    exists_eq_right,open_out,open_err,if_false,out,err]
  rfl

def threePipes (fork : Option {pid : Nat // 0 < pid}) : Calls :=
  ⟨some ⟨3,4⟩,some ⟨5,6⟩,some ⟨7,8⟩,fork,0,fun _ => [],blank,by decide⟩

def beforeCall : Statics := ⟨⟨0,0⟩,⟨0,0⟩,⟨0,0⟩,zeros GLOBAL_SIZE,zeros GLOBAL_SIZE,1⟩

/-- With a child four descriptors are closed twice. Without one all six are, after a
`waitpid`, and `ExitStatus` is no longer what it was. -/
theorem descriptors_closed_twice :
    (ledger (threePipes (some ⟨9,by decide⟩)) beforeCall).settled = [3,6,8,4,3,4,5,6,7,8] ∧
      (ledger (threePipes none) beforeCall).settled = [3,4,5,6,7,8,3,4,5,6,7,8] ∧
      .waitpid (-1) ∈ (execute (threePipes none) beforeCall).events ∧
      (execute (threePipes none) beforeCall).statics.ExitStatus = 0 ∧
      ¬Tidy (threePipes (some ⟨9,by decide⟩)) beforeCall ∧ ¬Tidy (threePipes none) beforeCall := by
  refine ⟨rfl,rfl,by decide,rfl,?_,?_⟩
  · intro tidy
    exact absurd (tidy.closed.1 3) (by decide)
  · intro tidy
    exact absurd (tidy.closed.1 3) (by decide)

end LinuxCourse.PipeDescriptors
