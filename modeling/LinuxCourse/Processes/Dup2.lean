import LinuxCourse.Library.Descriptors
import LinuxCourse.Library.Stdio

/-! `processes/dup2.cpp` and `processes/execv.cpp`, which have the same `main`, from its first
`printf` on. The stream `stdout` belongs to a number, not to what the number stands for. -/
namespace LinuxCourse.Dup2
open Library Library.Descriptors Library.Stdio

inductive File (φ : Type)
  | inherited (file : φ)
  | tricky
  deriving DecidableEq

inductive Line
  | earlier (text : List Char)
  | pid (pid : Nat)
  | terminal
  | inFile
  deriving DecidableEq

def STDIN_FILENO : Nat := 0
def STDOUT_FILENO : Nat := 1

def EXIT_SUCCESS : Nat := 0
def EXIT_FAILURE : Nat := 1

/-- Which calls work, where they can. -/
structure Calls where
  opens : Bool
  dup2s : Bool
  closes : Bool

/-- `fate` is what becomes of the write that a call on the stream makes: nothing stops it, or it
fails after so many lines. A line counts where its end is written. `kept` says whether a stream
keeps what it could not write. -/
structure Setting (φ : Type) where
  calls : Calls
  limit : Nat
  pid : Nat
  isatty : φ → Bool
  fate : Nat → Option Nat
  kept : Bool
  earlier : List Line

structure State (φ : Type) where
  table : Table (File φ)
  stdout : Stream Line
  output : List (File φ × Line)
  called : Nat

section Main
variable {φ : Type} (setting : Setting φ)

/-- What stays in the buffer of lines that could not be written. -/
def unwritten (lines : List Line) : List Line := if setting.kept then lines else []

/-- What a call on the stream writes goes to descriptor 1, and nobody looks at how much of it
could be written. -/
def deliver (state : State φ) (reply : List Line × Stream Line) : State φ :=
  match state.table STDOUT_FILENO with
  | some file =>
    let count := (setting.fate state.called).getD reply.1.length
    {state with
      stdout := {reply.2 with buffer := unwritten setting (reply.1.drop count)++reply.2.buffer}
      output := state.output++tag file (reply.1.take count)
      called := state.called+1}
  | none => {state with
      stdout := {reply.2 with buffer := unwritten setting reply.1++reply.2.buffer}
      called := state.called+1}

def printf (state : State φ) (line : Line) : State φ := deliver setting state (state.stdout.printf line)

def fflush (state : State φ) : State φ := deliver setting state state.stdout.fflush

/-- Before the program, with the lines that are in the buffer when `main` comes to its own. -/
def start (table : Table φ) : State φ where
  table := fun fd => (table fd).map .inherited
  stdout := ⟨((table STDOUT_FILENO).map setting.isatty).getD false,setting.earlier⟩
  output := []
  called := 0

def afterDup2 (file_desc : Nat) (state : State φ) : Nat × State φ :=
  let state := fflush setting
    (printf setting {state with table := dup2 state.table file_desc STDOUT_FILENO} .inFile)
  if setting.calls.closes then (EXIT_SUCCESS,fflush setting {state with table := close state.table file_desc})
  else (EXIT_FAILURE,fflush setting state)

def main (table : Table φ) : Nat × State φ :=
  let state := printf setting (start setting table) (.pid setting.pid)
  match if setting.calls.opens then install state.table setting.limit .tricky else none with
  | none => (EXIT_FAILURE,fflush setting state)
  | some (file_desc,table) =>
    let state := fflush setting (printf setting {state with table := table} .terminal)
    if setting.calls.dup2s then afterDup2 setting file_desc state
    else (EXIT_FAILURE,fflush setting state)

/-- After the first `printf`. -/
def beforeOpen (table : Table φ) : State φ := printf setting (start setting table) (.pid setting.pid)

/-- After the first `fflush`, with `fd` for the new file. -/
def beforeDup2 (table : Table φ) (fd : Nat) : State φ :=
  fflush setting (printf setting {beforeOpen setting table with
    table := Function.update (start setting table).table fd (some .tricky)} .terminal)

/-- Where each line belongs, by what the first two descriptors were at the start. -/
def expected (table : Table φ) : List (File φ × Line) :=
  match table STDOUT_FILENO with
  | some old => tag (.inherited old) (setting.earlier++[.pid setting.pid,.terminal])++tag .tricky [.inFile]
  | none =>
    tag .tricky ((if (table STDIN_FILENO).isNone && !setting.kept then []
      else setting.earlier++[.pid setting.pid,.terminal])++[.inFile])

@[simp] theorem deliver_table (state : State φ) (reply : List Line × Stream Line) :
    (deliver setting state reply).table = state.table := by
  unfold deliver
  split <;> rfl

theorem start_none (table : Table φ) (fd : Nat) : (start setting table).table fd = none ↔ table fd = none :=
  Option.map_eq_none_iff

theorem beforeOpen_table (table : Table φ) : (beforeOpen setting table).table = (start setting table).table :=
  deliver_table setting _ _

/-- The ways through `main`, up to the `dup2`. -/
theorem main_cases (table : Table φ) :
    (main setting table = (EXIT_FAILURE,fflush setting (beforeOpen setting table)) ∧
      (setting.calls.opens = true → ∀ fd < setting.limit, table fd ≠ none)) ∨
    ∃ fd < setting.limit, setting.calls.opens = true ∧ (start setting table).table fd = none ∧
      (∀ other < fd, (start setting table).table other ≠ none) ∧
      main setting table =
        if setting.calls.dup2s then afterDup2 setting fd (beforeDup2 setting table fd)
        else (EXIT_FAILURE,fflush setting (beforeDup2 setting table fd)) := by
  have opening := beforeOpen_table setting table
  rw [beforeOpen] at opening
  unfold main
  dsimp only
  rw [opening]
  split
  · rename_i unopened
    refine Or.inl ⟨rfl,fun opens fd below free => ?_⟩
    rw [if_pos opens,install_none] at unopened
    exact unopened fd below ((start_none setting table fd).mpr free)
  · rename_i fd next opened
    have opens : setting.calls.opens = true := by
      by_contra refused
      rw [if_neg refused] at opened
      contradiction
    rw [if_pos opens] at opened
    obtain ⟨below,free,taken,rfl⟩ := install_some _ next setting.limit fd .tricky opened
    exact Or.inr ⟨fd,below,opens,free,taken,rfl⟩

/-- What has been written, and what the stream still has. -/
def State.lines (state : State φ) : List Line := state.output.map Prod.snd++state.stdout.buffer

section Working
variable (works : ∀ call, setting.fate call = none)
include works

end Working

end Main

/-- All calls work, and no stream is a terminal. -/
def plain : Setting Nat := ⟨⟨true,true,true⟩,16,7,fun _ => false,fun _ => none,false,[]⟩

/-- The device behind standard output is full. -/
def full : Setting Nat := {plain with fate := fun call => if call < 3 then some 0 else none}

end LinuxCourse.Dup2
