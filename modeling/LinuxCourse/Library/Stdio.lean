import Mathlib.Data.List.Basic

/-! An output stream of stdio, in lines that are shorter than its buffer, and the output that
several writers share. -/
namespace LinuxCourse.Library.Stdio

structure Stream (α : Type) where
  lineBuffered : Bool
  buffer : List α
  deriving DecidableEq

variable {α ι : Type}

/-- What a call writes, and the stream after it. -/
def Stream.printf (stream : Stream α) (line : α) : List α × Stream α :=
  if stream.lineBuffered then (stream.buffer++[line],{stream with buffer := []})
  else ([],{stream with buffer := stream.buffer++[line]})

def Stream.fflush (stream : Stream α) : List α × Stream α := (stream.buffer,{stream with buffer := []})

/-- `std::cout << line << std::endl`, which goes through the same buffer. -/
def Stream.endl (stream : Stream α) (line : α) : List α × Stream α :=
  (stream.buffer++[line],{stream with buffer := []})

@[simp] theorem printf_buffer (stream : Stream α) (line : α) :
    (stream.printf line).2.buffer = if stream.lineBuffered then [] else stream.buffer++[line] := by
  unfold Stream.printf
  split <;> rfl

@[simp] theorem printf_lineBuffered (stream : Stream α) (line : α) :
    (stream.printf line).2.lineBuffered = stream.lineBuffered := by
  unfold Stream.printf
  split <;> rfl

/-- Nothing is lost and nothing comes twice. -/
theorem printf_whole (stream : Stream α) (line : α) :
    (stream.printf line).1++(stream.printf line).2.buffer = stream.buffer++[line] := by
  unfold Stream.printf
  split
  · rw [List.append_nil]
  · rfl

theorem fflush_whole (stream : Stream α) : stream.fflush.1++stream.fflush.2.buffer = stream.buffer :=
  List.append_nil _

theorem endl_whole (stream : Stream α) (line : α) :
    (stream.endl line).1++(stream.endl line).2.buffer = stream.buffer++[line] := List.append_nil _

section Shared
variable [DecidableEq ι]

/-- What a writer has put into the output. -/
def written (writer : ι) (output : List (ι × α)) : List α :=
  output.filterMap fun entry => if entry.1 = writer then some entry.2 else none

def tag (writer : ι) (lines : List α) : List (ι × α) := lines.map fun line => (writer,line)

theorem written_append (writer : ι) (first second : List (ι × α)) :
    written writer (first++second) = written writer first++written writer second := List.filterMap_append

theorem written_own (writer : ι) (lines : List α) : written writer (tag writer lines) = lines := by
  induction lines with
  | nil => rfl
  | cons line rest ih =>
    rw [tag] at ih
    rw [tag,List.map_cons,written,List.filterMap_cons,if_pos rfl]
    exact congrArg (line :: ·) ih

theorem written_other (writer other : ι) (lines : List α) (differ : other ≠ writer) :
    written writer (tag other lines) = [] := by
  induction lines with
  | nil => rfl
  | cons line rest ih =>
    rw [tag] at ih
    rw [tag,List.map_cons,written,List.filterMap_cons,if_neg differ]
    exact ih

end Shared

end LinuxCourse.Library.Stdio
