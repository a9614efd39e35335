import Mathlib.Data.List.Basic
import Mathlib.Logic.Function.Basic

/-! The descriptor table of a process: what each number stands for. A new descriptor is the
lowest that is free, below the limit of the process. -/
namespace LinuxCourse.Library.Descriptors

variable {φ : Type}

abbrev Table (φ : Type) : Type := Nat → Option φ

def lowest (table : Table φ) (limit : Nat) : Option Nat :=
  (List.range limit).find? fun fd => (table fd).isNone

def install (table : Table φ) (limit : Nat) (file : φ) : Option (Nat × Table φ) :=
  (lowest table limit).map fun fd => (fd,Function.update table fd (some file))

/-- `pipe` takes the two lowest, the read end first. -/
def pipe (table : Table φ) (limit : Nat) (reads writes : φ) : Option ((Nat × Nat) × Table φ) :=
  (install table limit reads).bind fun first =>
    (install first.2 limit writes).map fun second => ((first.1,second.1),second.2)

/-- The table after `close`, which fails where there is nothing to close. -/
def close (table : Table φ) (fd : Nat) : Table φ := Function.update table fd none

def closeAll (table : Table φ) (fds : List Nat) : Table φ := fds.foldl close table

/-- The table after `dup2`, which fails where the first descriptor is not open. -/
def dup2 (table : Table φ) (oldfd newfd : Nat) : Table φ :=
  match table oldfd with
  | some file => Function.update table newfd (some file)
  | none => table

theorem lowest_some (table : Table φ) (limit fd : Nat) (found : lowest table limit = some fd) :
    fd < limit ∧ table fd = none ∧ ∀ other < fd, table other ≠ none := by
  rw [lowest,List.find?_range_eq_some] at found
  obtain ⟨free,below,taken⟩ := found
  refine ⟨List.mem_range.mp below,Option.isNone_iff_eq_none.mp free,?_⟩
  intro other below empty
  have full := taken other below
  rw [empty] at full
  contradiction

theorem install_some (table next : Table φ) (limit fd : Nat) (file : φ)
    (installed : install table limit file = some (fd,next)) :
    fd < limit ∧ table fd = none ∧ (∀ other < fd, table other ≠ none) ∧
      next = Function.update table fd (some file) := by
  obtain ⟨lowest,found,same⟩ := Option.map_eq_some_iff.mp installed
  obtain ⟨rfl,rfl⟩ := Prod.mk.inj same
  obtain ⟨below,free,taken⟩ := lowest_some table limit lowest found
  exact ⟨below,free,taken,rfl⟩

theorem install_none (table : Table φ) (limit : Nat) (file : φ) :
    install table limit file = none ↔ ∀ fd < limit, table fd ≠ none := by
  rw [install,Option.map_eq_none_iff,lowest,List.find?_range_eq_none]
  simp only [Bool.not_eq_true',Option.isNone_eq_false_iff,Option.isSome_iff_ne_none]

theorem pipe_some (table next : Table φ) (limit : Nat) (reads writes : φ) (fds : Nat × Nat)
    (piped : pipe table limit reads writes = some (fds,next)) :
    fds.1 < fds.2 ∧ table fds.1 = none ∧ table fds.2 = none ∧
      (∀ other < fds.2, other ≠ fds.1 → table other ≠ none) ∧
      next = Function.update (Function.update table fds.1 (some reads)) fds.2 (some writes) := by
  obtain ⟨⟨first,middle⟩,one,rest⟩ := Option.bind_eq_some_iff.mp piped
  obtain ⟨⟨second,last⟩,two,same⟩ := Option.map_eq_some_iff.mp rest
  obtain ⟨rfl,rfl⟩ := Prod.mk.inj same
  obtain ⟨-,vacant,full,rfl⟩ := install_some middle last limit second writes two
  obtain ⟨-,free,taken,rfl⟩ := install_some table middle limit first reads one
  have differ : second ≠ first := by
    rintro rfl
    rw [Function.update_self] at vacant
    contradiction
  rw [Function.update_of_ne differ] at vacant
  -- what is free now was free before
  have behind : first < second := by
    by_contra before
    exact taken second (Nat.lt_of_le_of_ne (Nat.le_of_not_lt before) differ) vacant
  refine ⟨behind,free,vacant,?_,rfl⟩
  intro other below apart
  have there := full other below
  rwa [Function.update_of_ne apart] at there

theorem closeAll_at (table : Table φ) (fds : List Nat) (fd : Nat) :
    closeAll table fds fd = if fd ∈ fds then none else table fd := by
  induction fds generalizing table with
  | nil => rfl
  | cons first rest ih =>
    rw [closeAll,List.foldl_cons]
    have after := ih (close table first)
    rw [closeAll] at after
    rw [after]
    by_cases later : fd ∈ rest
    · simp only [later,List.mem_cons,or_true,if_true]
    · by_cases same : fd = first
      · subst same
        simp only [later,close,List.mem_cons,true_or,if_true,if_false,Function.update_self]
      · simp only [later,close,List.mem_cons,same,or_self,if_false,Function.update_of_ne same]

theorem dup2_at (table : Table φ) (oldfd newfd fd : Nat) (file : φ) (opened : table oldfd = some file) :
    dup2 table oldfd newfd fd = if fd = newfd then some file else table fd := by
  simp only [dup2,opened,Function.update_apply]

end LinuxCourse.Library.Descriptors
