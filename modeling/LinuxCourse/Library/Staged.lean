import Mathlib.Data.List.Basic

/-! A stored list with additions that are pending until they are committed together. -/
namespace LinuxCourse.Library

structure Staged (α : Type) where
  stored : Option (List α)
  pending : List α

namespace Staged
variable {α : Type}

def load (stored : Option (List α)) : Staged α := ⟨stored,[]⟩

def add (staged : Staged α) (items : List α) : Staged α :=
  {staged with pending := staged.pending++items}

def contents (stored : Option (List α)) : List α := stored.getD []

/-- What is stored after a commit that succeeds or fails; nothing is written when nothing
is pending. -/
def commit (staged : Staged α) (succeeds : Bool) : Option (List α) :=
  if succeeds = true ∧ staged.pending ≠ [] then some (contents staged.stored++staged.pending)
  else staged.stored

@[simp] theorem add_nil (staged : Staged α) : staged.add [] = staged := by simp [add]

@[simp] theorem add_add (staged : Staged α) (first second : List α) :
    (staged.add first).add second = staged.add (first++second) := by simp [add]

theorem commit_succeeds (staged : Staged α) :
    contents (staged.commit true) = contents staged.stored++staged.pending := by
  unfold commit
  split
  · rfl
  · rename_i none
    have empty : staged.pending = [] := by simpa using none
    rw [empty,List.append_nil]

@[simp] theorem commit_fails (staged : Staged α) : staged.commit false = staged.stored := by simp [commit]

/-- Without a way to discard, a commit that succeeds keeps the old contents only when
there was nothing to add. -/
theorem commit_unchanged_iff (staged : Staged α) (succeeds : Bool) :
    staged.commit succeeds = staged.stored ↔ succeeds = true → staged.pending = [] := by
  cases succeeds with
  | false => simp
  | true =>
    simp only [true_implies]
    constructor
    · intro same
      have equal := congrArg contents same
      rw [commit_succeeds] at equal
      simpa using equal
    · intro none
      simp [commit,none]

end Staged
end LinuxCourse.Library
