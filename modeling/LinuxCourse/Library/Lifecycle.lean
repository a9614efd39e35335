import Mathlib.Data.List.Basic

/-! One resource over a run. It is used only while it is there, and nothing is done with it
once it was given back. -/
namespace LinuxCourse.Library

inductive Act
  | create (succeeds : Bool)
  | use
  | free
  deriving DecidableEq

inductive Life
  | absent
  | live
  | freed
  deriving DecidableEq

namespace Life

/-- To free a resource that was never made does nothing; `none` is for a misuse. -/
def step : Life → Act → Option Life
  | .absent, .create true => some .live
  | .absent, .create false => some .absent
  | .absent, .free => some .absent
  | .live, .use => some .live
  | .live, .free => some .freed
  | _, _ => none

def replay (life : Life) (acts : List Act) : Option Life := acts.foldlM step life

theorem replay_append (life : Life) (before after : List Act) :
    life.replay (before++after) = (life.replay before).bind fun next => next.replay after :=
  List.foldlM_append

/-- Once it is there, it stays until it is freed. -/
theorem replay_use (acts : List Act) (uses : ∀ act ∈ acts, act = .use) :
    live.replay acts = some .live := by
  induction acts with
  | nil => rfl
  | cons act acts ih =>
    obtain ⟨rfl,rest⟩ := List.forall_mem_cons.mp uses
    exact ih rest

end Life
end LinuxCourse.Library
