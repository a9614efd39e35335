import LinuxCourse.Library.Execution
import Mathlib.Logic.Function.Basic

/-! Threads that interleave on shared memory with nothing to protect it. What a thread knows
at its place must survive each step of the others. -/
namespace LinuxCourse.Library.OwickiGries

structure State (ι Local Shared : Type) where
  locals : ι → Local
  shared : Shared

variable {ι Local Shared : Type}

theorem state_ext (first second : State ι Local Shared)
    (locals : ∀ thread, first.locals thread = second.locals thread)
    (shared : first.shared = second.shared) : first = second := by
  obtain ⟨mine,cell⟩ := first
  obtain rfl : mine = second.locals := funext locals
  obtain rfl : cell = second.shared := shared
  rfl

variable [DecidableEq ι]

def step (program : ι → Local → Shared → Option (Local × Shared)) (state : State ι Local Shared)
    (thread : ι) : Option (State ι Local Shared) :=
  (program thread (state.locals thread) state.shared).map fun ran =>
    ⟨Function.update state.locals thread ran.1,ran.2⟩

section Proof
variable (program : ι → Local → Shared → Option (Local × Shared)) (invariant : Shared → Prop)
  (knows : ι → Local → Shared → Prop)

/-- Every thread keeps the invariant, and goes from what it knows to what it knows next. -/
def Correct : Prop :=
  ∀ thread own shared ran, invariant shared → knows thread own shared →
    program thread own shared = some ran → invariant ran.2 ∧ knows thread ran.1 ran.2

/-- No thread takes away what another one knows. -/
def Stable : Prop :=
  ∀ thread other own its shared ran, thread ≠ other → invariant shared → knows thread own shared →
    knows other its shared → program thread own shared = some ran → knows other its ran.2

theorem step_knows (correct : Correct program invariant knows) (stable : Stable program invariant knows)
    (state next : State ι Local Shared) (thread : ι)
    (holds : invariant state.shared ∧ ∀ each, knows each (state.locals each) state.shared)
    (stepped : step program state thread = some next) :
    invariant next.shared ∧ ∀ each, knows each (next.locals each) next.shared := by
  obtain ⟨sound,each⟩ := holds
  obtain ⟨ran,ok,rfl⟩ := Option.map_eq_some_iff.mp stepped
  obtain ⟨after,own⟩ := correct thread _ _ ran sound (each thread) ok
  refine ⟨after,?_⟩
  intro other
  by_cases same : other = thread
  · subst same
    simpa only [Function.update_self] using own
  · simp only [Function.update_of_ne same]
    exact stable thread other _ _ _ ran (Ne.symm same) sound (each thread) (each other) ok

theorem run_knows (correct : Correct program invariant knows) (stable : Stable program invariant knows)
    (threads : List ι) (state final : State ι Local Shared)
    (holds : invariant state.shared ∧ ∀ each, knows each (state.locals each) state.shared)
    (reached : Execution.run (step program) state threads = some final) :
    invariant final.shared ∧ ∀ each, knows each (final.locals each) final.shared :=
  Execution.run_invariant (step program) _
    (fun state thread next => step_knows program invariant knows correct stable state next thread)
    threads state final holds reached

end Proof
end LinuxCourse.Library.OwickiGries
