import LinuxCourse.Library.Execution
import Mathlib.Data.List.Basic
import Mathlib.Logic.Function.Basic

/-! Threads that take locks one after the other and give none of them back. -/
namespace LinuxCourse.Library.Hoarding

inductive Op (κ : Type)
  | lock (lock : κ)
  | sleep
  deriving DecidableEq

structure State (ι κ : Type) where
  remaining : ι → List (Op κ)
  owner : κ → Option ι

variable {ι κ : Type} [DecidableEq ι] [DecidableEq κ]

/-- A thread that finds a lock taken waits, also when it has taken it itself. -/
def step (state : State ι κ) (thread : ι) : Option (State ι κ) :=
  match state.remaining thread with
  | [] => none
  | .sleep::rest => some {state with remaining := Function.update state.remaining thread rest}
  | .lock lock::rest =>
    if state.owner lock = none then some
      ⟨Function.update state.remaining thread rest,Function.update state.owner lock (some thread)⟩
    else none

def start (script : ι → List (Op κ)) : State ι κ := ⟨script,fun _ => none⟩

theorem step_cases (state next : State ι κ) (thread : ι) (stepped : step state thread = some next) :
    ∃ op rest, state.remaining thread = op::rest ∧
      next.remaining = Function.update state.remaining thread rest ∧
      ((op = .sleep ∧ next.owner = state.owner) ∨
        ∃ lock, op = .lock lock ∧ state.owner lock = none ∧
          next.owner = Function.update state.owner lock (some thread)) := by
  unfold step at stepped
  split at stepped
  · contradiction
  · rename_i rest remaining
    obtain rfl := Option.some.inj stepped
    exact ⟨.sleep,rest,remaining,rfl,Or.inl ⟨rfl,rfl⟩⟩
  · rename_i lock rest remaining
    split at stepped
    · rename_i free
      obtain rfl := Option.some.inj stepped
      exact ⟨.lock lock,rest,remaining,rfl,Or.inr ⟨lock,rfl,free,rfl⟩⟩
    · contradiction

/-- A thread is at its end, or a lock that it needs has an owner. -/
theorem step_blocked (state : State ι κ) (thread : ι) (blocked : step state thread = none) :
    state.remaining thread = [] ∨
      ∃ lock rest holder, state.remaining thread = .lock lock::rest ∧ state.owner lock = some holder := by
  unfold step at blocked
  split at blocked
  · rename_i remaining
    exact Or.inl remaining
  · contradiction
  · rename_i lock rest remaining
    split at blocked
    · contradiction
    · rename_i taken
      obtain ⟨holder,owned⟩ := Option.ne_none_iff_exists'.mp taken
      exact Or.inr ⟨lock,rest,holder,remaining,owned⟩

/-- A thread owns the locks of what it has done, and no others. -/
def Hoards (script : ι → List (Op κ)) (state : State ι κ) : Prop :=
  ∀ thread, ∃ done, script thread = done++state.remaining thread ∧
    ∀ lock, state.owner lock = some thread ↔ .lock lock ∈ done

omit [DecidableEq ι] [DecidableEq κ] in
theorem start_hoards (script : ι → List (Op κ)) : Hoards script (start script) := by
  intro thread
  refine ⟨[],rfl,fun lock => ⟨?_,?_⟩⟩
  · intro owned
    contradiction
  · intro member
    contradiction

theorem step_hoards (script : ι → List (Op κ)) (state next : State ι κ) (thread : ι)
    (holds : Hoards script state) (stepped : step state thread = some next) : Hoards script next := by
  obtain ⟨op,rest,remaining,after,owners⟩ := step_cases state next thread stepped
  intro other
  obtain ⟨done,whole,owned⟩ := holds other
  by_cases same : other = thread
  · subst same
    refine ⟨done++[op],?_,?_⟩
    · rw [whole,after,Function.update_self,remaining,List.append_assoc,List.singleton_append]
    · intro lock
      rw [List.mem_append,List.mem_singleton,← owned lock]
      rcases owners with ⟨rfl,unchanged⟩ | ⟨taken,rfl,free,now⟩
      · rw [unchanged]
        simp only [reduceCtorEq,or_false]
      · rw [now,Op.lock.injEq]
        by_cases equal : lock = taken
        · subst equal
          simp only [Function.update_self,or_true]
        · simp only [Function.update_of_ne equal,equal,or_false]
  · refine ⟨done,?_,?_⟩
    · rw [whole,after,Function.update_of_ne same]
    · intro lock
      rw [← owned lock]
      rcases owners with ⟨-,unchanged⟩ | ⟨taken,-,free,now⟩
      · rw [unchanged]
      · rw [now]
        by_cases equal : lock = taken
        · subst equal
          rw [Function.update_self,free,Option.some.injEq]
          exact ⟨fun mine => absurd mine.symm same,nofun⟩
        · rw [Function.update_of_ne equal]

omit [DecidableEq ι] [DecidableEq κ] in
/-- How far a thread is. -/
theorem hoards_drop (script : ι → List (Op κ)) (state : State ι κ) (holds : Hoards script state)
    (thread : ι) :
    ∃ place ≤ (script thread).length, state.remaining thread = (script thread).drop place ∧
      ∀ lock, state.owner lock = some thread ↔ .lock lock ∈ (script thread).take place := by
  obtain ⟨done,whole,owned⟩ := holds thread
  refine ⟨done.length,?_,?_,?_⟩
  · rw [whole,List.length_append]
    exact Nat.le_add_right _ _
  · rw [whole,List.drop_left]
  · rw [whole,List.take_left]
    exact owned

/-- A lock that has an owner keeps it. -/
theorem step_keeps (state next : State ι κ) (thread holder : ι) (lock : κ)
    (stepped : step state thread = some next) (owned : state.owner lock = some holder) :
    next.owner lock = some holder := by
  obtain ⟨op,rest,remaining,after,owners⟩ := step_cases state next thread stepped
  rcases owners with ⟨-,unchanged⟩ | ⟨taken,-,free,now⟩
  · rw [unchanged,owned]
  · rw [now,Function.update_of_ne,owned]
    rintro rfl
    rw [free] at owned
    contradiction

omit [DecidableEq ι] [DecidableEq κ] in
/-- A thread that is at its end owns each lock that it needed, for ever. -/
theorem finished_owns (script : ι → List (Op κ)) (state : State ι κ) (holds : Hoards script state) (thread : ι)
    (finished : state.remaining thread = []) (lock : κ) (needed : .lock lock ∈ script thread) :
    state.owner lock = some thread := by
  obtain ⟨done,whole,owned⟩ := holds thread
  rw [finished,List.append_nil] at whole
  exact (owned lock).mpr (whole ▸ needed)

end LinuxCourse.Library.Hoarding
