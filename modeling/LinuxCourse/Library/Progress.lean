import LinuxCourse.Library.Execution
import Mathlib.Logic.Function.Basic

/-! Runs that come to an end because each of their steps is one of so many. -/
namespace LinuxCourse.Library.Progress

variable {ι : Type}

def total (weight : ι → Nat) : List ι → Nat
  | [] => 0
  | item::rest => weight item+total weight rest

theorem total_congr (first second : ι → Nat) (items : List ι) (same : ∀ item ∈ items, first item = second item) :
    total first items = total second items := by
  induction items with
  | nil => rfl
  | cons item rest ih =>
    rw [total,total,same item List.mem_cons_self]
    rw [ih fun other member => same other (List.mem_cons_of_mem _ member)]

theorem total_update [DecidableEq ι] (weight : ι → Nat) (items : List ι) (item : ι) (value : Nat)
    (distinct : items.Nodup) (member : item ∈ items) :
    total (Function.update weight item value) items+weight item = total weight items+value := by
  induction items with
  | nil => contradiction
  | cons first rest ih =>
    obtain ⟨absent,others⟩ := List.nodup_cons.mp distinct
    rw [total,total]
    rcases List.mem_cons.mp member with rfl | inside
    · have same : total (Function.update weight item value) rest = total weight rest := by
        apply total_congr
        intro other there
        rw [Function.update_of_ne]
        rintro rfl
        exact absent there
      rw [Function.update_self,same]
      omega
    · have differ : first ≠ item := by
        rintro rfl
        exact absent inside
      rw [Function.update_of_ne differ]
      have rest := ih others inside
      omega

theorem total_le (weight : ι → Nat) (items : List ι) (bound : Nat) (each : ∀ item ∈ items, weight item ≤ bound) :
    total weight items ≤ bound*items.length := by
  induction items with
  | nil => exact Nat.zero_le _
  | cons first rest ih =>
    have here := each first List.mem_cons_self
    have there := ih fun other member => each other (List.mem_cons_of_mem _ member)
    rw [total,List.length_cons,Nat.mul_succ]
    omega

/-- Every step of a run adds one to what was done. -/
theorem run_progress {State Action : Type} (step : State → Action → Option State) (progress : State → Nat)
    (invariant : State → Prop)
    (preserved : ∀ state action next, invariant state → step state action = some next → invariant next)
    (advances : ∀ state action next, invariant state → step state action = some next →
      progress next = progress state+1)
    (actions : List Action) (state final : State) (holds : invariant state)
    (reached : Execution.run step state actions = some final) :
    progress final = progress state+actions.length := by
  induction actions generalizing state with
  | nil =>
    have same : state = final := Option.some.inj reached
    rw [same,List.length_nil,Nat.add_zero]
  | cons action rest ih =>
    obtain ⟨next,stepped,continued⟩ := (Execution.run_cons step state action rest final).mp reached
    have after := ih next (preserved state action next holds stepped) continued
    have one := advances state action next holds stepped
    rw [List.length_cons]
    omega

end LinuxCourse.Library.Progress
