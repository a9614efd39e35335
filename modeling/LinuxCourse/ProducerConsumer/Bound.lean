import LinuxCourse.ProducerConsumer.TimeOut

/-! The bound on the buffer where the producer adds a hundred units at once. Its test leaves
room for one unit only. -/
namespace LinuxCourse.ProducerConsumer
open Library Monitor

variable {ι : Type}

def Fits (g_counter : Int) : Prop := g_counter+100 ≤ MAX_SIZE ∨ MAX_SIZE ≤ g_counter

instance (g_counter : Int) : Decidable (Fits g_counter) :=
  inferInstanceAs (Decidable (_ ∨ _))

/-- The producer's test does not find the counter less than a hundred below the bound. -/
def TestFits {Stage Shared : Type} (test : Stage) (counter : Shared → Int)
    (state : State (Thread ι) Stage Shared) : Action (Thread ι) → Prop
  | .run .producer _ => state.stages .producer = test → Fits (counter state.shared)
  | _ => True

instance {Stage Shared : Type} [DecidableEq Stage] (test : Stage) (counter : Shared → Int)
    (state : State (Thread ι) Stage Shared) :
    (action : Action (Thread ι)) → Decidable (TestFits test counter state action)
  | .run .producer _ => inferInstanceAs (Decidable (_ → Fits (counter state.shared)))
  | .run (.consumer _) _ | .spurious _ | .timeout _ => isTrue trivial

def Room : Thread ι → Stage → Shared ι → Prop
  | .producer, .increment, shared => shared.g_counter+100 ≤ MAX_SIZE
  | _, _, _ => True

theorem room_sound (thread : Thread ι) (stage : Stage) (shared : Shared ι)
    (bounded : shared.g_counter ≤ MAX_SIZE) (room : Room thread stage shared)
    (fits : thread = .producer → stage = .test → Fits shared.g_counter) :
    Establishes (fun shared => shared.g_counter ≤ MAX_SIZE) (Room thread) shared
      (program 100 .broadcast thread stage shared) := by
  cases thread with
  | producer =>
    cases stage with
    | test =>
      refine ⟨bounded,?_⟩
      split
      · exact (fits rfl rfl).resolve_right (by omega)
      · trivial
    | increment => exact ⟨room,trivial⟩
    | lock | unlock | wake | wait | waiting | check | decrement => trivial
  | consumer id =>
    cases stage with
    | test | check => exact ⟨bounded,trivial⟩
    | waiting => exact ⟨trivial,fun _ _ => trivial⟩
    | decrement =>
      refine ⟨?_,trivial⟩
      simp only
      omega
    | lock | unlock | wait | increment | wake => trivial

theorem room_outside (thread : Thread ι) (stage : Stage) (shared : Shared ι)
    (out : inside stage = false) : Room thread stage shared := by
  cases thread <;> cases stage <;> trivial

variable [DecidableEq ι]

theorem run_bounded (actions : List (Action (Thread ι))) (final : State (Thread ι) Stage (Shared ι))
    (met : Execution.Meets (step (program 100 .broadcast)) (TestFits .test Shared.g_counter) initial actions)
    (reached : Monitor.run (program 100 .broadcast) initial actions = some final) :
    final.shared.g_counter ≤ MAX_SIZE := by
  refine run_known (disciplined 100 .broadcast) (TestFits .test Shared.g_counter)
    (fun shared => shared.g_counter ≤ MAX_SIZE) Room room_outside ?_ actions _ _ final (fun _ => rfl)
    (by simp [MAX_SIZE]) met reached
  intro state thread chosen bounded room fits
  refine room_sound thread _ _ bounded room ?_
  rintro rfl test
  exact fits test

end LinuxCourse.ProducerConsumer

namespace LinuxCourse.ProducerWithbroadcastAndtimeout
open Library Monitor ProducerConsumer

variable {ι : Type}

def Room : Thread ι → Stage → Shared → Prop
  | .producer, .increment, shared => shared.g_counter+100 ≤ MAX_SIZE
  | _, _, _ => True

theorem room_sound (thread : Thread ι) (stage : Stage) (shared : Shared)
    (bounded : shared.g_counter ≤ MAX_SIZE) (room : Room thread stage shared)
    (fits : thread = .producer → stage = .test → Fits shared.g_counter) :
    Establishes (fun shared => shared.g_counter ≤ MAX_SIZE) (Room thread) shared
      (program thread stage shared) := by
  unfold program
  split
  · trivial
  · cases thread with
    | producer =>
      cases stage with
      | test =>
        refine ⟨bounded,?_⟩
        split
        · exact (fits rfl rfl).resolve_right (by omega)
        · trivial
      | increment => exact ⟨room,trivial⟩
      | lock | unlock | wake | wait | waiting | giveUp | gone | check | decrement => trivial
    | consumer id =>
      cases stage with
      | test | check | giveUp => exact ⟨bounded,trivial⟩
      | waiting => exact ⟨trivial,fun _ _ => trivial⟩
      | decrement =>
        refine ⟨?_,trivial⟩
        simp only
        omega
      | lock | unlock | wait | increment | wake | gone => trivial

theorem room_outside (thread : Thread ι) (stage : Stage) (shared : Shared)
    (out : inside stage = false) : Room thread stage shared := by
  cases thread <;> cases stage <;> trivial

theorem run_bounded [DecidableEq ι] (actions : List (Action (Thread ι)))
    (final : State (Thread ι) Stage Shared)
    (met : Execution.Meets (step program) (TestFits .test Shared.g_counter) initial actions)
    (reached : Monitor.run program initial actions = some final) : final.shared.g_counter ≤ MAX_SIZE := by
  refine run_known disciplined (TestFits .test Shared.g_counter) (fun shared => shared.g_counter ≤ MAX_SIZE)
    Room room_outside ?_ actions _ _ final (fun _ => rfl) (by simp [MAX_SIZE]) met reached
  intro state thread chosen bounded room fits
  refine room_sound thread _ _ bounded room ?_
  rintro rfl test
  exact fits test

end LinuxCourse.ProducerWithbroadcastAndtimeout

namespace LinuxCourse.ProducerConsumer
open Library Monitor

theorem counter_bounded {ι : Type} [DecidableEq ι] (actions : List (Action (Thread ι))) :
    (∀ final, Execution.Meets (step ProducerWithbroadcast.program) (TestFits .test Shared.g_counter)
        initial actions →
      Monitor.run ProducerWithbroadcast.program initial actions = some final →
      final.shared.g_counter ≤ MAX_SIZE) ∧
    (∀ final, Execution.Meets (step ProducerWithbroadcastAndtimeout.program)
        (TestFits .test ProducerWithbroadcastAndtimeout.Shared.g_counter)
        ProducerWithbroadcastAndtimeout.initial actions →
      Monitor.run ProducerWithbroadcastAndtimeout.program ProducerWithbroadcastAndtimeout.initial actions =
        some final → final.shared.g_counter ≤ MAX_SIZE) := by
  rw [ProducerWithbroadcast.program_eq]
  exact ⟨run_bounded actions,ProducerWithbroadcastAndtimeout.run_bounded actions⟩

theorem counter_bounded_hundred : ∃ final,
    Monitor.run ProducerWithbroadcast.program initial
      (List.replicate 5 (.run (.producer : Thread Bool) [])) = some final ∧
    final.shared.g_counter = 100 ∧ final.shared.g_counter ≤ MAX_SIZE := by
  have ran : (Monitor.run ProducerWithbroadcast.program initial
      (List.replicate 5 (.run (.producer : Thread Bool) []))).map
      (fun final => final.shared.g_counter) = some 100 := by decide +kernel
  obtain ⟨final,reached,counter⟩ := Option.map_eq_some_iff.mp ran
  exact ⟨final,reached,counter,(counter_bounded _).1 final (by decide +kernel) reached⟩

/-- Ninety-nine iterations of the producer, one of a consumer, two of the producer. -/
def overshoot : List (Action (Thread Bool)) :=
  List.replicate 495 (.run .producer [])++List.replicate 5 (.run (.consumer true) [])++
    List.replicate 10 (.run .producer [])

theorem counter_10099 :
    (∃ final, Monitor.run ProducerWithbroadcast.program initial overshoot = some final ∧
      MAX_SIZE < final.shared.g_counter) ∧
    ∃ final, Monitor.run ProducerWithbroadcastAndtimeout.program ProducerWithbroadcastAndtimeout.initial
      overshoot = some final ∧ MAX_SIZE < final.shared.g_counter := by
  have untimed : (Monitor.run ProducerWithbroadcast.program initial overshoot).map
      (fun final => final.shared.g_counter) = some 10099 := by decide +kernel
  have timed : (Monitor.run ProducerWithbroadcastAndtimeout.program
      ProducerWithbroadcastAndtimeout.initial overshoot).map
      (fun final => final.shared.g_counter) = some 10099 := by decide +kernel
  obtain ⟨first,reached,counter⟩ := Option.map_eq_some_iff.mp untimed
  obtain ⟨second,again,same⟩ := Option.map_eq_some_iff.mp timed
  exact ⟨⟨first,reached,by rw [counter]; decide⟩,second,again,by rw [same]; decide⟩

end LinuxCourse.ProducerConsumer
