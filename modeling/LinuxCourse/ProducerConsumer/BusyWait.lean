import LinuxCourse.ProducerConsumer.HandOff

/-! `producer_bug_busywait.c`. Neither thread waits for the other, and the producer's test
takes the bound itself for room. -/
namespace LinuxCourse.ProducerBugBusywait
open Library Monitor ProducerConsumer

def producer : Stage → Shared Unit → Command Stage (Shared Unit)
  | .lock, _ => .lock .test
  | .test, shared => .compute shared (if shared.g_counter ≤ MAX_SIZE then .increment else .unlock)
  | .increment, shared =>
    .compute {shared with
      g_counter := shared.g_counter+1
      produced := shared.produced+1} .unlock
  | .unlock, _ => .unlock .lock
  | _, _ => .stop

def consumer : Stage → Shared Unit → Command Stage (Shared Unit)
  | .lock, _ => .lock .check
  | .check, shared => .compute shared (if shared.g_counter ≠ 0 then .decrement else .unlock)
  | .decrement, shared =>
    .compute {shared with
      g_counter := shared.g_counter-1
      consumed := shared.consumed++[()]} .unlock
  | .unlock, _ => .unlock .lock
  | _, _ => .stop

def program : Thread Unit → Stage → Shared Unit → Command Stage (Shared Unit)
  | .producer => producer
  | .consumer _ => consumer

theorem disciplined : Disciplined program inside := by
  intro thread stage shared
  cases thread with
  | producer =>
    cases stage with
    | test =>
      simp only [program,producer]
      split <;> exact ⟨rfl,Or.inl rfl⟩
    | increment => exact ⟨rfl,Or.inl rfl⟩
    | lock | unlock => exact ⟨rfl,rfl⟩
    | wake | wait | waiting | check | decrement => trivial
  | consumer =>
    cases stage with
    | check =>
      simp only [program,consumer]
      split <;> exact ⟨rfl,Or.inl rfl⟩
    | decrement => exact ⟨rfl,Or.inl rfl⟩
    | lock | unlock => exact ⟨rfl,rfl⟩
    | test | wait | waiting | increment | wake => trivial

structure Bounded (shared : Shared Unit) : Prop where
  nonneg : 0 ≤ shared.g_counter
  bounded : shared.g_counter ≤ MAX_SIZE
  balance : shared.g_counter = shared.produced-shared.consumed.length

/-- The producer's test does not find the counter at the bound. -/
def BelowBound (state : State (Thread Unit) Stage (Shared Unit)) : Action (Thread Unit) → Prop
  | .run .producer _ => state.stages .producer = .test → state.shared.g_counter ≠ MAX_SIZE
  | _ => True

instance (state : State (Thread Unit) Stage (Shared Unit)) :
    (action : Action (Thread Unit)) → Decidable (BelowBound state action)
  | .run .producer _ => inferInstanceAs (Decidable (_ → _ ≠ MAX_SIZE))
  | .run (.consumer _) _ | .spurious _ | .timeout _ => isTrue trivial

theorem bounded_sound (thread : Thread Unit) (stage : Stage) (shared : Shared Unit)
    (bounded : Bounded shared) (tested : Tested thread stage shared)
    (below : thread = .producer → stage = .test → shared.g_counter ≠ MAX_SIZE) :
    Establishes Bounded (Tested thread) shared (program thread stage shared) := by
  obtain ⟨nonneg,bound,balance⟩ := bounded
  cases thread with
  | producer =>
    cases stage with
    | test =>
      refine ⟨⟨nonneg,bound,balance⟩,?_⟩
      split
      · exact lt_of_le_of_ne bound (below rfl rfl)
      · trivial
    | increment =>
      have room : shared.g_counter < MAX_SIZE := tested
      refine ⟨⟨?_,?_,?_⟩,trivial⟩
      · simp only
        omega
      · simp only
        omega
      · simp only [Nat.cast_add,Nat.cast_one]
        omega
    | lock | unlock | wake | wait | waiting | check | decrement => trivial
  | consumer =>
    cases stage with
    | check =>
      refine ⟨⟨nonneg,bound,balance⟩,?_⟩
      split
      · assumption
      · trivial
    | decrement =>
      have some : shared.g_counter ≠ 0 := tested
      refine ⟨⟨?_,?_,?_⟩,trivial⟩
      · simp only
        omega
      · simp only
        omega
      · simp only [List.length_append,List.length_singleton,Nat.cast_add,Nat.cast_one]
        omega
    | lock | unlock | test | wait | waiting | increment | wake => trivial

theorem busywait_bounded (actions : List (Action (Thread Unit)))
    (final : State (Thread Unit) Stage (Shared Unit))
    (met : Execution.Meets (step program) BelowBound initial actions)
    (reached : Monitor.run program initial actions = some final) : Bounded final.shared := by
  refine run_known disciplined BelowBound Bounded Tested (fun thread stage shared out => ?_) ?_
    actions _ _ final (fun _ => rfl) ⟨Int.le_refl 0,by simp [MAX_SIZE],by simp⟩ met reached
  · cases thread <;> cases stage <;> trivial
  · intro state thread chosen bounded tested below
    refine bounded_sound thread _ _ bounded tested ?_
    rintro rfl test
    exact below test

theorem busywait_bounded_unit : ∃ final,
    Monitor.run program initial (List.replicate 4 (.run .producer [])) = some final ∧
    final.shared.g_counter = 1 ∧ Bounded final.shared := by
  have ran : (Monitor.run program initial (List.replicate 4 (.run .producer []))).map
      (fun final => final.shared.g_counter) = some 1 := by decide +kernel
  obtain ⟨final,reached,counter⟩ := Option.map_eq_some_iff.mp ran
  exact ⟨final,reached,counter,busywait_bounded _ final (by decide +kernel) reached⟩

def iteration : List (Action (Thread Unit)) := List.replicate 4 (.run .producer [])

/-- The state after `count` iterations of the producer while the consumer has no turn. -/
def produced (count : Nat) : State (Thread Unit) Stage (Shared Unit) :=
  {initial with shared := ⟨count,none,count,[]⟩}

theorem iteration_produces (count : Nat) (room : (count : Int) ≤ MAX_SIZE) :
    Monitor.run program (produced count) iteration = some (produced (count+1)) := by
  have home : Function.update (fun _ : Thread Unit => Stage.lock) .producer .lock = fun _ => .lock :=
    Function.update_eq_self _ _
  simp only [Monitor.run,Execution.run,iteration,List.replicate,step,program,producer,produced,initial,
    perform,free,Monitor.lock,Monitor.unlock,State.move,Function.update_self,if_true,Option.map_some,
    Option.bind_some,if_pos room,Function.update_idem]
  rw [home]
  rfl

theorem counter_10001 : ∃ final,
    Monitor.run program initial (List.replicate 10001 iteration).flatten = some final ∧
    final.shared.g_counter = 10001 ∧ MAX_SIZE < final.shared.g_counter := by
  refine ⟨_,Execution.run_rounds (step program) produced iteration 10001 ?_,rfl,by decide⟩
  intro done before
  exact iteration_produces done (by rw [MAX_SIZE]; omega)

end LinuxCourse.ProducerBugBusywait
