import Mathlib.Data.List.Basic

/-! Runs of labelled transition systems. A step is a partial function of a state
and an action, so a list of actions is one complete interleaving; a property of
every action list is a property of every reachable state. -/
namespace LinuxCourse.Execution

variable {State Action : Type}

def run (step : State → Action → Option State) : State → List Action → Option State
  | state, [] => some state
  | state, action::rest => (step state action).bind fun next => run step next rest

/-- Every step of a run is taken in a state and with an action that `allowed`
admits. The condition is read before the step, never off its result. -/
def Meets (step : State → Action → Option State) (allowed : State → Action → Prop) :
    State → List Action → Prop
  | _, [] => True
  | state, action::rest =>
    allowed state action ∧ ∀ next, step state action = some next → Meets step allowed next rest

instance decidableMeets (step : State → Action → Option State) (allowed : State → Action → Prop)
    [∀ state action, Decidable (allowed state action)] :
    (state : State) → (actions : List Action) → Decidable (Meets step allowed state actions)
  | _, [] => isTrue trivial
  | state, action::rest =>
    match taken : step state action with
    | none => decidable_of_iff (allowed state action) (by simp [Meets,taken])
    | some next =>
      have := decidableMeets step allowed next rest
      decidable_of_iff (allowed state action ∧ Meets step allowed next rest) (by simp [Meets,taken])

theorem run_cons (step : State → Action → Option State) (state : State) (action : Action)
    (rest : List Action) (final : State) :
    run step state (action::rest) = some final ↔
      ∃ next, step state action = some next ∧ run step next rest = some final := by
  simp only [run,Option.bind_eq_some_iff]

/-- A run that is written down step by step, each of them admitted. -/
theorem taken_cons (step : State → Action → Option State) (allowed : State → Action → Prop)
    (state next final : State) (action : Action) (rest : List Action)
    (stepped : step state action = some next) (admitted : allowed state action)
    (later : Meets step allowed next rest ∧ run step next rest = some final) :
    Meets step allowed state (action::rest) ∧ run step state (action::rest) = some final := by
  refine ⟨⟨admitted,fun other taken => ?_⟩,(run_cons step state action rest final).mpr ⟨next,stepped,later.2⟩⟩
  rw [stepped] at taken
  exact Option.some.inj taken ▸ later.1

theorem run_append (step : State → Action → Option State) (state : State) (first second : List Action) :
    run step state (first++second) = (run step state first).bind fun middle => run step middle second := by
  induction first generalizing state with
  | nil => rfl
  | cons action rest ih => simp only [List.cons_append,run,ih,Option.bind_assoc]

/-- `states` gives the state after each number of rounds of the same actions. -/
theorem run_rounds (step : State → Action → Option State) (states : Nat → State) (round : List Action)
    (count : Nat) (advances : ∀ done < count, run step (states done) round = some (states (done+1))) :
    run step (states 0) (List.replicate count round).flatten = some (states count) := by
  induction count with
  | zero => rfl
  | succ count ih =>
    rw [List.replicate_succ',List.flatten_concat,run_append,
      ih fun done before => advances done (Nat.lt_succ_of_lt before)]
    exact advances count (Nat.lt_succ_self count)

theorem run_meets (step : State → Action → Option State) (allowed : State → Action → Prop)
    (invariant : State → Prop)
    (preserved : ∀ state action next, invariant state → allowed state action →
      step state action = some next → invariant next)
    (actions : List Action) (state final : State) (initial : invariant state)
    (met : Meets step allowed state actions)
    (reached : run step state actions = some final) : invariant final := by
  induction actions generalizing state with
  | nil =>
    have same : state = final := Option.some.inj reached
    exact same ▸ initial
  | cons action rest ih =>
    obtain ⟨next,stepped,continued⟩ := (run_cons step state action rest final).mp reached
    exact ih next (preserved state action next initial met.1 stepped) (met.2 next stepped) continued

theorem meets_always (step : State → Action → Option State) (allowed : State → Action → Prop)
    (always : ∀ state action, allowed state action) (actions : List Action) (state : State) :
    Meets step allowed state actions := by
  induction actions generalizing state with
  | nil => trivial
  | cons action rest ih => exact ⟨always state action,fun next _ => ih next⟩

theorem run_invariant (step : State → Action → Option State) (invariant : State → Prop)
    (preserved : ∀ state action next, invariant state →
      step state action = some next → invariant next)
    (actions : List Action) (state final : State) (initial : invariant state)
    (reached : run step state actions = some final) : invariant final :=
  run_meets step (fun _ _ => True) invariant
    (fun state action next holds _ stepped => preserved state action next holds stepped)
    actions state final initial (meets_always step _ (fun _ _ => trivial) actions state) reached

/-- A condition that the invariant derives from another one, wherever the step is taken. -/
theorem meets_stronger (step : State → Action → Option State) (weak strong : State → Action → Prop)
    (invariant : State → Prop)
    (preserved : ∀ state action next, invariant state → weak state action →
      step state action = some next → invariant next)
    (derived : ∀ state action next, invariant state → weak state action →
      step state action = some next → strong state action)
    (actions : List Action) (state final : State) (initial : invariant state)
    (met : Meets step weak state actions)
    (reached : run step state actions = some final) : Meets step strong state actions := by
  induction actions generalizing state with
  | nil => trivial
  | cons action rest ih =>
    obtain ⟨next,stepped,continued⟩ := (run_cons step state action rest final).mp reached
    refine ⟨derived state action next initial met.1 stepped,fun other taken => ?_⟩
    obtain rfl := Option.some.inj (stepped.symm.trans taken)
    exact ih next (preserved state action next initial met.1 stepped) (met.2 next stepped) continued

/-- A run that takes a step that is not admitted ends in what such a step leads to. -/
theorem run_unmet (step : State → Action → Option State) (allowed : State → Action → Prop)
    (invariant doomed : State → Prop)
    (preserved : ∀ state action next, invariant state → step state action = some next → invariant next)
    (violated : ∀ state action next, invariant state → ¬allowed state action →
      step state action = some next → doomed next)
    (lasting : ∀ state action next, doomed state → step state action = some next → doomed next)
    (actions : List Action) (state final : State) (initial : invariant state)
    (unmet : ¬Meets step allowed state actions)
    (reached : run step state actions = some final) : doomed final := by
  induction actions generalizing state with
  | nil => exact absurd trivial unmet
  | cons action rest ih =>
    obtain ⟨next,stepped,continued⟩ := (run_cons step state action rest final).mp reached
    by_cases admitted : allowed state action
    · apply ih next (preserved state action next initial stepped) _ continued
      intro met
      apply unmet
      refine ⟨admitted,fun other taken => ?_⟩
      rw [stepped] at taken
      exact Option.some.inj taken ▸ met
    · have begun := violated state action next initial admitted stepped
      exact run_invariant step doomed lasting rest next final begun continued

/-- Beside the state, what happened before: a record that each step extends. -/
def recording {History : Type} (step : State → Action → Option State)
    (record : State → Action → History → History) (before : State × History) (action : Action) :
    Option (State × History) :=
  (step before.1 action).map fun next => (next,record before.1 action before.2)

theorem recording_step {History : Type} (step : State → Action → Option State)
    (record : State → Action → History → History) (before after : State × History) (action : Action)
    (recorded : recording step record before action = some after) :
    step before.1 action = some after.1 ∧ after.2 = record before.1 action before.2 := by
  obtain ⟨next,stepped,rfl⟩ := Option.map_eq_some_iff.mp recorded
  exact ⟨stepped,rfl⟩

/-- Every run has its record. -/
theorem run_recording {History : Type} (step : State → Action → Option State)
    (record : State → Action → History → History) (actions : List Action) (state final : State)
    (history : History) (reached : run step state actions = some final) :
    ∃ recorded, run (recording step record) (state,history) actions = some (final,recorded) := by
  induction actions generalizing state history with
  | nil =>
    obtain rfl := Option.some.inj reached
    exact ⟨history,rfl⟩
  | cons action rest ih =>
    obtain ⟨next,stepped,continued⟩ := (run_cons step state action rest final).mp reached
    obtain ⟨recorded,run⟩ := ih next (record state action history) continued
    refine ⟨recorded,(run_cons _ _ _ _ _).mpr ⟨_,?_,run⟩⟩
    exact Option.map_eq_some_iff.mpr ⟨next,stepped,rfl⟩

/-- A condition that looks at the record, and one that looks at the state instead. -/
theorem meets_recording {History : Type} (step : State → Action → Option State)
    (record : State → Action → History → History) (allowed : State × History → Action → Prop)
    (plain : State → Action → Prop) (invariant : State × History → Prop)
    (preserved : ∀ before action after, invariant before →
      recording step record before action = some after → invariant after)
    (agree : ∀ before action, invariant before → (allowed before action ↔ plain before.1 action))
    (actions : List Action) (state : State) (history : History) (initial : invariant (state,history)) :
    Meets (recording step record) allowed (state,history) actions ↔ Meets step plain state actions := by
  induction actions generalizing state history with
  | nil => exact Iff.rfl
  | cons action rest ih =>
    rw [Meets,Meets,agree _ action initial]
    refine and_congr_right fun _ => ?_
    constructor
    · intro met next stepped
      have moved : recording step record (state,history) action = some (next,record state action history) :=
        Option.map_eq_some_iff.mpr ⟨next,stepped,rfl⟩
      exact (ih next _ (preserved _ _ _ initial moved)).mp (met _ moved)
    · intro met after moved
      obtain ⟨next,recorded⟩ := after
      exact (ih next recorded (preserved _ _ _ initial moved)).mpr
        (met next (recording_step step record _ _ action moved).1)

end LinuxCourse.Execution
