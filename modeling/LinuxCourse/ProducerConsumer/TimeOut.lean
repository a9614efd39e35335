import LinuxCourse.ProducerConsumer.HandOff

/-! `producer_withbroadcast_andtimeout.c`. A consumer waits for two seconds at most. When
its time is up it leaves the program, without another look at the counter. -/
namespace LinuxCourse.ProducerWithbroadcastAndtimeout
open Library Monitor ProducerConsumer

/-- `giveUp` is the call `exit(-1)`. -/
inductive Stage
  | lock
  | test
  | increment
  | unlock
  | wake
  | wait
  | waiting
  | giveUp
  | gone
  | check
  | decrement
  deriving DecidableEq

structure Shared where
  g_counter : Int
  exited : Bool

variable {ι : Type}

def producer : Stage → Shared → Command Stage Shared
  | .lock, _ => .lock .test
  | .test, shared => .compute shared (if shared.g_counter < MAX_SIZE then .increment else .unlock)
  | .increment, shared => .compute {shared with g_counter := shared.g_counter+100} .unlock
  | .unlock, _ => .unlock .wake
  | .wake, _ => .broadcast .lock
  | _, _ => .stop

def consumer : Stage → Shared → Command Stage Shared
  | .lock, _ => .lock .test
  | .test, shared => .compute shared (if shared.g_counter = 0 then .wait else .check)
  | .wait, _ => .wait .waiting
  | .waiting, _ => .resume .check (some .giveUp)
  | .giveUp, shared => .compute {shared with exited := true} .gone
  | .check, shared => .compute shared (if shared.g_counter ≠ 0 then .decrement else .unlock)
  | .decrement, shared => .compute {shared with g_counter := shared.g_counter-1} .unlock
  | .unlock, _ => .unlock .lock
  | _, _ => .stop

/-- The exit of one thread ends them all. -/
def program (thread : Thread ι) (stage : Stage) (shared : Shared) : Command Stage Shared :=
  if shared.exited = true then .stop
  else
    match thread with
    | .producer => producer stage shared
    | .consumer _ => consumer stage shared

def initial : State (Thread ι) Stage Shared := ⟨free,fun _ => .lock,⟨0,false⟩⟩

def inside : Stage → Bool
  | .test | .increment | .unlock | .wait | .giveUp | .gone | .check | .decrement => true
  | .lock | .wake | .waiting => false

theorem disciplined : Disciplined (@program ι) inside := by
  intro thread stage shared
  unfold program
  split
  · trivial
  · cases thread with
    | producer =>
      cases stage with
      | test =>
        simp only [producer]
        split <;> exact ⟨rfl,Or.inl rfl⟩
      | increment => exact ⟨rfl,Or.inl rfl⟩
      | lock | unlock => exact ⟨rfl,rfl⟩
      | wake => exact rfl
      | wait | waiting | giveUp | gone | check | decrement => trivial
    | consumer id =>
      cases stage with
      | test | check =>
        simp only [consumer]
        split <;> exact ⟨rfl,Or.inl rfl⟩
      | giveUp | decrement => exact ⟨rfl,Or.inl rfl⟩
      | waiting =>
        refine ⟨rfl,rfl,?_⟩
        rintro next ⟨⟩
        rfl
      | lock | unlock | wait => exact ⟨rfl,rfl⟩
      | increment | wake | gone => trivial

def Tested : Thread ι → Stage → Shared → Prop
  | .producer, .increment, shared => shared.g_counter < MAX_SIZE
  | .consumer _, .wait, shared => shared.g_counter = 0
  | .consumer _, .decrement, shared => shared.g_counter ≠ 0
  | _, _, _ => True

structure Bounded (shared : Shared) : Prop where
  nonneg : 0 ≤ shared.g_counter
  bounded : shared.g_counter ≤ MAX_SIZE+99

theorem tested_sound (thread : Thread ι) (stage : Stage) (shared : Shared) (bounded : Bounded shared)
    (tested : Tested thread stage shared) :
    Establishes Bounded (Tested thread) shared (program thread stage shared) := by
  obtain ⟨nonneg,bounded⟩ := bounded
  unfold program
  split
  · trivial
  · cases thread with
    | producer =>
      cases stage with
      | test =>
        refine ⟨⟨nonneg,bounded⟩,?_⟩
        split
        · assumption
        · trivial
      | increment =>
        have room : shared.g_counter < MAX_SIZE := tested
        refine ⟨⟨?_,?_⟩,trivial⟩
        · simp only
          omega
        · simp only
          omega
      | lock | unlock | wake | wait | waiting | giveUp | gone | check | decrement => trivial
    | consumer id =>
      cases stage with
      | test | check =>
        refine ⟨⟨nonneg,bounded⟩,?_⟩
        split
        · assumption
        · trivial
      | giveUp => exact ⟨⟨nonneg,bounded⟩,trivial⟩
      | waiting => exact ⟨trivial,fun next late => Option.some.inj late ▸ trivial⟩
      | decrement =>
        have left : shared.g_counter ≠ 0 := tested
        refine ⟨⟨?_,?_⟩,trivial⟩
        · simp only
          omega
        · simp only
          omega
      | lock | unlock | wait | increment | wake | gone => trivial

def outline : Outline (@program ι) inside where
  invariant := Bounded
  knows := Tested
  outside thread stage shared out := by
    cases thread <;> cases stage <;> trivial
  sound := tested_sound

def givingUp : Stage → Bool
  | .giveUp | .gone => true
  | _ => false

/-- Whoever gives up finds the buffer empty, at the call and from then on. -/
def GivesUpEmpty (state : State (Thread ι) Stage Shared) : Prop :=
  ∀ id, givingUp (state.stages (.consumer id)) = true → state.shared.g_counter = 0

theorem program_consumer (id : ι) (stage : Stage) (shared : Shared) :
    program (.consumer id) stage shared = .stop ∨
      program (.consumer id) stage shared = consumer stage shared := by
  unfold program
  split
  · exact Or.inl rfl
  · exact Or.inr rfl

theorem giving_up_sound (id : ι) (stage : Stage) (shared : Shared)
    (awake : program (.consumer id) stage shared ≠ .resume .check (some .giveUp))
    (known : givingUp stage = true → shared.g_counter = 0) :
    Establishes (fun _ => True) (fun stage shared => givingUp stage = true → shared.g_counter = 0) shared
      (program (.consumer id) stage shared) := by
  rcases program_consumer id stage shared with stopped | running
  · rw [stopped]
    trivial
  · rw [running] at awake ⊢
    cases stage with
    | giveUp => exact ⟨trivial,fun _ => known rfl⟩
    | test | check =>
      simp only [consumer]
      split <;> exact ⟨trivial,nofun⟩
    | decrement => exact ⟨trivial,nofun⟩
    | lock | unlock | wait => exact nofun
    | waiting => contradiction
    | increment | wake | gone => trivial

theorem resumes_waiting (id : ι) (stage : Stage) (shared : Shared)
    (resumes : program (.consumer id) stage shared = .resume .check (some .giveUp)) : stage = .waiting := by
  rcases program_consumer id stage shared with stopped | running
  · rw [stopped] at resumes
    contradiction
  · rw [running] at resumes
    cases stage with
    | waiting => rfl
    | lock | test | increment | unlock | wake | wait | giveUp | gone | check | decrement => contradiction

/-- What a consumer finds when it begins to wait. -/
theorem waiting_sound (id : ι) (stage : Stage) (shared : Shared) (tested : Tested (.consumer id) stage shared) :
    Establishes (fun _ => True) (fun stage shared => stage = .waiting → shared.g_counter = 0) shared
      (program (.consumer id) stage shared) := by
  rcases program_consumer id stage shared with stopped | running
  · rw [stopped]
    trivial
  · rw [running]
    cases stage with
    | wait => exact fun _ => tested
    | test | check =>
      simp only [consumer]
      split <;> exact ⟨trivial,nofun⟩
    | giveUp | decrement => exact ⟨trivial,nofun⟩
    | waiting => exact ⟨nofun,fun next late => Option.some.inj late ▸ nofun⟩
    | lock | unlock => exact nofun
    | increment | wake | gone => trivial

variable [DecidableEq ι]

/-- Whether the producer has made units since each consumer last began to wait. -/
def raise (state : State (Thread ι) Stage Shared) (action : Action (Thread ι)) (raised : ι → Bool) :
    ι → Bool :=
  match action with
  | .run .producer _ => if state.stages .producer = .increment then fun _ => true else raised
  | .run (.consumer id) _ =>
    if state.stages (.consumer id) = .wait then Function.update raised id false else raised
  | .spurious _ | .timeout _ => raised

/-- A consumer whose time is up returns from its wait before the producer makes more units. -/
def Undisturbed (history : State (Thread ι) Stage Shared × (ι → Bool)) : Action (Thread ι) → Prop
  | .run (.consumer id) _ => .consumer id ∈ history.1.monitor.expired →
    .consumer id ∉ history.1.monitor.woken → history.2 id = false
  | .run .producer _ | .spurious _ | .timeout _ => True

instance (history : State (Thread ι) Stage Shared × (ι → Bool)) :
    (action : Action (Thread ι)) → Decidable (Undisturbed history action)
  | .run (.consumer id) _ => inferInstanceAs (Decidable (.consumer id ∈ history.1.monitor.expired →
    .consumer id ∉ history.1.monitor.woken → history.2 id = false))
  | .run .producer _ | .spurious _ | .timeout _ => isTrue trivial

/-- A consumer began to wait on an empty buffer, and only the producer can have filled it. -/
def Calm (history : State (Thread ι) Stage Shared × (ι → Bool)) : Prop :=
  ∀ id, history.1.stages (.consumer id) = .waiting → history.2 id = false → history.1.shared.g_counter = 0

/-- The counter moves at two stages only. -/
theorem step_counter (state next : State (Thread ι) Stage Shared) (action : Action (Thread ι))
    (stepped : step program state action = some next) :
    next.shared.g_counter = state.shared.g_counter ∨
      (∃ chosen, action = .run .producer chosen ∧ state.stages .producer = .increment) ∨
      ∃ id chosen, action = .run (.consumer id) chosen ∧ state.stages (.consumer id) = .decrement := by
  rcases step_cases program state next action stepped with ⟨thread,chosen,rfl,performed⟩ | ⟨_,shared,_,_⟩
  · by_cases moves : thread = .producer ∧ state.stages thread = .increment ∨
      thread ≠ .producer ∧ state.stages thread = .decrement
    · right
      cases thread with
      | producer =>
        obtain ⟨_,stage⟩ | ⟨other,_⟩ := moves
        · exact Or.inl ⟨chosen,rfl,stage⟩
        · exact absurd rfl other
      | consumer id =>
        obtain ⟨same,_⟩ | ⟨_,stage⟩ := moves
        · contradiction
        · exact Or.inr ⟨id,chosen,rfl,stage⟩
    · left
      refine (performed_established (fun shared => shared.g_counter = state.shared.g_counter)
        (fun _ _ => True) state next thread _ performed rfl ?_).1
      generalize state.stages thread = stage at moves
      unfold program
      split
      · trivial
      · cases thread with
        | producer =>
          cases stage with
          | increment => exact absurd (Or.inl ⟨rfl,rfl⟩) moves
          | test => exact ⟨rfl,trivial⟩
          | lock | unlock | wake | wait | waiting | giveUp | gone | check | decrement => trivial
        | consumer id =>
          cases stage with
          | decrement => exact absurd (Or.inr ⟨nofun,rfl⟩) moves
          | test | check | giveUp => exact ⟨rfl,trivial⟩
          | waiting => exact ⟨trivial,fun _ _ => trivial⟩
          | lock | unlock | wait | increment | wake | gone => trivial
  · rw [shared]
    exact Or.inl rfl

/-- Only a consumer's own wait takes back what the producer has made known. -/
theorem raise_quiet (state : State (Thread ι) Stage Shared) (action : Action (Thread ι)) (raised : ι → Bool)
    (id : ι) (idle : ∀ chosen, action ≠ .run (.consumer id) chosen)
    (quiet : raise state action raised id = false) : raised id = false := by
  cases action with
  | run thread chosen =>
    cases thread with
    | producer =>
      simp only [raise] at quiet
      split at quiet
      · contradiction
      · exact quiet
    | consumer other =>
      have different : id ≠ other := fun same => idle chosen (same ▸ rfl)
      simp only [raise] at quiet
      split at quiet
      · rwa [Function.update_of_ne different] at quiet
      · exact quiet
  | spurious thread | timeout thread => exact quiet

theorem step_calm (state next : State (Thread ι) Stage Shared) (raised : ι → Bool) (action : Action (Thread ι))
    (owned : Owned inside state) (known : outline.Holds state) (calm : Calm (state,raised))
    (stepped : step program state action = some next) : Calm (next,raise state action raised) := by
  intro id waits quiet
  by_cases acts : ∃ chosen, action = .run (.consumer id) chosen
  · obtain ⟨chosen,rfl⟩ := acts
    have performed := perform_cases state next (.consumer id) chosen _ stepped
    exact (performed_established (fun _ => True) _ state next (.consumer id) _ performed trivial
      (waiting_sound id _ state.shared (known.2 (.consumer id)))).2 waits
  · have idle : ∀ chosen, action ≠ .run (.consumer id) chosen := fun chosen same => acts ⟨chosen,same⟩
    have stayed := (step_others disciplined state next action owned stepped _ idle).1
    rw [stayed] at waits
    have before := raise_quiet state action raised id idle quiet
    rcases step_counter state next action stepped with
      kept | ⟨chosen,rfl,increments⟩ | ⟨other,chosen,rfl,decrements⟩
    · rw [kept]
      exact calm id waits before
    · simp [raise,increments] at quiet
    · -- who takes a unit has found one, and so the buffer was not empty
      have present : state.shared.g_counter ≠ 0 := by
        have tested := known.2 (.consumer other)
        rw [decrements] at tested
        exact tested
      exact absurd (calm id waits before) present

theorem step_gives_up (state next : State (Thread ι) Stage Shared) (raised : ι → Bool)
    (action : Action (Thread ι)) (owned : Owned inside state) (calm : Calm (state,raised))
    (empty : GivesUpEmpty state) (undisturbed : Undisturbed (state,raised) action)
    (stepped : step program state action = some next) : GivesUpEmpty next := by
  intro id gives
  by_cases acts : ∃ chosen, action = .run (.consumer id) chosen
  · obtain ⟨chosen,rfl⟩ := acts
    by_cases resumes : program (.consumer id) (state.stages (.consumer id)) state.shared =
        .resume .check (some .giveUp)
    · -- the late return is the only way to the exit, and the condition is about it
      have waits := resumes_waiting id _ state.shared resumes
      rw [step,resumes] at stepped
      obtain ⟨shared,awake | ⟨expired,asleep,_⟩⟩ :=
        resume_late state next (.consumer id) chosen .check .giveUp stepped
      · rw [awake] at gives
        contradiction
      · rw [shared]
        exact calm id waits (undisturbed expired asleep)
    · have performed := perform_cases state next (.consumer id) chosen _ stepped
      exact (performed_established (fun _ => True) _ state next (.consumer id) _ performed trivial
        (giving_up_sound id _ state.shared resumes (empty id))).2 gives
  · have idle : ∀ chosen, action ≠ .run (.consumer id) chosen := fun chosen same => acts ⟨chosen,same⟩
    obtain ⟨stage,unchanged | left⟩ := step_others disciplined state next action owned stepped _ idle
    · rw [stage] at gives
      rw [unchanged]
      exact empty id gives
    · rw [stage] at gives
      cases here : state.stages (.consumer id) <;> rw [here] at gives left <;> contradiction

/-- The condition compares two moments of the schedule, the producer's last increment and the
consumer's last wait. -/
theorem exit_when_undisturbed (actions : List (Action (Thread ι))) (final : State (Thread ι) Stage Shared)
    (met : Execution.Meets (Execution.recording (step program) raise) Undisturbed
      (initial,fun _ => false) actions)
    (reached : Monitor.run program initial actions = some final) : GivesUpEmpty final := by
  obtain ⟨raised,recorded⟩ := Execution.run_recording (step program) raise actions initial final
    (fun _ => false) reached
  have holds := Execution.run_meets (Execution.recording (step program) raise) Undisturbed
    (fun history => (Owned inside history.1 ∧ outline.Holds history.1) ∧ Calm history ∧
      GivesUpEmpty history.1) ?_ actions _ _ ?_ met recorded
  · exact holds.2.2
  · rintro ⟨state,before⟩ action ⟨next,after⟩ ⟨⟨owned,known⟩,calm,empty⟩ undisturbed moved
    obtain ⟨stepped,rfl⟩ := Execution.recording_step _ _ _ _ _ moved
    exact ⟨⟨step_owned disciplined state next action owned stepped,
      step_holds disciplined outline state next action owned known stepped⟩,
      step_calm state next before action owned known calm stepped,
      step_gives_up state next before action owned calm empty undisturbed stepped⟩
  · have bounded : Bounded ⟨0,false⟩ := ⟨Int.le_refl 0,by simp only [MAX_SIZE]; omega⟩
    refine ⟨⟨owned_free _ _ fun _ => rfl,bounded,fun thread => outline.outside thread .lock _ rfl⟩,?_,?_⟩
    · intro id waits
      contradiction
    · intro id gives
      contradiction

def expires : List (Action (Thread Bool)) :=
  List.replicate 3 (.run (.consumer true) [])++[.timeout (.consumer true)]

theorem exit_when_undisturbed_expires : ∃ final,
    Monitor.run program initial (expires++[.run (.consumer true) []]) = some final ∧
    final.stages (.consumer true) = .giveUp ∧ GivesUpEmpty final := by
  have ran : (Monitor.run program initial (expires++[.run (.consumer true) []])).map
      (fun final => final.stages (.consumer true)) = some .giveUp := by
    decide +kernel
  obtain ⟨final,reached,stage⟩ := Option.map_eq_some_iff.mp ran
  exact ⟨final,reached,stage,exit_when_undisturbed _ final (by decide +kernel) reached⟩

/-- Between the end of the wait and the return from it the producer makes a hundred units. -/
theorem exit_nonempty : ∃ final,
    Monitor.run program initial
      (expires++List.replicate 4 (.run .producer [])++[.run (.consumer true) []]) = some final ∧
    final.stages (.consumer true) = .giveUp ∧ final.shared.g_counter = 100 := by
  have ran : (Monitor.run program initial
      (expires++List.replicate 4 (.run .producer [])++[.run (.consumer true) []])).map
      (fun final => (final.stages (.consumer true),final.shared.g_counter)) = some (.giveUp,100) := by
    decide +kernel
  obtain ⟨final,reached,values⟩ := Option.map_eq_some_iff.mp ran
  obtain ⟨stage,counter⟩ := Prod.mk.inj values
  exact ⟨final,reached,stage,counter⟩

end LinuxCourse.ProducerWithbroadcastAndtimeout
