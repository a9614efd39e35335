import LinuxCourse.Library.MonitorProgress
import LinuxCourse.ProducerConsumer.HandOff

/-! What the producer and the consumers can always still do. -/
namespace LinuxCourse.ProducerConsumer
open Library Monitor Response

variable {ι : Type}

def asleep : Stage → Bool
  | .waiting => true
  | .lock | .test | .increment | .unlock | .wake | .wait | .check | .decrement => false

def Own : Thread ι → Stage → Prop
  | .producer, .wait | .producer, .waiting | .producer, .check | .producer, .decrement => False
  | .consumer _, .increment | .consumer _, .wake => False
  | _, _ => True

theorem endless (amount : Nat) (wake : Wake) : Endless (@program ι amount wake) inside asleep Own := by
  refine ⟨disciplined amount wake,?_,?_⟩
  · intro thread stage shared own
    cases thread with
    | producer =>
      cases stage with
      | test =>
        simp only [program,producer]
        split <;> exact ⟨rfl,rfl⟩
      | wake => cases wake <;> exact ⟨rfl,rfl⟩
      | lock | increment | unlock => exact ⟨rfl,rfl⟩
      | wait | waiting | check | decrement => contradiction
    | consumer id =>
      cases stage with
      | test | check =>
        simp only [program,consumer]
        split <;> exact ⟨rfl,rfl⟩
      | waiting => exact ⟨rfl,rfl,rfl⟩
      | lock | unlock | wait | decrement => exact ⟨rfl,rfl⟩
      | increment | wake => contradiction
  · intro thread stage shared own next member
    cases thread with
    | producer =>
      cases stage with
      | test =>
        obtain rfl := List.mem_singleton.mp member
        split <;> trivial
      | wake =>
        cases wake <;>
          · obtain rfl := List.mem_singleton.mp member
            trivial
      | lock | increment | unlock =>
        obtain rfl := List.mem_singleton.mp member
        trivial
      | wait | waiting | check | decrement => contradiction
    | consumer id =>
      cases stage with
      | test | check =>
        obtain rfl := List.mem_singleton.mp member
        split <;> trivial
      | lock | unlock | wait | waiting | decrement =>
        obtain rfl := List.mem_singleton.mp member
        trivial
      | increment | wake => contradiction

/-- How many steps the critical section may still take before the one that leaves it. -/
def rank : Stage → Nat
  | .test => 3
  | .check => 2
  | .increment | .decrement => 1
  | .lock | .unlock | .wake | .wait | .waiting => 0

theorem releases (amount : Nat) (wake : Wake) : Releases (@program ι amount wake) inside rank := by
  intro thread stage shared within next member stays
  cases thread with
  | producer =>
    cases stage with
    | test =>
      obtain rfl := List.mem_singleton.mp member
      split <;> decide
    | increment =>
      obtain rfl := List.mem_singleton.mp member
      decide
    | unlock =>
      obtain rfl := List.mem_singleton.mp member
      contradiction
    | lock | wake | waiting => contradiction
    | wait | check | decrement => exact absurd member List.not_mem_nil
  | consumer id =>
    cases stage with
    | test | check =>
      obtain rfl := List.mem_singleton.mp member
      split <;> decide
    | decrement =>
      obtain rfl := List.mem_singleton.mp member
      decide
    | unlock | wait =>
      obtain rfl := List.mem_singleton.mp member
      contradiction
    | lock | wake | waiting => contradiction
    | increment => exact absurd member List.not_mem_nil

theorem rank_le (stage : Stage) : rank stage ≤ 3 := by
  cases stage <;> decide

variable [DecidableEq ι]

structure Sound (amount : Nat) (wake : Wake) (state : State (Thread ι) Stage (Shared ι)) : Prop where
  healthy : Healthy inside asleep Own state
  known : (outline amount wake).Holds state

theorem step_sound (amount : Nat) (wake : Wake) (state : State (Thread ι) Stage (Shared ι))
    (action : Action (Thread ι)) (next : State (Thread ι) Stage (Shared ι)) (sound : Sound amount wake state)
    (stepped : step (program amount wake) state action = some next) : Sound amount wake next :=
  ⟨step_healthy (endless amount wake) state next action sound.healthy stepped,
    step_holds (disciplined amount wake) _ state next action sound.healthy.owned sound.known stepped⟩

theorem run_sound (amount : Nat) (wake : Wake) (actions : List (Action (Thread ι)))
    (final : State (Thread ι) Stage (Shared ι))
    (reached : Monitor.run (program amount wake) initial actions = some final) : Sound amount wake final := by
  apply Execution.run_invariant _ _ (step_sound amount wake) actions initial final _ reached
  refine ⟨healthy_free _ _ _ _ _ (fun _ => rfl) (fun _ => rfl) ?_,?_,?_⟩
  · intro thread
    cases thread <;> trivial
  · refine ⟨Int.le_refl 0,?_,?_⟩
    · simp only [initial,MAX_SIZE]
      omega
    · simp [initial]
  · exact fun thread => (outline amount wake).outside thread .lock _ rfl

omit [DecidableEq ι] in
theorem sleeper (state : State (Thread ι) Stage (Shared ι)) (healthy : Healthy inside asleep Own state)
    (thread : Thread ι) (waits : thread ∈ state.monitor.waiting) : ∃ id, thread = .consumer id := by
  cases thread with
  | consumer id => exact ⟨id,rfl⟩
  | producer =>
    have sleeps := (healthy.listed.listed .producer).mpr (Or.inl waits)
    have placed := healthy.placed .producer
    cases stage : state.stages .producer with
    | waiting =>
      rw [stage] at placed
      contradiction
    | lock | test | increment | unlock | wake | wait | check | decrement =>
      rw [stage] at sleeps
      contradiction

/-- The wake-up is that many steps of the producer away. -/
def Pending (amount : Nat) (wake : Wake) (id : ι) (left : Nat)
    (state : State (Thread ι) Stage (Shared ι)) : Prop :=
  Sound amount wake state ∧ .consumer id ∈ state.monitor.waiting ∧
    (left = 2 ∧ state.stages .producer = .unlock ∨ left = 1 ∧ state.stages .producer = .wake)

def byProducer : Action (Thread ι) → Bool
  | .run .producer _ => true
  | .run (.consumer _) _ | .spurious _ | .timeout _ => false

omit [DecidableEq ι] in
theorem consumer_quiet (amount : Nat) (wake : Wake) (id : ι) (stage next : Stage) (shared : Shared ι) :
    program amount wake (.consumer id) stage shared ≠ .signal next ∧
      program amount wake (.consumer id) stage shared ≠ .broadcast next := by
  cases stage with
  | lock | test | wait | waiting | check | decrement | unlock | increment | wake =>
    exact ⟨fun same => by contradiction,fun same => by contradiction⟩

omit [DecidableEq ι] in
theorem pending_positive (amount : Nat) (wake : Wake) (id : ι) (state : State (Thread ι) Stage (Shared ι)) :
    ¬Pending amount wake id 0 state := by
  rintro ⟨_,_,⟨zero,_⟩ | ⟨zero,_⟩⟩ <;> contradiction

theorem pending_other (amount : Nat) (wake : Wake) (id : ι) (left : Nat)
    (state : State (Thread ι) Stage (Shared ι)) (action : Action (Thread ι))
    (next : State (Thread ι) Stage (Shared ι)) (other : byProducer action = false)
    (pending : Pending amount wake id left state)
    (stepped : step (program amount wake) state action = some next) :
    .consumer id ∈ next.monitor.woken ∨ Pending amount wake id left next := by
  obtain ⟨sound,waits,stage⟩ := pending
  have after := step_sound amount wake state action next sound stepped
  cases action with
  | run thread chosen =>
    cases thread with
    | producer => contradiction
    | consumer one =>
      have performed := perform_cases state next _ chosen _ stepped
      have same := performed_other state next _ .producer _ performed fun same => by contradiction
      have still := performed_waiting state next _ _ performed
        (consumer_quiet amount wake one _ · state.shared)
      refine Or.inr ⟨after,still waits,?_⟩
      rw [same]
      exact stage
  | spurious thread =>
    obtain ⟨_,rfl⟩ := spurious_cases state next thread stepped
    by_cases same : Thread.consumer id = thread
    · subst same
      exact Or.inl (List.mem_append_right _ List.mem_cons_self)
    · exact Or.inr ⟨after,List.mem_filter.mpr ⟨waits,decide_eq_true same⟩,stage⟩
  | timeout thread =>
    exact absurd stepped (timeout_never (endless amount wake) state next thread (sound.healthy.placed thread))

theorem pending_producer (amount : Nat) (wake : Wake)
    (single : wake = .signal → ∀ first second : ι, first = second) (id : ι) (left : Nat)
    (state : State (Thread ι) Stage (Shared ι)) (action : Action (Thread ι))
    (next : State (Thread ι) Stage (Shared ι)) (own : byProducer action = true)
    (pending : Pending amount wake id (left+1) state)
    (stepped : step (program amount wake) state action = some next) :
    .consumer id ∈ next.monitor.woken ∨ Pending amount wake id left next := by
  obtain ⟨sound,waits,stage⟩ := pending
  have after := step_sound amount wake state action next sound stepped
  cases action with
  | spurious | timeout => contradiction
  | run thread chosen =>
    cases thread with
    | consumer one => contradiction
    | producer =>
      have performed := perform_cases state next _ chosen _ stepped
      rcases stage with ⟨two,unlocks⟩ | ⟨one,wakes⟩
      · rw [unlocks] at performed
        cases performed with
        | unlock stage mine => exact Or.inr ⟨after,waits,Or.inr ⟨by omega,move_self _ _ _ _⟩⟩
      · rw [wakes] at performed
        left
        cases wake with
        | broadcast =>
          cases performed with
          | broadcast stage => exact List.mem_append_right _ waits
        | signal =>
          cases performed with
          | signal stage picked reached =>
            rcases reached with nobody | ⟨thread,picks,sleeps⟩
            · rw [nobody] at waits
              contradiction
            · obtain ⟨only,rfl⟩ := sleeper state sound.healthy thread sleeps
              rw [single rfl only id] at picks
              exact List.mem_append_right _ (List.mem_filter.mpr ⟨waits,decide_eq_true picks⟩)

/-- A consumer that sleeps while there is something to take is woken before the producer
has taken three more steps, whatever the others do. -/
theorem run_woken (amount : Nat) (wake : Wake)
    (single : wake = .signal → ∀ first second : ι, first = second)
    (actions later : List (Action (Thread ι))) (final last : State (Thread ι) Stage (Shared ι))
    (reached : Monitor.run (program amount wake) initial actions = some final) (id : ι)
    (sleeps : .consumer id ∈ final.monitor.waiting) (positive : 0 < final.shared.g_counter)
    (continued : Monitor.run (program amount wake) final later = some last)
    (enough : 2 ≤ later.countP byProducer) :
    ∃ before after middle, later = before++after ∧
      Monitor.run (program amount wake) final before = some middle ∧
      .consumer id ∈ middle.monitor.woken ∧ before.countP byProducer ≤ 2 := by
  have sound := run_sound amount wake actions final reached
  obtain ⟨_,handed⟩ := run_handed amount wake single actions final reached
  have responds (left : Nat) (few : left ≤ 2) (pending : Pending amount wake id left final) :
      ∃ before after middle, later = before++after ∧
        Monitor.run (program amount wake) final before = some middle ∧
        .consumer id ∈ middle.monitor.woken ∧ before.countP byProducer ≤ 2 := by
    obtain ⟨before,after,middle,parts,ran,woken,short⟩ := run_responds byProducer (Pending amount wake id)
      (fun middle => .consumer id ∈ middle.monitor.woken) (pending_positive amount wake id)
      (pending_other amount wake id) (pending_producer amount wake single id)
      left later final last pending continued (few.trans enough)
    exact ⟨before,after,middle,parts,ran,woken,short.trans few⟩
  rcases (handed _ sleeps positive).1 with unlocks | wakes
  · exact responds 2 (Nat.le_refl 2) ⟨sound,sleeps,Or.inl ⟨rfl,unlocks⟩⟩
  · exact responds 1 (Nat.le_succ 1) ⟨sound,sleeps,Or.inr ⟨rfl,wakes⟩⟩

theorem run_woken_both : ∃ final last before after middle,
    Monitor.run (program 100 .broadcast) initial ProducerWithbroadcast.bothSleeping = some final ∧
    Monitor.run (program 100 .broadcast) final (List.replicate 2 (.run .producer [])) = some last ∧
    List.replicate 2 (.run .producer []) = before++after ∧
    Monitor.run (program 100 .broadcast) final before = some middle ∧
    .consumer false ∈ middle.monitor.woken ∧ before.countP byProducer ≤ 2 := by
  have ran : (Monitor.run (program 100 .broadcast) initial ProducerWithbroadcast.bothSleeping).bind (fun final =>
      (Monitor.run (program 100 .broadcast) final (List.replicate 2 (.run .producer []))).map fun last =>
        (final.monitor.waiting,final.shared.g_counter,last.stages .producer)) =
      some ([.consumer true,.consumer false],100,.test) := by decide +kernel
  obtain ⟨final,reached,ended⟩ := Option.bind_eq_some_iff.mp ran
  obtain ⟨last,continued,values⟩ := Option.map_eq_some_iff.mp ended
  simp only [Prod.mk.injEq] at values
  obtain ⟨waiting,counter,_⟩ := values
  have sleeps : .consumer false ∈ final.monitor.waiting := by simp [waiting]
  have positive : 0 < final.shared.g_counter := by omega
  obtain ⟨before,after,middle,woken⟩ :=
    run_woken 100 .broadcast (fun same => by contradiction) _ _ final last reached false sleeps positive
      continued (by decide)
  exact ⟨final,last,before,after,middle,reached,continued,woken⟩

omit [DecidableEq ι] in
theorem inside_or (state : State (Thread ι) Stage (Shared ι)) (healthy : Healthy inside asleep Own state)
    (unowned : state.monitor.owner = none) (thread : Thread ι) : inside (state.stages thread) = false := by
  rw [← Bool.not_eq_true,healthy.owned thread,unowned]
  exact Option.some_ne_none thread ∘ Eq.symm

omit [DecidableEq ι] in
theorem producer_outside (state : State (Thread ι) Stage (Shared ι)) (healthy : Healthy inside asleep Own state)
    (unowned : state.monitor.owner = none) :
    state.stages .producer = .lock ∨ state.stages .producer = .wake := by
  have out := inside_or state healthy unowned .producer
  have placed := healthy.placed .producer
  cases stage : state.stages .producer with
  | lock => exact Or.inl rfl
  | wake => exact Or.inr rfl
  | waiting =>
    rw [stage] at placed
    contradiction
  | test | increment | unlock | wait | check | decrement =>
    rw [stage] at out
    contradiction

omit [DecidableEq ι] in
theorem consumer_outside (state : State (Thread ι) Stage (Shared ι)) (healthy : Healthy inside asleep Own state)
    (unowned : state.monitor.owner = none) (id : ι) :
    state.stages (.consumer id) = .lock ∨ state.stages (.consumer id) = .waiting := by
  have out := inside_or state healthy unowned (.consumer id)
  have placed := healthy.placed (.consumer id)
  cases stage : state.stages (.consumer id) with
  | lock => exact Or.inl rfl
  | waiting => exact Or.inr rfl
  | wake =>
    rw [stage] at placed
    contradiction
  | test | increment | unlock | wait | check | decrement =>
    rw [stage] at out
    contradiction

theorem wake_step (amount : Nat) (wake : Wake) (state : State (Thread ι) Stage (Shared ι))
    (stage : state.stages .producer = .wake) :
    step (program amount wake) state (.run .producer state.monitor.waiting) =
      some (state.move .producer .lock state.monitor.broadcast) := by
  rw [step,stage]
  cases wake with
  | broadcast => rfl
  | signal => exact perform_signal state .producer .lock

/-- What an iteration of the producer leaves behind, short of its wake-up. -/
def Stocked (state next : State (Thread ι) Stage (Shared ι)) : Prop :=
  ∃ shared, next = {state.move .producer .wake state.monitor with shared} ∧
    0 < shared.g_counter ∧ shared.consumed = state.shared.consumed

theorem leads_stocked (amount : Nat) (wake : Wake) (gain : 0 < amount)
    (state : State (Thread ι) Stage (Shared ι))
    (unowned : state.monitor.owner = none) (home : state.stages .producer = .lock)
    (nonneg : 0 ≤ state.shared.g_counter) : Leads (step (program amount wake)) (Stocked state) 4 state := by
  obtain ⟨⟨owner,waiting,woken,expired⟩,stages,⟨g_counter,raised,produced,consumed⟩⟩ := state
  obtain rfl : owner = none := unowned
  simp only at home nonneg
  by_cases room : g_counter < MAX_SIZE
  · have ran : Execution.run (step (program amount wake)) ⟨⟨none,waiting,woken,expired⟩,stages,
          ⟨g_counter,raised,produced,consumed⟩⟩ (List.replicate 4 (.run .producer [])) =
        some ⟨⟨none,waiting,woken,expired⟩,Function.update stages .producer .wake,
          ⟨g_counter+amount,some g_counter,produced+1,consumed⟩⟩ := by
      simp only [Execution.run,List.replicate,step,program,producer,home,perform,Monitor.lock,
        Monitor.unlock,State.move,Function.update_self,if_true,Option.map_some,Option.bind_some,if_pos room,
        Function.update_idem]
    apply leads_run (Stocked _) _ _ _ ran
    refine ⟨_,rfl,?_,rfl⟩
    simp only
    omega
  · have ran : Execution.run (step (program amount wake)) ⟨⟨none,waiting,woken,expired⟩,stages,
          ⟨g_counter,raised,produced,consumed⟩⟩ (List.replicate 3 (.run .producer [])) =
        some ⟨⟨none,waiting,woken,expired⟩,Function.update stages .producer .wake,
          ⟨g_counter,none,produced,consumed⟩⟩ := by
      simp only [Execution.run,List.replicate,step,program,producer,home,perform,Monitor.lock,
        Monitor.unlock,State.move,Function.update_self,if_true,Option.map_some,Option.bind_some,if_neg room,
        Function.update_idem]
    apply leads_le (Stocked _) 3 4 _ (Nat.le_succ 3)
    apply leads_run (Stocked _) _ _ _ ran
    refine ⟨_,rfl,?_,rfl⟩
    simp only [MAX_SIZE] at room ⊢
    omega

def Took (id : ι) (consumed : List ι) (next : State (Thread ι) Stage (Shared ι)) : Prop :=
  next.shared.consumed = consumed++[id]

theorem leads_decrement (amount : Nat) (wake : Wake) (state : State (Thread ι) Stage (Shared ι)) (id : ι)
    (stage : state.stages (.consumer id) = .check) (positive : 0 < state.shared.g_counter) :
    Leads (step (program amount wake)) (Took id state.shared.consumed) 2 state := by
  obtain ⟨monitor,stages,⟨g_counter,raised,produced,consumed⟩⟩ := state
  simp only at stage positive
  have left : g_counter ≠ 0 := by omega
  have ran : Execution.run (step (program amount wake)) ⟨monitor,stages,⟨g_counter,raised,produced,consumed⟩⟩
      (List.replicate 2 (.run (.consumer id) [])) =
      some ⟨monitor,Function.update stages (.consumer id) .unlock,
        ⟨g_counter-1,raised,produced,consumed++[id]⟩⟩ := by
    simp only [Execution.run,List.replicate,step,program,consumer,stage,perform,State.move,Function.update_self,
      Option.bind_some,if_pos left,Function.update_idem]
  exact leads_run (Took id _) _ _ _ ran rfl

theorem leads_took (amount : Nat) (wake : Wake) (state : State (Thread ι) Stage (Shared ι)) (id : ι)
    (unowned : state.monitor.owner = none) (positive : 0 < state.shared.g_counter)
    (ready : state.stages (.consumer id) = .lock ∨
      state.stages (.consumer id) = .waiting ∧ .consumer id ∈ state.monitor.woken) :
    Leads (step (program amount wake)) (Took id state.shared.consumed) 4 state := by
  have check (next : State (Thread ι) Stage (Shared ι)) (shared : next.shared = state.shared)
      (stage : next.stages (.consumer id) = .check) :
      Leads (step (program amount wake)) (Took id state.shared.consumed) 2 next := by
    rw [← shared] at positive ⊢
    exact leads_decrement amount wake next id stage positive
  rcases ready with home | ⟨waits,woken⟩
  · have left : state.shared.g_counter ≠ 0 := by omega
    have ran : Execution.run (step (program amount wake)) state (List.replicate 2 (.run (.consumer id) [])) =
        some (state.move (.consumer id) .check {state.monitor with owner := some (.consumer id)}) := by
      simp only [Execution.run,List.replicate,step,program,consumer,home,perform,Monitor.lock,unowned,State.move,
        Function.update_self,if_true,Option.map_some,Option.bind_some,if_neg left,Function.update_idem]
    have begun := leads_run (fun next => next.shared = state.shared ∧ next.stages (.consumer id) = .check)
      state _ _ ran ⟨rfl,move_self _ _ _ _⟩
    exact leads_trans _ _ 2 2 state begun fun next after => check next after.1 after.2
  · have ran : Execution.run (step (program amount wake)) state [.run (.consumer id) []] =
        some (state.move (.consumer id) .check {state.monitor with
          owner := some (.consumer id)
          woken := state.monitor.woken.filter (· ≠ .consumer id)}) := by
      rw [Execution.run_cons]
      refine ⟨_,?_,rfl⟩
      rw [step,waits]
      exact perform_resume state _ [] .check none unowned woken
    have begun := leads_run (fun next => next.shared = state.shared ∧ next.stages (.consumer id) = .check)
      state _ _ ran ⟨rfl,move_self _ _ _ _⟩
    apply leads_le _ 3 4 state (Nat.le_succ 3)
    exact leads_trans _ _ 1 2 state begun fun next after => check next after.1 after.2

/-- The mutex is free and `id` is at its lock or in its wait. -/
structure Idle (id : ι) (shared : Shared ι) (state : State (Thread ι) Stage (Shared ι)) : Prop where
  same : state.shared = shared
  unowned : state.monitor.owner = none
  place : state.stages (.consumer id) = .lock ∨ state.stages (.consumer id) = .waiting ∧
    (.consumer id ∈ state.monitor.waiting ∨ .consumer id ∈ state.monitor.woken)

theorem idle_wake (amount : Nat) (wake : Wake) (id : ι) (shared : Shared ι)
    (state : State (Thread ι) Stage (Shared ι)) (idle : Idle id shared state) (stage : state.stages .producer = .wake) :
    Leads (step (program amount wake)) (fun next => Idle id shared next ∧ next.stages .producer = .lock ∧
      .consumer id ∉ next.monitor.waiting) 1 state := by
  have ran : Execution.run (step (program amount wake)) state [.run .producer state.monitor.waiting] =
      some (state.move .producer .lock state.monitor.broadcast) :=
    (Execution.run_cons _ _ _ _ _).mpr ⟨_,wake_step amount wake state stage,rfl⟩
  apply leads_run _ state _ _ ran
  refine ⟨⟨idle.same,idle.unowned,?_⟩,move_self _ _ _ _,List.not_mem_nil⟩
  rw [move_other _ _ _ _ _ fun same => by contradiction]
  apply idle.place.imp_right
  rintro ⟨waits,member⟩
  exact ⟨waits,Or.inr (List.mem_append.mpr member.symm)⟩

theorem idle_stocked (id : ι) (state next : State (Thread ι) Stage (Shared ι))
    (idle : Idle id state.shared state) (stocked : Stocked state next) : Idle id next.shared next ∧ next.stages .producer = .wake ∧
      0 < next.shared.g_counter ∧ next.shared.consumed = state.shared.consumed := by
  obtain ⟨shared,rfl,positive,same⟩ := stocked
  have due := move_self state .producer .wake state.monitor
  refine ⟨⟨rfl,idle.unowned,?_⟩,due,positive,same⟩
  have place : (state.move .producer .wake state.monitor).stages (.consumer id) = state.stages (.consumer id) :=
    move_other _ _ _ _ _ fun same => by contradiction
  simp only [place]
  exact idle.place

/-- From a free mutex: the wake-up that is due, an iteration of the producer with its
wake-up, and the consumer. -/
theorem leads_served (amount : Nat) (wake : Wake) (gain : 0 < amount) (id : ι)
    (state : State (Thread ι) Stage (Shared ι)) (sound : Sound amount wake state)
    (unowned : state.monitor.owner = none) :
    Leads (step (program amount wake)) (Took id state.shared.consumed) 10 state := by
  have idle : Idle id state.shared state := by
    refine ⟨rfl,unowned,?_⟩
    rcases consumer_outside state sound.healthy unowned id with home | waits
    · exact Or.inl home
    · refine Or.inr ⟨waits,?_⟩
      rw [← sound.healthy.listed.listed,waits]
      rfl
  have home : Leads (step (program amount wake))
      (fun next => Idle id state.shared next ∧ next.stages .producer = .lock) 1 state := by
    rcases producer_outside state sound.healthy unowned with home | due
    · exact leads_here _ 1 state ⟨idle,home⟩
    · have woken := idle_wake amount wake id _ state idle due
      exact leads_imp _ _ 1 state (fun next after => ⟨after.1,after.2.1⟩) woken
  apply leads_trans _ _ 1 9 state home
  intro first ⟨before,ready⟩
  have nonneg : 0 ≤ first.shared.g_counter := before.same ▸ sound.known.1.nonneg
  rw [← before.same]
  have stocked := leads_stocked amount wake gain first before.unowned ready nonneg
  apply leads_trans _ _ 4 5 first stocked
  intro second stocked
  obtain ⟨waits,due,positive,same⟩ := idle_stocked id first second (before.same ▸ before) stocked
  apply leads_trans _ _ 1 4 second (idle_wake amount wake id _ second waits due)
  intro third ⟨woken,_,up⟩
  rw [← same,← woken.same]
  apply leads_took amount wake third id woken.unowned
  · rw [woken.same]
    exact positive
  · apply woken.place.imp_right
    rintro ⟨asleep,member⟩
    exact ⟨asleep,member.resolve_left up⟩

omit [DecidableEq ι] in
theorem program_consumed (amount : Nat) (wake : Wake) (thread : Thread ι) (stage next : Stage)
    (shared changed : Shared ι) (command : program amount wake thread stage shared = .compute changed next) :
    shared.consumed <+: changed.consumed := by
  cases thread with
  | producer =>
    cases stage with
    | test | increment =>
      obtain ⟨rfl,_⟩ := Command.compute.inj command
      exact List.prefix_refl _
    | wake => cases wake <;> contradiction
    | lock | unlock | wait | waiting | check | decrement => contradiction
  | consumer id =>
    cases stage with
    | test | check =>
      obtain ⟨rfl,_⟩ := Command.compute.inj command
      exact List.prefix_refl _
    | decrement =>
      obtain ⟨rfl,_⟩ := Command.compute.inj command
      exact List.prefix_append _ _
    | lock | unlock | wait | waiting | increment | wake => contradiction

theorem step_consumed (amount : Nat) (wake : Wake) (state : State (Thread ι) Stage (Shared ι))
    (action : Action (Thread ι)) (next : State (Thread ι) Stage (Shared ι))
    (stepped : step (program amount wake) state action = some next) :
    state.shared.consumed <+: next.shared.consumed := by
  rcases step_cases _ state next action stepped with ⟨thread,chosen,rfl,performed⟩ | ⟨_,shared,_,_⟩
  · have grows (stage : Stage) (changed : Shared ι) :=
      program_consumed amount wake thread (state.stages thread) stage state.shared changed
    generalize program amount wake thread (state.stages thread) state.shared = command at performed grows
    cases performed with
    | lock | unlock | wait | awake | late | signal | broadcast => exact List.prefix_refl _
    | compute changed stage => exact grows stage changed rfl
  · rw [shared]

/-- Nobody is ever stuck for good: who cannot go on sleeps or finds the mutex with a thread
that can, the producer never sleeps, and from every reachable state each consumer can be
brought to take a unit in fourteen steps. -/
theorem run_serves (amount : Nat) (wake : Wake) (gain : 0 < amount) (actions : List (Action (Thread ι)))
    (final : State (Thread ι) Stage (Shared ι))
    (reached : Monitor.run (program amount wake) initial actions = some final) :
    (∀ thread, Able (program amount wake) final thread ∨ thread ∈ final.monitor.waiting ∨
      ∃ other, other ≠ thread ∧ final.monitor.owner = some other ∧ Able (program amount wake) final other) ∧
    .producer ∉ final.monitor.waiting ∧
    ∀ id, ∃ more next taken, more.length ≤ 14 ∧ Monitor.run (program amount wake) final more = some next ∧
      next.shared.consumed = final.shared.consumed++taken++[id] := by
  have sound := run_sound amount wake actions final reached
  refine ⟨able_or_blocked (endless amount wake) final sound.healthy,?_,?_⟩
  · intro waits
    obtain ⟨id,same⟩ := sleeper final sound.healthy .producer waits
    contradiction
  · intro id
    have freed := leads_free (endless amount wake) rank (releases amount wake)
      (fun state => Sound amount wake state ∧ final.shared.consumed <+: state.shared.consumed)
      (fun state action next holds stepped => ⟨step_sound amount wake state action next holds.1 stepped,
        holds.2.trans (step_consumed amount wake state action next stepped)⟩)
      (fun state holds => holds.1.healthy) final ⟨sound,List.prefix_refl _⟩
    have short : holding rank final ≤ 4 := by
      unfold holding
      split
      · exact Nat.zero_le 4
      · exact Nat.succ_le_succ (rank_le _)
    have served : Leads (step (program amount wake))
        (fun next => ∃ taken, next.shared.consumed = final.shared.consumed++taken++[id]) (4+10) final := by
      apply leads_trans _ _ 4 10 final (leads_le _ _ 4 final short freed)
      intro state ⟨⟨holds,taken,grown⟩,unowned⟩
      apply leads_imp _ _ 10 state _ (leads_served amount wake gain id state holds unowned)
      intro next took
      exact ⟨taken,by rw [took,← grown]⟩
    obtain ⟨more,next,few,ran,taken,took⟩ := served
    exact ⟨more,next,taken,few,ran,took⟩

theorem run_serves_both : ∃ final,
    Monitor.run (program 100 .broadcast) initial ProducerWithbroadcast.bothSleeping = some final ∧
    Thread.consumer true ∈ final.monitor.waiting ∧ .producer ∉ final.monitor.waiting ∧
    ∃ more next taken, more.length ≤ 14 ∧ Monitor.run (program 100 .broadcast) final more = some next ∧
      next.shared.consumed = final.shared.consumed++taken++[true] := by
  have ran : (Monitor.run (program 100 .broadcast) initial ProducerWithbroadcast.bothSleeping).map
      (fun final => final.monitor.waiting) = some [.consumer true,.consumer false] := by decide +kernel
  obtain ⟨final,reached,waiting⟩ := Option.map_eq_some_iff.mp ran
  have sleeps : Thread.consumer true ∈ final.monitor.waiting := by simp [waiting]
  obtain ⟨_,up,served⟩ := run_serves 100 .broadcast (by omega) _ final reached
  exact ⟨final,reached,sleeps,up,served true⟩

end LinuxCourse.ProducerConsumer
