import LinuxCourse.Library.MonitorRules
import LinuxCourse.Library.Response

/-! Which threads under one mutex can take their next step. Where no wait has a time
limit, a thread that cannot either sleeps or finds the mutex taken, and whoever has the
mutex can. -/
namespace LinuxCourse.Library.Monitor
open Response

variable {Thread Stage Shared : Type}

def nexts : Command Stage Shared → List Stage
  | .lock next | .unlock next | .wait next | .signal next | .broadcast next => [next]
  | .resume awake late => awake::late.toList
  | .compute _ next => [next]
  | .stop => []

/-- `asleep` are the stages in a wait that has no time limit. -/
def Marks (asleep : Stage → Bool) (stage : Stage) : Command Stage Shared → Prop
  | .lock next | .unlock next | .signal next | .broadcast next => asleep stage = false ∧ asleep next = false
  | .compute _ next => asleep stage = false ∧ asleep next = false
  | .wait next => asleep stage = false ∧ asleep next = true
  | .resume awake late => asleep stage = true ∧ asleep awake = false ∧ late = none
  | .stop => False

/-- No thread leaves its own stages, and at none of them does it stop. -/
structure Endless (program : Thread → Stage → Shared → Command Stage Shared) (inside asleep : Stage → Bool)
    (own : Thread → Stage → Prop) : Prop where
  disciplined : Disciplined program inside
  marked : ∀ thread stage shared, own thread stage → Marks asleep stage (program thread stage shared)
  closed : ∀ thread stage shared, own thread stage →
    ∀ next ∈ nexts (program thread stage shared), own thread next

structure Listed (asleep : Stage → Bool) (state : State Thread Stage Shared) : Prop where
  listed : ∀ thread, asleep (state.stages thread) = true ↔
    thread ∈ state.monitor.waiting ∨ thread ∈ state.monitor.woken
  apart : ∀ thread ∈ state.monitor.waiting, thread ∉ state.monitor.woken

structure Healthy (inside asleep : Stage → Bool) (own : Thread → Stage → Prop)
    (state : State Thread Stage Shared) : Prop where
  owned : Owned inside state
  listed : Listed asleep state
  placed : ∀ thread, own thread (state.stages thread)

theorem healthy_free (inside asleep : Stage → Bool) (own : Thread → Stage → Prop) (stages : Thread → Stage)
    (shared : Shared) (outside : ∀ thread, inside (stages thread) = false)
    (awake : ∀ thread, asleep (stages thread) = false) (placed : ∀ thread, own thread (stages thread)) :
    Healthy inside asleep own (⟨free,stages,shared⟩ : State Thread Stage Shared) := by
  refine ⟨owned_free stages shared outside,⟨?_,?_⟩,placed⟩
  · intro thread
    simp only [awake thread,free,List.not_mem_nil,or_self,Bool.false_eq_true]
  · intro thread member
    exact absurd member List.not_mem_nil

variable [DecidableEq Thread] {program : Thread → Stage → Shared → Command Stage Shared}
  {inside asleep : Stage → Bool} {own : Thread → Stage → Prop}

theorem performed_next (state next : State Thread Stage Shared) (thread : Thread)
    (command : Command Stage Shared) (performed : Performed state thread command next) :
    next.stages thread ∈ nexts command := by
  cases performed with
  | lock | unlock | wait | awake | signal | broadcast | compute =>
    simp only [move_self]
    exact List.mem_cons_self
  | late awake stage _ =>
    rw [move_self]
    exact List.mem_cons_of_mem _ List.mem_cons_self

theorem performed_waiting (state next : State Thread Stage Shared) (thread : Thread)
    (command : Command Stage Shared) (performed : Performed state thread command next)
    (quiet : ∀ stage, command ≠ .signal stage ∧ command ≠ .broadcast stage) :
    state.monitor.waiting ⊆ next.monitor.waiting := by
  cases performed with
  | lock | unlock | awake | late | compute => exact List.Subset.refl _
  | wait => exact List.subset_cons_self _ _
  | signal stage => exact absurd rfl (quiet stage).1
  | broadcast stage => exact absurd rfl (quiet stage).2

theorem listed_move (state : State Thread Stage Shared) (thread : Thread) (stage : Stage)
    (monitor : Monitor Thread) (listed : Listed asleep state)
    (others : ∀ other, other ≠ thread → ((other ∈ monitor.waiting ∨ other ∈ monitor.woken) ↔
      (other ∈ state.monitor.waiting ∨ other ∈ state.monitor.woken)))
    (self : asleep stage = true ↔ thread ∈ monitor.waiting ∨ thread ∈ monitor.woken)
    (apart : ∀ other ∈ monitor.waiting, other ∉ monitor.woken) :
    Listed asleep (state.move thread stage monitor) := by
  refine ⟨?_,apart⟩
  intro other
  by_cases same : other = thread
  · subst same
    rw [move_self]
    exact self
  · rw [move_other _ _ _ _ _ same,listed.listed other]
    exact (others other same).symm

omit [DecidableEq Thread] in
theorem awake_listed (state : State Thread Stage Shared) (listed : Listed asleep state) (thread : Thread)
    (awake : asleep (state.stages thread) = false) :
    thread ∉ state.monitor.waiting ∧ thread ∉ state.monitor.woken := by
  rw [← not_or,← listed.listed thread,awake]
  exact Bool.false_ne_true

/-- Neither list changes. -/
theorem listed_kept (state : State Thread Stage Shared) (thread : Thread) (stage : Stage)
    (monitor : Monitor Thread) (listed : Listed asleep state)
    (awake : asleep (state.stages thread) = false) (still : asleep stage = false)
    (waiting : monitor.waiting = state.monitor.waiting) (woken : monitor.woken = state.monitor.woken) :
    Listed asleep (state.move thread stage monitor) := by
  apply listed_move state thread stage monitor listed
  · intro other _
    rw [waiting,woken]
  · rw [still,waiting,woken,← listed.listed thread,awake]
  · rw [waiting,woken]
    exact listed.apart

/-- Some of the sleepers, or all, go from one list to the other. -/
theorem listed_wakes (state : State Thread Stage Shared) (thread : Thread) (stage : Stage)
    (chosen : Thread → Bool) (listed : Listed asleep state)
    (awake : asleep (state.stages thread) = false) (still : asleep stage = false) :
    Listed asleep (state.move thread stage {state.monitor with
      waiting := state.monitor.waiting.filter fun other => !chosen other
      woken := state.monitor.woken++state.monitor.waiting.filter chosen}) := by
  obtain ⟨up,out⟩ := awake_listed state listed thread awake
  apply listed_move state thread stage _ listed
  · intro other _
    simp only [List.mem_append,List.mem_filter]
    cases chosen other <;> simp [or_comm]
  · simp [still,up,out]
  · intro other member
    obtain ⟨waits,left⟩ := List.mem_filter.mp member
    rw [List.mem_append,List.mem_filter]
    rintro (already | ⟨_,taken⟩)
    · exact listed.apart other waits already
    · rw [taken] at left
      contradiction

theorem perform_lock (state : State Thread Stage Shared) (thread : Thread) (chosen : List Thread)
    (stage : Stage) (unowned : state.monitor.owner = none) : perform state thread chosen (.lock stage) =
      some (state.move thread stage {state.monitor with owner := some thread}) := by
  rw [perform,Monitor.lock,if_pos unowned,Option.map_some]

theorem perform_unlock (state : State Thread Stage Shared) (thread : Thread) (chosen : List Thread)
    (stage : Stage) (mine : state.monitor.owner = some thread) : perform state thread chosen (.unlock stage) =
      some (state.move thread stage {state.monitor with owner := none}) := by
  rw [perform,Monitor.unlock,if_pos mine,Option.map_some]

theorem perform_resume (state : State Thread Stage Shared) (thread : Thread) (chosen : List Thread)
    (awake : Stage) (late : Option Stage) (unowned : state.monitor.owner = none)
    (woken : thread ∈ state.monitor.woken) : perform state thread chosen (.resume awake late) =
      some (state.move thread awake {state.monitor with
        owner := some thread
        woken := state.monitor.woken.filter (· ≠ thread)}) := by
  have resumes : state.monitor.resumeWoken thread = some {state.monitor with
      owner := some thread
      woken := state.monitor.woken.filter (· ≠ thread)} := if_pos ⟨unowned,woken⟩
  simp only [perform,resumes]

/-- A signal that picks every sleeper does what a broadcast does. -/
theorem perform_signal (state : State Thread Stage Shared) (thread : Thread) (stage : Stage) :
    perform state thread state.monitor.waiting (.signal stage) =
      some (state.move thread stage state.monitor.broadcast) := by
  have reached : state.monitor.waiting = [] ∨
      ∃ thread ∈ state.monitor.waiting, thread ∈ state.monitor.waiting := by
    cases state.monitor.waiting with
    | nil => exact Or.inl rfl
    | cons first rest => exact Or.inr ⟨first,List.mem_cons_self,List.mem_cons_self⟩
  have nobody : state.monitor.waiting.filter (· ∉ state.monitor.waiting) = [] := by
    rw [List.filter_eq_nil_iff]
    intro other member
    simpa using member
  have everyone : state.monitor.waiting.filter (· ∈ state.monitor.waiting) = state.monitor.waiting := by
    rw [List.filter_eq_self]
    intro other member
    exact decide_eq_true member
  rw [perform,Monitor.signal,if_pos reached,nobody,everyone]
  rfl

theorem resume_cases (state next : State Thread Stage Shared) (thread : Thread) (chosen : List Thread)
    (awake : Stage) (resumed : perform state thread chosen (.resume awake none) = some next) :
    state.monitor.owner = none ∧ thread ∈ state.monitor.woken ∧
      next = state.move thread awake {state.monitor with
        owner := some thread
        woken := state.monitor.woken.filter (· ≠ thread)} := by
  simp only [perform] at resumed
  split at resumed
  · rename_i monitor _ woken
    obtain ⟨⟨unowned,member⟩,rfl⟩ := enabled woken
    exact ⟨unowned,member,(Option.some.inj resumed).symm⟩
  · contradiction
  · contradiction

theorem perform_listed (state next : State Thread Stage Shared) (thread : Thread) (chosen : List Thread)
    (command : Command Stage Shared) (listed : Listed asleep state)
    (marked : Marks asleep (state.stages thread) command)
    (performed : perform state thread chosen command = some next) : Listed asleep next := by
  cases command with
  | lock stage =>
    obtain ⟨monitor,locked,rfl⟩ := Option.map_eq_some_iff.mp performed
    obtain ⟨_,rfl⟩ := enabled locked
    exact listed_kept state thread stage _ listed marked.1 marked.2 rfl rfl
  | unlock stage =>
    obtain ⟨monitor,unlocked,rfl⟩ := Option.map_eq_some_iff.mp performed
    obtain ⟨_,rfl⟩ := enabled unlocked
    exact listed_kept state thread stage _ listed marked.1 marked.2 rfl rfl
  | wait stage =>
    obtain ⟨monitor,waited,rfl⟩ := Option.map_eq_some_iff.mp performed
    obtain ⟨_,rfl⟩ := enabled waited
    obtain ⟨_,out⟩ := awake_listed state listed thread marked.1
    apply listed_move state thread stage _ listed
    · intro other different
      rw [List.mem_cons,or_iff_right different]
    · rw [marked.2]
      exact ⟨fun _ => Or.inl List.mem_cons_self,fun _ => rfl⟩
    · intro other member
      rcases List.mem_cons.mp member with rfl | waits
      · exact out
      · exact listed.apart other waits
  | resume awake late =>
    obtain ⟨_,still,rfl⟩ := marked
    obtain ⟨_,member,rfl⟩ := resume_cases state next thread chosen awake performed
    apply listed_move state thread awake _ listed
    · intro other different
      simp [different]
    · have up : thread ∉ state.monitor.waiting := fun waits => listed.apart thread waits member
      simp [still,up]
    · intro other waits remains
      exact listed.apart other waits (List.mem_of_mem_filter remains)
  | signal stage =>
    obtain ⟨monitor,signalled,rfl⟩ := Option.map_eq_some_iff.mp performed
    obtain ⟨_,rfl⟩ := enabled signalled
    have wakes := listed_wakes state thread stage (fun other => decide (other ∈ chosen)) listed
      marked.1 marked.2
    simpa only [decide_not] using wakes
  | broadcast stage =>
    obtain rfl := Option.some.inj performed
    have wakes := listed_wakes state thread stage (fun _ => true) listed marked.1 marked.2
    simp only [Bool.not_true,List.filter_false,List.filter_true] at wakes
    exact wakes
  | compute shared stage =>
    obtain rfl := Option.some.inj performed
    have kept := listed_kept state thread stage state.monitor listed marked.1 marked.2 rfl rfl
    exact ⟨kept.listed,kept.apart⟩
  | stop => contradiction

theorem spurious_cases (state next : State Thread Stage Shared) (thread : Thread)
    (stepped : step program state (.spurious thread) = some next) :
    thread ∈ state.monitor.waiting ∧ next = {state with monitor := {state.monitor with
      waiting := state.monitor.waiting.filter (· ≠ thread)
      woken := state.monitor.woken++[thread]}} := by
  obtain ⟨monitor,woken,rfl⟩ := Option.map_eq_some_iff.mp stepped
  obtain ⟨waits,rfl⟩ := enabled woken
  exact ⟨waits,rfl⟩

theorem listed_spurious (state next : State Thread Stage Shared) (thread : Thread)
    (listed : Listed asleep state) (stepped : step program state (.spurious thread) = some next) :
    Listed asleep next := by
  obtain ⟨waits,rfl⟩ := spurious_cases state next thread stepped
  refine ⟨?_,?_⟩
  · intro other
    rw [listed.listed other]
    by_cases same : other = thread
    · subst same
      simp [waits]
    · simp [same]
  · intro other member
    obtain ⟨inside,different⟩ := List.mem_filter.mp member
    have apart := listed.apart other inside
    simpa [apart] using different

/-- A wait without a time limit does not run out of time. -/
theorem timeout_never (endless : Endless program inside asleep own) (state next : State Thread Stage Shared)
    (thread : Thread) (placed : own thread (state.stages thread)) :
    step program state (.timeout thread) ≠ some next := by
  intro stepped
  have marked := endless.marked thread _ state.shared placed
  simp only [step] at stepped
  split at stepped
  · rename_i awake late command
    rw [command] at marked
    exact absurd marked.2.2 (Option.some_ne_none late)
  · contradiction

theorem step_healthy (endless : Endless program inside asleep own) (state next : State Thread Stage Shared)
    (action : Action Thread) (healthy : Healthy inside asleep own state)
    (stepped : step program state action = some next) : Healthy inside asleep own next := by
  have owned := step_owned endless.disciplined state next action healthy.owned stepped
  cases action with
  | run thread chosen =>
    have placed := healthy.placed thread
    have performed := perform_cases state next thread chosen _ stepped
    refine ⟨owned,?_,?_⟩
    · apply perform_listed state next thread chosen _ healthy.listed _ stepped
      exact endless.marked thread _ state.shared placed
    · intro other
      by_cases same : other = thread
      · subst same
        exact endless.closed other _ state.shared placed _ (performed_next state next other _ performed)
      · rw [performed_other state next thread other _ performed same]
        exact healthy.placed other
  | spurious thread =>
    refine ⟨owned,listed_spurious state next thread healthy.listed stepped,?_⟩
    obtain ⟨_,rfl⟩ := spurious_cases state next thread stepped
    exact healthy.placed
  | timeout thread => exact absurd stepped (timeout_never endless state next thread (healthy.placed thread))

def Able (program : Thread → Stage → Shared → Command Stage Shared) (state : State Thread Stage Shared)
    (thread : Thread) : Prop :=
  ∃ chosen next, step program state (.run thread chosen) = some next

/-- Nothing but its sleep and a taken mutex keeps a thread from its next step. -/
theorem able_unless (endless : Endless program inside asleep own) (state : State Thread Stage Shared)
    (healthy : Healthy inside asleep own state) (thread : Thread)
    (up : thread ∉ state.monitor.waiting)
    (mine : state.monitor.owner = none ∨ state.monitor.owner = some thread) : Able program state thread := by
  have marked := endless.marked thread _ state.shared (healthy.placed thread)
  have respects := endless.disciplined thread (state.stages thread) state.shared
  have owned := healthy.owned thread
  have listed := healthy.listed.listed thread
  unfold Able step
  dsimp only
  generalize program thread (state.stages thread) state.shared = command at marked respects ⊢
  have outside (out : inside (state.stages thread) = false) : state.monitor.owner = none := by
    apply mine.resolve_right
    rw [← owned,out]
    exact Bool.false_ne_true
  cases command with
  | lock stage => exact ⟨[],_,perform_lock state thread [] stage (outside respects.1)⟩
  | unlock stage => exact ⟨[],_,perform_unlock state thread [] stage (owned.mp respects.1)⟩
  | wait stage => exact ⟨[],_,by rw [perform,Monitor.wait,if_pos (owned.mp respects.1)]; rfl⟩
  | resume awake late =>
    have member := (listed.mp marked.1).resolve_left up
    exact ⟨[],_,perform_resume state thread [] awake late (outside respects.1) member⟩
  | signal stage => exact ⟨_,_,perform_signal state thread stage⟩
  | broadcast stage => exact ⟨[],_,rfl⟩
  | compute shared stage => exact ⟨[],_,rfl⟩
  | stop => contradiction

theorem owner_able (endless : Endless program inside asleep own) (state : State Thread Stage Shared)
    (healthy : Healthy inside asleep own state) (thread : Thread)
    (owner : state.monitor.owner = some thread) : Able program state thread := by
  apply able_unless endless state healthy thread _ (Or.inr owner)
  intro waits
  have marked := endless.marked thread _ state.shared (healthy.placed thread)
  have respects := endless.disciplined thread (state.stages thread) state.shared
  rw [← healthy.owned thread] at owner
  have sleeps := (healthy.listed.listed thread).mpr (Or.inl waits)
  -- only the stages of a wait are asleep, and these are outside the mutex
  generalize program thread (state.stages thread) state.shared = command at marked respects
  cases command with
  | lock | unlock | wait | signal | broadcast | compute =>
    rw [marked.1] at sleeps
    contradiction
  | resume awake late =>
    rw [respects.1] at owner
    contradiction
  | stop => contradiction

theorem able_or_blocked (endless : Endless program inside asleep own) (state : State Thread Stage Shared)
    (healthy : Healthy inside asleep own state) (thread : Thread) :
    Able program state thread ∨ thread ∈ state.monitor.waiting ∨
      ∃ other, other ≠ thread ∧ state.monitor.owner = some other ∧ Able program state other := by
  by_cases waits : thread ∈ state.monitor.waiting
  · exact Or.inr (Or.inl waits)
  · cases owner : state.monitor.owner with
    | none => exact Or.inl (able_unless endless state healthy thread waits (Or.inl owner))
    | some other =>
      by_cases same : other = thread
      · subst same
        exact Or.inl (owner_able endless state healthy other owner)
      · exact Or.inr (Or.inr ⟨other,same,rfl,owner_able endless state healthy other owner⟩)

/-- Inside the mutex every step is closer to its release. -/
def Releases (program : Thread → Stage → Shared → Command Stage Shared) (inside : Stage → Bool)
    (rank : Stage → Nat) : Prop :=
  ∀ thread stage shared, inside stage = true → ∀ next ∈ nexts (program thread stage shared),
    inside next = true → rank next < rank stage

def holding (rank : Stage → Nat) (state : State Thread Stage Shared) : Nat :=
  match state.monitor.owner with
  | none => 0
  | some thread => rank (state.stages thread)+1

theorem leads_free (endless : Endless program inside asleep own) (rank : Stage → Nat)
    (releases : Releases program inside rank) (invariant : State Thread Stage Shared → Prop)
    (preserved : ∀ state action next, invariant state → step program state action = some next → invariant next)
    (healthy : ∀ state, invariant state → Healthy inside asleep own state)
    (state : State Thread Stage Shared) (holds : invariant state) :
    Leads (step program) (fun final => invariant final ∧ final.monitor.owner = none)
      (holding rank state) state := by
  apply leads_rank invariant (fun final => final.monitor.owner = none) (holding rank) _ state holds
  intro state holds taken
  obtain ⟨thread,owner⟩ := Option.ne_none_iff_exists'.mp taken
  obtain ⟨chosen,next,stepped⟩ := owner_able endless state (healthy state holds) thread owner
  have kept := preserved state _ next holds stepped
  refine ⟨_,next,stepped,kept,?_⟩
  have performed := perform_cases state next thread chosen _ stepped
  have here := ((healthy state holds).owned thread).mpr owner
  have lower := releases thread _ state.shared here _ (performed_next state next thread _ performed)
  have after := (healthy next kept).owned
  unfold holding
  rw [owner]
  cases its : next.monitor.owner with
  | none => exact Nat.succ_pos _
  | some other =>
    -- the mutex was not free, so who has it is who had it
    have there := (after other).mpr its
    have same : other = thread := by
      by_contra different
      rw [performed_other state next thread other _ performed different] at there
      rw [owned_exclusive state (healthy state holds).owned thread other here different] at there
      contradiction
    subst same
    exact Nat.succ_lt_succ (lower there)

end LinuxCourse.Library.Monitor
