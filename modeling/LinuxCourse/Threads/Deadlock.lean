import LinuxCourse.Library.Hoarding
import LinuxCourse.Library.Progress

/-! `threads/deadlock/threads_deadlock.c`: two threads take the same two locks, each in the
other order, and keep them. -/
namespace LinuxCourse.ThreadsDeadlock
open Library Library.Hoarding

inductive Thread
  | dead
  | lock
  deriving DecidableEq

inductive Lock
  | g_lock1
  | g_lock2
  deriving DecidableEq

def dead : List (Op Lock) := [.lock .g_lock1,.sleep,.lock .g_lock2]

def lock : List (Op Lock) := [.lock .g_lock2,.sleep,.lock .g_lock1]

def routine : Thread → List (Op Lock)
  | .dead => dead
  | .lock => lock

inductive MainStage
  | create (thread : Thread)
  | join (thread : Thread)
  | returned
  deriving DecidableEq

structure State where
  main : MainStage
  created : Thread → Bool
  locks : Hoarding.State Thread Lock

inductive Action
  | main
  | thread (thread : Thread)
  deriving DecidableEq

def mainStep (state : State) : Option State :=
  match state.main with
  | .create .dead =>
    some {state with main := .create .lock,created := Function.update state.created .dead true}
  | .create .lock =>
    some {state with main := .join .dead,created := Function.update state.created .lock true}
  | .join .dead => if state.locks.remaining .dead = [] then some {state with main := .join .lock} else none
  | .join .lock => if state.locks.remaining .lock = [] then some {state with main := .returned} else none
  | .returned => none

def threadStep (thread : Thread) (state : State) : Option State :=
  if state.created thread = true ∧ state.main ≠ .returned then
    (Hoarding.step state.locks thread).map fun locks => {state with locks := locks}
  else none

def step (state : State) : Action → Option State
  | .main => mainStep state
  | .thread thread => threadStep thread state

def initial : State := ⟨.create .dead,fun _ => false,Hoarding.start routine⟩

def Thread.other : Thread → Thread
  | .dead => .lock
  | .lock => .dead

/-- Which threads are there at a place of `main`. -/
def MainStage.created : MainStage → Thread → Bool
  | .create .dead,_ => false
  | .create .lock,thread => thread = .dead
  | _,_ => true

structure Sound (state : State) : Prop where
  created : state.created = state.main.created
  fresh : ∀ thread, state.created thread = false → state.locks.remaining thread = routine thread
  joined : state.main = .join .lock → state.locks.remaining .dead = []
  running : state.main ≠ .returned
  hoards : Hoards routine state.locks

theorem needs (thread : Thread) (lock : Lock) : .lock lock ∈ routine thread := by
  cases thread <;> cases lock <;> decide

/-- Each of the threads needs both locks. -/
theorem finished_alone (state : State) (sound : Sound state) (thread : Thread)
    (finished : state.locks.remaining thread = []) :
    state.locks.remaining thread.other = routine thread.other := by
  have owned := fun lock =>
    finished_owns routine state.locks sound.hoards thread finished lock (needs thread lock)
  obtain ⟨done,whole,owns⟩ := sound.hoards thread.other
  cases done with
  | nil => exact whole.symm
  | cons op rest =>
    -- what a thread does first is to take a lock
    have taken : ∃ lock, op = .lock lock := by
      cases thread <;> exact ⟨_,(List.cons.inj whole).1.symm⟩
    obtain ⟨lock,rfl⟩ := taken
    have mine := (owns lock).mpr List.mem_cons_self
    rw [owned lock,Option.some.injEq] at mine
    cases thread <;> contradiction

theorem initial_sound : Sound initial :=
  ⟨rfl,fun _ _ => rfl,nofun,nofun,start_hoards routine⟩

theorem mainStep_sound (state next : State) (sound : Sound state) (stepped : mainStep state = some next) :
    Sound next := by
  obtain ⟨created,fresh,joined,running,hoards⟩ := sound
  have alone := finished_alone state ⟨created,fresh,joined,running,hoards⟩
  unfold mainStep at stepped
  split at stepped
  · rename_i stage
    obtain rfl := Option.some.inj stepped
    rw [stage] at created
    refine ⟨?_,?_,nofun,nofun,hoards⟩
    · funext thread
      simp only [created]
      cases thread <;> rfl
    · intro thread absent
      apply fresh
      rw [created]
      rfl
  · rename_i stage
    obtain rfl := Option.some.inj stepped
    rw [stage] at created
    refine ⟨?_,?_,nofun,nofun,hoards⟩
    · funext thread
      simp only [created]
      cases thread <;> rfl
    · intro thread absent
      simp only [created] at absent
      cases thread <;> contradiction
  · rename_i stage
    split at stepped
    · rename_i finished
      obtain rfl := Option.some.inj stepped
      rw [stage] at created
      exact ⟨created,fresh,fun _ => finished,nofun,hoards⟩
    · contradiction
  · rename_i stage
    split at stepped
    · rename_i finished
      -- both threads would be at their ends
      have whole := alone .lock finished
      rw [Thread.other,joined stage] at whole
      contradiction
    · contradiction
  · contradiction

theorem threadStep_sound (state next : State) (thread : Thread) (sound : Sound state)
    (stepped : threadStep thread state = some next) : Sound next := by
  unfold threadStep at stepped
  split at stepped
  · rename_i present
    obtain ⟨locks,taken,rfl⟩ := Option.map_eq_some_iff.mp stepped
    obtain ⟨op,rest,remaining,after,-⟩ := step_cases state.locks locks thread taken
    refine ⟨sound.created,?_,?_,sound.running,?_⟩
    · intro other absent
      have differ : other ≠ thread := by
        rintro rfl
        rw [present.1] at absent
        contradiction
      simp only [after,Function.update_of_ne differ]
      exact sound.fresh other absent
    · intro stage
      have finished := sound.joined stage
      have differ : Thread.dead ≠ thread := by
        rintro rfl
        rw [remaining] at finished
        contradiction
      simp only [after,Function.update_of_ne differ]
      exact finished
    · exact step_hoards routine state.locks locks thread sound.hoards taken
  · contradiction

theorem step_sound (state : State) (action : Action) (next : State) (sound : Sound state)
    (stepped : step state action = some next) : Sound next := by
  cases action with
  | main => exact mainStep_sound state next sound stepped
  | thread thread => exact threadStep_sound state next thread sound stepped

def MainStage.progress : MainStage → Nat
  | .create .dead => 0
  | .create .lock => 1
  | .join .dead => 2
  | .join .lock => 3
  | .returned => 4

def progress (state : State) : Nat :=
  state.main.progress+(3-(state.locks.remaining .dead).length)+(3-(state.locks.remaining .lock).length)

/-- Where each of the threads is, and which locks it owns there. -/
theorem places (state : State) (sound : Sound state) (thread : Thread) :
    ∃ place ≤ 3, state.locks.remaining thread = (routine thread).drop place ∧
      ∀ lock, state.locks.owner lock = some thread ↔ .lock lock ∈ (routine thread).take place := by
  obtain ⟨place,bound,remaining,owned⟩ := hoards_drop routine state.locks sound.hoards thread
  have three : (routine thread).length = 3 := by cases thread <;> rfl
  exact ⟨place,three ▸ bound,remaining,owned⟩

theorem remaining_le (state : State) (sound : Sound state) (thread : Thread) :
    (state.locks.remaining thread).length ≤ 3 := by
  obtain ⟨place,_,remaining,_⟩ := places state sound thread
  rw [remaining,List.length_drop]
  cases thread <;> exact Nat.sub_le _ _

theorem step_progress (state : State) (action : Action) (next : State) (sound : Sound state)
    (stepped : step state action = some next) : progress next = progress state+1 := by
  cases action with
  | main =>
    have after := mainStep_sound state next sound stepped
    simp only [step,mainStep] at stepped
    split at stepped
    · rename_i stage
      obtain rfl := Option.some.inj stepped
      simp only [progress,stage,MainStage.progress]
      omega
    · rename_i stage
      obtain rfl := Option.some.inj stepped
      simp only [progress,stage,MainStage.progress]
      omega
    · rename_i stage
      split at stepped
      · obtain rfl := Option.some.inj stepped
        simp only [progress,stage,MainStage.progress]
        omega
      · contradiction
    · split at stepped
      · obtain rfl := Option.some.inj stepped
        exact absurd rfl after.running
      · contradiction
    · contradiction
  | thread thread =>
    simp only [step,threadStep] at stepped
    split at stepped
    · obtain ⟨locks,taken,rfl⟩ := Option.map_eq_some_iff.mp stepped
      obtain ⟨op,rest,remaining,after,-⟩ := step_cases state.locks locks thread taken
      have bound := remaining_le state sound thread
      rw [remaining,List.length_cons] at bound
      cases thread with
      | dead =>
        have differ : Thread.lock ≠ .dead := nofun
        simp only [progress,after,Function.update_self,Function.update_of_ne differ,remaining,
          List.length_cons]
        omega
      | lock =>
        have differ : Thread.dead ≠ .lock := nofun
        simp only [progress,after,Function.update_self,Function.update_of_ne differ,remaining,
          List.length_cons]
        omega
    · contradiction

theorem progress_le (state : State) (sound : Sound state) : progress state ≤ 6 := by
  have alone := finished_alone state sound
  have joined := sound.joined
  have running := sound.running
  have main : state.main.progress ≤ 3 ∧ (state.main.progress = 3 → state.main = .join .lock) := by
    cases stage : state.main with
    | create thread => cases thread <;> exact ⟨by decide,nofun⟩
    | join thread => cases thread <;> exact ⟨by decide,by decide⟩
    | returned => exact absurd stage running
  by_cases one : state.locks.remaining .dead = []
  · have other := alone .dead one
    simp only [Thread.other,routine] at other
    simp only [progress,one,other,lock,List.length_cons,List.length_nil]
    omega
  · have early : state.main.progress ≤ 2 := by
      by_contra late
      exact one (joined (main.2 (by omega)))
    have positive := List.length_pos_iff.mpr one
    by_cases two : state.locks.remaining .lock = []
    · have other := alone .lock two
      simp only [Thread.other,routine] at other
      simp only [progress,two,other,dead,List.length_cons,List.length_nil]
      omega
    · have positive' := List.length_pos_iff.mpr two
      simp only [progress]
      omega

/-- Each thread has the lock that the other one waits for. -/
def Circular (state : State) : Prop :=
  state.main = .join .dead ∧
    state.locks.owner .g_lock1 = some .dead ∧ state.locks.remaining .dead = [.lock .g_lock2] ∧
    state.locks.owner .g_lock2 = some .lock ∧ state.locks.remaining .lock = [.lock .g_lock1]

/-- One thread has ended with both locks, before the other one could take its first. -/
def Abandoned (thread : Thread) (state : State) : Prop :=
  state.main = .join thread.other ∧ state.locks.remaining thread = [] ∧
    state.locks.remaining thread.other = routine thread.other ∧
    ∀ lock, state.locks.owner lock = some thread

theorem threadStep_none (state : State) (thread : Thread) (present : state.created thread = true)
    (running : state.main ≠ .returned) (blocked : threadStep thread state = none) :
    Hoarding.step state.locks thread = none := by
  rw [threadStep,if_pos ⟨present,running⟩,Option.map_eq_none_iff] at blocked
  exact blocked

/-- A thread that waits for a lock and owns none has not begun, and one that waits and owns one
waits for the other lock. -/
theorem blocked_cases (state : State) (sound : Sound state) (thread : Thread)
    (blocked : Hoarding.step state.locks thread = none) :
    state.locks.remaining thread = [] ∨
      (state.locks.remaining thread = routine thread ∧ ∀ lock, state.locks.owner lock ≠ some thread) ∨
      (state.locks.remaining thread = (routine thread).drop 2 ∧
        ∀ lock, state.locks.owner lock = some thread ↔ .lock lock ∈ (routine thread).take 1) := by
  obtain ⟨place,bound,remaining,owned⟩ := places state sound thread
  have waits := step_blocked state.locks thread blocked
  have each : place = 0 ∨ place = 1 ∨ place = 2 ∨ place = 3 := by omega
  obtain rfl | rfl | rfl | rfl := each
  · refine Or.inr (Or.inl ⟨remaining,?_⟩)
    intro lock mine
    exact absurd ((owned lock).mp mine) (List.not_mem_nil)
  · -- it sleeps
    rw [remaining] at waits
    cases thread <;> simp [routine,dead,lock] at waits
  · refine Or.inr (Or.inr ⟨remaining,?_⟩)
    intro lock
    rw [owned lock]
    cases thread <;> cases lock <;> decide
  · refine Or.inl (remaining.trans ?_)
    cases thread <;> rfl

theorem stuck_cases (state : State) (sound : Sound state) (stuck : ∀ action, step state action = none) :
    Circular state ∨ ∃ thread, Abandoned thread state := by
  have alone := finished_alone state sound
  have present : (∀ thread, state.created thread = true) →
      ∀ thread, Hoarding.step state.locks thread = none := by
    intro created thread
    exact threadStep_none state thread (created thread) sound.running (stuck (.thread thread))
  have main : mainStep state = none := stuck .main
  cases stage : state.main with
  | create thread =>
    cases thread <;> simp only [mainStep,stage] at main <;> contradiction
  | returned => exact absurd stage sound.running
  | join thread =>
    have blocked := present fun other => by
      rw [sound.created,stage]
      cases thread <;> rfl
    cases thread with
    | lock =>
      have finished := sound.joined stage
      have owned := fun lock =>
        finished_owns routine state.locks sound.hoards .dead finished lock (needs .dead lock)
      exact Or.inr ⟨.dead,stage,finished,alone .dead finished,owned⟩
    | dead =>
      have runs : state.locks.remaining .dead ≠ [] := by
        intro finished
        simp only [mainStep,stage,if_pos finished] at main
        contradiction
      have waits := step_blocked state.locks .dead (blocked .dead)
      rcases blocked_cases state sound .dead (blocked .dead) with finished | ⟨whole,bare⟩ | ⟨last,first⟩
      · exact absurd finished runs
      · -- the owner of the first lock is the other thread, which has both
        have held : state.locks.owner .g_lock1 = some .lock := by
          obtain finished | ⟨lock,rest,holder,next,owned⟩ := waits
          · exact absurd finished runs
          · rw [whole] at next
            obtain ⟨same,-⟩ := List.cons.inj next
            obtain rfl := Op.lock.inj same
            cases holder with
            | dead => exact absurd owned (bare _)
            | lock => exact owned
        rcases blocked_cases state sound .lock (blocked .lock) with finished | ⟨-,none⟩ | ⟨-,second⟩
        · have owned := fun lock =>
            finished_owns routine state.locks sound.hoards .lock finished lock (needs .lock lock)
          exact Or.inr ⟨.lock,stage,finished,alone .lock finished,owned⟩
        · exact absurd held (none _)
        · have early := (second .g_lock1).mp held
          contradiction
      · have held : state.locks.owner .g_lock2 = some .lock := by
          obtain finished | ⟨lock,rest,holder,next,owned⟩ := waits
          · exact absurd finished runs
          · rw [last] at next
            obtain ⟨same,-⟩ := List.cons.inj next
            obtain rfl := Op.lock.inj same
            cases holder with
            | dead =>
              have early := (first .g_lock2).mp owned
              contradiction
            | lock => exact owned
        have own : state.locks.owner .g_lock1 = some .dead := (first .g_lock1).mpr List.mem_cons_self
        rcases blocked_cases state sound .lock (blocked .lock) with finished | ⟨-,none⟩ | ⟨rest,-⟩
        · rw [finished_owns routine state.locks sound.hoards .lock finished .g_lock1 (needs _ _)] at own
          contradiction
        · exact absurd held (none _)
        · exact Or.inl ⟨stage,own,last,held,rest⟩

theorem waits_none (state : State) (thread holder : Thread) (lock : Lock) (rest : List (Op Lock))
    (remaining : state.locks.remaining thread = .lock lock::rest)
    (owned : state.locks.owner lock = some holder) : threadStep thread state = none := by
  have taken : state.locks.owner lock ≠ none := by
    rw [owned]
    exact nofun
  simp only [threadStep,Hoarding.step,remaining,if_neg taken,Option.map_none,ite_self]

theorem circular_stuck (state : State) (circular : Circular state) (action : Action) :
    step state action = none := by
  obtain ⟨stage,own,last,held,rest⟩ := circular
  cases action with
  | main =>
    rw [step,mainStep,stage]
    simp only [last,reduceCtorEq,if_false]
  | thread thread =>
    cases thread with
    | dead => exact waits_none state .dead .lock .g_lock2 [] last held
    | lock => exact waits_none state .lock .dead .g_lock1 [] rest own

theorem abandoned_stuck (state : State) (thread : Thread) (abandoned : Abandoned thread state)
    (action : Action) : step state action = none := by
  obtain ⟨stage,finished,whole,owned⟩ := abandoned
  have ended : threadStep thread state = none := by
    simp only [threadStep,Hoarding.step,finished,Option.map_none,ite_self]
  cases thread with
  | dead =>
    cases action with
    | main =>
      rw [step,mainStep,stage]
      simp only [Thread.other] at whole ⊢
      simp only [whole,routine,lock,reduceCtorEq,if_false]
    | thread other =>
      cases other with
      | dead => exact ended
      | lock => exact waits_none state .lock .dead .g_lock2 _ whole (owned _)
  | lock =>
    cases action with
    | main =>
      rw [step,mainStep,stage]
      simp only [Thread.other] at whole ⊢
      simp only [whole,routine,dead,reduceCtorEq,if_false]
    | thread other =>
      cases other with
      | lock => exact ended
      | dead => exact waits_none state .dead .lock .g_lock1 _ whole (owned _)

theorem run_sound (actions : List Action) (state final : State) (sound : Sound state)
    (reached : Execution.run step state actions = some final) : Sound final :=
  Execution.run_invariant step Sound (fun state action next => step_sound state action next) actions
    state final sound reached

/-- Whatever the scheduler does, the program does not end: `main` waits for ever, either in a
circle of its threads or for a thread whose locks were not given back. -/
theorem run_deadlocks (actions : List Action) (final : State)
    (reached : Execution.run step initial actions = some final) :
    final.main ≠ .returned ∧ actions.length ≤ 6 ∧
      ((∀ action, step final action = none) ↔ Circular final ∨ ∃ thread, Abandoned thread final) := by
  have sound := run_sound actions initial final initial_sound reached
  refine ⟨sound.running,?_,?_,?_⟩
  · have length := Progress.run_progress step progress Sound
      (fun state action next => step_sound state action next)
      (fun state action next => step_progress state action next) actions initial final initial_sound
      reached
    have bound := progress_le final sound
    have zero : progress initial = 0 := rfl
    omega
  · exact stuck_cases final sound
  · rintro (circular | ⟨thread,abandoned⟩)
    · exact circular_stuck final circular
    · exact abandoned_stuck final thread abandoned

/-- From the moment that each thread has its first lock, none of them returns any more. -/
theorem run_dooms (before after : List Action) (state final : State)
    (reached : Execution.run step initial before = some state)
    (one : state.locks.owner .g_lock1 = some .dead) (two : state.locks.owner .g_lock2 = some .lock)
    (ran : Execution.run step state after = some final) (thread : Thread) :
    final.locks.remaining thread ≠ [] := by
  have sound := run_sound before initial state initial_sound reached
  have kept : final.locks.owner .g_lock1 = some .dead ∧ final.locks.owner .g_lock2 = some .lock := by
    refine Execution.run_invariant step
      (fun state => state.locks.owner .g_lock1 = some .dead ∧ state.locks.owner .g_lock2 = some .lock)
      ?_ after state final ⟨one,two⟩ ran
    intro state action next held stepped
    cases action with
    | main =>
      have same : next.locks = state.locks := by
        simp only [step,mainStep] at stepped
        split at stepped <;> try split at stepped
        all_goals cases stepped <;> rfl
      rw [same]
      exact held
    | thread thread =>
      simp only [step,threadStep] at stepped
      split at stepped
      · obtain ⟨locks,taken,rfl⟩ := Option.map_eq_some_iff.mp stepped
        exact ⟨step_keeps _ _ _ _ _ taken held.1,step_keeps _ _ _ _ _ taken held.2⟩
      · contradiction
  intro finished
  have later := run_sound after state final sound ran
  have owned := fun lock =>
    finished_owns routine final.locks later.hoards thread finished lock (needs thread lock)
  cases thread with
  | dead =>
    have other := (owned .g_lock2).symm.trans kept.2
    contradiction
  | lock =>
    have other := (owned .g_lock1).symm.trans kept.1
    contradiction

/-- Each thread takes its first lock while the other one sleeps. -/
def circle : List Action :=
  [.main,.main,.thread .dead,.thread .lock,.thread .dead,.thread .lock]

theorem run_deadlocks_circle :
    ∃ final, Execution.run step initial circle = some final ∧
      final.main ≠ .returned ∧ circle.length ≤ 6 ∧
      ((∀ action, step final action = none) ↔ Circular final ∨ ∃ thread, Abandoned thread final) := by
  have reached : Execution.run step initial circle = some _ := rfl
  exact ⟨_,reached,run_deadlocks circle _ reached⟩

theorem run_dooms_circle :
    ∃ state final, Execution.run step initial (circle.take 4) = some state ∧
      Execution.run step state (circle.drop 4) = some final ∧
      final.locks.remaining .dead ≠ [] := by
  have reached : ∃ state, Execution.run step initial (circle.take 4) = some state ∧
      state.locks.owner .g_lock1 = some .dead ∧ state.locks.owner .g_lock2 = some .lock ∧
      (Execution.run step state (circle.drop 4)).isSome := ⟨_,rfl,rfl,rfl,rfl⟩
  obtain ⟨state,reached,one,two,more⟩ := reached
  obtain ⟨final,ran⟩ := Option.isSome_iff_exists.mp more
  exact ⟨state,final,reached,ran,run_dooms (circle.take 4) (circle.drop 4) state final reached one two ran .dead⟩

end LinuxCourse.ThreadsDeadlock
