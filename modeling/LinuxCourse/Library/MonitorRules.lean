import LinuxCourse.Library.Monitor

/-! Rules for threads under one mutex. `Disciplined` programs exclude each other; a
proof outline of each thread's critical section then holds whatever the others do;
and a program that announces each change that waiters hope for loses no wake-up. All
obligations are about single commands. -/
namespace LinuxCourse.Library.Monitor

variable {Thread Stage Shared : Type} (program : Thread → Stage → Shared → Command Stage Shared)

section Exclusion
variable (inside : Stage → Bool)

def Respects (stage : Stage) (shared : Shared) : Command Stage Shared → Prop
  | .lock next => inside stage = false ∧ inside next = true
  | .unlock next => inside stage = true ∧ inside next = false
  | .wait next => inside stage = true ∧ inside next = false
  | .resume awake late =>
    inside stage = false ∧ inside awake = true ∧ ∀ next, late = some next → inside next = true
  | .signal next => inside next = inside stage
  | .broadcast next => inside next = inside stage
  | .compute changed next => inside next = inside stage ∧ (inside stage = true ∨ changed = shared)
  | .stop => True

/-- The stages `inside` are those at which a thread holds the mutex, and only there does
it change the shared data. -/
def Disciplined : Prop :=
  ∀ thread stage shared, Respects inside stage shared (program thread stage shared)

def Owned (state : State Thread Stage Shared) : Prop :=
  ∀ thread, inside (state.stages thread) = true ↔ state.monitor.owner = some thread

variable {program inside}

theorem owned_exclusive (state : State Thread Stage Shared) (owned : Owned inside state)
    (first second : Thread) (here : inside (state.stages first) = true) (different : second ≠ first) :
    inside (state.stages second) = false := by
  rw [← Bool.not_eq_true]
  intro there
  have same := ((owned first).mp here).symm.trans ((owned second).mp there)
  exact different (Option.some.inj same).symm

theorem owned_free (stages : Thread → Stage) (shared : Shared)
    (outside : ∀ thread, inside (stages thread) = false) :
    Owned inside (⟨free,stages,shared⟩ : State Thread Stage Shared) := by
  intro thread
  simp only [outside thread,free,Bool.false_eq_true,reduceCtorEq]

variable [DecidableEq Thread]

theorem owned_acquired (state : State Thread Stage Shared) (owned : Owned inside state)
    (thread : Thread) (stage : Stage) (monitor : Monitor Thread) (unowned : state.monitor.owner = none)
    (owner : monitor.owner = some thread) (entered : inside stage = true) :
    Owned inside (state.move thread stage monitor) := by
  intro other
  by_cases same : other = thread
  · subst same
    rw [move_self]
    exact ⟨fun _ => owner,fun _ => entered⟩
  · rw [move_other _ _ _ _ _ same,owned other,unowned]
    simp only [State.move,owner,Option.some.injEq,Ne.symm same,reduceCtorEq]

theorem owned_released (state : State Thread Stage Shared) (owned : Owned inside state)
    (thread : Thread) (stage : Stage) (monitor : Monitor Thread)
    (own : state.monitor.owner = some thread) (owner : monitor.owner = none)
    (left : inside stage = false) : Owned inside (state.move thread stage monitor) := by
  intro other
  by_cases same : other = thread
  · subst same
    rw [move_self,left]
    simp only [State.move,owner,Bool.false_eq_true,reduceCtorEq]
  · rw [move_other _ _ _ _ _ same,owned other,own]
    simp only [State.move,owner,Option.some.injEq,Ne.symm same,reduceCtorEq]

theorem owned_kept (state next : State Thread Stage Shared) (owned : Owned inside state)
    (thread : Thread) (stage : Stage) (owner : next.monitor.owner = state.monitor.owner)
    (stages : next.stages = Function.update state.stages thread stage)
    (kept : inside stage = inside (state.stages thread)) : Owned inside next := by
  intro other
  rw [owner,stages,← owned other]
  by_cases same : other = thread
  · subst same
    rw [Function.update_self,kept]
  · rw [Function.update_of_ne same]

theorem step_owned (disciplined : Disciplined program inside) (state next : State Thread Stage Shared)
    (action : Action Thread) (owned : Owned inside state)
    (stepped : step program state action = some next) : Owned inside next := by
  rcases step_cases program state next action stepped with ⟨thread,chosen,rfl,performed⟩ | ⟨stages,_,owner,_⟩
  · have respects := disciplined thread (state.stages thread) state.shared
    generalize program thread (state.stages thread) state.shared = command at performed respects
    cases performed with
    | lock stage unowned => exact owned_acquired state owned thread stage _ unowned rfl respects.2
    | unlock stage own => exact owned_released state owned thread stage _ own rfl respects.2
    | wait stage own => exact owned_released state owned thread stage _ own rfl respects.2
    | awake stage late unowned => exact owned_acquired state owned thread stage _ unowned rfl respects.2.1
    | late awake stage unowned =>
      exact owned_acquired state owned thread stage _ unowned rfl (respects.2.2 stage rfl)
    | signal stage chosen reached => exact owned_kept state _ owned thread stage rfl rfl respects
    | broadcast stage => exact owned_kept state _ owned thread stage rfl rfl respects
    | compute shared stage => exact owned_kept state _ owned thread stage rfl rfl respects.1
  · intro other
    rw [stages,owner]
    exact owned other

theorem performed_other (state next : State Thread Stage Shared) (thread other : Thread)
    (command : Command Stage Shared) (performed : Performed state thread command next)
    (different : other ≠ thread) : next.stages other = state.stages other := by
  cases performed <;> exact Function.update_of_ne different _ _

/-- A step of another thread leaves a thread its stage, and inside the mutex the shared
data too. -/
theorem step_others (disciplined : Disciplined program inside) (state next : State Thread Stage Shared)
    (action : Action Thread) (owned : Owned inside state)
    (stepped : step program state action = some next) (other : Thread)
    (idle : ∀ chosen, action ≠ .run other chosen) :
    next.stages other = state.stages other ∧
      (next.shared = state.shared ∨ inside (state.stages other) = false) := by
  rcases step_cases program state next action stepped with ⟨thread,chosen,rfl,performed⟩ | ⟨stages,shared,_,_⟩
  · have different : other ≠ thread := fun same => idle chosen (same ▸ rfl)
    refine ⟨performed_other state next thread other _ performed different,?_⟩
    have respects := disciplined thread (state.stages thread) state.shared
    generalize program thread (state.stages thread) state.shared = command at performed respects
    cases performed with
    | compute shared stage =>
      rcases respects.2 with here | unchanged
      · exact Or.inr (owned_exclusive state owned thread other here different)
      · exact Or.inl unchanged
    | lock | unlock | wait | awake | late | signal | broadcast => exact Or.inl rfl
  · exact ⟨congrFun stages other,Or.inl shared⟩

end Exclusion

section Outlines
variable (inside : Stage → Bool)

def Establishes (invariant : Shared → Prop) (knows : Stage → Shared → Prop) (shared : Shared) :
    Command Stage Shared → Prop
  | .lock next | .unlock next | .wait next | .signal next | .broadcast next => knows next shared
  | .resume awake late => knows awake shared ∧ ∀ next, late = some next → knows next shared
  | .compute changed next => invariant changed ∧ knows next changed
  | .stop => True

/-- An invariant of the shared data, and what each thread knows of it at each stage.
Outside the mutex nothing can be known. -/
structure Outline where
  invariant : Shared → Prop
  knows : Thread → Stage → Shared → Prop
  outside : ∀ thread stage shared, inside stage = false → knows thread stage shared
  sound : ∀ thread stage shared, invariant shared → knows thread stage shared →
    Establishes invariant (knows thread) shared (program thread stage shared)

variable {program inside}

def Outline.Holds (outline : Outline program inside) (state : State Thread Stage Shared) : Prop :=
  outline.invariant state.shared ∧ ∀ thread, outline.knows thread (state.stages thread) state.shared

variable [DecidableEq Thread]

theorem performed_established (invariant : Shared → Prop) (knows : Stage → Shared → Prop)
    (state next : State Thread Stage Shared) (thread : Thread) (command : Command Stage Shared)
    (performed : Performed state thread command next) (holds : invariant state.shared)
    (sound : Establishes invariant knows state.shared command) :
    invariant next.shared ∧ knows (next.stages thread) next.shared := by
  cases performed with
  | lock stage _ | unlock stage _ | wait stage _ | signal stage _ _ | broadcast stage =>
    rw [move_self]
    exact ⟨holds,sound⟩
  | awake stage late _ =>
    rw [move_self]
    exact ⟨holds,sound.1⟩
  | late awake stage _ =>
    rw [move_self]
    exact ⟨holds,sound.2 stage rfl⟩
  | compute shared stage =>
    simp only [move_self]
    exact sound

/-- One step of an outline. The obligation is about the command that the step runs, so a
condition on the steps of a run can be used for it. -/
theorem step_known (disciplined : Disciplined program inside) (invariant : Shared → Prop)
    (knows : Thread → Stage → Shared → Prop)
    (outside : ∀ thread stage shared, inside stage = false → knows thread stage shared)
    (state next : State Thread Stage Shared) (action : Action Thread) (owned : Owned inside state)
    (holds : invariant state.shared) (known : ∀ thread, knows thread (state.stages thread) state.shared)
    (sound : ∀ thread chosen, action = .run thread chosen → Establishes invariant (knows thread)
      state.shared (program thread (state.stages thread) state.shared))
    (stepped : step program state action = some next) :
    invariant next.shared ∧ ∀ thread, knows thread (next.stages thread) next.shared := by
  have others := step_others disciplined state next action owned stepped
  have kept (other : Thread) (idle : ∀ chosen, action ≠ .run other chosen) :
      knows other (next.stages other) next.shared := by
    obtain ⟨stage,unchanged | left⟩ := others other idle
    · rw [stage,unchanged]
      exact known other
    · rw [stage]
      exact outside _ _ _ left
  rcases step_cases program state next action stepped with ⟨thread,chosen,rfl,performed⟩ | ⟨stages,shared,_,_⟩
  · obtain ⟨still,knew⟩ := performed_established invariant (knows thread) state next thread _ performed
      holds (sound thread chosen rfl)
    refine ⟨still,?_⟩
    intro other
    by_cases same : other = thread
    · exact same ▸ knew
    · exact kept other fun picked ran => same (Action.run.inj ran).1.symm
  · rw [stages,shared]
    exact ⟨holds,known⟩

theorem step_holds (disciplined : Disciplined program inside) (outline : Outline program inside)
    (state next : State Thread Stage Shared) (action : Action Thread) (owned : Owned inside state)
    (holds : outline.Holds state) (stepped : step program state action = some next) :
    outline.Holds next :=
  step_known disciplined outline.invariant outline.knows outline.outside state next action owned
    holds.1 holds.2 (fun thread _ _ => outline.sound thread _ _ holds.1 (holds.2 thread)) stepped

/-- An outline that is sound where `allowed` admits the step holds in every run whose steps
are all admitted. -/
theorem run_known (disciplined : Disciplined program inside)
    (allowed : State Thread Stage Shared → Action Thread → Prop) (invariant : Shared → Prop)
    (knows : Thread → Stage → Shared → Prop)
    (outside : ∀ thread stage shared, inside stage = false → knows thread stage shared)
    (sound : ∀ state thread chosen, invariant state.shared → knows thread (state.stages thread) state.shared →
      allowed state (.run thread chosen) → Establishes invariant (knows thread) state.shared
        (program thread (state.stages thread) state.shared))
    (actions : List (Action Thread)) (stages : Thread → Stage) (shared : Shared)
    (final : State Thread Stage Shared) (out : ∀ thread, inside (stages thread) = false)
    (initially : invariant shared)
    (met : Execution.Meets (step program) allowed ⟨free,stages,shared⟩ actions)
    (reached : run program ⟨free,stages,shared⟩ actions = some final) : invariant final.shared := by
  have holds := Execution.run_meets (step program) allowed
    (fun state => Owned inside state ∧ invariant state.shared ∧
      ∀ thread, knows thread (state.stages thread) state.shared) ?_ actions _ final ?_ met reached
  · exact holds.2.1
  · rintro state action next ⟨owned,holds,known⟩ allows stepped
    refine ⟨step_owned disciplined state next action owned stepped,?_⟩
    apply step_known disciplined invariant knows outside state next action owned holds known ?_ stepped
    rintro thread chosen rfl
    exact sound state thread chosen holds (known thread) allows
  · exact ⟨owned_free stages shared out,initially,fun thread => outside _ _ _ (out thread)⟩

end Outlines

section Announcements
variable {inside : Stage → Bool} (outline : Outline program inside)

def Announces (waits : Thread → Prop) (empty : Shared → Prop) (owes : Thread → Stage → Shared → Prop)
    (thread : Thread) (stage : Stage) (shared : Shared) : Command Stage Shared → Prop
  | .lock next | .unlock next => owes thread stage shared → owes thread next shared
  | .wait _ => waits thread ∧ empty shared
  | .resume awake late =>
    owes thread stage shared → owes thread awake shared ∧ ∀ next, late = some next → owes thread next shared
  | .signal _ => ∀ first second, waits first → waits second → first = second
  | .broadcast _ => True
  | .compute changed next =>
    (empty shared → empty changed ∨ owes thread next changed) ∧
      (owes thread stage shared → owes thread next changed) ∧
      ∀ other stage, other ≠ thread → owes other stage shared → owes other stage changed
  | .stop => True

/-- Threads wait while the data is `empty`; who ends that owes them a wake-up, and still
owes it at every later stage until a signal or a broadcast. A signal is enough only
where a single thread ever waits. -/
structure Announcement where
  waits : Thread → Prop
  empty : Shared → Prop
  owes : Thread → Stage → Shared → Prop
  sound : ∀ thread stage shared, outline.invariant shared → outline.knows thread stage shared →
    Announces waits empty owes thread stage shared (program thread stage shared)

variable {program outline}

def Announcement.Holds (announcement : Announcement program outline)
    (state : State Thread Stage Shared) : Prop :=
  (∀ thread ∈ state.monitor.waiting, announcement.waits thread) ∧
    (state.monitor.waiting ≠ [] → announcement.empty state.shared ∨
      ∃ thread, announcement.owes thread (state.stages thread) state.shared)

variable [DecidableEq Thread]

theorem announced_move (announcement : Announcement program outline)
    (state : State Thread Stage Shared) (thread : Thread) (stage : Stage) (monitor : Monitor Thread)
    (holds : announcement.Holds state) (waiting : monitor.waiting = state.monitor.waiting)
    (owes : announcement.owes thread (state.stages thread) state.shared →
      announcement.owes thread stage state.shared) :
    announcement.Holds (state.move thread stage monitor) := by
  refine ⟨?_,?_⟩
  · simp only [State.move,waiting]
    exact holds.1
  · intro present
    simp only [State.move,waiting] at present
    rcases holds.2 present with empty | ⟨other,owed⟩
    · exact Or.inl empty
    · refine Or.inr ⟨other,?_⟩
      by_cases same : other = thread
      · subst same
        rw [move_self]
        exact owes owed
      · rw [move_other _ _ _ _ _ same]
        exact owed

/-- Where only one thread can wait, it is among the chosen. -/
theorem signal_single (waiting chosen : List Thread)
    (reached : waiting = [] ∨ ∃ thread ∈ chosen, thread ∈ waiting)
    (single : ∀ first second, first ∈ waiting → second ∈ waiting → first = second) :
    waiting.filter (· ∉ chosen) = [] := by
  rw [List.filter_eq_nil_iff]
  intro other present
  rcases reached with nobody | ⟨woken,picked,member⟩
  · rw [nobody] at present
    contradiction
  · have same := single other woken present member
    simpa [same] using picked

theorem step_announced (announcement : Announcement program outline)
    (state next : State Thread Stage Shared) (action : Action Thread) (known : outline.Holds state)
    (holds : announcement.Holds state) (stepped : step program state action = some next) :
    announcement.Holds next := by
  rcases step_cases program state next action stepped with ⟨thread,chosen,rfl,performed⟩ | ⟨stages,shared,_,waiting⟩
  · have sound := announcement.sound thread _ _ known.1 (known.2 thread)
    generalize program thread (state.stages thread) state.shared = command at performed sound
    cases performed with
    | lock stage _ => exact announced_move announcement state thread stage _ holds rfl sound
    | unlock stage _ => exact announced_move announcement state thread stage _ holds rfl sound
    | wait stage _ =>
      refine ⟨?_,fun _ => Or.inl sound.2⟩
      intro other member
      rcases List.mem_cons.mp member with rfl | before
      · exact sound.1
      · exact holds.1 other before
    | awake stage late _ =>
      exact announced_move announcement state thread stage _ holds rfl fun owed => (sound owed).1
    | late awake stage _ =>
      exact announced_move announcement state thread stage _ holds rfl fun owed => (sound owed).2 stage rfl
    | signal stage chosen reached =>
      have none := signal_single state.monitor.waiting chosen reached fun first second here there =>
        sound first second (holds.1 first here) (holds.1 second there)
      refine ⟨?_,?_⟩
      · intro other member
        simp only [State.move,none] at member
        contradiction
      · intro present
        simp only [State.move,none] at present
        contradiction
    | broadcast stage => exact ⟨fun _ member => absurd member List.not_mem_nil,fun present => absurd rfl present⟩
    | compute shared stage =>
      obtain ⟨ends,own,others⟩ := sound
      refine ⟨holds.1,?_⟩
      intro present
      rcases holds.2 present with empty | ⟨other,owed⟩
      · rcases ends empty with still | owes
        · exact Or.inl still
        · exact Or.inr ⟨thread,by simpa only [move_self] using owes⟩
      · refine Or.inr ⟨other,?_⟩
        by_cases same : other = thread
        · subst same
          simpa only [move_self] using own owed
        · simpa only [move_other _ _ _ _ _ same] using others other _ same owed
  · refine ⟨fun other member => holds.1 other (waiting member),?_⟩
    intro present
    rw [stages,shared]
    apply holds.2
    intro none
    rw [none] at waiting
    exact present (List.subset_nil.mp waiting)

theorem run_announced (disciplined : Disciplined program inside) (announcement : Announcement program outline)
    (actions : List (Action Thread)) (stages : Thread → Stage) (shared : Shared)
    (final : State Thread Stage Shared) (outside : ∀ thread, inside (stages thread) = false)
    (invariant : outline.invariant shared)
    (reached : run program ⟨free,stages,shared⟩ actions = some final) :
    Owned inside final ∧ outline.Holds final ∧ announcement.Holds final := by
  refine Execution.run_invariant (step program)
    (fun state => Owned inside state ∧ outline.Holds state ∧ announcement.Holds state)
    ?_ actions _ final ?_ reached
  · intro state action next ⟨owned,known,holds⟩ stepped
    exact ⟨step_owned disciplined state next action owned stepped,
      step_holds disciplined outline state next action owned known stepped,
      step_announced announcement state next action known holds stepped⟩
  · exact ⟨owned_free stages shared outside,⟨invariant,fun thread => outline.outside _ _ _ (outside thread)⟩,
      fun _ member => absurd member List.not_mem_nil,fun present => absurd rfl present⟩

end Announcements
end LinuxCourse.Library.Monitor
