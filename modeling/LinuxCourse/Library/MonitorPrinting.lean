import LinuxCourse.Library.MonitorRules

/-! Threads under one mutex that print. What they print is the run of a sequential
machine, as long as each critical section prints what it does to the data. -/
namespace LinuxCourse.Library.Monitor

variable {Thread Stage Shared Line : Type}

structure Printed (Shared Line : Type) where
  shared : Shared
  output : List Line

/-- The program, with the lines that its steps on the shared data print. -/
def printing (program : Thread → Stage → Shared → Command Stage Shared)
    (prints : Thread → Stage → Shared → List Line) (thread : Thread) (stage : Stage)
    (printed : Printed Shared Line) : Command Stage (Printed Shared Line) :=
  match program thread stage printed.shared with
  | .lock next => .lock next
  | .unlock next => .unlock next
  | .wait next => .wait next
  | .resume awake late => .resume awake late
  | .signal next => .signal next
  | .broadcast next => .broadcast next
  | .compute changed next => .compute ⟨changed,printed.output++prints thread stage printed.shared⟩ next
  | .stop => .stop

def State.silent (state : State Thread Stage (Printed Shared Line)) : State Thread Stage Shared :=
  ⟨state.monitor,state.stages,state.shared.shared⟩

def Tells {Count : Type} (accept : Count → Line → Option Count) (count : Shared → Count) (shared : Shared)
    (lines : List Line) : Command Stage Shared → Prop
  | .compute changed _ => Execution.run accept (count shared) lines = some (count changed)
  | .lock _ | .unlock _ | .wait _ | .resume _ _ | .signal _ | .broadcast _ | .stop => True

variable [DecidableEq Thread] (program : Thread → Stage → Shared → Command Stage Shared)
  (prints : Thread → Stage → Shared → List Line)

/-- A step does what it does without its lines. -/
theorem step_silent (state : State Thread Stage (Printed Shared Line)) (action : Action Thread) :
    (step (printing program prints) state action).map State.silent = step program state.silent action := by
  obtain ⟨monitor,stages,⟨shared,output⟩⟩ := state
  cases action with
  | run thread chosen =>
    simp only [step,printing,State.silent]
    cases program thread (stages thread) shared with
    | lock next | unlock next | wait next | signal next =>
      simp only [perform,Option.map_map]
      rfl
    | resume awake late =>
      simp only [perform]
      cases monitor.resumeWoken thread with
      | some woken => rfl
      | none =>
        cases late with
        | none => rfl
        | some late =>
          simp only [Option.map_map]
          rfl
    | broadcast next | compute changed next => rfl
    | stop => rfl
  | spurious thread =>
    simp only [step,Option.map_map]
    rfl
  | timeout thread =>
    simp only [step,printing,State.silent]
    cases program thread (stages thread) shared with
    | resume awake late =>
      cases late with
      | none => rfl
      | some late =>
        simp only [Option.map_map]
        rfl
    | lock | unlock | wait | signal | broadcast | compute | stop => rfl

theorem run_silent (actions : List (Action Thread)) (state : State Thread Stage (Printed Shared Line)) :
    (run (printing program prints) state actions).map State.silent = run program state.silent actions := by
  induction actions generalizing state with
  | nil => rfl
  | cons action rest ih =>
    simp only [run,Execution.run] at ih ⊢
    rw [← step_silent program prints]
    cases step (printing program prints) state action with
    | none => rfl
    | some next => exact ih next

variable {program prints} {inside : Stage → Bool} {Count : Type} (accept : Count → Line → Option Count)
  (count : Shared → Count)

theorem performed_told (state next : State Thread Stage (Printed Shared Line)) (thread : Thread)
    (performed : Performed state thread (printing program prints thread (state.stages thread) state.shared) next)
    (tells : Tells accept count state.shared.shared (prints thread (state.stages thread) state.shared.shared)
      (program thread (state.stages thread) state.shared.shared)) :
    ∃ lines, next.shared.output = state.shared.output++lines ∧
      Execution.run accept (count state.shared.shared) lines = some (count next.shared.shared) := by
  have quiet (same : next.shared = state.shared) : ∃ lines, next.shared.output = state.shared.output++lines ∧
      Execution.run accept (count state.shared.shared) lines = some (count next.shared.shared) := by
    rw [same]
    exact ⟨[],(List.append_nil _).symm,rfl⟩
  unfold printing at performed
  generalize prints thread (state.stages thread) state.shared.shared = lines at performed tells
  generalize program thread (state.stages thread) state.shared.shared = command at performed tells
  cases command with
  | compute changed stage =>
    cases performed with
    | compute => exact ⟨lines,rfl,tells⟩
  | lock | unlock | wait | resume | signal | broadcast =>
    apply quiet
    cases performed <;> rfl
  | stop => cases performed

/-- Whatever the interleaving, what was printed is a run of the sequential machine to the
present count. -/
theorem run_replays (disciplined : Disciplined program inside) (outline : Outline program inside)
    (tells : ∀ thread stage shared, outline.invariant shared → outline.knows thread stage shared →
      Tells accept count shared (prints thread stage shared) (program thread stage shared))
    (actions : List (Action Thread)) (stages : Thread → Stage) (shared : Shared)
    (final : State Thread Stage (Printed Shared Line)) (outside : ∀ thread, inside (stages thread) = false)
    (initially : outline.invariant shared)
    (reached : run (printing program prints) ⟨free,stages,⟨shared,[]⟩⟩ actions = some final) :
    Execution.run accept (count shared) final.shared.output = some (count final.shared.shared) ∧
      run program ⟨free,stages,shared⟩ actions = some final.silent ∧ outline.invariant final.shared.shared := by
  have plain : run program ⟨free,stages,shared⟩ actions = some final.silent := by
    have same := run_silent program prints actions ⟨free,stages,⟨shared,[]⟩⟩
    rw [reached] at same
    exact same.symm
  have holds := Execution.run_invariant (step (printing program prints))
    (fun state => Owned inside state.silent ∧ outline.Holds state.silent ∧
      Execution.run accept (count shared) state.shared.output = some (count state.shared.shared))
    ?_ actions _ final ?_ reached
  · exact ⟨holds.2.2,plain,holds.2.1.1⟩
  · intro state action next ⟨owned,known,told⟩ stepped
    have silent : step program state.silent action = some next.silent := by
      rw [← step_silent program prints,stepped]
      rfl
    refine ⟨step_owned disciplined state.silent next.silent action owned silent,
      step_holds disciplined outline state.silent next.silent action owned known silent,?_⟩
    rcases step_cases _ state next action stepped with ⟨thread,chosen,rfl,performed⟩ | ⟨_,same,_,_⟩
    · obtain ⟨lines,output,went⟩ := performed_told accept count state next thread performed
        (tells thread _ _ known.1 (known.2 thread))
      rw [output,Execution.run_append,told]
      exact went
    · rw [same]
      exact told
  · exact ⟨owned_free stages shared outside,⟨initially,fun thread => outline.outside _ _ _ (outside thread)⟩,rfl⟩

end LinuxCourse.Library.Monitor
