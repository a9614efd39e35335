import LinuxCourse.Library.SignalsRules

/-! A parent that waits for the changes of a process. The kernel keeps the last change only,
so a change can be missed, but never the end. For a parent that ignores SIGCHLD it keeps
nothing of a process that has ended. -/
namespace LinuxCourse.Library.Signals

variable {σ Line Local : Type}

def Change.ends : Change σ → Bool
  | .exited _ => true
  | .signaled _ _ => true
  | .stopped _ => false
  | .continued => false

theorem ends_after (change : Change σ) (ends : change.ends = true) : change.after = .ended change := by
  cases change with
  | exited | signaled => rfl
  | stopped | continued => contradiction

theorem after_ends (change other : Change σ) (after : change.after = .ended other) :
    change = other ∧ change.ends = true := by
  cases change with
  | exited | signaled => exact ⟨Status.ended.inj after,rfl⟩
  | stopped | continued => contradiction

def wait (process : Process σ Line Local) : Option (Change σ × Process σ Line Local) :=
  process.report.map fun change => (change,{process with report := none})

/-- One call that waits: the change, or none where it fails. `reaps` is for a parent that
ignores SIGCHLD: its call blocks as long as the process lives and has no change, and fails
once it has ended. -/
def waitpid (reaps : Bool) (process : Process σ Line Local) :
    Option (Option (Change σ) × Process σ Line Local) :=
  match reaps,process.status with
  | true,.ended _ => some (none,process)
  | _,_ => (wait process).map fun waited => (some waited.1,waited.2)

inductive WaitedFor (reaps : Bool) (process : Process σ Line Local) :
    Option (Change σ) → Process σ Line Local → Prop
  | change (change next) (waited : wait process = some (change,next))
    (alive : reaps = true → ∀ last, process.status ≠ .ended last) :
    WaitedFor reaps process (some change) next
  | failed (last) (reaped : reaps = true) (ended : process.status = .ended last) :
    WaitedFor reaps process none process

theorem waitpid_cases (reaps : Bool) (process next : Process σ Line Local) (change : Option (Change σ))
    (returned : waitpid reaps process = some (change,next)) : WaitedFor reaps process change next := by
  unfold waitpid at returned
  split at returned
  · rename_i last ended
    obtain ⟨rfl,rfl⟩ := Prod.mk.inj (Option.some.inj returned)
    exact .failed last rfl ended
  · rename_i other
    obtain ⟨⟨taken,after⟩,waited,same⟩ := Option.map_eq_some_iff.mp returned
    obtain ⟨rfl,rfl⟩ := Prod.mk.inj same
    exact .change taken after waited fun reaped last ended => other last reaped ended

/-- What was waited for already, against all that happened. -/
structure Watched (process : Process σ Line Local) (seen : List (Change σ)) : Prop where
  order : (seen++process.report.toList).Sublist process.changes
  last : (seen++process.report.toList).getLast? = process.changes.getLast?
  past : ∀ change, process.status = .ended change →
    process.changes.getLast? = some change ∧ change.ends = true
  ends : ∀ change ∈ process.changes, change.ends = true → process.status = .ended change

theorem watched_initial (mask pending : σ → Bool) (own : Local) :
    Watched (initial mask pending own : Process σ Line Local) [] := by
  refine ⟨List.nil_sublist _,rfl,?_,?_⟩
  · intro change ended
    contradiction
  · intro change member
    contradiction

theorem watched_step [DecidableEq σ] {table : Table σ} {program : Program σ Line Local}
    (process next : Process σ Line Local) (action : Action σ) (seen : List (Change σ))
    (watched : Watched process seen) (stepped : step table program process action = some next) :
    Watched next seen := by
  rcases step_change process next action stepped with ⟨changes,report,status⟩ | ⟨change,reported⟩
  · refine ⟨?_,?_,?_,?_⟩
    · rw [report,changes]
      exact watched.order
    · rw [report,changes]
      exact watched.last
    · rw [status,changes]
      exact watched.past
    · rw [status,changes]
      exact watched.ends
  · have before : seen.Sublist process.changes := (List.sublist_append_left _ _).trans watched.order
    refine ⟨?_,?_,?_,?_⟩
    · rw [reported.report,reported.changes]
      exact before.append (List.Sublist.refl _)
    · rw [reported.report,reported.changes,Option.toList_some,List.getLast?_concat,List.getLast?_concat]
    · intro other ended
      rw [reported.status] at ended
      obtain ⟨rfl,ends⟩ := after_ends change other ended
      rw [reported.changes,List.getLast?_concat]
      exact ⟨rfl,ends⟩
    · intro other member ends
      rw [reported.changes,List.mem_append,List.mem_singleton] at member
      rcases member with earlier | rfl
      · -- a process that has ended takes no more steps
        have past := watched.ends other earlier ends
        rcases reported.alive with alive | alive <;> rw [past] at alive <;> contradiction
      · rw [reported.status,ends_after other ends]

theorem watched_wait (process next : Process σ Line Local) (change : Change σ) (seen : List (Change σ))
    (watched : Watched process seen) (waited : wait process = some (change,next)) :
    Watched next (seen++[change]) ∧ change ∈ process.changes := by
  obtain ⟨taken,report,same⟩ := Option.map_eq_some_iff.mp waited
  obtain ⟨rfl,rfl⟩ := Prod.mk.inj same
  have order := watched.order
  have last := watched.last
  rw [report,Option.toList_some] at order last
  refine ⟨⟨?_,?_,watched.past,watched.ends⟩,?_⟩
  · rw [Option.toList_none,List.append_nil]
    exact order
  · rw [Option.toList_none,List.append_nil]
    exact last
  · exact order.subset (List.mem_append_right _ List.mem_cons_self)

theorem watched_alive (process next : Process σ Line Local) (change : Change σ) (seen : List (Change σ))
    (watched : Watched process seen) (waited : wait process = some (change,next))
    (alive : ∀ last, process.status ≠ .ended last) : change.ends = false := by
  rw [← Bool.not_eq_true]
  intro ends
  exact alive change (watched.ends change (watched_wait process next change seen watched waited).2 ends)

/-- The end is there to be waited for, unless it was waited for already. -/
theorem watched_ready (process : Process σ Line Local) (seen : List (Change σ)) (change : Change σ)
    (watched : Watched process seen) (ended : process.status = .ended change) :
    (∃ next, wait process = some (change,next)) ∨ change ∈ seen := by
  have last := watched.last
  rw [(watched.past change ended).1] at last
  unfold wait
  cases report : process.report with
  | some other =>
    rw [report,Option.toList_some,List.getLast?_concat] at last
    exact Or.inl ⟨_,congrArg some (Prod.ext (Option.some.inj last) rfl)⟩
  | none =>
    rw [report,Option.toList_none,List.append_nil] at last
    exact Or.inr (List.mem_of_getLast? last)

end LinuxCourse.Library.Signals
