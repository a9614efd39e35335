import LinuxCourse.Library.Execution

/-! What a system can still be led to, and what every run that goes on for long enough
comes past. -/
namespace LinuxCourse.Library.Response

variable {State Action : Type} (step : State → Action → Option State)

/-- Some schedule of at most `limit` steps ends in the goal. -/
def Leads (goal : State → Prop) (limit : Nat) (state : State) : Prop :=
  ∃ actions final, actions.length ≤ limit ∧ Execution.run step state actions = some final ∧ goal final

variable {step}

theorem leads_here (goal : State → Prop) (limit : Nat) (state : State) (holds : goal state) :
    Leads step goal limit state :=
  ⟨[],state,Nat.zero_le limit,rfl,holds⟩

theorem leads_run (goal : State → Prop) (state next : State) (actions : List Action)
    (ran : Execution.run step state actions = some next) (holds : goal next) :
    Leads step goal actions.length state :=
  ⟨actions,next,Nat.le_refl _,ran,holds⟩

theorem leads_trans (middle goal : State → Prop) (first second : Nat) (state : State)
    (begun : Leads step middle first state) (ends : ∀ next, middle next → Leads step goal second next) :
    Leads step goal (first+second) state := by
  obtain ⟨before,next,short,ran,holds⟩ := begun
  obtain ⟨after,final,few,ended,reached⟩ := ends next holds
  refine ⟨before++after,final,?_,?_,reached⟩
  · rw [List.length_append]
    exact Nat.add_le_add short few
  · rw [Execution.run_append,ran]
    exact ended

theorem leads_le (goal : State → Prop) (first second : Nat) (state : State) (le : first ≤ second)
    (leads : Leads step goal first state) : Leads step goal second state := by
  obtain ⟨actions,final,short,ran,holds⟩ := leads
  exact ⟨actions,final,Nat.le_trans short le,ran,holds⟩

theorem leads_imp (goal other : State → Prop) (limit : Nat) (state : State)
    (imp : ∀ final, goal final → other final) (leads : Leads step goal limit state) :
    Leads step other limit state := by
  obtain ⟨actions,final,short,ran,holds⟩ := leads
  exact ⟨actions,final,short,ran,imp final holds⟩

/-- A rank that some step lowers wherever the goal is not reached yet. -/
theorem leads_rank (invariant goal : State → Prop) (rank : State → Nat)
    (lowers : ∀ state, invariant state → ¬goal state →
      ∃ action next, step state action = some next ∧ invariant next ∧ rank next < rank state)
    (state : State) (holds : invariant state) :
    Leads step (fun final => invariant final ∧ goal final) (rank state) state := by
  generalize level : rank state = limit
  induction limit using Nat.strongRecOn generalizing state with
  | ind limit ih =>
    by_cases done : goal state
    · exact leads_here _ limit state ⟨holds,done⟩
    · obtain ⟨action,next,stepped,kept,lower⟩ := lowers state holds done
      rw [level] at lower
      obtain ⟨actions,final,short,ran,reached⟩ := ih (rank next) lower next kept rfl
      refine ⟨action::actions,final,?_,?_,reached⟩
      · rw [List.length_cons]
        omega
      · exact (Execution.run_cons step state action actions final).mpr ⟨next,stepped,ran⟩

/-- `pending n` states answer within `n` of the steps that count: other steps leave them
pending, and a step that counts lowers `n`. -/
theorem run_responds (counts : Action → Bool) (pending : Nat → State → Prop) (goal : State → Prop)
    (positive : ∀ state, ¬pending 0 state)
    (quiet : ∀ left state action next, counts action = false → pending left state →
      step state action = some next → goal next ∨ pending left next)
    (lowers : ∀ left state action next, counts action = true → pending (left+1) state →
      step state action = some next → goal next ∨ pending left next)
    (left : Nat) (actions : List Action) (state final : State) (waits : pending left state)
    (reached : Execution.run step state actions = some final)
    (enough : left ≤ actions.countP counts) :
    ∃ before after middle, actions = before++after ∧
      Execution.run step state before = some middle ∧ goal middle ∧ before.countP counts ≤ left := by
  induction actions generalizing state left with
  | nil =>
    rw [List.countP_nil,Nat.le_zero] at enough
    subst enough
    exact absurd waits (positive state)
  | cons action rest ih =>
    obtain ⟨next,stepped,continued⟩ := (Execution.run_cons step state action rest final).mp reached
    have single (holds : goal next) (few : List.countP counts [action] ≤ left) :
        ∃ before after middle, action::rest = before++after ∧
          Execution.run step state before = some middle ∧ goal middle ∧ before.countP counts ≤ left :=
      ⟨[action],rest,next,rfl,(Execution.run_cons step state action [] next).mpr ⟨next,stepped,rfl⟩,holds,few⟩
    cases counted : counts action with
    | false =>
      rw [List.countP_cons_of_neg (by rw [counted]; exact Bool.false_ne_true)] at enough
      rcases quiet left state action next counted waits stepped with holds | still
      · apply single holds
        rw [List.countP_singleton,counted]
        exact Nat.zero_le left
      · obtain ⟨before,after,middle,rfl,ran,holds,few⟩ := ih left next still continued enough
        refine ⟨action::before,after,middle,rfl,?_,holds,?_⟩
        · exact (Execution.run_cons step state action before middle).mpr ⟨next,stepped,ran⟩
        · rw [List.countP_cons_of_neg (by rw [counted]; exact Bool.false_ne_true)]
          exact few
    | true =>
      obtain _ | less := left
      · exact absurd waits (positive state)
      rw [List.countP_cons_of_pos counted] at enough
      rcases lowers less state action next counted waits stepped with holds | still
      · apply single holds
        rw [List.countP_singleton,counted]
        exact Nat.le_add_left 1 less
      · obtain ⟨before,after,middle,rfl,ran,holds,few⟩ :=
          ih less next still continued (Nat.le_of_succ_le_succ enough)
        refine ⟨action::before,after,middle,rfl,?_,holds,?_⟩
        · exact (Execution.run_cons step state action before middle).mpr ⟨next,stepped,ran⟩
        · rw [List.countP_cons_of_pos counted]
          exact Nat.succ_le_succ few

end LinuxCourse.Library.Response
