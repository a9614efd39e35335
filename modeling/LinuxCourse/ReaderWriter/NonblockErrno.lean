import LinuxCourse.ReaderWriter.MqWithoverflowNonblock

/-! What the Writer of `threads/reader_writer/mq_withoverflow_nonblock.c` makes of the
result of `mq_send`. It looks at `errno` alone, which no successful call resets. -/
namespace LinuxCourse.MqWithoverflowNonblock
open Library MessageQueue

/-- How a call of `mq_send` comes back: with 0, or with -1 and `EAGAIN`. -/
inductive Outcome
  | success
  | again
  deriving DecidableEq

def Writer.sent (own : Writer) : Outcome → Writer
  | .success => {own with stage := .test,ret := 0,sends := own.sends+1}
  | .again => {own with
      stage := .test
      ret := -1
      errno := EAGAIN
      refused := own.refused++[own.counter]}

/-- One round of the loop, with what its calls come back with: whether it takes the
branch, and the locals after it. `mq_getattr` is called in the branch only. -/
def iteration (own : Writer) (outcome : Outcome) (mqAttr : Attr) : Bool × Writer :=
  let counted := {own with counter := own.counter+1,increments := own.increments+1}
  let sent := counted.sent outcome
  if sent.errno = EAGAIN then (true,{sent with stage := .increment,mqAttr := mqAttr})
  else (false,{sent with stage := .increment})

def outcome (queue : Queue (BitVec 32)) (counter : BitVec 32) : Outcome :=
  if (queue.send counter).isSome then .success else .again

variable {ι : Type}

/-- The Writer's steps, each in the queue that it finds. -/
def alone (own : Writer) (queue : Queue (BitVec 32)) : Option Writer :=
  (writer (ι := ι) own queue).map Prod.fst

theorem alone_send (own : Writer) (queue : Queue (BitVec 32)) (stage : own.stage = .send) :
    alone (ι := ι) own queue = some (own.sent (outcome queue own.counter)) := by
  unfold alone writer outcome
  cases queued : queue.send own.counter with
  | some next => simp [stage,Writer.sent]
  | none => simp [stage,Writer.sent]

/-- A round is four steps, or five with the branch, whatever the Readers do meanwhile. -/
theorem alone_iteration (own : Writer) (first second third fourth fifth : Queue (BitVec 32))
    (stage : own.stage = .increment) :
    let round := iteration own (outcome second (own.counter+1)) fourth.getattr
    Execution.run (alone (ι := ι)) own
      ([first,second,third,fourth]++if round.1 then [fifth] else []) = some round.2 := by
  intro round
  let counted := {own with stage := .send,counter := own.counter+1,increments := own.increments+1}
  let sent := counted.sent (outcome second counted.counter)
  have tested : sent.stage = .test := by
    simp only [sent]
    cases outcome second counted.counter <;> rfl
  have begun : alone (ι := ι) own first = some counted := by simp [alone,writer,stage,counted]
  have called : alone (ι := ι) counted second = some sent := alone_send counted second rfl
  have chosen : alone (ι := ι) sent third =
      some {sent with stage := if sent.errno = EAGAIN then .getattr else .print} := by
    simp [alone,writer,tested]
  have same : round = if sent.errno = EAGAIN then
      (true,{sent with stage := .increment,mqAttr := fourth.getattr})
      else (false,{sent with stage := .increment}) := by
    simp only [round,iteration,sent,counted]
    cases outcome second (own.counter+1) <;> rfl
  simp only [List.cons_append,List.nil_append,Execution.run,begun,called,chosen,Option.bind_some]
  by_cases full : sent.errno = EAGAIN
  · rw [same,if_pos full,if_pos full,if_pos rfl]
    simp [Execution.run,alone,writer]
  · rw [same,if_neg full,if_neg full,if_neg (by simp)]
    simp [Execution.run,alone,writer]

/-- What each round's `mq_send` came back with, and whether the round took the branch. -/
def reports (own : Writer) : List (Outcome × Attr) → List (Outcome × Bool)
  | [] => []
  | (outcome,mqAttr)::rest =>
    (outcome,(iteration own outcome mqAttr).1)::reports (iteration own outcome mqAttr).2 rest

def Truthful (report : Outcome × Bool) : Prop := report.2 = true ↔ report.1 = .again

/-- The branch is taken for this refusal or for one before it. -/
theorem iteration_latched (own : Writer) (outcome : Outcome) (mqAttr : Attr) :
    ((iteration own outcome mqAttr).1 = true ↔ own.errno = EAGAIN ∨ outcome = .again) ∧
      ((iteration own outcome mqAttr).2.errno = EAGAIN ↔ own.errno = EAGAIN ∨ outcome = .again) := by
  cases outcome with
  | success =>
    by_cases latched : own.errno = EAGAIN <;> simp [iteration,Writer.sent,latched]
  | again => simp [iteration,Writer.sent]

theorem reports_latched (own : Writer) (rounds : List (Outcome × Attr)) (latched : own.errno = EAGAIN) :
    (∀ report ∈ reports own rounds, Truthful report) ↔ ∀ round ∈ rounds, round.1 = .again := by
  induction rounds generalizing own with
  | nil => simp [reports]
  | cons round rest ih =>
    obtain ⟨outcome,mqAttr⟩ := round
    obtain ⟨branch,after⟩ := iteration_latched own outcome mqAttr
    have taken : (iteration own outcome mqAttr).1 = true := branch.mpr (Or.inl latched)
    have still := ih (iteration own outcome mqAttr).2 (after.mpr (Or.inl latched))
    simp only [reports,List.forall_mem_cons,still]
    apply and_congr_left
    intro _
    simp only [Truthful,taken,true_iff]

theorem reports_clean (own : Writer) (rounds : List (Outcome × Attr)) (clean : own.errno ≠ EAGAIN) :
    (∀ report ∈ reports own rounds, Truthful report) ↔
      rounds.Pairwise fun earlier later => earlier.1 = .again → later.1 = .again := by
  induction rounds generalizing own with
  | nil => simp [reports]
  | cons round rest ih =>
    obtain ⟨outcome,mqAttr⟩ := round
    obtain ⟨branch,after⟩ := iteration_latched own outcome mqAttr
    simp only [reports,List.forall_mem_cons,List.pairwise_cons]
    cases outcome with
    | success =>
      have passed : (iteration own .success mqAttr).1 = false := by
        rw [Bool.eq_false_iff]
        intro taken
        rcases branch.mp taken with latched | refused
        · exact clean latched
        · contradiction
      have still : (iteration own .success mqAttr).2.errno ≠ EAGAIN := by
        intro latched
        rcases after.mp latched with before | refused
        · exact clean before
        · contradiction
      rw [ih _ still]
      simp [Truthful,passed]
    | again =>
      have taken : (iteration own .again mqAttr).1 = true := branch.mpr (Or.inr rfl)
      rw [reports_latched _ rest (after.mpr (Or.inr rfl))]
      constructor
      · rintro ⟨_,all⟩
        refine ⟨fun later member _ => all later member,?_⟩
        exact List.pairwise_of_forall_mem_list fun _ _ later member _ => all later member
      · rintro ⟨all,_⟩
        exact ⟨by simp [Truthful,taken],fun later member => all later member rfl⟩

/-- Each round tells of its own `mq_send` unless one succeeds after another was refused. -/
theorem reports_truthful_iff (rounds : List (Outcome × Attr)) :
    (∀ report ∈ reports Writer.start rounds, Truthful report) ↔
      rounds.Pairwise fun earlier later => earlier.1 = .again → later.1 = .again :=
  reports_clean Writer.start rounds (by decide)

theorem stale_errno : ∃ report ∈ reports Writer.start [(.again,⟨10,10⟩),(.success,⟨10,10⟩)],
    report.1 = .success ∧ report.2 = true := by decide

def Latched (own : Writer) (_ : Queue (BitVec 32)) (_ : List (BitVec 32)) : Prop :=
  own.errno = EAGAIN ↔ own.refused ≠ []

theorem latched_kept : Kept (@writer ι) (fun _ _ => True) Latched := by
  intro own queue history ⟨after,next,lines⟩ holds _ worked
  rcases writer_steps own queue _ worked with
    ⟨_,rfl,rfl⟩ | ⟨_,queued,rfl⟩ | ⟨_,_,rfl,rfl⟩ | ⟨_,rfl,_,_,_,rfl⟩
  · exact Or.inl ⟨rfl,holds⟩
  · exact Or.inr ⟨own.counter,queued,holds⟩
  · exact Or.inl ⟨rfl,by simp [Latched]⟩
  · exact Or.inl ⟨rfl,holds⟩

/-- In the whole system the Writer is past telling as soon as one number was refused. -/
theorem run_latched [DecidableEq ι] (actions : List (Action ι)) (final : System Writer ι)
    (reached : Execution.run step (initial Writer.start) actions = some final) :
    final.writer.errno = EAGAIN ↔ final.writer.refused ≠ [] := by
  refine MessageQueue.run_promise writer (fun _ _ => True) Latched ?_ latched_kept _ final actions ?_
    (Execution.meets_always _ _ (fun _ _ _ => trivial) _ _) reached
  · intro own queue next history message holds _
    exact holds
  · simp [Latched,Writer.start,initial,EAGAIN]

end LinuxCourse.MqWithoverflowNonblock
