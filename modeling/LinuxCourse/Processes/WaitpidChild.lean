import LinuxCourse.Processes.Waitpid

/-! The child of `processes/waitpid.cpp`: it leaves its pause for a SIGTERM only, and has
flushed all that it printed before `_exit`, which flushes nothing. -/
namespace LinuxCourse.Waitpid
open Library Library.Signals

/-- The lines in the file, and those in the buffer of `stdout`, when it is fully buffered. -/
def flushes : List Out → List Line × List Line :=
  List.foldl (fun (written,buffered) out => match out with
    | .printf line => (written,buffered++[line])
    | .fflush => (written++buffered,[])) ([],[])

def Out.line : Out → Option Line
  | .printf line => some line
  | .fflush => none

theorem flushes_append (output : List Out) (out : Out) :
    flushes (output++[out]) = match out with
      | .printf line => ((flushes output).1,(flushes output).2++[line])
      | .fflush => ((flushes output).1++(flushes output).2,[]) := by
  rw [flushes,List.foldl_append,List.foldl_cons,List.foldl_nil]

theorem flushes_lines (output : List Out) :
    (flushes output).1++(flushes output).2 = output.filterMap Out.line := by
  induction output using List.reverseRecOn with
  | nil => rfl
  | append_singleton before out ih =>
    rw [flushes_append,List.filterMap_append,← ih]
    cases out with
    | printf line => exact (List.append_assoc _ _ _).symm
    | fflush => rfl

theorem flushes_last (output : List Out) (last : output.getLast? = some .fflush) :
    (flushes output).1 = output.filterMap Out.line := by
  obtain ⟨before,rfl⟩ := List.getLast?_eq_some_iff.mp last
  rw [← flushes_lines,flushes_append]
  exact (List.append_nil _).symm

/-- The stages before which all that the child has printed is flushed. -/
def flushed : Stage → Bool
  | .child => false
  | .childFlush => false
  | .signal => true
  | .waiting => true
  | .waitingFlush => false
  | .pause => true
  | .paused => true
  | .continues => true
  | .continuesFlush => false
  | .exit => true

/-- The stages after the pause. -/
def passed (stage : Stage) : Bool := stage = .continues || stage = .continuesFlush || stage = .exit

def continued (stage : Stage) : Bool := stage = .continuesFlush || stage = .exit

def handles (stage : Stage) (signal : Nat) : Bool :=
  signal = SIGTERM && !(stage = .child || stage = .childFlush || stage = .signal)

variable {ignored : Nat → Bool} {reaps : Bool}

theorem child_keeps : Keeps (linux ignored) program fun stage _ handled => handled = handles stage := by
  intro stage mask handled same
  subst same
  funext signal
  cases stage with
  | signal =>
    change Function.update (handles .signal) SIGTERM true signal = _
    by_cases term : signal = SIGTERM <;> simp [handles,next,program,term]
  | _ => rfl

theorem next_flushed (stage : Stage) (after : flushed (next stage) = true) :
    call stage = .print .fflush ∨ flushed stage = true ∧ (call stage).printed = [] := by
  cases stage with
  | childFlush | waitingFlush | continuesFlush => exact Or.inl rfl
  | signal | pause | paused | exit => exact Or.inr ⟨rfl,rfl⟩
  | child | waiting | continues => contradiction

theorem signaHandler_flushes (signal : Nat) : ∃ line, signaHandler signal = [.printf line,.fflush] := by
  unfold signaHandler
  split
  · exact ⟨_,rfl⟩
  · split <;> exact ⟨_,rfl⟩

/-- Nothing waits for a flush: neither of the statement that comes next nor of the handler on
top. -/
def Settled (process : Process Nat Out Stage) : Prop :=
  match process.frames with
  | [] => flushed process.own = true
  | frame::_ => frame.lines = []

structure Tidy (process : Process Nat Out Stage) : Prop where
  lines : ∀ frame ∈ process.frames, frame.lines = [] ∨ frame.lines.getLast? = some .fflush
  settled : Settled process → process.output.getLast? = some .fflush
  passed : passed process.own = true → ∃ signal, .entered signal ∈ process.log
  continued : continued process.own = true → .printf .continues ∈ process.output

theorem tidy_log (process after : Process Nat Out Stage) (event : Event Nat) (tidy : Tidy process)
    (frames : after.frames = process.frames) (own : after.own = process.own)
    (output : after.output = process.output) (log : after.log = process.log++[event]) : Tidy after := by
  refine ⟨frames ▸ tidy.lines,?_,?_,?_⟩
  · rw [Settled,frames,own,output]
    exact tidy.settled
  · rw [own,log]
    intro past
    obtain ⟨signal,entered⟩ := tidy.passed past
    exact ⟨signal,List.mem_append_left _ entered⟩
  · rw [own,output]
    exact tidy.continued

theorem main_tidy (process : Process Nat Out Stage) (woken : Bool) (tidy : Tidy process)
    (roused : Roused process) (idle : process.frames = [])
    (awake : call process.own = .paused → process.woken = true) :
    Tidy {proceed (linux ignored) program process with woken := woken} := by
  refine ⟨?_,?_,?_,?_⟩
  · change ∀ frame ∈ process.frames, _
    rw [idle]
    exact nofun
  · intro settled
    have after : flushed (next process.own) = true := by
      simpa only [Settled,proceed,idle,program] using settled
    change (process.output++(call process.own).printed).getLast? = _
    rcases next_flushed process.own after with flush | ⟨before,silent⟩
    · rw [flush]
      exact List.getLast?_concat
    · rw [silent,List.append_nil]
      apply tidy.settled
      rwa [Settled,idle]
  · intro past
    change passed (next process.own) = true at past
    by_cases before : passed process.own = true
    · exact tidy.passed before
    · have paused : process.own = .paused := by
        cases stage : process.own <;> simp_all [passed,next]
      exact roused.woken (awake (by rw [paused]; rfl))
  · intro past
    change continued (next process.own) = true at past
    change .printf .continues ∈ process.output++(call process.own).printed
    by_cases before : continued process.own = true
    · exact List.mem_append_left _ (tidy.continued before)
    · have continues : process.own = .continues := by
        cases stage : process.own <;> simp_all [continued,next]
      rw [continues]
      exact List.mem_append_right _ List.mem_cons_self

theorem step_tidy (process after : Process Nat Out Stage) (action : Action Nat) (tidy : Tidy process)
    (roused : Roused process)
    (stepped : Signals.step (linux ignored) program process action = some after) : Tidy after := by
  cases step_stepped action after stepped with
  | late | exited => exact ⟨tidy.lines,tidy.settled,tidy.passed,tidy.continued⟩
  | sent signal | continued signal => exact tidy_log process _ (.sent signal) tidy rfl rfl rfl rfl
  | defaulted signal =>
    unfold byDefault
    cases (linux ignored).default signal <;> exact tidy_log process _ (.defaulted signal) tidy rfl rfl rfl rfl
  | entered signal =>
    obtain ⟨line,lines⟩ := signaHandler_flushes signal
    refine ⟨?_,?_,?_,tidy.continued⟩
    · intro frame member
      rcases List.mem_cons.mp member with rfl | below
      · exact Or.inr (congrArg List.getLast? lines)
      · exact tidy.lines frame below
    · intro settled
      have none : signaHandler signal = [] := settled
      rw [lines] at none
      contradiction
    · intro past
      obtain ⟨other,entered⟩ := tidy.passed past
      exact ⟨other,List.mem_append_left _ entered⟩
  | printed signal saved out lines rest alive top =>
    have each := tidy.lines
    rw [top] at each
    have last := (each ⟨signal,saved,out::lines⟩ List.mem_cons_self).resolve_left (List.cons_ne_nil _ _)
    refine ⟨?_,?_,tidy.passed,?_⟩
    · intro frame member
      rcases List.mem_cons.mp member with rfl | below
      · cases lines with
        | nil => exact Or.inl rfl
        | cons first others => exact Or.inr last
      · exact each frame (List.mem_cons_of_mem _ below)
    · intro settled
      obtain rfl : lines = [] := settled
      exact List.getLast?_concat.trans last
    · exact fun past => List.mem_append_left _ (tidy.continued past)
  | returned signal saved rest alive top =>
    have each := tidy.lines
    have last : process.output.getLast? = some .fflush := by
      apply tidy.settled
      rw [Settled,top]
    rw [top] at each
    exact ⟨fun frame member => each frame (List.mem_cons_of_mem _ member),fun _ => last,tidy.passed,tidy.continued⟩
  | main _ alive idle ran =>
    rcases main_cases after ran with ⟨woken,rfl,-,awake⟩ | ⟨status,-,rfl⟩
    · exact main_tidy process woken tidy roused idle awake
    · exact ⟨tidy.lines,tidy.settled,tidy.passed,tidy.continued⟩

/-- What a child keeps, whatever signals it is sent. -/
structure Kept (ignored : Nat → Bool) (process : Process Nat Out Stage) : Prop where
  nested : Nested (linux ignored) (fun stage _ handled => handled = handles stage) process
  ends : ∀ change, process.status = .ended change → Ends (linux ignored) program process change
  roused : Roused process
  tidy : Tidy process

theorem step_kept (process after : Process Nat Out Stage) (action : Action Nat) (kept : Kept ignored process)
    (stepped : Signals.step (linux ignored) program process action = some after) : Kept ignored after :=
  ⟨step_nested _ child_keeps process after action kept.nested stepped,
    step_ends process after action kept.ends stepped,step_roused process after action kept.roused stepped,
    step_tidy process after action kept.tidy kept.roused stepped⟩

theorem initial_kept (mask : Nat → Bool) : Kept ignored (initial mask).child := by
  refine ⟨initial_nested _ mask _ Stage.child ?_,?_,⟨?_,?_⟩,?_,?_,?_,?_⟩
  · funext signal
    simp [handles]
  all_goals
    intros
    contradiction

/-- The parent changes nothing but the report that it takes. -/
theorem system_kept (system after : System) (actor : Actor) (kept : Kept ignored system.child)
    (stepped : step (linux ignored) reaps system actor = some after) : Kept ignored after.child := by
  cases actor with
  | child action =>
    simp only [step] at stepped
    split at stepped
    · obtain ⟨child,ran,rfl⟩ := Option.map_eq_some_iff.mp stepped
      exact step_kept system.child child action kept ran
    · contradiction
  | parent =>
    simp only [step,parent] at stepped
    cases stage : system.stage with
    | parent | «show» | perror =>
      simp only [stage,Option.some.injEq] at stepped
      exact stepped ▸ kept
    | waitpid =>
      simp only [stage] at stepped
      obtain ⟨⟨result,child⟩,returned,rfl⟩ := Option.map_eq_some_iff.mp stepped
      cases waitpid_cases reaps system.child child result returned with
      | change change _ waited _ =>
        obtain ⟨taken,-,same⟩ := Option.map_eq_some_iff.mp waited
        obtain ⟨rfl,rfl⟩ := Prod.mk.inj same
        obtain ⟨nested,ends,roused,tidy⟩ := kept
        exact ⟨⟨nested.masked,nested.free,nested.handled,nested.entered⟩,ends,⟨roused.frames,roused.woken⟩,
          ⟨tidy.lines,tidy.settled,tidy.passed,tidy.continued⟩⟩
      | failed => exact kept
    | exited =>
      simp only [stage] at stepped
      contradiction

theorem call_exit (stage : Stage) (status : BitVec 32) (exits : call stage = .exit status) :
    stage = .exit ∧ status = 0 := by
  cases stage with
  | exit => exact ⟨rfl,(Call.exit.inj exits).symm⟩
  | _ => contradiction

theorem handled_term {process : Process Nat Out Stage} (kept : Kept ignored process) (signal : Nat)
    (handled : process.handled signal = true) : signal = SIGTERM := by
  obtain ⟨base,same,-⟩ := kept.nested.masked
  rw [same,handles,Bool.and_eq_true] at handled
  exact of_decide_eq_true handled.1

/-- The child ends with status zero, after a SIGTERM that it handled, and then all its lines
are written; or by a signal with no handler, which SIGTERM is at the beginning only. -/
theorem run_child (ignored mask : Nat → Bool) (reaps : Bool) (actors : List Actor) (final : System)
    (reached : Execution.run (step (linux ignored) reaps) (initial mask) actors = some final)
    (change : Change Nat) (ended : final.child.status = .ended change) :
    (change = .exited 0 ∧ .entered SIGTERM ∈ final.child.log ∧
      (flushes final.child.output).1 = final.child.output.filterMap Out.line ∧
      .continues ∈ (flushes final.child.output).1) ∨
    ∃ signal core, change = .signaled signal core ∧ (linux ignored).default signal = .terminate core ∧
      (signal = SIGTERM → final.child.own = .child ∨ final.child.own = .childFlush ∨
        final.child.own = .signal) := by
  have kept : Kept ignored final.child :=
    Execution.run_invariant (step (linux ignored) reaps) (fun system => Kept ignored system.child)
      (fun system actor after => system_kept system after actor) actors _ final (initial_kept mask) reached
  have ends := kept.ends change ended
  cases change with
  | exited status =>
    left
    rcases ends with ⟨idle,exits⟩ | ⟨_,_,_,_,exits⟩
    · obtain ⟨stage,rfl⟩ := call_exit final.child.own status exits
      obtain ⟨signal,entered⟩ := kept.tidy.passed (by rw [stage]; rfl)
      have term := handled_term kept signal (kept.nested.entered signal entered)
      have last : final.child.output.getLast? = some .fflush := by
        apply kept.tidy.settled
        rw [Settled,idle,stage]
        rfl
      have said := kept.tidy.continued (by rw [stage]; rfl)
      refine ⟨rfl,term ▸ entered,flushes_last _ last,?_⟩
      rw [flushes_last _ last]
      exact List.mem_filterMap.mpr ⟨.printf .continues,said,rfl⟩
    · contradiction
  | signaled signal core =>
    obtain ⟨unhandled,default⟩ := ends
    refine Or.inr ⟨signal,core,rfl,default,?_⟩
    rintro rfl
    obtain ⟨base,same,-⟩ := kept.nested.masked
    rw [same] at unhandled
    have stages : ¬¬(final.child.own = .child ∨ final.child.own = .childFlush ∨ final.child.own = .signal) := by
      intro later
      simp_all [handles]
    exact Classical.not_not.mp stages
  | stopped | continued => exact ends.elim

/-- A SIGTERM is handled, the pause ends, and the parent reports the exit. -/
def session : List Actor :=
  List.replicate 6 (.child .run)++[.parent,.child (.send SIGTERM),.child (.take SIGTERM)]++
    List.replicate 7 (.child .run)

theorem run_child_session :
    ∃ final, Execution.run (step (linux fun _ => false) false) (initial fun _ => false) session = some final ∧
      final.child.status = .ended (.exited 0) ∧
      ((Change.exited 0 = (.exited 0 : Change Nat) ∧ .entered SIGTERM ∈ final.child.log ∧
        (flushes final.child.output).1 = final.child.output.filterMap Out.line ∧
        .continues ∈ (flushes final.child.output).1) ∨
      ∃ signal core, Change.exited 0 = .signaled signal core ∧
        (linux fun _ => false).default signal = .terminate core ∧
        (signal = SIGTERM → final.child.own = .child ∨ final.child.own = .childFlush ∨
          final.child.own = .signal)) := by
  have reached : Execution.run (step (linux fun _ => false) false) (initial fun _ => false) session =
    some _ := rfl
  exact ⟨_,reached,rfl,run_child _ _ _ _ _ reached (.exited 0) rfl⟩

/-- The child is about to call `pause`, its handler set; so many SIGTERMs are dealt with. -/
structure Waiting (process : Process Nat Out Stage) (count : Nat) : Prop where
  stage : process.own = .pause
  alive : process.status = .running
  idle : process.frames = []
  handled : process.handled SIGTERM = true
  unblocked : process.mask SIGTERM = false
  taken : process.pending SIGTERM = false
  sent : process.log.count (.sent SIGTERM) = count
  entered : process.log.count (.entered SIGTERM) = count

def answer : List (Action Nat) := [.send SIGTERM,.take SIGTERM,.run,.run,.run]

theorem answer_waiting (process : Process Nat Out Stage) (count : Nat) (waiting : Waiting process count) :
    ∃ after, Execution.run (Signals.step (linux ignored) program) process answer = some after ∧
      Waiting after (count+1) := by
  obtain ⟨stage,alive,idle,handled,unblocked,taken,sent,entered⟩ := waiting
  have lines : program.lines SIGTERM = [.printf .sigterm,.fflush] := rfl
  have exits : program.exits SIGTERM = none := rfl
  have pended : added (linux ignored) SIGTERM process.pending SIGTERM = true := by simp [added]
  simp only [answer,Execution.run,Signals.step,Signals.send,alive,Option.bind_some,Signals.take,pended,
    unblocked,Bool.not_false,Bool.true_or,Bool.and_true,ready,if_true,handled,enter,lines,Signals.run,exits,
    idle,reduceCtorEq,false_and,if_false]
  refine ⟨_,rfl,⟨stage,rfl,rfl,handled,unblocked,?_,?_,?_⟩⟩
  · simp only [Function.update_self]
  · simp [sent]
  · simp [entered]

theorem answers_waiting (process : Process Nat Out Stage) (waiting : Waiting process 0) (count : Nat) :
    ∃ actions after, Execution.run (Signals.step (linux ignored) program) process actions = some after ∧
      Waiting after count := by
  induction count with
  | zero => exact ⟨[],process,rfl,waiting⟩
  | succ count ih =>
    obtain ⟨actions,middle,reached,waits⟩ := ih
    obtain ⟨after,continued,still⟩ := answer_waiting middle count waits
    refine ⟨actions++answer,after,?_,still⟩
    rw [Execution.run_append,reached]
    exact continued

theorem pause_waiting (process : Process Nat Out Stage) (count : Nat) (waiting : Waiting process count) :
    ∃ after, Signals.step (linux ignored) program process .run = some after ∧ after.own = .paused ∧
      after.woken = false ∧ after.status = .running ∧ after.frames = [] ∧
      after.pending = process.pending ∧ after.log = process.log := by
  have pause : program.call .pause = .pause := rfl
  have stepped : Signals.step (linux ignored) program process .run =
      some {proceed (linux ignored) program process with woken := false} := by
    simp only [Signals.step,Signals.run,waiting.alive,waiting.idle,if_true,Signals.main,waiting.stage,pause]
  refine ⟨_,stepped,?_,rfl,waiting.alive,waiting.idle,rfl,rfl⟩
  simp only [proceed,program,waiting.stage,next]

/-- A signal that comes between `signal` and `pause` is handled and gone: the child can have
dealt with any number of SIGTERMs and still wait for one. -/
theorem term_before_pause (ignored mask : Nat → Bool) (unblocked : mask SIGTERM = false) (count : Nat) :
    ∃ actions final, Execution.run (Signals.step (linux ignored) program)
        (Signals.initial mask (fun _ => false) .child) actions = some final ∧
      final.log.count (.entered SIGTERM) = count ∧ final.own = .paused ∧ final.status = .running ∧
      final.frames = [] ∧ final.pending SIGTERM = false ∧
      Signals.step (linux ignored) program final .run = none := by
  have begun : ∃ first, Execution.run (Signals.step (linux ignored) program)
      (Signals.initial mask (fun _ => false) .child) (List.replicate 5 .run) = some first ∧
        Waiting first 0 := ⟨_,rfl,rfl,rfl,rfl,rfl,unblocked,rfl,rfl,rfl⟩
  obtain ⟨first,started,waiting⟩ := begun
  obtain ⟨actions,middle,continued,waits⟩ := answers_waiting first waiting count
  obtain ⟨final,paused,own,woken,alive,idle,pending,log⟩ := pause_waiting middle count waits
  refine ⟨List.replicate 5 .run++actions++[.run],final,?_,log ▸ waits.entered,own,alive,idle,
    pending ▸ waits.taken,?_⟩
  · rw [Execution.run_append,Execution.run_append,started,Option.bind_some,continued,Option.bind_some,
      Execution.run,paused]
    rfl
  · have waits : program.call .paused = .paused := rfl
    simp only [Signals.step,Signals.run,alive,idle,if_true,Signals.main,own,waits,woken,Bool.false_eq_true,
      if_false]

theorem term_before_pause_thrice :
    ∃ actions final, Execution.run (Signals.step (linux fun _ => false) program)
        (Signals.initial (fun _ => false) (fun _ => false) .child) actions = some final ∧
      final.log.count (.entered SIGTERM) = 3 ∧ final.own = .paused ∧ final.status = .running ∧
      final.frames = [] ∧ final.pending SIGTERM = false ∧
      Signals.step (linux fun _ => false) program final .run = none :=
  term_before_pause (fun _ => false) (fun _ => false) rfl 3

end LinuxCourse.Waitpid
