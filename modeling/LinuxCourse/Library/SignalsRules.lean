import LinuxCourse.Library.Signals

/-! Invariants of every process under signals: what its masks are while handlers run, how it
can end, and what becomes of a signal that was sent. -/
namespace LinuxCourse.Library.Signals

variable {σ Line Local : Type} [DecidableEq σ] {table : Table σ} {program : Program σ Line Local}

/-- Each handler blocks its own signal on top of the mask that it found, and the first one
found that of the program. -/
def Masked (base : σ → Bool) : (σ → Bool) → List (Frame σ Line) → Prop
  | mask, [] => mask = base
  | mask, frame::rest => mask = Function.update frame.saved frame.signal true ∧
      frame.saved frame.signal = false ∧ Masked base frame.saved rest

theorem masked_iff (base mask : σ → Bool) (frames : List (Frame σ Line)) (masked : Masked base mask frames)
    (signal : σ) : mask signal = true ↔ base signal = true ∨ signal ∈ frames.map Frame.signal := by
  induction frames generalizing mask with
  | nil =>
    have same : mask = base := masked
    simp only [same,List.map_nil,List.not_mem_nil,or_false]
  | cons frame rest ih =>
    obtain ⟨rfl,-,below⟩ := masked
    rw [List.map_cons,List.mem_cons,Function.update_apply]
    split
    · rename_i same
      simp only [same,true_or,or_true]
    · rename_i other
      simp only [ih frame.saved below,other,false_or]

theorem masked_nodup (base mask : σ → Bool) (frames : List (Frame σ Line)) (masked : Masked base mask frames) :
    (frames.map Frame.signal).Nodup := by
  induction frames generalizing mask with
  | nil => exact List.nodup_nil
  | cons frame rest ih =>
    obtain ⟨-,unblocked,below⟩ := masked
    rw [List.map_cons,List.nodup_cons]
    refine ⟨?_,ih frame.saved below⟩
    intro member
    have blocked := (masked_iff base frame.saved rest below frame.signal).mpr (Or.inr member)
    rw [unblocked] at blocked
    contradiction

/-- A promise about the mask and the handlers of the program, whatever handler runs. -/
structure Nested (table : Table σ) (Base : Local → (σ → Bool) → (σ → Bool) → Prop)
    (process : Process σ Line Local) : Prop where
  masked : ∃ base, Base process.own base process.handled ∧ Masked base process.mask process.frames
  free : ∀ signal, process.handled signal = true → table.fixed signal = false
  handled : ∀ frame ∈ process.frames, process.handled frame.signal = true
  entered : ∀ signal, .entered signal ∈ process.log → process.handled signal = true

def Keeps (table : Table σ) (program : Program σ Line Local)
    (Base : Local → (σ → Bool) → (σ → Bool) → Prop) : Prop :=
  ∀ own mask handled, Base own mask handled →
    Base (program.next own ((program.call own).succeeds table)) ((program.call own).masked mask)
      ((program.call own).installed table handled)

theorem installed_free (call : Call σ Line) (handled : σ → Bool)
    (free : ∀ signal, handled signal = true → table.fixed signal = false) (signal : σ)
    (after : call.installed table handled signal = true) : table.fixed signal = false := by
  cases call with
  | install added =>
    by_cases fixed : table.fixed added = true
    · rw [Call.installed,if_pos fixed] at after
      exact free signal after
    · rw [Call.installed,if_neg fixed,Function.update_apply] at after
      by_cases same : signal = added
      · simpa only [same,Bool.not_eq_true] using fixed
      · rw [if_neg same] at after
        exact free signal after
  | print | block | unblock | skip | pause | paused | exit => exact free signal after

theorem installed_mono (call : Call σ Line) (handled : σ → Bool) (signal : σ)
    (before : handled signal = true) : call.installed table handled signal = true := by
  cases call with
  | install added =>
    by_cases fixed : table.fixed added = true
    · rwa [Call.installed,if_pos fixed]
    · rw [Call.installed,if_neg fixed,Function.update_apply]
      by_cases same : signal = added
      · rw [if_pos same]
      · rwa [if_neg same]
  | print | block | unblock | skip | pause | paused | exit => exact before

omit [DecidableEq σ] in
theorem entered_log (log : List (Event σ)) (event : Event σ) (signal : σ)
    (member : .entered signal ∈ log++[event]) : .entered signal ∈ log ∨ event = .entered signal := by
  rcases List.mem_append.mp member with before | last
  · exact Or.inl before
  · exact Or.inr (List.mem_singleton.mp last).symm

theorem step_nested (Base : Local → (σ → Bool) → (σ → Bool) → Prop) (keeps : Keeps table program Base)
    (process next : Process σ Line Local) (action : Action σ) (holds : Nested table Base process)
    (stepped : step table program process action = some next) : Nested table Base next := by
  cases step_stepped action next stepped with
  | late | exited => exact ⟨holds.masked,holds.free,holds.handled,holds.entered⟩
  | sent signal | continued signal =>
    refine ⟨holds.masked,holds.free,holds.handled,?_⟩
    intro other member
    exact holds.entered other ((entered_log _ _ other member).resolve_right nofun)
  | defaulted signal =>
    have entered : ∀ other, .entered other ∈ process.log++[.defaulted signal] →
        process.handled other = true := by
      intro other member
      exact holds.entered other ((entered_log _ _ other member).resolve_right nofun)
    unfold byDefault
    cases table.default signal <;> exact ⟨holds.masked,holds.free,holds.handled,entered⟩
  | entered signal pending handled unblocked alive =>
    have free := holds.free signal handled
    have unmasked : process.mask signal = false := by
      refine unblocked.resolve_right ?_
      rw [free]
      exact Bool.false_ne_true
    obtain ⟨base,promise,masked⟩ := holds.masked
    refine ⟨⟨base,promise,rfl,unmasked,masked⟩,holds.free,?_,?_⟩
    · intro frame member
      rcases List.mem_cons.mp member with rfl | below
      · exact handled
      · exact holds.handled frame below
    · intro other member
      rcases entered_log _ _ other member with before | last
      · exact holds.entered other before
      · exact Event.entered.inj last ▸ handled
  | printed signal saved line lines rest alive top =>
    obtain ⟨base,promise,masked⟩ := holds.masked
    have each := holds.handled
    rw [top] at masked each
    refine ⟨⟨base,promise,masked⟩,holds.free,?_,holds.entered⟩
    intro frame member
    rcases List.mem_cons.mp member with rfl | below
    · exact each ⟨signal,saved,line::lines⟩ List.mem_cons_self
    · exact each frame (List.mem_cons_of_mem _ below)
  | returned signal saved rest alive top =>
    obtain ⟨base,promise,masked⟩ := holds.masked
    have each := holds.handled
    rw [top] at masked each
    refine ⟨⟨base,promise,masked.2.2⟩,holds.free,?_,holds.entered⟩
    exact fun frame member => each frame (List.mem_cons_of_mem _ member)
  | main _ alive idle ran =>
    rcases main_cases next ran with ⟨woken,rfl,-⟩ | ⟨status,-,rfl⟩
    · obtain ⟨base,promise,masked⟩ := holds.masked
      rw [idle] at masked
      obtain rfl : process.mask = base := masked
      refine ⟨⟨_,keeps process.own process.mask process.handled promise,?_⟩,?_,?_,?_⟩
      · simp only [proceed,idle,Masked]
      · exact installed_free _ _ holds.free
      · simp only [proceed,idle]
        exact nofun
      · exact fun signal member => installed_mono _ _ signal (holds.entered signal member)
    · exact ⟨holds.masked,holds.free,holds.handled,holds.entered⟩

theorem initial_nested (Base : Local → (σ → Bool) → (σ → Bool) → Prop) (mask pending : σ → Bool)
    (own : Local) (promise : Base own mask fun _ => false) : Nested table Base (initial mask pending own : Process σ Line Local) := by
  refine ⟨⟨mask,promise,rfl⟩,?_,?_,?_⟩
  · intro signal handled
    contradiction
  · intro frame member
    contradiction
  · intro signal member
    contradiction

theorem run_nested (Base : Local → (σ → Bool) → (σ → Bool) → Prop) (keeps : Keeps table program Base) (mask pending : σ → Bool)
    (own : Local) (promise : Base own mask fun _ => false) (actions : List (Action σ)) (final : Process σ Line Local)
    (reached : Execution.run (step table program) (initial mask pending own) actions = some final) :
    Nested table Base final :=
  Execution.run_invariant _ (Nested table Base)
    (fun process action next holds stepped => step_nested Base keeps process next action holds stepped)
    actions _ final (initial_nested Base mask pending own promise) reached

/-- How a process can have come to its end. -/
def Ends (table : Table σ) (program : Program σ Line Local) (process : Process σ Line Local) :
    Change σ → Prop
  | .exited status => process.frames = [] ∧ program.call process.own = .exit status ∨
      ∃ signal saved rest, process.frames = ⟨signal,saved,[]⟩::rest ∧ program.exits signal = some status
  | .signaled signal core => process.handled signal = false ∧ table.default signal = .terminate core
  | _ => False

theorem step_ends (process next : Process σ Line Local) (action : Action σ)
    (holds : ∀ change, process.status = .ended change → Ends table program process change)
    (stepped : step table program process action = some next) :
    ∀ change, next.status = .ended change → Ends table program next change := by
  intro change ended
  cases step_stepped action next stepped with
  | late => exact holds change ended
  | sent signal alive =>
    have ended : process.status = .ended change := ended
    rcases alive with alive | alive <;> rw [ended] at alive <;> contradiction
  | continued => contradiction
  | entered signal pending handled unblocked alive =>
    have ended : process.status = .ended change := ended
    rcases alive with alive | ⟨alive,-⟩ <;> rw [ended] at alive <;> contradiction
  | defaulted signal pending unhandled alive =>
    unfold byDefault at ended ⊢
    cases default : table.default signal with
    | terminate core =>
      simp only [default] at ended ⊢
      obtain rfl := Status.ended.inj ended
      exact ⟨unhandled,default⟩
    | stop =>
      simp only [default] at ended
      contradiction
    | ignore | cont =>
      simp only [default] at ended
      rcases alive with alive | alive <;> rw [ended] at alive <;> contradiction
  | printed signal saved line lines rest alive top =>
    have ended : process.status = .ended change := ended
    rw [ended] at alive
    contradiction
  | returned signal saved rest alive top =>
    have ended : process.status = .ended change := ended
    rw [ended] at alive
    contradiction
  | exited signal saved rest status alive top exits =>
    obtain rfl := Status.ended.inj ended
    exact Or.inr ⟨signal,saved,rest,top,exits⟩
  | main _ alive idle ran =>
    rcases main_cases next ran with ⟨woken,rfl,-⟩ | ⟨status,call,rfl⟩
    · have ended : process.status = .ended change := ended
      rw [ended] at alive
      contradiction
    · obtain rfl := Status.ended.inj ended
      exact Or.inl ⟨idle,call⟩

theorem run_ends (mask pending : σ → Bool) (own : Local) (actions : List (Action σ))
    (final : Process σ Line Local)
    (reached : Execution.run (step table program) (initial mask pending own) actions = some final)
    (change : Change σ) (ended : final.status = .ended change) : Ends table program final change := by
  refine Execution.run_invariant _ (fun process => ∀ change, process.status = .ended change →
      Ends table program process change)
    (fun process action next holds stepped => step_ends process next action holds stepped)
    actions _ final ?_ reached change ended
  intro other past
  contradiction

/-- What an event says about a signal that was, or was not, still to be taken. -/
def Event.owes (signal : σ) (before : Bool) : Event σ → Bool
  | .sent other => if other = signal then true else before
  | .entered other => if other = signal then false else before
  | .defaulted other => if other = signal then false else before

def owed (inherited : σ → Bool) (log : List (Event σ)) (signal : σ) : Bool :=
  log.foldl (Event.owes signal) (inherited signal)

theorem owed_append (inherited : σ → Bool) (log : List (Event σ)) (event : Event σ) (signal : σ) :
    owed inherited (log++[event]) signal = event.owes signal (owed inherited log signal) := by
  rw [owed,owed,List.foldl_append,List.foldl_cons,List.foldl_nil]

/-- A signal that no other one takes away. -/
def Lasts (table : Table σ) (signal : σ) : Prop :=
  ∀ other, opposes (table.default other) (table.default signal) = false

theorem added_lasts (signal other : σ) (lasts : Lasts table signal) (pending : σ → Bool) :
    added table other pending signal = if other = signal then true else pending signal := by
  unfold added
  rw [lasts other,Bool.not_false,Bool.and_true]
  by_cases same : other = signal
  · simp only [same,decide_true,Bool.true_or,if_true]
  · simp only [Ne.symm same,decide_false,Bool.false_or,if_neg same]

theorem update_false (pending : σ → Bool) (signal other : σ) :
    Function.update pending other false signal = if other = signal then false else pending signal := by
  rw [Function.update_apply]
  simp only [eq_comm]

theorem byDefault_pending (table : Table σ) (signal : σ) (process : Process σ Line Local) :
    (byDefault table signal process).pending = Function.update process.pending signal false ∧
      (byDefault table signal process).log = process.log++[.defaulted signal] := by
  unfold byDefault
  cases table.default signal <;> exact ⟨rfl,rfl⟩

/-- Nothing that was sent is lost: the last thing that happened to a pending signal is that
it was sent, and to one that is not pending that it was taken. -/
theorem step_owed (inherited : σ → Bool) (signal : σ) (lasts : Lasts table signal)
    (process next : Process σ Line Local) (action : Action σ)
    (holds : process.pending signal = owed inherited process.log signal)
    (stepped : step table program process action = some next) :
    next.pending signal = owed inherited next.log signal := by
  cases step_stepped action next stepped with
  | late | exited | printed | returned => exact holds
  | sent other | continued other =>
    refine Eq.trans ?_ (owed_append inherited process.log (.sent other) signal).symm
    rw [Event.owes,← holds]
    exact added_lasts signal other lasts process.pending
  | entered other =>
    refine Eq.trans ?_ (owed_append inherited process.log (.entered other) signal).symm
    rw [Event.owes,← holds]
    exact update_false process.pending signal other
  | defaulted other =>
    obtain ⟨pending,log⟩ := byDefault_pending table other process
    rw [pending,log,owed_append,Event.owes,← holds]
    exact update_false process.pending signal other
  | main _ alive idle ran =>
    rcases main_cases next ran with ⟨woken,rfl,-⟩ | ⟨status,-,rfl⟩ <;> exact holds

theorem run_owed (mask pending : σ → Bool) (own : Local) (signal : σ) (lasts : Lasts table signal)
    (actions : List (Action σ)) (final : Process σ Line Local)
    (reached : Execution.run (step table program) (initial mask pending own) actions = some final) :
    final.pending signal = owed pending final.log signal :=
  Execution.run_invariant _ (fun process => process.pending signal = owed pending process.log signal)
    (fun process action next holds stepped =>
      step_owed pending signal lasts process next action holds stepped)
    actions _ final rfl reached

/-- The lines of the handler that an event starts. -/
def Event.starts (program : Program σ Line Local) : Event σ → List Line
  | .sent _ => []
  | .entered signal => program.lines signal
  | .defaulted _ => []

def printing [DecidableEq Line] (line : Line) (frames : List (Frame σ Line)) : Nat :=
  (frames.flatMap Frame.lines).count line

/-- The lines that handlers have printed or have still to print. -/
def Accounted [DecidableEq Line] (program : Program σ Line Local) (line : Line)
    (process : Process σ Line Local) : Prop :=
  process.output.count line+printing line process.frames =
    (process.log.flatMap (Event.starts program)).count line

omit [DecidableEq σ] in
theorem printing_cons [DecidableEq Line] (line : Line) (frame : Frame σ Line) (rest : List (Frame σ Line)) :
    printing line (frame::rest) = frame.lines.count line+printing line rest := by
  rw [printing,printing,List.flatMap_cons,List.count_append]

omit [DecidableEq σ] in
theorem accounted_log [DecidableEq Line] (line : Line) (process : Process σ Line Local)
    (holds : Accounted program line process) (event : Event σ) :
    process.output.count line+((event.starts program).count line+printing line process.frames) =
      ((process.log++[event]).flatMap (Event.starts program)).count line := by
  rw [List.flatMap_append,List.count_append,List.flatMap_singleton,← holds]
  omega

/-- Where only handlers print a line, each of them prints it as often as it has it. -/
theorem step_accounted [DecidableEq Line] (line : Line) (others : ∀ own, program.call own ≠ .print line)
    (process next : Process σ Line Local) (action : Action σ) (holds : Accounted program line process)
    (stepped : step table program process action = some next) : Accounted program line next := by
  cases step_stepped action next stepped with
  | late | exited => exact holds
  | sent signal | continued signal =>
    have after := accounted_log line process holds (.sent signal)
    rwa [Event.starts,List.count_nil,Nat.zero_add] at after
  | entered signal =>
    refine Eq.trans ?_ (accounted_log line process holds (.entered signal))
    exact congrArg _ (printing_cons line _ _)
  | defaulted signal =>
    have after := accounted_log line process holds (.defaulted signal)
    rw [Event.starts,List.count_nil,Nat.zero_add] at after
    unfold byDefault
    cases table.default signal <;> exact after
  | printed signal saved shown lines rest alive top =>
    unfold Accounted at holds ⊢
    rw [top,printing_cons,List.count_cons] at holds
    rw [List.count_append,List.count_singleton,printing_cons,← holds]
    simp only
    omega
  | returned signal saved rest alive top =>
    unfold Accounted at holds ⊢
    rwa [top,printing_cons,List.count_nil,Nat.zero_add] at holds
  | main _ alive idle ran =>
    rcases main_cases next ran with ⟨woken,rfl,-⟩ | ⟨status,-,rfl⟩
    · have silent : (program.call process.own).printed.count line = 0 := by
        cases call : program.call process.own with
        | print shown =>
          have differ : shown ≠ line := by
            rintro rfl
            exact others process.own call
          rw [Call.printed,List.count_singleton,beq_eq_false_iff_ne.mpr differ]
          rfl
        | install | block | unblock | skip | pause | paused | exit => rfl
      simp only [Accounted,proceed,List.count_append,silent,Nat.add_zero]
      exact holds
    · exact holds

theorem run_accounted [DecidableEq Line] (line : Line) (others : ∀ own, program.call own ≠ .print line)
    (mask pending : σ → Bool) (own : Local) (actions : List (Action σ)) (final : Process σ Line Local)
    (reached : Execution.run (step table program) (initial mask pending own) actions = some final) :
    Accounted program line final := by
  have begun : Accounted program line (initial mask pending own) := rfl
  exact Execution.run_invariant _ (Accounted program line)
    (fun process action next holds stepped => step_accounted line others process next action holds stepped)
    actions _ final begun reached

/-- A line that one handler has once, and no other handler has. -/
theorem starts_count [DecidableEq Line] (line : Line) (signal : σ)
    (only : ∀ other, (program.lines other).count line = if other = signal then 1 else 0)
    (log : List (Event σ)) :
    (log.flatMap (Event.starts program)).count line = log.count (.entered signal) := by
  induction log with
  | nil => rfl
  | cons event rest ih =>
    rw [List.flatMap_cons,List.count_append,ih,List.count_cons,Nat.add_comm]
    cases event with
    | sent | defaulted => rfl
    | entered other => simp [Event.starts,only other]

omit [DecidableEq σ] in
/-- A line that no handler that runs has. -/
theorem starts_none [DecidableEq Line] (line : Line) (log : List (Event σ))
    (none : ∀ signal, .entered signal ∈ log → line ∉ program.lines signal) :
    (log.flatMap (Event.starts program)).count line = 0 := by
  apply List.count_eq_zero.mpr
  intro member
  obtain ⟨event,inside,shown⟩ := List.mem_flatMap.mp member
  cases event with
  | sent | defaulted => contradiction
  | entered signal => exact none signal inside shown

def Event.sends (signal : σ) : Event σ → Bool
  | .sent other => other = signal
  | .entered _ => false
  | .defaulted _ => false

def Event.takes (signal : σ) : Event σ → Bool
  | .sent _ => false
  | .entered other => other = signal
  | .defaulted other => other = signal

/-- A signal is taken at most as often as it was sent, once more if it was inherited. -/
def Counted (inherited : σ → Bool) (signal : σ) (process : Process σ Line Local) : Prop :=
  process.log.countP (Event.takes signal)+(process.pending signal).toNat ≤
    process.log.countP (Event.sends signal)+(inherited signal).toNat

theorem counted_log (inherited : σ → Bool) (signal : σ) (process next : Process σ Line Local)
    (event : Event σ) (holds : Counted inherited signal process) (log : next.log = process.log++[event])
    (change : (event.takes signal).toNat+(next.pending signal).toNat ≤
      (event.sends signal).toNat+(process.pending signal).toNat) : Counted inherited signal next := by
  unfold Counted at holds ⊢
  have single : ∀ test : Event σ → Bool, [event].countP test = (test event).toNat := by
    intro test
    cases found : test event <;> simp [found]
  rw [log,List.countP_append,List.countP_append,single,single]
  omega

theorem update_change (pending : σ → Bool) (signal other : σ) (before : pending other = true) :
    (decide (other = signal)).toNat+(Function.update pending other false signal).toNat ≤
      0+(pending signal).toNat := by
  rw [update_false]
  by_cases same : other = signal
  · simp [same,← before]
  · simp [same]

theorem added_change (pending : σ → Bool) (signal other : σ) :
    0+(added table other pending signal).toNat ≤ (decide (other = signal)).toNat+(pending signal).toNat := by
  unfold added
  by_cases same : other = signal
  · simp [same]
  · cases pending signal <;> simp [same,Ne.symm same,Bool.toNat_le]

theorem step_counted (inherited : σ → Bool) (signal : σ) (process next : Process σ Line Local)
    (action : Action σ) (holds : Counted inherited signal process)
    (stepped : step table program process action = some next) : Counted inherited signal next := by
  cases step_stepped action next stepped with
  | late | exited | printed | returned => exact holds
  | sent other | continued other =>
    exact counted_log inherited signal process _ (.sent other) holds rfl (added_change _ signal other)
  | entered other pending =>
    exact counted_log inherited signal process _ (.entered other) holds rfl (update_change _ signal other pending)
  | defaulted other before =>
    obtain ⟨pending,log⟩ := byDefault_pending table other process
    apply counted_log inherited signal process _ (.defaulted other) holds log
    rw [pending]
    exact update_change _ signal other before
  | main _ alive idle ran =>
    rcases main_cases next ran with ⟨woken,rfl,-⟩ | ⟨status,-,rfl⟩ <;> exact holds

theorem run_counted (mask pending : σ → Bool) (own : Local) (signal : σ) (actions : List (Action σ))
    (final : Process σ Line Local)
    (reached : Execution.run (step table program) (initial mask pending own) actions = some final) :
    Counted pending signal final := by
  have begun : Counted pending signal (initial mask pending own : Process σ Line Local) := Nat.le_refl _
  exact Execution.run_invariant _ (Counted pending signal)
    (fun process action next holds stepped => step_counted pending signal process next action holds stepped)
    actions _ final begun reached

/-- Whoever was woken from its pause has been so by a handler. -/
structure Roused (process : Process σ Line Local) : Prop where
  frames : ∀ frame ∈ process.frames, .entered frame.signal ∈ process.log
  woken : process.woken = true → ∃ signal, .entered signal ∈ process.log

omit [DecidableEq σ] in
theorem roused_log (process next : Process σ Line Local) (event : Event σ) (holds : Roused process)
    (frames : next.frames = process.frames) (woken : next.woken = process.woken)
    (log : next.log = process.log++[event]) : Roused next := by
  constructor
  · intro frame member
    rw [log]
    exact List.mem_append_left _ (holds.frames frame (frames ▸ member))
  · intro now
    obtain ⟨signal,entered⟩ := holds.woken (woken ▸ now)
    exact ⟨signal,log ▸ List.mem_append_left _ entered⟩

theorem step_roused (process next : Process σ Line Local) (action : Action σ) (holds : Roused process)
    (stepped : step table program process action = some next) : Roused next := by
  cases step_stepped action next stepped with
  | late | exited => exact ⟨holds.frames,holds.woken⟩
  | sent signal | continued signal => exact roused_log process _ (.sent signal) holds rfl rfl rfl
  | defaulted signal =>
    unfold byDefault
    cases table.default signal <;> exact roused_log process _ (.defaulted signal) holds rfl rfl rfl
  | entered signal =>
    constructor
    · intro frame member
      rcases List.mem_cons.mp member with rfl | below
      · exact List.mem_append_right _ List.mem_cons_self
      · exact List.mem_append_left _ (holds.frames frame below)
    · intro now
      obtain ⟨other,entered⟩ := holds.woken now
      exact ⟨other,List.mem_append_left _ entered⟩
  | printed signal saved line lines rest alive top =>
    have each := holds.frames
    rw [top] at each
    refine ⟨?_,holds.woken⟩
    intro frame member
    rcases List.mem_cons.mp member with rfl | below
    · exact each ⟨signal,saved,line::lines⟩ List.mem_cons_self
    · exact each frame (List.mem_cons_of_mem _ below)
  | returned signal saved rest alive top =>
    have each := holds.frames
    rw [top] at each
    refine ⟨fun frame member => each frame (List.mem_cons_of_mem _ member),?_⟩
    exact fun _ => ⟨signal,each ⟨signal,saved,[]⟩ List.mem_cons_self⟩
  | main _ alive idle ran =>
    rcases main_cases next ran with ⟨woken,rfl,before,-⟩ | ⟨status,-,rfl⟩
    · exact ⟨holds.frames,fun now => holds.woken (before now)⟩
    · exact ⟨holds.frames,holds.woken⟩

/-- The status that a change leads to, and the signal that it names. -/
def Change.after : Change σ → Status σ
  | .exited status => .ended (.exited status)
  | .signaled signal core => .ended (.signaled signal core)
  | .stopped _ => .stopped
  | .continued => .running

def Change.names : Change σ → Option σ
  | .signaled signal _ => some signal
  | .stopped signal => some signal
  | _ => none

/-- A step that is reported: the process lived until then, and has taken a signal if the
report names one. -/
structure Reported (process next : Process σ Line Local) (change : Change σ) : Prop where
  alive : process.status = .running ∨ process.status = .stopped
  changes : next.changes = process.changes++[change]
  report : next.report = some change
  status : next.status = change.after
  named : ∀ signal, change.names = some signal → process.pending signal = true

theorem step_change (process next : Process σ Line Local) (action : Action σ)
    (stepped : step table program process action = some next) :
    (next.changes = process.changes ∧ next.report = process.report ∧ next.status = process.status) ∨
      ∃ change, Reported process next change := by
  cases step_stepped action next stepped with
  | late | sent | entered | printed | returned => exact Or.inl ⟨rfl,rfl,rfl⟩
  | continued signal stopped => exact Or.inr ⟨.continued,Or.inr stopped,rfl,rfl,rfl,nofun⟩
  | exited signal saved rest status alive => exact Or.inr ⟨.exited status,Or.inl alive,rfl,rfl,rfl,nofun⟩
  | defaulted signal pending unhandled alive =>
    unfold byDefault
    cases table.default signal with
    | terminate core =>
      refine Or.inr ⟨.signaled signal core,alive,rfl,rfl,rfl,?_⟩
      rintro other ⟨⟩
      exact pending
    | stop =>
      refine Or.inr ⟨.stopped signal,alive,rfl,rfl,rfl,?_⟩
      rintro other ⟨⟩
      exact pending
    | ignore | cont => exact Or.inl ⟨rfl,rfl,rfl⟩
  | main _ alive idle ran =>
    rcases main_cases next ran with ⟨woken,rfl,-⟩ | ⟨status,-,rfl⟩
    · exact Or.inl ⟨rfl,rfl,rfl⟩
    · exact Or.inr ⟨.exited status,Or.inl alive,rfl,rfl,rfl,nofun⟩

theorem step_pending (process next : Process σ Line Local) (action : Action σ) (signal : σ)
    (stepped : step table program process action = some next) (pending : next.pending signal = true) :
    process.pending signal = true ∨ action = .send signal := by
  have taken : ∀ other, Function.update process.pending other false signal = true →
      process.pending signal = true := by
    intro other after
    rw [update_false] at after
    split at after
    · contradiction
    · exact after
  cases step_stepped action next stepped with
  | late | exited | printed | returned => exact Or.inl pending
  | sent other | continued other =>
    have after : added table other process.pending signal = true := pending
    unfold added at after
    by_cases same : signal = other
    · exact Or.inr (same ▸ rfl)
    · rw [decide_eq_false same,Bool.false_or,Bool.and_eq_true] at after
      exact Or.inl after.1
  | entered other => exact Or.inl (taken other pending)
  | defaulted other =>
    rw [(byDefault_pending table other process).1] at pending
    exact Or.inl (taken other pending)
  | main _ alive idle ran =>
    rcases main_cases next ran with ⟨woken,rfl,-⟩ | ⟨status,-,rfl⟩ <;> exact Or.inl pending

end LinuxCourse.Library.Signals
