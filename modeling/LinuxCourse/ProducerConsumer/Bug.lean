import LinuxCourse.Library.OwickiGries

/-! `producer_bug.c`. The threads share `g_counter` with no lock: a test reads it, and an
increment or decrement reads it again and writes it in a step of its own. -/
namespace LinuxCourse.ProducerBug
open Library OwickiGries

def MAX_SIZE : Int := 100

inductive Thread
  | producer
  | consumer
  deriving DecidableEq

inductive Stage
  | test
  | load
  | store
  | print
  deriving DecidableEq

/-- The register holds what was read last. -/
structure Own where
  stage : Stage
  register : Int
  deriving DecidableEq

inductive Line
  | produce (counter : Int)
  | consume (counter : Int)
  deriving DecidableEq

def Line.counter : Line → Int
  | .produce counter => counter
  | .consume counter => counter

/-- `produced` and `consumed` count the writes of either thread. -/
structure Shared where
  g_counter : Int
  produced : Nat
  consumed : Nat
  output : List Line
  deriving DecidableEq

def producer (own : Own) (shared : Shared) : Option (Own × Shared) :=
  match own.stage with
  | .test => some ({own with stage := if shared.g_counter ≤ MAX_SIZE then .load else .test},shared)
  | .load => some (⟨.store,shared.g_counter⟩,shared)
  | .store => some ({own with stage := .print},
      {shared with g_counter := own.register+1,produced := shared.produced+1})
  | .print => some ({own with stage := .test},
      {shared with output := shared.output++[.produce own.register]})

def consumer (own : Own) (shared : Shared) : Option (Own × Shared) :=
  match own.stage with
  | .test => some ({own with stage := if shared.g_counter ≠ -1 then .load else .test},shared)
  | .load => some (⟨.store,shared.g_counter⟩,shared)
  | .store => some ({own with stage := .print},
      {shared with g_counter := own.register-1,consumed := shared.consumed+1})
  | .print => some ({own with stage := .test},
      {shared with output := shared.output++[.consume own.register]})

def program : Thread → Own → Shared → Option (Own × Shared)
  | .producer => producer
  | .consumer => consumer

def initial : State Thread Own Shared := ⟨fun _ => ⟨.test,0⟩,⟨0,0,0,[]⟩⟩

structure Bounded (shared : Shared) : Prop where
  lower : -1 ≤ shared.g_counter
  upper : shared.g_counter ≤ MAX_SIZE+1
  printed : ∀ line ∈ shared.output, -1 ≤ line.counter ∧ line.counter ≤ MAX_SIZE+1

/-- After its test a thread reads a counter that is not at its own end of the range: the
other one moves away from there. -/
def Knows : Thread → Own → Shared → Prop
  | .producer, own, shared =>
    match own.stage with
    | .test => True
    | .load => shared.g_counter ≤ MAX_SIZE
    | .store => -1 ≤ own.register ∧ own.register ≤ MAX_SIZE
    | .print => -1 ≤ own.register ∧ own.register ≤ MAX_SIZE
  | .consumer, own, shared =>
    match own.stage with
    | .test => True
    | .load => 0 ≤ shared.g_counter
    | .store => 0 ≤ own.register ∧ own.register ≤ MAX_SIZE+1
    | .print => 0 ≤ own.register ∧ own.register ≤ MAX_SIZE+1

theorem printed_append (shared : Shared) (line : Line) (bounded : Bounded shared)
    (lower : -1 ≤ line.counter) (upper : line.counter ≤ MAX_SIZE+1) :
    Bounded {shared with output := shared.output++[line]} := by
  refine ⟨bounded.lower,bounded.upper,?_⟩
  intro other member
  rcases List.mem_append.mp member with before | last
  · exact bounded.printed other before
  · exact List.mem_singleton.mp last ▸ ⟨lower,upper⟩

theorem producer_correct (own : Own) (shared : Shared) (ran : Own × Shared) (bounded : Bounded shared)
    (knows : Knows .producer own shared) (stepped : producer own shared = some ran) :
    Bounded ran.2 ∧ Knows .producer ran.1 ran.2 := by
  obtain ⟨stage,register⟩ := own
  cases stage with
  | test =>
    obtain rfl := Option.some.inj stepped
    refine ⟨bounded,?_⟩
    by_cases room : shared.g_counter ≤ MAX_SIZE
    · simpa only [Knows,if_pos room] using room
    · simp only [Knows,if_neg room]
  | load =>
    obtain rfl := Option.some.inj stepped
    exact ⟨bounded,bounded.lower,knows⟩
  | store =>
    obtain rfl := Option.some.inj stepped
    obtain ⟨lower,upper⟩ := knows
    refine ⟨⟨?_,?_,bounded.printed⟩,lower,upper⟩
    · simp only at lower ⊢
      omega
    · simp only at upper ⊢
      omega
  | print =>
    obtain rfl := Option.some.inj stepped
    obtain ⟨lower,upper⟩ := knows
    exact ⟨printed_append shared _ bounded lower (Int.le_trans upper (by decide)),trivial⟩

theorem consumer_correct (own : Own) (shared : Shared) (ran : Own × Shared) (bounded : Bounded shared)
    (knows : Knows .consumer own shared) (stepped : consumer own shared = some ran) :
    Bounded ran.2 ∧ Knows .consumer ran.1 ran.2 := by
  obtain ⟨stage,register⟩ := own
  cases stage with
  | test =>
    obtain rfl := Option.some.inj stepped
    refine ⟨bounded,?_⟩
    by_cases there : shared.g_counter ≠ -1
    · have lower := bounded.lower
      simp only [Knows,if_pos there]
      omega
    · simp only [Knows,if_neg there]
  | load =>
    obtain rfl := Option.some.inj stepped
    exact ⟨bounded,knows,bounded.upper⟩
  | store =>
    obtain rfl := Option.some.inj stepped
    obtain ⟨lower,upper⟩ := knows
    refine ⟨⟨?_,?_,bounded.printed⟩,lower,upper⟩
    · simp only at lower ⊢
      omega
    · simp only at upper ⊢
      omega
  | print =>
    obtain rfl := Option.some.inj stepped
    obtain ⟨lower,upper⟩ := knows
    exact ⟨printed_append shared _ bounded (Int.le_trans (by decide) lower) upper,trivial⟩

theorem correct : Correct program Bounded Knows := by
  intro thread own shared ran bounded knows stepped
  cases thread with
  | producer => exact producer_correct own shared ran bounded knows stepped
  | consumer => exact consumer_correct own shared ran bounded knows stepped

/-- What the consumer writes is below the producer's bound. -/
theorem consumer_stable (own its : Own) (shared : Shared) (ran : Own × Shared)
    (mine : Knows .consumer own shared) (knows : Knows .producer its shared)
    (stepped : consumer own shared = some ran) : Knows .producer its ran.2 := by
  obtain ⟨stage,register⟩ := own
  obtain ⟨place,value⟩ := its
  cases stage with
  | test | load | print =>
    obtain rfl := Option.some.inj stepped
    exact knows
  | store =>
    obtain rfl := Option.some.inj stepped
    have upper := mine.2
    cases place with
    | load =>
      simp only [Knows] at upper ⊢
      omega
    | test | store | print => exact knows

/-- What the producer writes is above the consumer's. -/
theorem producer_stable (own its : Own) (shared : Shared) (ran : Own × Shared)
    (mine : Knows .producer own shared) (knows : Knows .consumer its shared)
    (stepped : producer own shared = some ran) : Knows .consumer its ran.2 := by
  obtain ⟨stage,register⟩ := own
  obtain ⟨place,value⟩ := its
  cases stage with
  | test | load | print =>
    obtain rfl := Option.some.inj stepped
    exact knows
  | store =>
    obtain rfl := Option.some.inj stepped
    have lower := mine.1
    cases place with
    | load =>
      simp only [Knows] at lower ⊢
      omega
    | test | store | print => exact knows

theorem stable : Stable program Bounded Knows := by
  intro thread other own its shared ran differ bounded mine knows stepped
  cases thread with
  | producer =>
    cases other with
    | producer => exact absurd rfl differ
    | consumer => exact producer_stable own its shared ran mine knows stepped
  | consumer =>
    cases other with
    | producer => exact consumer_stable own its shared ran mine knows stepped
    | consumer => exact absurd rfl differ

/-- In spite of the race the counter stays in its range, and so do the numbers printed. -/
theorem race_bounded (threads : List Thread) (final : State Thread Own Shared)
    (reached : Execution.run (step program) initial threads = some final) :
    (-1 ≤ final.shared.g_counter ∧ final.shared.g_counter ≤ MAX_SIZE+1) ∧
      ∀ line ∈ final.shared.output, -1 ≤ line.counter ∧ line.counter ≤ MAX_SIZE+1 := by
  have begun : Bounded initial.shared ∧ ∀ each, Knows each (initial.locals each) initial.shared := by
    refine ⟨⟨by decide,by decide,nofun⟩,?_⟩
    intro each
    cases each <;> trivial
  have bounded := (run_knows program Bounded Knows correct stable threads initial final begun reached).1
  exact ⟨⟨bounded.lower,bounded.upper⟩,bounded.printed⟩

/-- Both threads read zero, and the one that writes first has its write overwritten. -/
def collide (first second : Thread) : List Thread :=
  [.producer,.producer,.consumer,.consumer,first,second,.producer,.consumer]

def alone (thread : Thread) : List Thread := List.replicate 4 thread

theorem race_bounded_collision :
    ∃ final, Execution.run (step program) initial (collide .producer .consumer) = some final ∧
      final.shared.g_counter = -1 ∧
      (-1 ≤ final.shared.g_counter ∧ final.shared.g_counter ≤ MAX_SIZE+1) ∧
        ∀ line ∈ final.shared.output, -1 ≤ line.counter ∧ line.counter ≤ MAX_SIZE+1 := by
  have reached : Execution.run (step program) initial (collide .producer .consumer) = some _ := rfl
  exact ⟨_,reached,rfl,race_bounded _ _ reached⟩

/-- Both threads at their tests, with a counter of zero. -/
def level (registers : Thread → Int) (produced consumed : Nat) (output : List Line) : State Thread Own Shared :=
  ⟨fun thread => ⟨.test,registers thread⟩,⟨0,produced,consumed,output⟩⟩

/-- The consumer's write is the last one, and then the producer brings the counter back. -/
theorem gain (registers : Thread → Int) (produced consumed : Nat) (output : List Line) :
    ∃ registers' output', Execution.run (step program) (level registers produced consumed output)
        (collide .producer .consumer++alone .producer) =
      some (level registers' (produced+2) (consumed+1) output') := by
  have ran : Execution.run (step program) (level registers produced consumed output)
      (collide .producer .consumer++alone .producer) = some _ := rfl
  refine ⟨fun | .producer => -1 | .consumer => 0,output++[.produce 0]++[.consume 0]++[.produce (-1)],
    ran.trans (congrArg some (state_ext _ _ ?_ rfl))⟩
  intro thread
  cases thread <;> rfl

theorem loss (registers : Thread → Int) (produced consumed : Nat) (output : List Line) :
    ∃ registers' output', Execution.run (step program) (level registers produced consumed output)
        (collide .consumer .producer++alone .consumer) =
      some (level registers' (produced+1) (consumed+2) output') := by
  have ran : Execution.run (step program) (level registers produced consumed output)
      (collide .consumer .producer++alone .consumer) = some _ := rfl
  refine ⟨fun | .producer => 0 | .consumer => 1,output++[.produce 0]++[.consume 0]++[.consume 1],
    ran.trans (congrArg some (state_ext _ _ ?_ rfl))⟩
  intro thread
  cases thread <;> rfl

theorem drift_up (count : Nat) : ∃ threads registers output,
    Execution.run (step program) initial threads = some (level registers (2*count) count output) := by
  induction count with
  | zero => exact ⟨[],fun _ => 0,[],rfl⟩
  | succ count ih =>
    obtain ⟨threads,registers,output,reached⟩ := ih
    obtain ⟨registers',output',ran⟩ := gain registers (2*count) count output
    refine ⟨threads++(collide .producer .consumer++alone .producer),registers',output',?_⟩
    rw [Execution.run_append,reached,Option.bind_some,ran]
    rfl

theorem drift_down (count : Nat) : ∃ threads registers output,
    Execution.run (step program) initial threads = some (level registers count (2*count) output) := by
  induction count with
  | zero => exact ⟨[],fun _ => 0,[],rfl⟩
  | succ count ih =>
    obtain ⟨threads,registers,output,reached⟩ := ih
    obtain ⟨registers',output',ran⟩ := loss registers count (2*count) output
    refine ⟨threads++(collide .consumer .producer++alone .consumer),registers',output',?_⟩
    rw [Execution.run_append,reached,Option.bind_some,ran]
    rfl

/-- What the counter says is worth nothing: it can be zero after any difference between the
increments and the decrements. -/
theorem race_drifts (difference : Int) : ∃ threads final,
    Execution.run (step program) initial threads = some final ∧ final.shared.g_counter = 0 ∧
      (∀ thread, (final.locals thread).stage = .test) ∧
      (final.shared.produced : Int)-final.shared.consumed = difference := by
  rcases Int.le_total 0 difference with up | down
  · obtain ⟨threads,registers,output,reached⟩ := drift_up difference.toNat
    refine ⟨threads,_,reached,rfl,fun _ => rfl,?_⟩
    simp only [level]
    omega
  · obtain ⟨threads,registers,output,reached⟩ := drift_down (-difference).toNat
    refine ⟨threads,_,reached,rfl,fun _ => rfl,?_⟩
    simp only [level]
    omega

end LinuxCourse.ProducerBug
