import LinuxCourse.Library.MonitorRules
import Mathlib.Algebra.BigOperators.Group.Finset.Basic
import Mathlib.Algebra.Ring.Int.Defs
import Mathlib.Data.Fintype.Basic

/-! The producer and the consumers of `threads/producer_consumer/producer_withsignal.c`
and `producer_withbroadcast.c`. They differ in what one iteration produces and in
how it wakes. The wake-up comes after the unlock, and the wait stands under an `if`. -/
namespace LinuxCourse.ProducerConsumer
open Library Monitor

def MAX_SIZE : Int := 10000

inductive Thread (ι : Type)
  | producer
  | consumer (id : ι)
  deriving DecidableEq

inductive Stage
  | lock
  | test
  | increment
  | unlock
  | wake
  | wait
  | waiting
  | check
  | decrement
  deriving DecidableEq

inductive Wake
  | signal
  | broadcast

/-- The program has `g_counter` only. `raised` is its value before the increment of the
producer's current iteration, if there was one; `produced` counts the iterations that
had one, and `consumed` has an entry for each unit: who took it. -/
structure Shared (ι : Type) where
  g_counter : Int
  raised : Option Int
  produced : Nat
  consumed : List ι

variable {ι : Type}

def producer (amount : Nat) (wake : Wake) : Stage → Shared ι → Command Stage (Shared ι)
  | .lock, _ => .lock .test
  | .test, shared =>
    .compute {shared with raised := none} (if shared.g_counter < MAX_SIZE then .increment else .unlock)
  | .increment, shared =>
    .compute {shared with
      g_counter := shared.g_counter+amount
      raised := some shared.g_counter
      produced := shared.produced+1} .unlock
  | .unlock, _ => .unlock .wake
  | .wake, _ =>
    match wake with
    | .signal => .signal .lock
    | .broadcast => .broadcast .lock
  | _, _ => .stop

def consumer (id : ι) : Stage → Shared ι → Command Stage (Shared ι)
  | .lock, _ => .lock .test
  | .test, shared => .compute shared (if shared.g_counter = 0 then .wait else .check)
  | .wait, _ => .wait .waiting
  | .waiting, _ => .resume .check none
  | .check, shared => .compute shared (if shared.g_counter ≠ 0 then .decrement else .unlock)
  | .decrement, shared =>
    .compute {shared with
      g_counter := shared.g_counter-1
      consumed := shared.consumed++[id]} .unlock
  | .unlock, _ => .unlock .lock
  | _, _ => .stop

def program (amount : Nat) (wake : Wake) : Thread ι → Stage → Shared ι → Command Stage (Shared ι)
  | .producer => producer amount wake
  | .consumer id => consumer id

def initial : State (Thread ι) Stage (Shared ι) := ⟨free,fun _ => .lock,⟨0,none,0,[]⟩⟩

def inside : Stage → Bool
  | .test | .increment | .unlock | .wait | .check | .decrement => true
  | .lock | .wake | .waiting => false

theorem disciplined (amount : Nat) (wake : Wake) :
    Disciplined (@program ι amount wake) inside := by
  intro thread stage shared
  cases thread with
  | producer =>
    cases stage with
    | wake => cases wake <;> exact rfl
    | test =>
      simp only [program,producer]
      split <;> exact ⟨rfl,Or.inl rfl⟩
    | increment => exact ⟨rfl,Or.inl rfl⟩
    | lock | unlock => exact ⟨rfl,rfl⟩
    | wait | waiting | check | decrement => trivial
  | consumer id =>
    cases stage with
    | test | check =>
      simp only [program,consumer]
      split <;> exact ⟨rfl,Or.inl rfl⟩
    | decrement => exact ⟨rfl,Or.inl rfl⟩
    | waiting => exact ⟨rfl,rfl,by simp⟩
    | lock | unlock | wait => exact ⟨rfl,rfl⟩
    | increment | wake => trivial

structure Balanced (amount : Nat) (shared : Shared ι) : Prop where
  nonneg : 0 ≤ shared.g_counter
  bounded : shared.g_counter ≤ MAX_SIZE+amount-1
  balance : (amount : Int)*shared.produced = shared.g_counter+shared.consumed.length

def Tested : Thread ι → Stage → Shared ι → Prop
  | .producer, .increment, shared => shared.g_counter < MAX_SIZE
  | .consumer _, .wait, shared => shared.g_counter = 0
  | .consumer _, .decrement, shared => shared.g_counter ≠ 0
  | _, _, _ => True

theorem tested_sound (amount : Nat) (wake : Wake) (thread : Thread ι) (stage : Stage) (shared : Shared ι)
    (balanced : Balanced amount shared) (tested : Tested thread stage shared) :
    Establishes (Balanced amount) (Tested thread) shared (program amount wake thread stage shared) := by
  obtain ⟨nonneg,bounded,balance⟩ := balanced
  cases thread with
  | producer =>
    cases stage with
    | wake => cases wake <;> trivial
    | test =>
      refine ⟨⟨nonneg,bounded,balance⟩,?_⟩
      split
      · assumption
      · trivial
    | increment =>
      refine ⟨⟨?_,?_,?_⟩,trivial⟩
      · simp only
        omega
      · have room : shared.g_counter < MAX_SIZE := tested
        simp only
        omega
      · simp only [Nat.cast_add,Nat.cast_one,mul_add,mul_one]
        omega
    | lock | unlock | wait | waiting | check | decrement => trivial
  | consumer id =>
    cases stage with
    | test =>
      refine ⟨⟨nonneg,bounded,balance⟩,?_⟩
      split
      · assumption
      · trivial
    | waiting => exact ⟨trivial,by simp⟩
    | check =>
      refine ⟨⟨nonneg,bounded,balance⟩,?_⟩
      split
      · assumption
      · trivial
    | decrement =>
      have some : shared.g_counter ≠ 0 := tested
      refine ⟨⟨?_,?_,?_⟩,trivial⟩
      · simp only
        omega
      · simp only
        omega
      · simp only [balance,List.length_append,List.length_singleton,Nat.cast_add,Nat.cast_one]
        omega
    | lock | unlock | wait | increment | wake => trivial

def outline (amount : Nat) (wake : Wake) :
    Outline (@program ι amount wake) inside where
  invariant := Balanced amount
  knows := Tested
  outside thread stage shared out := by
    cases thread <;> cases stage <;> trivial
  sound := tested_sound amount wake

def Waits : Thread ι → Prop
  | .producer => False
  | .consumer _ => True

def Owes : Thread ι → Stage → Shared ι → Prop
  | .producer, .unlock, shared => shared.raised = some 0
  | .producer, .wake, shared => shared.raised = some 0
  | _, _, _ => False

theorem owes_sound (amount : Nat) (wake : Wake)
    (single : wake = .signal → ∀ first second : ι, first = second) (thread : Thread ι) (stage : Stage)
    (shared : Shared ι) (tested : Tested thread stage shared) :
    Announces Waits (fun shared => shared.g_counter = 0) Owes thread stage shared
      (program amount wake thread stage shared) := by
  have foreign (other : Thread ι) (before : Stage) (changed : Shared ι) (different : other ≠ .producer)
      (owed : Owes other before shared) : Owes other before changed := by
    cases other with
    | producer => exact absurd rfl different
    | consumer id => exact owed
  cases thread with
  | producer =>
    cases stage with
    | wake =>
      cases wake with
      | broadcast => trivial
      | signal =>
        intro first second waitsFirst waitsSecond
        cases first with
        | producer => contradiction
        | consumer one =>
          cases second with
          | producer => contradiction
          | consumer two => rw [single rfl one two]
    | test => exact ⟨Or.inl,False.elim,fun other before => foreign other before _⟩
    | increment =>
      refine ⟨fun empty => Or.inr ?_,False.elim,fun other before => foreign other before _⟩
      exact congrArg some empty
    | unlock => exact id
    | lock => exact False.elim
    | wait | waiting | check | decrement => trivial
  | consumer id =>
    have kept (other : Thread ι) (before : Stage) (changed : Shared ι)
        (same : changed.raised = shared.raised) (owed : Owes other before shared) :
        Owes other before changed := by
      cases other with
      | producer => cases before <;> first | exact same.trans owed | exact owed
      | consumer id => exact owed
    cases stage with
    | test | check => exact ⟨Or.inl,False.elim,fun other before _ => kept other before _ rfl⟩
    | wait => exact ⟨trivial,tested⟩
    | waiting => exact False.elim
    | decrement =>
      exact ⟨fun empty => absurd empty tested,False.elim,fun other before _ => kept other before _ rfl⟩
    | lock | unlock => exact False.elim
    | increment | wake => trivial

def announcement (amount : Nat) (wake : Wake)
    (single : wake = .signal → ∀ first second : ι, first = second) :
    Announcement (@program ι amount wake) (@outline ι amount wake) where
  waits := Waits
  empty shared := shared.g_counter = 0
  owes := Owes
  sound thread stage shared _ tested := owes_sound amount wake single thread stage shared tested

/-- The producer has made the increment that took the counter from zero, and not yet
the wake-up of that iteration. -/
def Announcing (state : State (Thread ι) Stage (Shared ι)) : Prop :=
  (state.stages .producer = .unlock ∨ state.stages .producer = .wake) ∧ state.shared.raised = some 0

theorem owes_announcing (state : State (Thread ι) Stage (Shared ι)) (thread : Thread ι)
    (owes : Owes thread (state.stages thread) state.shared) : Announcing state := by
  cases thread with
  | consumer id => contradiction
  | producer =>
    rw [Announcing]
    cases stage : state.stages .producer with
    | unlock =>
      rw [stage] at owes
      exact ⟨Or.inl rfl,owes⟩
    | wake =>
      rw [stage] at owes
      exact ⟨Or.inr rfl,owes⟩
    | lock | test | increment | wait | waiting | check | decrement =>
      rw [stage] at owes
      contradiction

theorem run_handed [DecidableEq ι] (amount : Nat) (wake : Wake)
    (single : wake = .signal → ∀ first second : ι, first = second)
    (actions : List (Action (Thread ι))) (final : State (Thread ι) Stage (Shared ι))
    (reached : Monitor.run (program amount wake) initial actions = some final) :
    Balanced amount final.shared ∧
    ∀ thread ∈ final.monitor.waiting, 0 < final.shared.g_counter → Announcing final := by
  obtain ⟨_,⟨balanced,_⟩,_,woken⟩ := run_announced (disciplined amount wake)
    (announcement amount wake single) actions _ _ final (fun _ => rfl)
    ⟨Int.le_refl 0,by simp only [MAX_SIZE]; omega,by simp⟩ reached
  refine ⟨balanced,?_⟩
  intro thread member positive
  have present : final.monitor.waiting ≠ [] := List.ne_nil_of_mem member
  rcases woken present with empty | ⟨owing,owes⟩
  · have zero : final.shared.g_counter = 0 := empty
    omega
  · exact owes_announcing final owing owes

end LinuxCourse.ProducerConsumer

/-! `producer_withsignal.c`: one unit an iteration, one consumer. -/
namespace LinuxCourse.ProducerWithsignal
open Library Monitor ProducerConsumer

def producer : Stage → Shared Unit → Command Stage (Shared Unit) := ProducerConsumer.producer 1 .signal

def consumer : Stage → Shared Unit → Command Stage (Shared Unit) := ProducerConsumer.consumer ()

def program : Thread Unit → Stage → Shared Unit → Command Stage (Shared Unit)
  | .producer => producer
  | .consumer _ => consumer

theorem program_eq : program = ProducerConsumer.program 1 .signal := by
  funext thread
  cases thread <;> rfl

/-- The counter is what was produced and not consumed, and while the consumer sleeps on
a positive counter its wake-up is on the way. -/
theorem signal_hand_off (actions : List (Action (Thread Unit)))
    (final : State (Thread Unit) Stage (Shared Unit))
    (reached : Monitor.run program initial actions = some final) :
    (0 ≤ final.shared.g_counter ∧ final.shared.g_counter ≤ MAX_SIZE ∧
      final.shared.g_counter = final.shared.produced-final.shared.consumed.length) ∧
    (.consumer () ∈ final.monitor.waiting → 0 < final.shared.g_counter → Announcing final) := by
  rw [program_eq] at reached
  obtain ⟨⟨nonneg,bounded,balance⟩,woken⟩ :=
    run_handed 1 .signal (fun _ _ _ => rfl) actions final reached
  exact ⟨⟨nonneg,by omega,by omega⟩,woken (.consumer ())⟩

/-- The consumer takes the unit of the first iteration, and sleeps when the second one is made. -/
def sleeping : List (Action (Thread Unit)) :=
  List.replicate 5 (.run .producer [])++List.replicate 8 (.run (.consumer ()) [])++
    List.replicate 4 (.run .producer [])

theorem signal_hand_off_sleeping : ∃ final,
    Monitor.run program initial sleeping = some final ∧
    final.monitor.waiting = [.consumer ()] ∧ final.shared.consumed = [()] ∧
    (final.shared.g_counter = 1 ∧ (1 : Int) = final.shared.produced-1) ∧ Announcing final := by
  have ran : (Monitor.run program initial sleeping).map
      (fun final => (final.monitor.waiting,final.shared.g_counter,final.shared.consumed)) =
      some ([.consumer ()],1,[()]) := by
    decide +kernel
  obtain ⟨final,reached,values⟩ := Option.map_eq_some_iff.mp ran
  obtain ⟨waiting,values⟩ := Prod.mk.inj values
  obtain ⟨counter,consumed⟩ := Prod.mk.inj values
  obtain ⟨⟨_,_,balance⟩,announced⟩ := signal_hand_off _ final reached
  rw [counter,consumed] at balance
  refine ⟨final,reached,waiting,consumed,⟨counter,balance⟩,announced ?_ ?_⟩
  · simp only [waiting,List.mem_singleton]
  · omega

end LinuxCourse.ProducerWithsignal

/-! `producer_withbroadcast.c`: a hundred units an iteration, any number of consumers. -/
namespace LinuxCourse.ProducerWithbroadcast
open Library Monitor ProducerConsumer

variable {ι : Type}

def producer : Stage → Shared ι → Command Stage (Shared ι) := ProducerConsumer.producer 100 .broadcast

def consumer (id : ι) : Stage → Shared ι → Command Stage (Shared ι) := ProducerConsumer.consumer id

def program : Thread ι → Stage → Shared ι → Command Stage (Shared ι)
  | .producer => producer
  | .consumer id => consumer id

theorem program_eq : @program ι = ProducerConsumer.program 100 .broadcast := by
  funext thread
  cases thread <;> rfl

variable [Fintype ι] [DecidableEq ι]

def consumedBy (shared : Shared ι) (id : ι) : Nat := shared.consumed.count id

theorem consumed_total (shared : Shared ι) :
    ∑ id, consumedBy shared id = shared.consumed.length := by
  have total : ∑ id, (shared.consumed : Multiset ι).count id = (shared.consumed : Multiset ι).card :=
    Multiset.sum_count_eq_card fun id _ => Finset.mem_univ id
  simpa [consumedBy] using total

/-- No unit is lost or taken twice, and while any consumer sleeps on a positive counter
the broadcast is on the way. -/
theorem broadcast_hand_off (actions : List (Action (Thread ι)))
    (final : State (Thread ι) Stage (Shared ι))
    (reached : Monitor.run program initial actions = some final) :
    (0 ≤ final.shared.g_counter ∧
      100*(final.shared.produced : Int) =
        final.shared.g_counter+(∑ id, consumedBy final.shared id : Nat)) ∧
    ∀ id, .consumer id ∈ final.monitor.waiting → 0 < final.shared.g_counter → Announcing final := by
  rw [program_eq] at reached
  obtain ⟨⟨nonneg,_,balance⟩,woken⟩ := run_handed 100 .broadcast nofun actions final reached
  rw [consumed_total]
  exact ⟨⟨nonneg,balance⟩,fun id => woken (.consumer id)⟩

def bothSleeping : List (Action (Thread Bool)) :=
  List.replicate 3 (.run (.consumer false) [])++List.replicate 3 (.run (.consumer true) [])++
    List.replicate 4 (.run .producer [])

/-- After the wake-up one consumer takes the hundred units, both sleep again, and the producer
makes a hundred more. -/
def bothSleepingAgain : List (Action (Thread Bool)) :=
  bothSleeping++[.run .producer []]++List.replicate 502 (.run (.consumer true) [])++
    List.replicate 6 (.run (.consumer false) [])++List.replicate 4 (.run .producer [])

theorem broadcast_hand_off_sleeping : ∃ final,
    Monitor.run program initial bothSleepingAgain = some final ∧
    final.monitor.waiting = [.consumer false,.consumer true] ∧ final.shared.produced = 2 ∧
    (final.shared.g_counter = 100 ∧ (∑ id, consumedBy final.shared id) = 100) ∧ Announcing final := by
  have ran : (Monitor.run program initial bothSleepingAgain).map
      (fun final => (final.monitor.waiting,final.shared.produced,final.shared.g_counter)) =
      some ([.consumer false,.consumer true],2,100) := by
    decide +kernel
  obtain ⟨final,reached,values⟩ := Option.map_eq_some_iff.mp ran
  obtain ⟨waiting,values⟩ := Prod.mk.inj values
  obtain ⟨produced,counter⟩ := Prod.mk.inj values
  obtain ⟨⟨_,balance⟩,announced⟩ := broadcast_hand_off _ final reached
  rw [produced,counter] at balance
  refine ⟨final,reached,waiting,produced,⟨counter,by omega⟩,announced false ?_ ?_⟩
  · simp [waiting]
  · omega

end LinuxCourse.ProducerWithbroadcast
