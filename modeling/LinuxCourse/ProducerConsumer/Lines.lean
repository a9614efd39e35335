import LinuxCourse.Library.MonitorPrinting
import LinuxCourse.ProducerConsumer.TimeOut

/-! What the programs print. Every line is printed with the mutex held, so the lines of a
run are those of one thread that counts up and down. -/
namespace LinuxCourse.ProducerConsumer
open Library Monitor

variable {ι : Type}

/-- The number of a `consume` line is the counter before the decrement, or after it. -/
inductive Line (ι : Type)
  | produce (counter : Int)
  | dot
  | consume (id : ι) (counter : Int)
  deriving DecidableEq

def prints (amount : Nat) (dots : List (Line ι)) (shown : Int → Int) :
    Thread ι → Stage → Shared ι → List (Line ι)
  | .producer, .increment, shared => [.produce (shared.g_counter+amount)]
  | .consumer _, .check, _ => dots
  | .consumer id, .decrement, shared => [.consume id (shown shared.g_counter)]
  | _, _, _ => []

/-- What the lines tell. -/
structure Count (ι : Type) where
  counter : Int
  produced : Nat
  consumed : List ι
  deriving DecidableEq

def Shared.count (shared : Shared ι) : Count ι := ⟨shared.g_counter,shared.produced,shared.consumed⟩

/-- One thread that counts up while there is room and down while there is something. -/
def accept (amount : Nat) (shown : Int → Int) (count : Count ι) : Line ι → Option (Count ι)
  | .produce counter =>
    if count.counter < MAX_SIZE ∧ counter = count.counter+amount then
      some {count with counter,produced := count.produced+1}
    else none
  | .dot => some count
  | .consume id counter =>
    if count.counter ≠ 0 ∧ counter = shown count.counter then
      some {count with counter := count.counter-1,consumed := count.consumed++[id]}
    else none

theorem tells (amount : Nat) (wake : Wake) (dots : List (Line ι)) (shown : Int → Int)
    (only : ∀ line ∈ dots, line = .dot) (thread : Thread ι) (stage : Stage) (shared : Shared ι)
    (tested : Tested thread stage shared) :
    Tells (accept amount shown) Shared.count shared (prints amount dots shown thread stage shared)
      (program amount wake thread stage shared) := by
  cases thread with
  | producer =>
    cases stage with
    | wake => cases wake <;> trivial
    | test => exact rfl
    | increment =>
      have room : shared.g_counter < MAX_SIZE := tested
      exact (Execution.run_cons _ _ _ [] _).mpr ⟨_,if_pos ⟨room,rfl⟩,rfl⟩
    | lock | unlock | wait | waiting | check | decrement => trivial
  | consumer id =>
    cases stage with
    | test => exact rfl
    | check =>
      simp only [Tells,program,consumer,prints]
      induction dots with
      | nil => rfl
      | cons line rest ih =>
        obtain rfl := only line List.mem_cons_self
        exact ih fun other member => only other (List.mem_cons_of_mem _ member)
    | decrement =>
      have left : shared.g_counter ≠ 0 := tested
      exact (Execution.run_cons _ _ _ [] _).mpr ⟨_,if_pos ⟨left,rfl⟩,rfl⟩
    | lock | unlock | wait | waiting | increment | wake => trivial

def Line.Within (least most : Int) : Line ι → Prop
  | .produce counter => 0 < counter ∧ counter ≤ most
  | .dot => True
  | .consume _ counter => least ≤ counter ∧ counter ≤ most

structure Count.Fits (most : Int) (count : Count ι) : Prop where
  nonneg : 0 ≤ count.counter
  bounded : count.counter ≤ most

theorem accept_within (amount : Nat) (gain : 0 < amount) (shown : Int → Int) (least most : Int)
    (top : MAX_SIZE+amount-1 ≤ most) (fits : ∀ counter, 0 < counter → counter ≤ most →
      least ≤ shown counter ∧ shown counter ≤ most) (count next : Count ι) (line : Line ι)
    (before : count.Fits most) (accepted : accept amount shown count line = some next) :
    line.Within least most ∧ next.Fits most := by
  obtain ⟨nonneg,bounded⟩ := before
  cases line with
  | produce counter =>
    obtain ⟨⟨room,rfl⟩,rfl⟩ := enabled accepted
    refine ⟨⟨?_,?_⟩,?_,?_⟩
    · omega
    · omega
    · simp only
      omega
    · simp only
      omega
  | dot =>
    obtain rfl := Option.some.inj accepted
    exact ⟨trivial,nonneg,bounded⟩
  | consume id counter =>
    obtain ⟨⟨left,rfl⟩,rfl⟩ := enabled accepted
    refine ⟨fits count.counter (by omega) bounded,?_,?_⟩
    · simp only
      omega
    · simp only
      omega

theorem replay_within (amount : Nat) (gain : 0 < amount) (shown : Int → Int) (least most : Int)
    (top : MAX_SIZE+amount-1 ≤ most) (fits : ∀ counter, 0 < counter → counter ≤ most →
      least ≤ shown counter ∧ shown counter ≤ most) (lines : List (Line ι)) (count final : Count ι)
    (before : count.Fits most) (replayed : Execution.run (accept amount shown) count lines = some final) :
    ∀ line ∈ lines, line.Within least most := by
  induction lines generalizing count with
  | nil =>
    intro line member
    exact absurd member List.not_mem_nil
  | cons first rest ih =>
    obtain ⟨next,accepted,continued⟩ := (Execution.run_cons _ _ _ _ _).mp replayed
    obtain ⟨within,after⟩ := accept_within amount gain shown least most top fits count next first before accepted
    intro line member
    rcases List.mem_cons.mp member with rfl | inside
    · exact within
    · exact ih next after continued line inside

variable [DecidableEq ι]

def start : State (Thread ι) Stage (Printed (Shared ι) (Line ι)) := ⟨free,fun _ => .lock,⟨⟨0,none,0,[]⟩,[]⟩⟩

theorem run_lines (amount : Nat) (wake : Wake) (dots : List (Line ι)) (shown : Int → Int)
    (only : ∀ line ∈ dots, line = .dot) (actions : List (Action (Thread ι)))
    (final : State (Thread ι) Stage (Printed (Shared ι) (Line ι)))
    (reached : Monitor.run (printing (program amount wake) (prints amount dots shown)) start actions = some final) :
    Execution.run (accept amount shown) ⟨0,0,[]⟩ final.shared.output = some final.shared.shared.count ∧
      Monitor.run (program amount wake) initial actions = some final.silent := by
  obtain ⟨replayed,silent,_⟩ := run_replays (accept amount shown) Shared.count (disciplined amount wake)
    (outline amount wake) (fun thread stage shared _ => tells amount wake dots shown only thread stage shared)
    actions (fun _ => .lock) ⟨0,none,0,[]⟩ final (fun _ => rfl)
    ⟨Int.le_refl 0,by simp only [MAX_SIZE]; omega,by simp⟩ reached
  exact ⟨replayed,silent⟩

end LinuxCourse.ProducerConsumer

namespace LinuxCourse.ProducerWithsignal
open Library Monitor ProducerConsumer

/-- A dot before each test, and the number that is left. -/
def prints : Thread Unit → Stage → Shared Unit → List (Line Unit) :=
  ProducerConsumer.prints 1 [.dot] (fun counter => counter-1)

/-- The lines are those of one thread that counts from zero, one unit at a time. -/
theorem signal_replays (actions : List (Action (Thread Unit)))
    (final : State (Thread Unit) Stage (Printed (Shared Unit) (Line Unit)))
    (reached : Monitor.run (printing program prints) start actions = some final) :
    Execution.run (accept 1 fun counter => counter-1) ⟨0,0,[]⟩ final.shared.output =
      some final.shared.shared.count ∧
    (∀ line ∈ final.shared.output, line.Within 0 MAX_SIZE) ∧
    Monitor.run program initial actions = some final.silent := by
  rw [program_eq] at reached ⊢
  obtain ⟨replayed,silent⟩ := run_lines 1 .signal [.dot] (fun counter => counter-1)
    (fun line member => List.mem_singleton.mp member) actions final reached
  refine ⟨replayed,?_,silent⟩
  apply replay_within 1 (by omega) (fun counter => counter-1) 0 MAX_SIZE (by omega) _ _ _ _ _ replayed
  · intro counter positive bounded
    omega
  · exact ⟨Int.le_refl 0,by simp only [MAX_SIZE]; omega⟩

end LinuxCourse.ProducerWithsignal

namespace LinuxCourse.ProducerWithbroadcast
open Library Monitor ProducerConsumer

variable {ι : Type} [DecidableEq ι]

/-- The number that was there before the decrement. -/
def prints : Thread ι → Stage → Shared ι → List (Line ι) :=
  ProducerConsumer.prints 100 [] (fun counter => counter)

/-- The lines of any number of consumers are those of one thread that counts from zero, a
hundred up and one down. -/
theorem broadcast_replays (actions : List (Action (Thread ι)))
    (final : State (Thread ι) Stage (Printed (Shared ι) (Line ι)))
    (reached : Monitor.run (printing program prints) start actions = some final) :
    Execution.run (accept 100 fun counter => counter) ⟨0,0,[]⟩ final.shared.output =
      some final.shared.shared.count ∧
    (∀ line ∈ final.shared.output, line.Within 1 (MAX_SIZE+99)) ∧
    Monitor.run program initial actions = some final.silent := by
  rw [program_eq] at reached ⊢
  obtain ⟨replayed,silent⟩ := run_lines 100 .broadcast [] (fun counter => counter)
    (fun line member => absurd member List.not_mem_nil) actions final reached
  refine ⟨replayed,?_,silent⟩
  apply replay_within 100 (by omega) (fun counter => counter) 1 (MAX_SIZE+99) (by omega) _ _ _ _ _ replayed
  · intro counter positive bounded
    omega
  · exact ⟨Int.le_refl 0,by simp only [MAX_SIZE]; omega⟩

def takesOne : List (Action (Thread Bool)) :=
  bothSleeping++.run .producer []::List.replicate 3 (.run (.consumer true) [])

theorem broadcast_replays_one : ∃ final,
    Monitor.run (printing program prints) start takesOne = some final ∧
    final.shared.output = [.produce 100,.consume true 100] ∧
    Execution.run (accept 100 fun counter => counter) ⟨0,0,[]⟩ final.shared.output = some ⟨99,1,[true]⟩ := by
  have ran : (Monitor.run (printing program prints) start takesOne).map
      (fun final => (final.shared.output,final.shared.shared.count)) =
      some ([.produce 100,.consume true 100],⟨99,1,[true]⟩) := by decide +kernel
  obtain ⟨final,reached,values⟩ := Option.map_eq_some_iff.mp ran
  obtain ⟨output,count⟩ := Prod.mk.inj values
  obtain ⟨replayed,_⟩ := broadcast_replays takesOne final reached
  rw [count] at replayed
  exact ⟨final,reached,output,replayed⟩

end LinuxCourse.ProducerWithbroadcast

namespace LinuxCourse.ProducerWithbroadcastAndtimeout
open Library Monitor ProducerConsumer

variable {ι : Type}

def TIME_TO_WAIT : Nat := 2

inductive Line (ι : Type)
  | produce (counter : Int)
  | enough (seconds : Nat)
  | consume (id : ι) (counter : Int)
  deriving DecidableEq

def prints : Thread ι → Stage → Shared → List (Line ι)
  | .producer, .increment, shared => [.produce (shared.g_counter+100)]
  | .consumer _, .giveUp, _ => [.enough TIME_TO_WAIT]
  | .consumer id, .decrement, shared => [.consume id shared.g_counter]
  | _, _, _ => []

/-- One thread that counts, and says at its end that it has waited enough. -/
def accept (shared : Shared) : Line ι → Option Shared
  | .produce counter =>
    if shared.exited = false ∧ shared.g_counter < MAX_SIZE ∧ counter = shared.g_counter+100 then
      some {shared with g_counter := counter}
    else none
  | .enough seconds =>
    if shared.exited = false ∧ seconds = TIME_TO_WAIT then some {shared with exited := true} else none
  | .consume _ counter =>
    if shared.exited = false ∧ shared.g_counter ≠ 0 ∧ counter = shared.g_counter then
      some {shared with g_counter := shared.g_counter-1}
    else none

theorem tells (thread : Thread ι) (stage : Stage) (shared : Shared) (tested : Tested thread stage shared) :
    Tells accept id shared (prints thread stage shared) (program thread stage shared) := by
  unfold program
  split
  · trivial
  · rename_i running
    have running : shared.exited = false := Bool.not_eq_true _ ▸ running
    cases thread with
    | producer =>
      cases stage with
      | test => exact rfl
      | increment =>
        have room : shared.g_counter < MAX_SIZE := tested
        exact (Execution.run_cons _ _ _ [] _).mpr ⟨_,if_pos ⟨running,room,rfl⟩,rfl⟩
      | lock | unlock | wake | wait | waiting | giveUp | gone | check | decrement => trivial
    | consumer one =>
      cases stage with
      | test | check => exact rfl
      | giveUp => exact (Execution.run_cons _ _ _ [] _).mpr ⟨_,if_pos ⟨running,rfl⟩,rfl⟩
      | decrement =>
        have left : shared.g_counter ≠ 0 := tested
        exact (Execution.run_cons _ _ _ [] _).mpr ⟨_,if_pos ⟨running,left,rfl⟩,rfl⟩
      | lock | unlock | wait | waiting | increment | wake | gone => trivial

theorem accept_running (shared next : Shared) (line : Line ι) (accepted : accept shared line = some next) :
    shared.exited = false ∧ (next.exited = true ↔ line = .enough TIME_TO_WAIT) ∧
      ∀ seconds, line = .enough seconds → seconds = TIME_TO_WAIT := by
  cases line with
  | produce counter =>
    obtain ⟨⟨running,_⟩,rfl⟩ := enabled accepted
    simp [running]
  | enough seconds =>
    obtain ⟨⟨running,rfl⟩,rfl⟩ := enabled accepted
    simp [running]
  | consume id counter =>
    obtain ⟨⟨running,_⟩,rfl⟩ := enabled accepted
    simp [running]

/-- The line of the exit is the last one. -/
theorem replay_exits (lines : List (Line ι)) (shared final : Shared) (running : shared.exited = false)
    (replayed : Execution.run accept shared lines = some final) :
    (final.exited = true ↔ .enough TIME_TO_WAIT ∈ lines) ∧
    ∀ before seconds after, lines = before++.enough seconds::after → seconds = TIME_TO_WAIT ∧ after = [] := by
  induction lines generalizing shared with
  | nil =>
    obtain rfl := Option.some.inj replayed
    refine ⟨?_,?_⟩
    · rw [running]
      simp
    · intro before seconds after same
      simp at same
  | cons first rest ih =>
    obtain ⟨next,accepted,continued⟩ := (Execution.run_cons _ _ _ _ _).mp replayed
    obtain ⟨_,exits,only⟩ := accept_running shared next first accepted
    cases went : next.exited with
    | true =>
      -- nothing is accepted after the exit
      have last : rest = [] := by
        cases rest with
        | nil => rfl
        | cons line more =>
          obtain ⟨other,taken,_⟩ := (Execution.run_cons _ _ _ _ _).mp continued
          rw [(accept_running next other line taken).1] at went
          contradiction
      subst last
      obtain rfl := Option.some.inj continued
      obtain rfl := exits.mp went
      refine ⟨?_,?_⟩
      · rw [went]
        simp
      · intro before seconds after same
        cases before with
        | nil =>
          obtain ⟨line,rfl⟩ := List.cons.inj same
          exact ⟨(Line.enough.inj line).symm,rfl⟩
        | cons line more => simp at same
    | false =>
      obtain ⟨member,last⟩ := ih next went continued
      have other : .enough TIME_TO_WAIT ≠ first := by
        intro same
        rw [exits.mpr same.symm] at went
        contradiction
      refine ⟨?_,?_⟩
      · rw [member,List.mem_cons,or_iff_right other]
      · intro before seconds after same
        cases before with
        | nil =>
          obtain ⟨rfl,_⟩ := List.cons.inj same
          exact absurd (only seconds rfl ▸ rfl) other
        | cons line more => exact last more seconds after (List.cons.inj same).2

variable [DecidableEq ι]

def start : State (Thread ι) Stage (Printed Shared (Line ι)) := ⟨free,fun _ => .lock,⟨⟨0,false⟩,[]⟩⟩

/-- The lines are those of one thread, and the program has exited exactly when the line of
the exit is there; it is the last line then. -/
theorem timeout_replays (actions : List (Action (Thread ι)))
    (final : State (Thread ι) Stage (Printed Shared (Line ι)))
    (reached : Monitor.run (printing program prints) start actions = some final) :
    Execution.run accept ⟨0,false⟩ final.shared.output = some final.shared.shared ∧
    (final.shared.shared.exited = true ↔ .enough TIME_TO_WAIT ∈ final.shared.output) ∧
    (∀ before seconds after, final.shared.output = before++.enough seconds::after →
      seconds = TIME_TO_WAIT ∧ after = []) ∧
    Monitor.run program initial actions = some final.silent := by
  obtain ⟨replayed,silent,_⟩ := run_replays accept id disciplined outline
    (fun thread stage shared _ => tells thread stage shared) actions (fun _ => .lock) ⟨0,false⟩ final
    (fun _ => rfl) ⟨Int.le_refl 0,by simp only [MAX_SIZE]; omega⟩ reached
  obtain ⟨exited,last⟩ := replay_exits _ _ _ rfl replayed
  exact ⟨replayed,exited,last,silent⟩

theorem timeout_replays_late : ∃ final,
    Monitor.run (printing program prints) start (expires++List.replicate 4 (.run .producer [])++
      List.replicate 2 (.run (.consumer true) [])) = some final ∧
    final.shared.output = [.produce 100,.enough 2] ∧ final.shared.shared.exited = true ∧
    Execution.run accept ⟨0,false⟩ final.shared.output = some final.shared.shared := by
  have ran : (Monitor.run (printing program prints) start (expires++List.replicate 4 (.run .producer [])++
      List.replicate 2 (.run (.consumer true) []))).map
      (fun final => (final.shared.output,final.shared.shared.exited)) =
      some ([.produce 100,.enough 2],true) := by decide +kernel
  obtain ⟨final,reached,values⟩ := Option.map_eq_some_iff.mp ran
  obtain ⟨output,exited⟩ := Prod.mk.inj values
  exact ⟨final,reached,output,exited,(timeout_replays _ final reached).1⟩

end LinuxCourse.ProducerWithbroadcastAndtimeout
