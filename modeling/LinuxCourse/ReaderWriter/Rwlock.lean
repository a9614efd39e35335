import LinuxCourse.Library.Execution
import LinuxCourse.Library.RwLock
import Mathlib.Algebra.Ring.Nat
import Mathlib.Logic.Function.Basic

/-! `threads/reader_writer/rwlock.c`. Each step is one statement of one thread. -/
namespace LinuxCourse.Rwlock
open Library

inductive WriterStage
  | wrlock
  | test
  | increment
  | print
  | unlock
  deriving DecidableEq

inductive ReaderStage
  | rdlock
  | test
  | increment
  | print
  | unlock
  deriving DecidableEq

structure WriterLocals where
  stage : WriterStage
  i : Nat

/-- `printed` are the numbers of the lines that the thread has written. -/
structure ReaderLocals where
  stage : ReaderStage
  i : BitVec 32
  printed : List (BitVec 32)

/-- The program has no `increments`, which counts without an overflow. -/
structure State (ι : Type) where
  lock : RwLock ι
  g_counter : BitVec 32
  increments : Nat
  writer : WriterLocals
  readers : ι → ReaderLocals

variable {ι : Type}

def Writer (state : State ι) : Option (State ι) :=
  match state.writer.stage with
  | .wrlock => state.lock.wrlock.map fun lock => {state with lock,writer := ⟨.test,0⟩}
  | .test =>
    some {state with
      writer := ⟨if state.writer.i < 100 then .increment else .unlock,state.writer.i⟩}
  | .increment =>
    some {state with
      g_counter := state.g_counter+1
      increments := state.increments+1
      writer := ⟨.print,state.writer.i⟩}
  | .print => some {state with writer := ⟨.test,state.writer.i+1⟩}
  | .unlock => state.lock.wrunlock.map fun lock => {state with lock,writer := ⟨.wrlock,state.writer.i⟩}

variable [DecidableEq ι]

def State.set (state : State ι) (id : ι) (reader : ReaderLocals) : State ι :=
  {state with readers := Function.update state.readers id reader}

def Reader (id : ι) (state : State ι) : Option (State ι) :=
  let reader := state.readers id
  match reader.stage with
  | .rdlock =>
    (state.lock.rdlock id).map fun lock => {state with lock}.set id {reader with stage := .test}
  | .test =>
    some (state.set id {reader with
      stage := if reader.i.slt state.g_counter then .increment else .unlock})
  | .increment => some (state.set id {reader with stage := .print,i := reader.i+1})
  | .print => some (state.set id {reader with stage := .test,printed := reader.printed++[reader.i]})
  | .unlock =>
    (state.lock.rdunlock id).map fun lock => {state with lock}.set id {reader with stage := .rdlock}

inductive Action (ι : Type)
  | writer
  | reader (id : ι)

def step (state : State ι) : Action ι → Option (State ι)
  | .writer => Writer state
  | .reader id => Reader id state

def initial : State ι := ⟨.free,0,0,⟨.wrlock,0⟩,fun _ => ⟨.rdlock,0,[]⟩⟩

def run : State ι → List (Action ι) → Option (State ι) := Execution.run step

/-- How far the critical section has come. -/
def WriterLocals.done (writer : WriterLocals) : Nat :=
  match writer.stage with
  | .wrlock | .unlock => 0
  | .test | .increment => writer.i
  | .print => writer.i+1

structure Counts (writer : WriterLocals) (increments : Nat) : Prop where
  round : increments % 100 = writer.done % 100
  bound : writer.i ≤ 100
  room : writer.stage = .increment ∨ writer.stage = .print → writer.i < 100

/-- The line of a number that the thread has counted and not printed yet. -/
def ReaderLocals.pending (reader : ReaderLocals) : List (BitVec 32) :=
  if reader.stage = .print then [reader.i] else []

structure Follows (reader : ReaderLocals) (increments : Nat) : Prop where
  lines : (reader.printed++reader.pending).map BitVec.toNat = List.range' 1 reader.i.toNat
  bound : reader.i.toNat ≤ increments
  room : reader.stage = .increment → reader.i.toNat < increments
  caught : reader.stage = .unlock → reader.i.toNat = increments

structure Consistent (state : State ι) : Prop where
  counter : state.g_counter = BitVec.ofNat 32 state.increments
  writing : state.lock.writing = true ↔ state.writer.stage ≠ .wrlock
  reading : ∀ id, id ∈ state.lock.reading ↔ (state.readers id).stage ≠ .rdlock
  counts : Counts state.writer state.increments
  follows : state.increments < 2^31 → ∀ id, Follows (state.readers id) state.increments

omit [DecidableEq ι] in
theorem idle_follows (reader : ReaderLocals) (increments : Nat) (idle : reader.stage = .rdlock)
    (follows : Follows reader increments) : Follows reader (increments+1) := by
  refine ⟨follows.lines,Nat.le_succ_of_le follows.bound,?_,?_⟩ <;>
    · intro stage
      rw [idle] at stage
      contradiction

omit [DecidableEq ι] in
theorem writer_consistent (state next : State ι) (consistent : Consistent state)
    (stepped : Writer state = some next) : Consistent next := by
  obtain ⟨counter,writing,reading,⟨round,bound,room⟩,follows⟩ := consistent
  obtain ⟨lock,g_counter,increments,⟨stage,i⟩,readers⟩ := state
  cases stage with
  | wrlock =>
    obtain ⟨taken,locked,rfl⟩ := Option.map_eq_some_iff.mp stepped
    obtain ⟨nobody,held,empty⟩ := RwLock.wrlock_cases lock taken locked
    exact ⟨counter,by simp [held],fun id => by rw [empty,← nobody]; exact reading id,
      ⟨round,Nat.zero_le 100,by simp⟩,follows⟩
  | test =>
    obtain rfl := Option.some.inj stepped
    refine ⟨counter,?_,reading,?_,follows⟩
    · rw [writing]
      split <;> simp
    · by_cases more : i < 100
      · rw [if_pos more]
        exact ⟨round,bound,fun _ => more⟩
      · rw [if_neg more]
        have full : i = 100 := Nat.le_antisymm bound (Nat.le_of_not_lt more)
        subst full
        exact ⟨by simpa [WriterLocals.done] using round,bound,by simp⟩
  | increment =>
    obtain rfl := Option.some.inj stepped
    have held : lock.writing = true := writing.mpr nofun
    refine ⟨by rw [counter]; exact (BitVec.ofNat_add increments 1).symm,by simp [held],reading,?_,?_⟩
    · refine ⟨?_,bound,fun _ => room (Or.inl rfl)⟩
      simp only [WriterLocals.done] at round ⊢
      omega
    · intro small id
      -- the lock is the Writer's, so no Reader has progress that the increment could spoil
      have idle : (readers id).stage = .rdlock := by
        rw [← not_not (a := (readers id).stage = .rdlock),← ne_eq,← reading id,lock.exclusive held]
        exact List.not_mem_nil
      exact idle_follows (readers id) increments idle (follows (Nat.lt_of_succ_lt small) id)
  | print =>
    obtain rfl := Option.some.inj stepped
    have inner := room (Or.inr rfl)
    exact ⟨counter,by rw [writing]; simp,reading,⟨round,inner,by simp⟩,follows⟩
  | unlock =>
    obtain ⟨given,unlocked,rfl⟩ := Option.map_eq_some_iff.mp stepped
    obtain ⟨nobody,held,empty⟩ := RwLock.wrunlock_cases lock given unlocked
    exact ⟨counter,by simp [held],fun id => by rw [empty,← nobody]; exact reading id,
      ⟨round,bound,by simp⟩,follows⟩

theorem counter_toNat (g_counter : BitVec 32) (increments : Nat)
    (counter : g_counter = BitVec.ofNat 32 increments) (small : increments < 2^31) :
    g_counter.toNat = increments := by
  rw [counter,BitVec.toNat_ofNat,Nat.mod_eq_of_lt (by omega)]

theorem slt_counter (i g_counter : BitVec 32) (increments : Nat)
    (counter : g_counter = BitVec.ofNat 32 increments) (small : increments < 2^31)
    (bound : i.toNat ≤ increments) : i.slt g_counter = true ↔ i.toNat < increments := by
  have value := counter_toNat g_counter increments counter small
  rw [BitVec.slt_iff_toInt_lt,BitVec.toInt_eq_toNat_of_lt (by omega),
    BitVec.toInt_eq_toNat_of_lt (by omega),value]
  exact Int.ofNat_lt

theorem follows_increment (reader : ReaderLocals) (increments : Nat) (small : increments < 2^31)
    (stage : reader.stage = .increment) (follows : Follows reader increments) :
    Follows {reader with stage := .print,i := reader.i+1} increments := by
  have room := follows.room stage
  have next : (reader.i+1).toNat = reader.i.toNat+1 := by
    have one : (1 : BitVec 32).toNat = 1 := rfl
    rw [BitVec.toNat_add,one,Nat.mod_eq_of_lt (by omega)]
  have lines := follows.lines
  rw [ReaderLocals.pending,stage,if_neg (by decide),List.append_nil] at lines
  refine ⟨?_,by rw [next]; exact room,by simp,by simp⟩
  simp only [ReaderLocals.pending,if_true,List.map_append,List.map_singleton]
  rw [lines,next,List.range'_1_concat,Nat.add_comm 1]

theorem follows_print (reader : ReaderLocals) (increments : Nat) (stage : reader.stage = .print)
    (follows : Follows reader increments) :
    Follows {reader with stage := .test,printed := reader.printed++[reader.i]} increments := by
  have lines := follows.lines
  rw [ReaderLocals.pending,if_pos stage] at lines
  exact ⟨by simpa [ReaderLocals.pending] using lines,follows.bound,by simp,by simp⟩

/-- Stages between which no number is counted and no line is due. -/
theorem follows_move (reader : ReaderLocals) (increments : Nat) (stage : ReaderStage)
    (before : reader.stage ≠ .print) (behind : stage ≠ .print)
    (room : stage = .increment → reader.i.toNat < increments)
    (caught : stage = .unlock → reader.i.toNat = increments) (follows : Follows reader increments) :
    Follows {reader with stage} increments := by
  have lines := follows.lines
  rw [ReaderLocals.pending,if_neg before] at lines
  exact ⟨by simpa [ReaderLocals.pending,behind] using lines,follows.bound,room,caught⟩

theorem consistent_set (state : State ι) (lock : RwLock ι) (id : ι) (reader : ReaderLocals)
    (consistent : Consistent state) (writing : lock.writing = state.lock.writing)
    (held : id ∈ lock.reading ↔ reader.stage ≠ .rdlock)
    (others : ∀ other, other ≠ id → (other ∈ lock.reading ↔ other ∈ state.lock.reading))
    (follows : state.increments < 2^31 → Follows (state.readers id) state.increments →
      Follows reader state.increments) :
    Consistent ({state with lock}.set id reader) := by
  refine ⟨consistent.counter,?_,?_,consistent.counts,?_⟩
  · have same := consistent.writing
    rwa [← writing] at same
  · exact (Function.forall_update_iff state.readers
      fun other reader => other ∈ lock.reading ↔ reader.stage ≠ .rdlock).mpr
      ⟨held,fun other different => (others other different).trans (consistent.reading other)⟩
  · intro small
    exact (Function.forall_update_iff state.readers
      fun _ reader => Follows reader state.increments).mpr
      ⟨follows small (consistent.follows small id),fun other _ => consistent.follows small other⟩

theorem reader_consistent (id : ι) (state next : State ι) (consistent : Consistent state)
    (stepped : Reader id state = some next) : Consistent next := by
  have held := consistent.reading id
  cases stage : (state.readers id).stage with
  | rdlock =>
    simp only [Reader,stage] at stepped
    obtain ⟨taken,locked,rfl⟩ := Option.map_eq_some_iff.mp stepped
    obtain ⟨before,after,reading⟩ := RwLock.rdlock_cases state.lock taken id locked
    refine consistent_set state taken id _ consistent (after.trans before.symm) ?_ ?_ ?_
    · simp [reading]
    · intro other different
      simp [reading,different]
    · exact fun _ => follows_move _ _ .test (by simp [stage]) (by simp) (by simp) (by simp)
  | test =>
    simp only [Reader,stage] at stepped
    obtain rfl := Option.some.inj stepped
    refine consistent_set state state.lock id _ consistent rfl ?_ (fun _ _ => Iff.rfl) ?_
    · rw [held,stage]
      split <;> simp
    · intro small follows
      have more := slt_counter (state.readers id).i state.g_counter state.increments consistent.counter
        small follows.bound
      have bound := follows.bound
      by_cases counted : (state.readers id).i.toNat < state.increments
      · rw [if_pos (more.mpr counted)]
        exact follows_move _ _ .increment (by simp [stage]) (by simp) (fun _ => counted) (by simp) follows
      · rw [if_neg (mt more.mp counted)]
        exact follows_move _ _ .unlock (by simp [stage]) (by simp) (by simp)
          (fun _ => Nat.le_antisymm bound (Nat.le_of_not_lt counted)) follows
  | increment =>
    simp only [Reader,stage] at stepped
    obtain rfl := Option.some.inj stepped
    refine consistent_set state state.lock id _ consistent rfl (by rw [held,stage]; simp)
      (fun _ _ => Iff.rfl) ?_
    exact fun small => follows_increment _ _ small stage
  | print =>
    simp only [Reader,stage] at stepped
    obtain rfl := Option.some.inj stepped
    refine consistent_set state state.lock id _ consistent rfl (by rw [held,stage]; simp)
      (fun _ _ => Iff.rfl) ?_
    exact fun _ => follows_print _ _ stage
  | unlock =>
    simp only [Reader,stage] at stepped
    obtain ⟨given,unlocked,rfl⟩ := Option.map_eq_some_iff.mp stepped
    obtain ⟨before,after,reading⟩ := RwLock.rdunlock_cases state.lock given id unlocked
    refine consistent_set state given id _ consistent (after.trans before.symm) ?_ ?_ ?_
    · simp [reading]
    · intro other different
      simp [reading,different]
    · exact fun _ => follows_move _ _ .rdlock (by simp [stage]) (by simp) (by simp) (by simp)

theorem run_consistent (actions : List (Action ι)) (state : State ι)
    (reached : run initial actions = some state) : Consistent state := by
  refine Execution.run_invariant step Consistent ?_ actions initial state ?_ reached
  · intro state action next consistent stepped
    cases action with
    | writer => exact writer_consistent state next consistent stepped
    | reader id => exact reader_consistent id state next consistent stepped
  · exact ⟨rfl,by simp [initial,RwLock.free],fun id => by simp [initial,RwLock.free],
      ⟨rfl,Nat.zero_le 100,by simp [initial]⟩,fun _ id => ⟨rfl,Nat.le_refl 0,nofun,nofun⟩⟩

omit [DecidableEq ι] in
theorem held_writer (state : State ι) (consistent : Consistent state) (id : ι)
    (held : id ∈ state.lock.reading) : state.writer.stage = .wrlock := by
  rw [← not_not (a := state.writer.stage = .wrlock),← ne_eq,← consistent.writing,
    state.lock.not_writing id held]
  exact Bool.false_ne_true

theorem held_counter (state next : State ι) (consistent : Consistent state) (id : ι)
    (held : id ∈ state.lock.reading) (action : Action ι) (stepped : step state action = some next) :
    next.g_counter = state.g_counter := by
  cases action with
  | writer =>
    simp only [step,Writer,held_writer state consistent id held] at stepped
    obtain ⟨lock,_,rfl⟩ := Option.map_eq_some_iff.mp stepped
    rfl
  | reader id =>
    cases stage : (state.readers id).stage with
    | rdlock | unlock =>
      simp only [step,Reader,stage] at stepped
      obtain ⟨lock,_,rfl⟩ := Option.map_eq_some_iff.mp stepped
      rfl
    | test | increment | print =>
      simp only [step,Reader,stage] at stepped
      obtain rfl := Option.some.inj stepped
      rfl

/-- At every stage but one the printed lines are those of `1` to `i`; between the count of a
number and the call of `printf` the line of that number is due. -/
theorem readers_consistent (actions : List (Action ι)) (state : State ι)
    (reached : run initial actions = some state) (small : state.increments < 2^31) (id : ι) :
    (id ∈ state.lock.reading → 100 ∣ state.g_counter.toNat ∧
      ∀ action next, step state action = some next → next.g_counter = state.g_counter) ∧
    ((state.readers id).printed++(state.readers id).pending).map BitVec.toNat =
      List.range' 1 (state.readers id).i.toNat ∧
    (state.readers id).i.toNat ≤ state.g_counter.toNat ∧
    ((state.readers id).stage = .unlock → (state.readers id).i = state.g_counter) := by
  have consistent := run_consistent actions state reached
  obtain ⟨lines,bound,_,caught⟩ := consistent.follows small id
  have value := counter_toNat state.g_counter state.increments consistent.counter small
  refine ⟨?_,lines,by rw [value]; exact bound,?_⟩
  · intro held
    refine ⟨?_,fun action next => held_counter state next consistent id held action⟩
    have round := consistent.counts.round
    rw [WriterLocals.done,held_writer state consistent id held] at round
    rw [value]
    exact Nat.dvd_of_mod_eq_zero round
  · intro stage
    apply BitVec.eq_of_toNat_eq
    rw [value]
    exact caught stage

/-- One round of the Writer, then one Reader up to its third number. -/
def roundRead : List (Action Bool) :=
  List.replicate 303 .writer++List.replicate 10 (.reader true)

theorem readers_consistent_round : ∃ state,
    run initial roundRead = some state ∧ state.g_counter = 100 ∧ true ∈ state.lock.reading ∧
    (state.readers true).printed = [1,2,3] ∧ 100 ∣ state.g_counter.toNat := by
  have ran : (run initial roundRead).map (fun state =>
      (state.g_counter,state.lock.reading,(state.readers true).printed,state.increments)) =
      some (100,[true],[1,2,3],100) := by decide +kernel
  obtain ⟨state,reached,values⟩ := Option.map_eq_some_iff.mp ran
  simp only [Prod.mk.injEq] at values
  obtain ⟨counter,reading,printed,increments⟩ := values
  have held : true ∈ state.lock.reading := by simp [reading]
  exact ⟨state,reached,counter,held,printed,
    ((readers_consistent roundRead state reached (by rw [increments]; decide) true).1 held).1⟩

end LinuxCourse.Rwlock
