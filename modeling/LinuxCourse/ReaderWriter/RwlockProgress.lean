import LinuxCourse.Library.Response
import LinuxCourse.ReaderWriter.Rwlock

/-! What the Writer and the Readers of `rwlock.c` can always still do. -/
namespace LinuxCourse.Rwlock
open Library Response

variable {ι : Type}

/-- The increments that the Writer's round still has to make. -/
def WriterLocals.due (writer : WriterLocals) : Nat :=
  match writer.stage with
  | .wrlock | .unlock => 0
  | .test | .increment => 100-writer.i
  | .print => 99-writer.i

def WriterLocals.rank (writer : WriterLocals) : Nat :=
  match writer.stage with
  | .wrlock => 0
  | .unlock => 1
  | .test => 3*(100-writer.i)+2
  | .increment => 3*(100-writer.i)+1
  | .print => 3*(100-writer.i)

def ReaderLocals.rank (reader : ReaderLocals) (increments : Nat) : Nat :=
  match reader.stage with
  | .rdlock | .unlock => 0
  | .test => 3*(increments-reader.i.toNat)+2
  | .increment => 3*(increments-reader.i.toNat)+1
  | .print => 3*(increments-reader.i.toNat)+3

theorem writer_forward (state : State ι) (consistent : Consistent state) (busy : state.writer.stage ≠ .wrlock) :
    ∃ next, Writer state = some next ∧ next.increments+next.writer.due = state.increments+state.writer.due ∧
      next.writer.rank < state.writer.rank := by
  have held := consistent.writing.mpr busy
  obtain ⟨_,bound,room⟩ := consistent.counts
  obtain ⟨lock,g_counter,increments,⟨stage,i⟩,readers⟩ := state
  simp only at held bound room
  cases stage with
  | wrlock => contradiction
  | test =>
    refine ⟨_,rfl,?_,?_⟩
    · by_cases more : i < 100
      · simp only [if_pos more,WriterLocals.due]
      · simp only [if_neg more,WriterLocals.due]
        omega
    · by_cases more : i < 100
      · simp only [if_pos more,WriterLocals.rank]
        omega
      · simp only [if_neg more,WriterLocals.rank]
        omega
  | increment =>
    have inner := room (Or.inl rfl)
    refine ⟨_,rfl,?_,?_⟩
    · simp only [WriterLocals.due]
      omega
    · simp only [WriterLocals.rank]
      omega
  | print =>
    have inner := room (Or.inr rfl)
    refine ⟨_,rfl,?_,?_⟩
    · simp only [WriterLocals.due]
      omega
    · simp only [WriterLocals.rank]
      omega
  | unlock =>
    have unlocked : lock.wrunlock = some .free := if_pos held
    exact ⟨_,Option.map_eq_some_iff.mpr ⟨_,unlocked,rfl⟩,rfl,Nat.succ_pos 0⟩

theorem due_le (writer : WriterLocals) : writer.due ≤ 100 := by
  unfold WriterLocals.due
  split <;> omega

variable [DecidableEq ι]

theorem step_consistent (state : State ι) (action : Action ι) (next : State ι) (consistent : Consistent state)
    (stepped : step state action = some next) : Consistent next := by
  cases action with
  | writer => exact writer_consistent state next consistent stepped
  | reader id => exact reader_consistent id state next consistent stepped

/-- The Writer's round comes to its end. -/
theorem leads_round (state : State ι) (consistent : Consistent state) :
    Leads step (fun next => Consistent next ∧ next.increments = state.increments+state.writer.due ∧
      next.writer.stage = .wrlock) state.writer.rank state := by
  have ended := @leads_rank _ _ step
    (fun next => Consistent next ∧ next.increments+next.writer.due = state.increments+state.writer.due)
    (fun next => next.writer.stage = .wrlock) (fun next => next.writer.rank) ?_ state ⟨consistent,rfl⟩
  · apply leads_imp _ _ _ state _ ended
    intro next ⟨⟨still,same⟩,home⟩
    refine ⟨still,?_,home⟩
    rw [← same,WriterLocals.due,home,Nat.add_zero]
  · intro middle ⟨still,same⟩ busy
    obtain ⟨next,stepped,kept,lower⟩ := writer_forward middle still busy
    exact ⟨.writer,next,stepped,⟨step_consistent middle .writer next still stepped,kept.trans same⟩,lower⟩

omit [DecidableEq ι] in
theorem increment_toNat (i : BitVec 32) (increments : Nat) (small : increments < 2^31)
    (room : i.toNat < increments) :
    (i+1).toNat = i.toNat+1 := by
  have one : (1 : BitVec 32).toNat = 1 := rfl
  rw [BitVec.toNat_add,one,Nat.mod_eq_of_lt (by omega)]

/-- Inside the lock a Reader comes closer to the counter, and to its unlock. -/
theorem reader_forward (state : State ι) (id : ι) (consistent : Consistent state)
    (small : state.increments < 2^31) (held : id ∈ state.lock.reading)
    (inner : (state.readers id).stage ≠ .unlock) :
    ∃ reader, Reader id state = some (state.set id reader) ∧
      reader.rank state.increments < (state.readers id).rank state.increments := by
  have follows := consistent.follows small id
  cases stage : (state.readers id).stage with
  | rdlock => exact absurd stage ((consistent.reading id).mp held)
  | unlock => contradiction
  | test =>
    simp only [Reader,stage]
    refine ⟨_,rfl,?_⟩
    split
    · simp only [ReaderLocals.rank,stage]
      omega
    · simp only [ReaderLocals.rank,stage]
      omega
  | increment =>
    have room := follows.room stage
    simp only [Reader,stage]
    refine ⟨_,rfl,?_⟩
    simp only [ReaderLocals.rank,stage]
    rw [increment_toNat _ _ small room]
    omega
  | print =>
    simp only [Reader,stage]
    refine ⟨_,rfl,?_⟩
    simp only [ReaderLocals.rank,stage]
    omega

theorem leads_caught (state : State ι) (id : ι) (consistent : Consistent state)
    (small : state.increments < 2^31) (held : id ∈ state.lock.reading) :
    Leads step (fun next => Consistent next ∧ next.lock = state.lock ∧ next.writer = state.writer ∧
      next.increments = state.increments ∧ (next.readers id).stage = .unlock)
      ((state.readers id).rank state.increments) state := by
  have caught := @leads_rank _ _ step
    (fun next => Consistent next ∧ next.lock = state.lock ∧ next.writer = state.writer ∧
      next.increments = state.increments)
    (fun next => (next.readers id).stage = .unlock) (fun next => (next.readers id).rank state.increments)
    ?_ state ⟨consistent,rfl,rfl,rfl⟩
  · apply leads_imp _ _ _ state _ caught
    intro next ⟨⟨still,lock,writer,same⟩,stage⟩
    exact ⟨still,lock,writer,same,stage⟩
  · intro middle ⟨still,lock,writer,same⟩ inner
    obtain ⟨reader,stepped,lower⟩ := reader_forward middle id still (same ▸ small) (lock ▸ held) inner
    refine ⟨.reader id,_,stepped,⟨step_consistent middle (.reader id) _ still stepped,lock,writer,same⟩,?_⟩
    rw [← same]
    simpa only [State.set,Function.update_self] using lower

omit [DecidableEq ι] in
/-- A Reader at its unlock has printed every number there is. -/
theorem caught_printed (state : State ι) (id : ι) (consistent : Consistent state)
    (small : state.increments < 2^31) (stage : (state.readers id).stage = .unlock) :
    (state.readers id).printed.map BitVec.toNat = List.range' 1 state.increments := by
  obtain ⟨lines,_,_,caught⟩ := consistent.follows small id
  rw [ReaderLocals.pending,stage,if_neg (by decide),List.append_nil,caught stage] at lines
  exact lines

omit [DecidableEq ι] in
theorem rdlock_idle (state : State ι) (id : ι) (consistent : Consistent state)
    (home : state.writer.stage = .wrlock) : ∃ taken, state.lock.rdlock id = some taken := by
  have unheld : state.lock.writing = false := by
    rw [← Bool.not_eq_true,consistent.writing,home,ne_eq,not_not]
  rw [RwLock.rdlock,if_pos unheld]
  exact ⟨_,rfl⟩

theorem leads_printed (state : State ι) (id : ι) (consistent : Consistent state)
    (small : state.increments < 2^31) (home : state.writer.stage = .wrlock) :
    ∃ limit, Leads step (fun next => next.increments = state.increments ∧
      (next.readers id).printed.map BitVec.toNat = List.range' 1 next.increments) limit state := by
  have prints (middle : State ι) (still : Consistent middle) (same : middle.increments = state.increments)
      (held : id ∈ middle.lock.reading) : Leads step (fun next => next.increments = state.increments ∧
        (next.readers id).printed.map BitVec.toNat = List.range' 1 next.increments)
        ((middle.readers id).rank middle.increments) middle := by
    apply leads_imp _ _ _ middle _ (leads_caught middle id still (same ▸ small) held)
    intro next ⟨after,_,_,equal,stage⟩
    refine ⟨equal.trans same,caught_printed next id after ?_ stage⟩
    rw [equal,same]
    exact small
  by_cases held : id ∈ state.lock.reading
  · exact ⟨_,prints state consistent rfl held⟩
  · have stage : (state.readers id).stage = .rdlock := by
      by_contra busy
      exact held ((consistent.reading id).mpr busy)
    obtain ⟨taken,locked⟩ := rdlock_idle state id consistent home
    obtain ⟨_,_,reading⟩ := RwLock.rdlock_cases state.lock taken id locked
    have stepped : step state (.reader id) =
        some ({state with lock := taken}.set id {state.readers id with stage := .test}) := by
      simp only [step,Reader,stage,locked,Option.map_some]
    have still := step_consistent state (.reader id) _ consistent stepped
    have entered : id ∈ taken.reading := by rw [reading]; exact List.mem_cons_self
    obtain ⟨more,next,_,ran,ends⟩ := prints _ still rfl entered
    have whole := (Execution.run_cons step state (.reader id) more next).mpr ⟨_,stepped,ran⟩
    exact ⟨_,leads_run _ state next _ whole ends⟩

/-- The Readers that have the lock give it back, one after the other. -/
theorem leads_empty (count : Nat) (state : State ι) (consistent : Consistent state)
    (small : state.increments < 2^31) (home : state.writer.stage = .wrlock)
    (most : state.lock.reading.length ≤ count) :
    ∃ limit, Leads step (fun next => Consistent next ∧ next.increments = state.increments ∧
      next.writer.stage = .wrlock ∧ next.lock.reading = []) limit state := by
  induction count generalizing state with
  | zero =>
    have nobody := List.eq_nil_of_length_eq_zero (Nat.le_zero.mp most)
    exact ⟨0,leads_here _ 0 state ⟨consistent,rfl,home,nobody⟩⟩
  | succ count ih =>
    cases readers : state.lock.reading with
    | nil => exact ⟨0,leads_here _ 0 state ⟨consistent,rfl,home,readers⟩⟩
    | cons id rest =>
      have held : id ∈ state.lock.reading := by rw [readers]; exact List.mem_cons_self
      obtain ⟨first,next,_,begun,still,lock,writer,same,stage⟩ := leads_caught state id consistent small held
      obtain ⟨given,unlocked⟩ : ∃ given, next.lock.rdunlock id = some given := by
        rw [RwLock.rdunlock,lock,if_pos held]
        exact ⟨_,rfl⟩
      have stepped : step next (.reader id) =
          some ({next with lock := given}.set id {next.readers id with stage := .rdlock}) := by
        simp only [step,Reader,stage,unlocked,Option.map_some]
      obtain ⟨_,_,reading⟩ := RwLock.rdunlock_cases next.lock given id unlocked
      have fewer : given.reading.length ≤ count := by
        have less : (state.lock.reading.filter (· ≠ id)).length < state.lock.reading.length :=
          List.length_filter_lt_length_iff_exists.mpr ⟨id,held,by simp⟩
        rw [reading,lock]
        omega
      obtain ⟨limit,rest,final,_,ran,reached⟩ := ih _ (step_consistent next (.reader id) _ still stepped)
        (same ▸ small) (writer ▸ home) fewer
      refine ⟨_,first++.reader id::rest,final,Nat.le_refl _,?_,?_⟩
      · rw [Execution.run_append,begun]
        exact (Execution.run_cons step next (.reader id) rest final).mpr ⟨_,stepped,ran⟩
      · exact ⟨reached.1,reached.2.1.trans same,reached.2.2⟩

/-- Nobody is shut out for good: from every reachable state each Reader can come to have
printed all the numbers up to the end of the Writer's round, and the Writer can come to
begin its next round. -/
theorem run_admits (actions : List (Action ι)) (state : State ι) (reached : run initial actions = some state)
    (small : state.increments+100 < 2^31) :
    (∀ id, ∃ more next, run state more = some next ∧ next.increments = state.increments+state.writer.due ∧
      (next.readers id).printed.map BitVec.toNat = List.range' 1 next.increments) ∧
    ∃ more next, run state more = some next ∧ next.increments = state.increments+state.writer.due ∧
      next.lock.writing = true ∧ next.writer = ⟨.test,0⟩ := by
  have consistent := run_consistent actions state reached
  have due := due_le state.writer
  obtain ⟨round,middle,_,ended,still,same,home⟩ := leads_round state consistent
  have little : middle.increments < 2^31 := by omega
  refine ⟨?_,?_⟩
  · intro id
    obtain ⟨_,more,next,_,ran,equal,printed⟩ := leads_printed middle id still little home
    refine ⟨round++more,next,?_,equal.trans same,printed⟩
    rw [run,Execution.run_append,ended]
    exact ran
  · obtain ⟨_,more,next,_,ran,after,equal,there,empty⟩ := leads_empty _ middle still little home (Nat.le_refl _)
    obtain ⟨taken,locked⟩ : ∃ taken, next.lock.wrlock = some taken := by
      have unheld : next.lock.writing = false := by
        rw [← Bool.not_eq_true,after.writing,there,ne_eq,not_not]
      rw [RwLock.wrlock,if_pos ⟨unheld,empty⟩]
      exact ⟨_,rfl⟩
    have stepped : step next .writer = some {next with lock := taken,writer := ⟨.test,0⟩} := by
      simp only [step,Writer,there,locked,Option.map_some]
    have held := (RwLock.wrlock_cases next.lock taken locked).2.1
    refine ⟨round++(more++[.writer]),{next with lock := taken,writer := ⟨.test,0⟩},?_,equal.trans same,held,rfl⟩
    rw [run,Execution.run_append,ended,Option.bind_some,Execution.run_append,ran]
    exact (Execution.run_cons step next .writer [] _).mpr ⟨_,stepped,rfl⟩

theorem run_admits_round : ∃ state, run initial roundRead = some state ∧
    (∃ more next, run state more = some next ∧ next.increments = 100 ∧
      (next.readers false).printed.map BitVec.toNat = List.range' 1 100) ∧
    ∃ more next, run state more = some next ∧ next.increments = 100 ∧
      next.lock.writing = true ∧ next.writer = ⟨.test,0⟩ := by
  have ran : (run initial roundRead).map (fun state => (state.increments,state.writer.due)) = some (100,0) := by
    decide +kernel
  obtain ⟨state,reached,values⟩ := Option.map_eq_some_iff.mp ran
  obtain ⟨increments,due⟩ := Prod.mk.inj values
  obtain ⟨prints,writes⟩ := run_admits roundRead state reached (by omega)
  rw [increments,due] at prints writes
  obtain ⟨more,next,continued,same,printed⟩ := prints false
  rw [same] at printed
  exact ⟨state,reached,⟨more,next,continued,same,printed⟩,writes⟩

end LinuxCourse.Rwlock
