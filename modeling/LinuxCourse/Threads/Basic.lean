import LinuxCourse.Library.Progress

/-! `threads/threads_basic.c`: each thread has a cell of `input_args` for its argument and for
its result, and `main` reads the cell when it has joined the thread. -/
namespace LinuxCourse.ThreadsBasic
open Library

inductive MainStage
  | store (i : Nat)
  | create (i : Nat)
  | aborted (i : Nat)
  | join (i : Nat)
  | print (i : Nat)
  | freeArgs
  | freeIds
  | returned
  deriving DecidableEq

inductive ThreadStage
  | absent
  | print
  | multiply
  | returned
  deriving DecidableEq

inductive Line
  | created (thread : Nat) (arg : BitVec 32)
  | joined (thread : Nat) (value : BitVec 32)
  deriving DecidableEq

/-- `fault` is set by an access to `input_args` after it is freed. -/
structure State where
  main : MainStage
  input_args : Nat → BitVec 32
  freed : Bool
  fault : Bool
  threads : Nat → ThreadStage
  output : List Line

/-- `ok` says whether `pthread_create` works; the assertion ends the process where not. -/
inductive Action
  | main (ok : Bool)
  | thread (i : Nat)
  deriving DecidableEq

def mainStep (num_of_threads : BitVec 32) (ok : Bool) (state : State) : Option State :=
  match state.main with
  | .store i =>
    if i < num_of_threads.toNat then some {state with
      main := .create i
      input_args := Function.update state.input_args i (BitVec.ofNat 32 i)}
    else some {state with main := .join 0}
  | .create i =>
    if ok then some {state with
      main := .store (i+1)
      threads := Function.update state.threads i .print}
    else some {state with main := .aborted i}
  | .aborted _ => none
  | .join i =>
    if i < num_of_threads.toNat then
      if state.threads i = .returned then some {state with main := .print i} else none
    else some {state with main := .freeArgs}
  | .print i => some {state with
      main := .join (i+1)
      fault := state.fault || state.freed
      output := state.output++[.joined i (state.input_args i)]}
  | .freeArgs => some {state with main := .freeIds,freed := true}
  | .freeIds => some {state with main := .returned}
  | .returned => none

/-- Whether the process is there for its threads to run. -/
def MainStage.alive : MainStage → Bool
  | .aborted _ => false
  | .returned => false
  | _ => true

def threadStep (i : Nat) (state : State) : Option State :=
  if state.main.alive then
    match state.threads i with
    | .absent => none
    | .print => some {state with
        threads := Function.update state.threads i .multiply
        fault := state.fault || state.freed
        output := state.output++[.created i (state.input_args i)]}
    | .multiply => some {state with
        threads := Function.update state.threads i .returned
        fault := state.fault || state.freed
        input_args := Function.update state.input_args i (state.input_args i*2)}
    | .returned => none
  else none

def step (num_of_threads : BitVec 32) (state : State) : Action → Option State
  | .main ok => mainStep num_of_threads ok state
  | .thread i => threadStep i state

/-- What `malloc` returns is not initialized. -/
def initial (input_args : Nat → BitVec 32) : State :=
  ⟨.store 0,input_args,false,false,fun _ => .absent,[]⟩

/-- How many threads are created, and how many joined and printed. -/
def MainStage.made (count : Nat) : MainStage → Nat
  | .store i => i
  | .create i => i
  | .aborted i => i
  | .join _ => count
  | .print _ => count
  | .freeArgs => count
  | .freeIds => count
  | .returned => count

def MainStage.done (count : Nat) : MainStage → Nat
  | .store _ => 0
  | .create _ => 0
  | .aborted _ => 0
  | .join i => i
  | .print i => i
  | .freeArgs => count
  | .freeIds => count
  | .returned => count

def Line.value : Line → Option (BitVec 32)
  | .created _ _ => none
  | .joined _ value => some value

def Line.arg (i : Nat) : Line → Option (BitVec 32)
  | .created thread arg => if thread = i then some arg else none
  | .joined _ _ => none

/-- The value in a cell is the argument of its thread, and twice that when it has returned. -/
def cell (i : Nat) : ThreadStage → BitVec 32
  | .returned => BitVec.ofNat 32 i*2
  | _ => BitVec.ofNat 32 i

/-- What holds at a place of `main` only. -/
def Placed (count : Nat) (state : State) : Prop :=
  match state.main with
  | .store i => i ≤ count
  | .create i => i < count ∧ state.input_args i = BitVec.ofNat 32 i
  | .aborted i => i < count
  | .join i => i ≤ count
  | .print i => i < count ∧ state.threads i = .returned
  | _ => True

def doubled (count : Nat) : List (BitVec 32) := (List.range count).map fun i => BitVec.ofNat 32 i*2

structure Sound (count : Nat) (state : State) : Prop where
  placed : Placed count state
  absent : ∀ i, state.main.made count ≤ i ↔ state.threads i = .absent
  returned : ∀ i < state.main.done count, state.threads i = .returned
  cells : ∀ i < state.main.made count, state.input_args i = cell i (state.threads i)
  freed : state.freed = true → state.main.done count = count
  fault : state.fault = false
  joined : state.output.filterMap Line.value = doubled (state.main.done count)
  created : ∀ i, state.output.filterMap (Line.arg i) =
    if state.threads i = .absent ∨ state.threads i = .print then [] else [BitVec.ofNat 32 i]

theorem doubled_succ (count : Nat) : doubled (count+1) = doubled count++[BitVec.ofNat 32 count*2] := by
  rw [doubled,doubled,List.range_succ,List.map_append,List.map_singleton]

theorem initial_sound (count : Nat) (input_args : Nat → BitVec 32) : Sound count (initial input_args) := by
  refine ⟨Nat.zero_le _,fun i => ⟨fun _ => rfl,fun _ => Nat.zero_le _⟩,nofun,nofun,nofun,rfl,rfl,?_⟩
  intro i
  exact (if_pos (Or.inl rfl)).symm

theorem made_le (count : Nat) (state : State) (sound : Sound count state) : state.main.made count ≤ count := by
  have placed := sound.placed
  unfold Placed at placed
  cases stage : state.main <;> simp only [stage,MainStage.made] at placed ⊢ <;> omega

/-- A thread that runs has not been joined, so that nothing is freed yet. -/
theorem running_owns (count : Nat) (state : State) (i : Nat) (sound : Sound count state)
    (present : state.threads i ≠ .absent) (runs : state.threads i ≠ .returned) :
    i < state.main.made count ∧ state.main.done count ≤ i ∧ state.freed = false := by
  have made : i < state.main.made count := by
    by_contra late
    exact present ((sound.absent i).mp (Nat.le_of_not_lt late))
  have unjoined : state.main.done count ≤ i := by
    by_contra early
    exact runs (sound.returned i (Nat.lt_of_not_le early))
  have bound := made_le count state sound
  refine ⟨made,unjoined,?_⟩
  by_contra freed
  have done := sound.freed (by simpa using freed)
  omega

/-- A step of the thread `i`, in its own cell and with its own lines. -/
theorem thread_sound (count : Nat) (state : State) (i : Nat) (after : ThreadStage) (arg : BitVec 32)
    (lines : List Line) (sound : Sound count state) (present : state.threads i ≠ .absent)
    (runs : state.threads i ≠ .returned) (stays : after ≠ .absent) (value : arg = cell i after)
    (silent : lines.filterMap Line.value = []) (others : ∀ j, j ≠ i → lines.filterMap (Line.arg j) = [])
    (own : state.output.filterMap (Line.arg i)++lines.filterMap (Line.arg i) =
      if after = .absent ∨ after = .print then [] else [BitVec.ofNat 32 i]) :
    Sound count {state with
      threads := Function.update state.threads i after
      fault := state.fault || state.freed
      input_args := Function.update state.input_args i arg
      output := state.output++lines} := by
  obtain ⟨made,unjoined,kept⟩ := running_owns count state i sound present runs
  constructor
  · have placed := sound.placed
    unfold Placed at placed ⊢
    cases stage : state.main with
    | create k =>
      simp only [stage] at placed ⊢
      have differ : k ≠ i := by
        rw [stage] at made
        exact Ne.symm (Nat.ne_of_lt made)
      rw [Function.update_of_ne differ]
      exact placed
    | print k =>
      simp only [stage] at placed ⊢
      have differ : k ≠ i := by
        rintro rfl
        exact runs placed.2
      rw [Function.update_of_ne differ]
      exact placed
    | store | aborted | join => simpa only [stage] using placed
    | freeArgs | freeIds | returned => trivial
  · intro j
    by_cases same : j = i
    · subst same
      simp only [Function.update_self]
      exact ⟨fun late => absurd made (Nat.not_lt_of_le late),fun gone => absurd gone stays⟩
    · simp only [Function.update_of_ne same]
      exact sound.absent j
  · intro j before
    have differ : j ≠ i := Nat.ne_of_lt (Nat.lt_of_lt_of_le before unjoined)
    simp only [Function.update_of_ne differ]
    exact sound.returned j before
  · intro j before
    by_cases same : j = i
    · subst same
      simp only [Function.update_self]
      exact value
    · simp only [Function.update_of_ne same]
      exact sound.cells j before
  · exact sound.freed
  · simp only [sound.fault,kept,Bool.or_self]
  · rw [List.filterMap_append,silent,List.append_nil]
    exact sound.joined
  · intro j
    rw [List.filterMap_append]
    by_cases same : j = i
    · subst same
      simp only [Function.update_self]
      exact own
    · rw [others j same,List.append_nil]
      simp only [Function.update_of_ne same]
      exact sound.created j

theorem threadStep_sound (count : Nat) (state next : State) (i : Nat) (sound : Sound count state)
    (stepped : threadStep i state = some next) : Sound count next := by
  unfold threadStep at stepped
  split at stepped
  · have own := sound.created i
    have made := fun present runs => (running_owns count state i sound present runs).1
    cases stage : state.threads i with
    | absent | returned =>
      simp only [stage] at stepped
      contradiction
    | print =>
      simp only [stage,Option.some.injEq] at stepped own made
      have value := sound.cells i (made nofun nofun)
      rw [stage] at value
      have silent : [Line.created i (state.input_args i)].filterMap Line.value = [] := rfl
      have kept := thread_sound count state i .multiply (state.input_args i)
        [.created i (state.input_args i)] sound (by rw [stage]; exact nofun) (by rw [stage]; exact nofun)
        nofun value silent (fun j differ => by simp [Line.arg,Ne.symm differ])
        (by simp [own,Line.arg,value,cell])
      rw [Function.update_eq_self] at kept
      exact stepped ▸ kept
    | multiply =>
      simp only [stage,Option.some.injEq] at stepped own made
      have value := sound.cells i (made nofun nofun)
      rw [stage] at value
      have kept := thread_sound count state i .returned (state.input_args i*2) [] sound
        (by rw [stage]; exact nofun) (by rw [stage]; exact nofun) nofun (by rw [value]; rfl) rfl
        (fun _ _ => rfl) (by simp [own])
      rw [List.append_nil] at kept
      exact stepped ▸ kept
  · contradiction

/-- Where `main` goes on without a write to what the threads share. -/
theorem main_sound (count : Nat) (state : State) (before main : MainStage) (freed : Bool)
    (sound : Sound count state) (stage : state.main = before)
    (placed : Placed count {state with main := main,freed := freed})
    (made : main.made count = before.made count) (done : main.done count = before.done count)
    (late : freed = true → state.freed = true ∨ main.done count = count) :
    Sound count {state with main := main,freed := freed} := by
  subst stage
  refine ⟨placed,?_,?_,?_,?_,sound.fault,?_,sound.created⟩
  · simp only [made]
    exact sound.absent
  · simp only [done]
    exact sound.returned
  · simp only [made]
    exact sound.cells
  · intro gone
    rcases late gone with earlier | all
    · exact done.trans (sound.freed earlier)
    · exact all
  · simp only [done]
    exact sound.joined

theorem store_sound (count i : Nat) (state : State) (sound : Sound count state) (stage : state.main = .store i)
    (before : i < count) :
    Sound count {state with
      main := .create i
      input_args := Function.update state.input_args i (BitVec.ofNat 32 i)} := by
  obtain ⟨_,absent,returned,cells,freed,fault,joined,created⟩ := sound
  rw [stage] at absent returned cells freed joined
  refine ⟨⟨before,Function.update_self _ _ _⟩,absent,returned,?_,freed,fault,joined,created⟩
  intro j early
  have differ : j ≠ i := Nat.ne_of_lt early
  simp only [Function.update_of_ne differ]
  exact cells j early

theorem create_sound (count i : Nat) (state : State) (sound : Sound count state)
    (stage : state.main = .create i) :
    Sound count {state with
      main := .store (i+1)
      threads := Function.update state.threads i .print} := by
  obtain ⟨placed,absent,returned,cells,freed,fault,joined,created⟩ := sound
  simp only [Placed,stage] at placed
  rw [stage] at absent returned cells freed joined
  have fresh : state.threads i = .absent := (absent i).mp (Nat.le_refl i)
  refine ⟨placed.1,?_,nofun,?_,freed,fault,joined,?_⟩
  · intro j
    by_cases same : j = i
    · subst same
      simp only [Function.update_self,MainStage.made]
      exact ⟨fun late => absurd late (Nat.not_succ_le_self j),nofun⟩
    · simp only [Function.update_of_ne same]
      rw [← absent j]
      simp only [MainStage.made]
      omega
  · intro j early
    by_cases same : j = i
    · subst same
      simp only [Function.update_self]
      exact placed.2
    · simp only [Function.update_of_ne same]
      simp only [MainStage.made] at early
      exact cells j (show j < i by omega)
  · intro j
    rw [created j]
    by_cases same : j = i
    · subst same
      simp only [Function.update_self,fresh,true_or,or_true,if_true]
    · simp only [Function.update_of_ne same]

theorem print_sound (count i : Nat) (state : State) (sound : Sound count state) (stage : state.main = .print i) :
    Sound count {state with
      main := .join (i+1)
      fault := state.fault || state.freed
      output := state.output++[.joined i (state.input_args i)]} := by
  obtain ⟨placed,absent,returned,cells,freed,fault,joined,created⟩ := sound
  simp only [Placed,stage] at placed
  rw [stage] at absent returned cells freed joined
  obtain ⟨before,past⟩ := placed
  have value := cells i before
  rw [past] at value
  have kept : state.freed = false := by
    by_contra gone
    have all : i = count := freed (by simpa using gone)
    omega
  refine ⟨before,absent,?_,cells,?_,?_,?_,?_⟩
  · intro j early
    rcases Nat.lt_succ_iff_lt_or_eq.mp early with earlier | rfl
    · exact returned j earlier
    · exact past
  · intro gone
    rw [kept] at gone
    contradiction
  · simp only [fault,kept,Bool.or_self]
  · rw [List.filterMap_append,joined,MainStage.done,MainStage.done,doubled_succ,value]
    rfl
  · intro j
    rw [List.filterMap_append,created j]
    exact List.append_nil _

theorem mainStep_sound (num_of_threads : BitVec 32) (ok : Bool) (state next : State)
    (sound : Sound num_of_threads.toNat state) (stepped : mainStep num_of_threads ok state = some next) :
    Sound num_of_threads.toNat next := by
  have placed := sound.placed
  unfold mainStep at stepped
  cases stage : state.main with
  | store i =>
    simp only [stage,Placed] at stepped placed
    split at stepped
    · rename_i before
      exact Option.some.inj stepped ▸ store_sound _ i state sound stage before
    · have all : num_of_threads.toNat = i := by omega
      exact Option.some.inj stepped ▸
        main_sound _ state _ (.join 0) state.freed sound stage (Nat.zero_le _) all rfl Or.inl
  | create i =>
    simp only [stage,Placed] at stepped placed
    split at stepped
    · exact Option.some.inj stepped ▸ create_sound _ i state sound stage
    · exact Option.some.inj stepped ▸
        main_sound _ state _ (.aborted i) state.freed sound stage placed.1 rfl rfl Or.inl
  | join i =>
    simp only [stage,Placed] at stepped placed
    split at stepped
    · rename_i before
      split at stepped
      · rename_i past
        exact Option.some.inj stepped ▸
          main_sound _ state _ (.print i) state.freed sound stage ⟨before,past⟩ rfl rfl Or.inl
      · contradiction
    · have all : num_of_threads.toNat = i := by omega
      exact Option.some.inj stepped ▸
        main_sound _ state _ .freeArgs state.freed sound stage trivial rfl all Or.inl
  | print i =>
    simp only [stage] at stepped
    exact Option.some.inj stepped ▸ print_sound _ i state sound stage
  | freeArgs =>
    simp only [stage] at stepped
    exact Option.some.inj stepped ▸
      main_sound _ state _ .freeIds true sound stage trivial rfl rfl fun _ => Or.inr rfl
  | freeIds =>
    simp only [stage] at stepped
    exact Option.some.inj stepped ▸
      main_sound _ state _ .returned state.freed sound stage trivial rfl rfl Or.inl
  | aborted | returned =>
    simp only [stage] at stepped
    contradiction

theorem step_sound (num_of_threads : BitVec 32) (state next : State) (action : Action)
    (sound : Sound num_of_threads.toNat state) (stepped : step num_of_threads state action = some next) :
    Sound num_of_threads.toNat next := by
  cases action with
  | main ok => exact mainStep_sound num_of_threads ok state next sound stepped
  | thread i => exact threadStep_sound _ state next i sound stepped

theorem run_sound (num_of_threads : BitVec 32) (input_args : Nat → BitVec 32) (actions : List Action)
    (final : State)
    (reached : Execution.run (step num_of_threads) (initial input_args) actions = some final) :
    Sound num_of_threads.toNat final :=
  Execution.run_invariant (step num_of_threads) (Sound num_of_threads.toNat)
    (fun state action next => step_sound num_of_threads state next action) actions _ final
    (initial_sound _ input_args) reached

/-- No thread touches memory that is freed, each prints its own number once, and `main` prints
the doubles in order, all of them before it returns. -/
theorem run_doubles (num_of_threads : BitVec 32) (input_args : Nat → BitVec 32) (actions : List Action)
    (final : State)
    (reached : Execution.run (step num_of_threads) (initial input_args) actions = some final) :
    final.fault = false ∧
      (∃ done ≤ num_of_threads.toNat, final.output.filterMap Line.value = doubled done) ∧
      (∀ i, final.output.filterMap (Line.arg i) = [] ∨
        final.output.filterMap (Line.arg i) = [BitVec.ofNat 32 i]) ∧
      (final.main = .returned → final.output.filterMap Line.value = doubled num_of_threads.toNat ∧
        ∀ i < num_of_threads.toNat, final.output.filterMap (Line.arg i) = [BitVec.ofNat 32 i]) := by
  have sound := run_sound num_of_threads input_args actions final reached
  refine ⟨sound.fault,⟨final.main.done num_of_threads.toNat,?_,sound.joined⟩,?_,?_⟩
  · have placed := sound.placed
    unfold Placed at placed
    cases stage : final.main <;> simp only [stage,MainStage.done] at placed ⊢ <;> omega
  · intro i
    rw [sound.created i]
    split
    · exact Or.inl rfl
    · exact Or.inr rfl
  · intro stage
    have joined := sound.joined
    have returned := sound.returned
    rw [stage] at joined returned
    refine ⟨joined,?_⟩
    intro i before
    rw [sound.created i,returned i before]
    rfl

def MainStage.progress (count : Nat) : MainStage → Nat
  | .store i => 2*i
  | .create i => 2*i+1
  | .aborted i => 2*i+2
  | .join i => 2*count+1+2*i
  | .print i => 2*count+2+2*i
  | .freeArgs => 4*count+2
  | .freeIds => 4*count+3
  | .returned => 4*count+4

def ThreadStage.progress : ThreadStage → Nat
  | .absent => 0
  | .print => 0
  | .multiply => 1
  | .returned => 2

def progress (count : Nat) (state : State) : Nat :=
  state.main.progress count+Progress.total (ThreadStage.progress ∘ state.threads) (List.range count)

theorem total_threads (count i : Nat) (threads : Nat → ThreadStage) (after : ThreadStage) (inside : i < count) :
    Progress.total (ThreadStage.progress ∘ Function.update threads i after) (List.range count)+
        (threads i).progress =
      Progress.total (ThreadStage.progress ∘ threads) (List.range count)+after.progress := by
  rw [Function.comp_update]
  exact Progress.total_update (ThreadStage.progress ∘ threads) (List.range count) i after.progress
    List.nodup_range (List.mem_range.mpr inside)

theorem mainStep_progress (num_of_threads : BitVec 32) (ok : Bool) (state next : State)
    (sound : Sound num_of_threads.toNat state) (stepped : mainStep num_of_threads ok state = some next) :
    progress num_of_threads.toNat next = progress num_of_threads.toNat state+1 := by
  have placed := sound.placed
  unfold mainStep at stepped
  cases stage : state.main with
  | store i =>
    simp only [stage,Placed] at stepped placed
    split at stepped <;> obtain rfl := Option.some.inj stepped <;>
      simp only [progress,stage,MainStage.progress] <;> omega
  | create i =>
    simp only [stage,Placed] at stepped placed
    split at stepped
    · obtain rfl := Option.some.inj stepped
      have same := total_threads num_of_threads.toNat i state.threads .print placed.1
      have fresh : state.threads i = .absent := (sound.absent i).mp (by rw [stage]; exact Nat.le_refl i)
      rw [fresh] at same
      simp only [ThreadStage.progress] at same
      simp only [progress,stage,MainStage.progress]
      omega
    · obtain rfl := Option.some.inj stepped
      simp only [progress,stage,MainStage.progress]
      omega
  | join i =>
    simp only [stage,Placed] at stepped placed
    split at stepped
    · split at stepped
      · obtain rfl := Option.some.inj stepped
        simp only [progress,stage,MainStage.progress]
        omega
      · contradiction
    · obtain rfl := Option.some.inj stepped
      simp only [progress,stage,MainStage.progress]
      omega
  | print i | freeArgs | freeIds =>
    simp only [stage] at stepped
    obtain rfl := Option.some.inj stepped
    simp only [progress,stage,MainStage.progress]
    omega
  | aborted | returned =>
    simp only [stage] at stepped
    contradiction

theorem threadStep_progress (count i : Nat) (state next : State) (sound : Sound count state)
    (stepped : threadStep i state = some next) : progress count next = progress count state+1 := by
  unfold threadStep at stepped
  split at stepped
  · have inside := fun present runs =>
      Nat.lt_of_lt_of_le (running_owns count state i sound present runs).1 (made_le count state sound)
    cases stage : state.threads i with
    | absent | returned =>
      simp only [stage] at stepped
      contradiction
    | print =>
      simp only [stage,Option.some.injEq] at stepped inside
      have more := total_threads count i state.threads .multiply (inside nofun nofun)
      rw [stage] at more
      simp only [ThreadStage.progress] at more
      subst stepped
      simp only [progress]
      omega
    | multiply =>
      simp only [stage,Option.some.injEq] at stepped inside
      have more := total_threads count i state.threads .returned (inside nofun nofun)
      rw [stage] at more
      simp only [ThreadStage.progress] at more
      subst stepped
      simp only [progress]
      omega
  · contradiction

theorem step_progress (num_of_threads : BitVec 32) (state next : State) (action : Action)
    (sound : Sound num_of_threads.toNat state) (stepped : step num_of_threads state action = some next) :
    progress num_of_threads.toNat next = progress num_of_threads.toNat state+1 := by
  cases action with
  | main ok => exact mainStep_progress num_of_threads ok state next sound stepped
  | thread i => exact threadStep_progress _ i state next sound stepped

theorem progress_le (count : Nat) (state : State) (sound : Sound count state) :
    progress count state ≤ 6*count+4 := by
  have threads : Progress.total (ThreadStage.progress ∘ state.threads) (List.range count) ≤
      2*(List.range count).length := by
    apply Progress.total_le
    intro i _
    rw [Function.comp_apply]
    cases state.threads i <;> decide
  rw [List.length_range] at threads
  have main : state.main.progress count ≤ 4*count+4 := by
    have placed := sound.placed
    unfold Placed at placed
    cases stage : state.main <;> simp only [stage,MainStage.progress] at placed ⊢ <;> omega
  rw [progress]
  omega

theorem initial_progress (count : Nat) (input_args : Nat → BitVec 32) :
    progress count (initial input_args) = 0 := by
  have none : Progress.total (ThreadStage.progress ∘ (initial input_args).threads) (List.range count) ≤
      0*(List.range count).length := Progress.total_le _ _ 0 fun _ _ => Nat.le_refl 0
  rw [Nat.zero_mul] at none
  exact Nat.le_antisymm (Nat.add_le_add (Nat.le_refl 0) none) (Nat.zero_le _)

theorem step_exists (num_of_threads : BitVec 32) (state : State) (sound : Sound num_of_threads.toNat state)
    (alive : state.main.alive = true) : ∃ action, (step num_of_threads state action).isSome := by
  cases stage : state.main with
  | join i =>
    by_cases before : i < num_of_threads.toNat
    · cases thread : state.threads i with
      | returned =>
        refine ⟨.main true,?_⟩
        simp only [step,mainStep,stage,if_pos before,thread,if_true,Option.isSome_some]
      | absent =>
        -- all threads are created by now
        have late := (sound.absent i).mpr thread
        rw [stage] at late
        exact absurd before (Nat.not_lt_of_le late)
      | print | multiply =>
        refine ⟨.thread i,?_⟩
        simp only [step,threadStep,alive,thread,if_true,Option.isSome_some]
    · refine ⟨.main true,?_⟩
      simp only [step,mainStep,stage,if_neg before,Option.isSome_some]
  | store i =>
    refine ⟨.main true,?_⟩
    simp only [step,mainStep,stage]
    split <;> rfl
  | create | print | freeArgs | freeIds =>
    refine ⟨.main true,?_⟩
    simp only [step,mainStep,stage]
    rfl
  | aborted | returned =>
    rw [stage] at alive
    contradiction

/-- The program comes to its end, whatever the scheduler does: no run is longer, and none is
stuck before `main` has returned or an assertion has failed. -/
theorem run_terminates (num_of_threads : BitVec 32) (input_args : Nat → BitVec 32) (actions : List Action)
    (final : State)
    (reached : Execution.run (step num_of_threads) (initial input_args) actions = some final) :
    actions.length ≤ 6*num_of_threads.toNat+4 ∧
      ((∀ action, step num_of_threads final action = none) ↔
        final.main = .returned ∨ ∃ i, final.main = .aborted i) := by
  have sound := run_sound num_of_threads input_args actions final reached
  constructor
  · have length := Progress.run_progress (step num_of_threads) (progress num_of_threads.toNat)
      (Sound num_of_threads.toNat)
      (fun state action next => step_sound num_of_threads state next action)
      (fun state action next => step_progress num_of_threads state next action) actions _ final
      (initial_sound _ input_args) reached
    have bound := progress_le num_of_threads.toNat final sound
    rw [initial_progress] at length
    omega
  · constructor
    · intro stuck
      by_contra runs
      have alive : final.main.alive = true := by
        cases stage : final.main <;> simp_all [MainStage.alive]
      obtain ⟨action,enabled⟩ := step_exists num_of_threads final sound alive
      rw [stuck action] at enabled
      contradiction
    · rintro (stage | ⟨i,stage⟩) action <;> cases action <;>
        simp [step,mainStep,threadStep,MainStage.alive,stage]

/-- Two threads; the second one runs first. -/
def pair : List Action :=
  [.main true,.main true,.main true,.main true,.thread 1,.thread 1,.main true,.thread 0,.thread 0]++
    List.replicate 7 (.main true)

theorem run_doubles_pair :
    ∃ final, Execution.run (step 2) (initial fun _ => 7) pair = some final ∧
      final.main = .returned ∧ final.fault = false ∧
      final.output.filterMap Line.value = doubled (2 : BitVec 32).toNat ∧
      ∀ i < (2 : BitVec 32).toNat, final.output.filterMap (Line.arg i) = [BitVec.ofNat 32 i] := by
  have reached : Execution.run (step 2) (initial fun _ => 7) pair = some _ := rfl
  obtain ⟨safe,-,-,returned⟩ := run_doubles 2 (fun _ => 7) pair _ reached
  exact ⟨_,reached,rfl,safe,returned rfl⟩

theorem run_terminates_pair :
    ∃ final, Execution.run (step 2) (initial fun _ => 7) pair = some final ∧
      pair.length ≤ 6*(2 : BitVec 32).toNat+4 ∧
      ((∀ action, step 2 final action = none) ↔ final.main = .returned ∨ ∃ i, final.main = .aborted i) := by
  have reached : Execution.run (step 2) (initial fun _ => 7) pair = some _ := rfl
  exact ⟨_,reached,run_terminates 2 (fun _ => 7) pair _ reached⟩

end LinuxCourse.ThreadsBasic
