import LinuxCourse.Library.Delivery

/-! A writer and a reader on a pipe of which both have each end, as after a `fork`. The
writer may go at any byte. A read of an empty pipe blocks as long as anyone still has a
write end, the reader itself included, so it depends on whether the reader has kept its own. -/
namespace LinuxCourse.Library.Lingering

variable {α : Type}

/-- The reader runs its program over and over until a result stops it. -/
structure State (α : Type) where
  channel : Channel.State α
  alive : Bool
  stopped : Bool

/-- `leave size` is the writer's end, after `size` bytes of the call that it is in. -/
inductive Action
  | write (size : Nat)
  | leave (size : Nat)
  | read
  | finish
  deriving DecidableEq

def lastBytes (channel : Channel.State α) (size : Nat) : List UInt8 :=
  match channel.writes with
  | [] => []
  | call::_ => call.bytes.take size

/-- A program that asks for some bytes before anything else. -/
def Eager (program : Reading α) : Prop :=
  ∃ room count next, program = .read room count next ∧ 0 < count

instance : (program : Reading α) → Decidable (Eager program)
  | .done _ => isFalse (by simp [Eager])
  | .read _ count _ => decidable_of_iff (0 < count) (by simp [Eager])

section System
variable (keeps : Bool) (capacity : Nat) (program : Reading α) (stops : α → Bool)

def step (state : State α) : Action → Option (State α)
  | .write size =>
    if state.alive = true then
      (Channel.push capacity state.channel size).map fun channel => {state with channel := channel}
    else none
  | .leave size =>
    if state.alive = true ∧
        state.channel.pipe.length+(lastBytes state.channel size).length ≤ capacity then
      some {state with
        alive := false
        channel := {state.channel with
          pipe := state.channel.pipe++lastBytes state.channel size
          writes := []
          closed := !keeps}}
    else none
  | .read =>
    if state.stopped = true then none
    else (Channel.pull state.channel).map fun channel => {state with channel := channel}
  | .finish =>
    if state.stopped = true then none
    else
      match state.channel.reader with
      | .done result => some {state with
          channel := {state.channel with results := state.channel.results++[result],reader := program}
          stopped := stops result}
      | .read _ _ _ => none

def initial (atomicSize : Nat) (calls : List (List UInt8)) : State α :=
  ⟨Channel.initial atomicSize program calls,true,false⟩

/-- The writer has gone, and the reader is in a read of an empty pipe that it keeps open. -/
def Stranded (state : State α) : Prop :=
  state.alive = false ∧ state.stopped = false ∧ state.channel.closed = false ∧
    state.channel.overrun = false ∧ state.channel.pipe = [] ∧ Eager state.channel.reader

instance (state : State α) : Decidable (Stranded state) :=
  inferInstanceAs (Decidable (_ ∧ _ ∧ _ ∧ _ ∧ _ ∧ _))

theorem stranded_stuck (state : State α) (stranded : Stranded state) (action : Action) :
    step keeps capacity program stops state action = none := by
  obtain ⟨gone,runs,isOpen,_,empty,room,count,next,reading,asked⟩ := stranded
  cases action with
  | write size => simp [step,gone]
  | leave size => simp [step,gone]
  | read => simp [step,runs,Channel.pull,reading,isOpen,empty,Nat.ne_of_gt asked]
  | finish => simp [step,runs,reading]

theorem step_cases (state next : State α) (action : Action)
    (stepped : step keeps capacity program stops state action = some next) :
    (∃ size channel, action = .write size ∧ state.alive = true ∧
      Channel.push capacity state.channel size = some channel ∧
      next = {state with channel := channel}) ∨
    (∃ size, action = .leave size ∧ state.alive = true ∧
      next = {state with
        alive := false
        channel := {state.channel with
          pipe := state.channel.pipe++lastBytes state.channel size
          writes := []
          closed := !keeps}}) ∨
    (∃ channel, action = .read ∧ state.stopped = false ∧ Channel.pull state.channel = some channel ∧
      next = {state with channel := channel}) ∨
    ∃ result, action = .finish ∧ state.stopped = false ∧ state.channel.reader = .done result ∧
      next = {state with
        channel := {state.channel with results := state.channel.results++[result],reader := program}
        stopped := stops result} := by
  cases action with
  | write size =>
    simp only [step] at stepped
    split at stepped
    · rename_i alive
      obtain ⟨channel,pushed,rfl⟩ := Option.map_eq_some_iff.mp stepped
      exact Or.inl ⟨size,channel,rfl,alive,pushed,rfl⟩
    · contradiction
  | leave size =>
    simp only [step] at stepped
    split at stepped
    · rename_i allowed
      exact Or.inr (Or.inl ⟨size,rfl,allowed.1,(Option.some.inj stepped).symm⟩)
    · contradiction
  | read =>
    simp only [step] at stepped
    split at stepped
    · contradiction
    · rename_i runs
      obtain ⟨channel,pulled,rfl⟩ := Option.map_eq_some_iff.mp stepped
      exact Or.inr (Or.inr (Or.inl ⟨channel,rfl,Bool.eq_false_iff.mpr runs,pulled,rfl⟩))
  | finish =>
    simp only [step] at stepped
    split at stepped
    · contradiction
    · rename_i runs
      split at stepped
      · rename_i result done
        exact Or.inr (Or.inr (Or.inr ⟨result,rfl,Bool.eq_false_iff.mpr runs,done,
          (Option.some.inj stepped).symm⟩))
      · contradiction

end System

/-- A reader that has closed its own write end reads the end of the file at last. -/
theorem released_free (capacity : Nat) (program : Reading α) (stops : α → Bool) (actions : List Action)
    (state final : State α) (shut : state.alive = false → state.channel.closed = true)
    (reached : Execution.run (step false capacity program stops) state actions = some final) :
    ¬Stranded final := by
  have ended : final.alive = false → final.channel.closed = true := by
    refine Execution.run_invariant _ (fun now => now.alive = false → now.channel.closed = true) ?_ actions
      state final shut reached
    intro now action next shut stepped gone
    rcases step_cases false capacity program stops now next action stepped with
      ⟨_,_,_,alive,_,rfl⟩ | ⟨_,_,_,rfl⟩ | ⟨channel,_,_,pulled,rfl⟩ | ⟨_,_,_,_,rfl⟩
    · rw [alive] at gone
      contradiction
    · rfl
    · obtain ⟨_,closed,_⟩ := Channel.pull_frame _ channel pulled
      exact closed.trans (shut gone)
    · exact shut gone
  rintro ⟨gone,_,isOpen,_⟩
  rw [ended gone] at isOpen
  contradiction

/-- A program run on bytes after which nothing comes: its result and what is left, or
nothing when it ends up in a read that blocks. -/
def serve : Reading α → List UInt8 → Option (α × List UInt8)
  | .done result, bytes => some (result,bytes)
  | .read _ count next, bytes =>
    if count = 0 then serve (next (.bytes [])) bytes
    else if bytes = [] then none
    else serve (next (.bytes (bytes.take count))) (bytes.drop count)

def stopsOn (program : Reading α) (stops : α → Bool) : Nat → List UInt8 → Bool
  | 0, _ => false
  | rounds+1, bytes =>
    match serve program bytes with
    | none => false
    | some (result,rest) => stops result || stopsOn program stops rounds rest

/-- The reader, wherever it is, gets a result that stops it out of the bytes that are left. -/
def Reaches (program : Reading α) (stops : α → Bool) (reader : Reading α) (bytes : List UInt8) : Bool :=
  match serve reader bytes with
  | none => false
  | some (result,rest) => stops result || stopsOn program stops rest.length rest

/-- No answer to a request is larger than the object that it is read into. -/
inductive Roomy : Reading α → Prop
  | done (result) : Roomy (.done result)
  | read (room count next) (fits : count ≤ room)
      (rest : ∀ data : List UInt8, data.length ≤ count → Roomy (next (.bytes data))) :
      Roomy (.read room count next)

theorem serve_le (reader : Reading α) (bytes rest : List UInt8) (result : α)
    (served : serve reader bytes = some (result,rest)) : rest.length ≤ bytes.length := by
  induction reader generalizing bytes with
  | done value =>
    obtain ⟨_,rfl⟩ := Prod.mk.inj (Option.some.inj served)
    exact Nat.le_refl _
  | read room count next ih =>
    rw [serve] at served
    split at served
    · exact ih _ bytes served
    · split at served
      · contradiction
      · have less := ih _ _ served
        rw [List.length_drop] at less
        omega

theorem serve_nil (program : Reading α) (eager : Eager program) : serve program [] = none := by
  obtain ⟨room,count,next,rfl,asked⟩ := eager
  rw [serve,if_neg (Nat.ne_of_gt asked),if_pos rfl]

theorem serve_lt (program : Reading α) (eager : Eager program) (bytes rest : List UInt8) (result : α)
    (served : serve program bytes = some (result,rest)) : rest.length < bytes.length := by
  obtain ⟨room,count,next,rfl,asked⟩ := eager
  rw [serve,if_neg (Nat.ne_of_gt asked)] at served
  split at served
  · contradiction
  · rename_i present
    have some := List.length_pos_iff.mpr present
    have less := serve_le _ _ _ _ served
    rw [List.length_drop] at less
    omega

/-- A round of the program, and then as many as there are bytes left. -/
theorem stopsOn_round (program : Reading α) (stops : α → Bool) (eager : Eager program)
    (rounds : Nat) (bytes : List UInt8)
    (agree : ∀ rest : List UInt8, rest.length < bytes.length →
      stopsOn program stops rounds rest = stopsOn program stops rest.length rest) :
    stopsOn program stops (rounds+1) bytes = Reaches program stops program bytes := by
  rw [stopsOn,Reaches]
  cases served : serve program bytes with
  | none => rfl
  | some outcome =>
    obtain ⟨result,rest⟩ := outcome
    simp only
    rw [agree rest (serve_lt program eager bytes rest result served)]

/-- Each round takes some bytes, so as many rounds as there are bytes decide. -/
theorem stopsOn_stable (program : Reading α) (stops : α → Bool) (eager : Eager program)
    (first second : Nat) (bytes : List UInt8) (enough : bytes.length ≤ first)
    (more : bytes.length ≤ second) :
    stopsOn program stops first bytes = stopsOn program stops second bytes := by
  induction first generalizing second bytes with
  | zero =>
    obtain rfl := List.eq_nil_of_length_eq_zero (Nat.le_zero.mp enough)
    cases second with
    | zero => rfl
    | succ second => simp only [stopsOn,serve_nil program eager]
  | succ first ih =>
    cases second with
    | zero =>
      obtain rfl := List.eq_nil_of_length_eq_zero (Nat.le_zero.mp more)
      simp only [stopsOn,serve_nil program eager]
    | succ second =>
      rw [stopsOn_round program stops eager first bytes fun rest less =>
          ih rest.length rest (by omega) (Nat.le_refl _),
        stopsOn_round program stops eager second bytes fun rest less =>
          (ih second rest (by omega) (by omega)).symm.trans
            (ih rest.length rest (by omega) (Nat.le_refl _))]

theorem reaches_program (program : Reading α) (stops : α → Bool) (eager : Eager program)
    (bytes : List UInt8) :
    Reaches program stops program bytes = stopsOn program stops bytes.length bytes := by
  rw [stopsOn_stable program stops eager bytes.length (bytes.length+1) bytes
    (Nat.le_refl _) (Nat.le_succ _)]
  refine (stopsOn_round program stops eager bytes.length bytes ?_).symm
  intro rest less
  exact stopsOn_stable program stops eager bytes.length rest.length rest (Nat.le_of_lt less)
    (Nat.le_refl _)

section Kept
variable (capacity : Nat) (program : Reading α) (stops : α → Bool)

structure Sane (state : State α) : Prop where
  safe : state.channel.overrun = false
  roomy : Roomy state.channel.reader
  isOpen : state.channel.closed = false

theorem pull_sane (channel next : Channel.State α) (roomy : Roomy channel.reader)
    (isOpen : channel.closed = false) (safe : channel.overrun = false)
    (stepped : Channel.pull channel = some next) :
    next.overrun = false ∧ next.closed = false ∧ Roomy next.reader ∧
      serve next.reader next.pipe = serve channel.reader channel.pipe := by
  obtain ⟨room,count,rest,asking,answers⟩ := Channel.pull_cases channel next stepped
  rw [asking] at roomy
  cases roomy with
  | read _ _ _ fits continued =>
    rcases answers with ⟨zero,rfl⟩ | ⟨_,_,closed,_⟩ | ⟨asked,present,_,rfl⟩ | ⟨_,_,past,_⟩
    · refine ⟨safe,isOpen,continued [] (Nat.zero_le _),?_⟩
      rw [asking,serve,if_pos zero]
    · rw [isOpen] at closed
      contradiction
    · refine ⟨safe,isOpen,continued _ (List.length_take_le _ _),?_⟩
      rw [asking,serve,if_neg (Nat.ne_of_gt asked),if_neg present]
    · have taken := List.length_take_le count channel.pipe
      omega

theorem step_sane (roomy : Roomy program) (state next : State α) (action : Action) (sane : Sane state)
    (stepped : step true capacity program stops state action = some next) : Sane next := by
  obtain ⟨safe,reading,isOpen⟩ := sane
  rcases step_cases true capacity program stops state next action stepped with
    ⟨size,channel,_,_,pushed,rfl⟩ | ⟨_,_,_,rfl⟩ | ⟨channel,_,_,pulled,rfl⟩ | ⟨_,_,_,_,rfl⟩
  · obtain ⟨_,_,_,⟨_,rfl⟩ | ⟨_,_,rfl,_⟩⟩ := Channel.push_cases capacity size _ channel pushed <;>
    exact ⟨safe,reading,isOpen⟩
  · exact ⟨safe,reading,rfl⟩
  · obtain ⟨safe,isOpen,reading,_⟩ := pull_sane _ channel reading isOpen safe pulled
    exact ⟨safe,reading,isOpen⟩
  · exact ⟨safe,roomy,isOpen⟩

/-- What the reads of the reader's current round have returned. -/
def answer (state : State α) (action : Action) (answers : List (List UInt8)) : List (List UInt8) :=
  match action with
  | .read =>
    match state.channel.reader with
    | .read _ count _ => answers++[state.channel.pipe.take count]
    | .done _ => answers
  | .finish => []
  | .write _ | .leave _ => answers

/-- Where the reader is, as told by the answers it has had. -/
theorem step_position (position : Reading α → List (List UInt8) → Prop) (start : position program [])
    (grows : ∀ room count next answers (data : List UInt8), position (.read room count next) answers →
      data.length ≤ count → position (next (.bytes data)) (answers++[data]))
    (state next : State α) (action : Action) (answers : List (List UInt8)) (sane : Sane state)
    (here : position state.channel.reader answers)
    (stepped : step true capacity program stops state action = some next) :
    position next.channel.reader (answer state action answers) := by
  rcases step_cases true capacity program stops state next action stepped with
    ⟨size,channel,rfl,_,pushed,rfl⟩ | ⟨_,rfl,_,rfl⟩ | ⟨channel,rfl,_,pulled,rfl⟩ | ⟨_,rfl,_,_,rfl⟩
  · rw [(Channel.stream_push capacity size _ channel pushed).2.2]
    exact here
  · exact here
  · obtain ⟨room,count,rest,asking,answers⟩ := Channel.pull_cases _ channel pulled
    rw [asking] at here
    simp only [answer,asking]
    have fits := List.length_take_le count state.channel.pipe
    rcases answers with ⟨zero,rfl⟩ | ⟨_,_,closed,_⟩ | ⟨_,_,_,rfl⟩ | ⟨_,_,past,_⟩
    · have grown := grows room count rest _ _ here fits
      rw [zero,List.take_zero] at grown ⊢
      exact grown
    · rw [sane.isOpen] at closed
      contradiction
    · exact grows room count rest _ _ here fits
    · have roomy := sane.roomy
      rw [asking] at roomy
      cases roomy with
      | read _ _ _ large _ => omega
  · exact start

def Settles (state : State α) : Prop :=
  state.stopped = true ∨ Reaches program stops state.channel.reader state.channel.pipe = true

/-- Once the writer has gone nothing else happens than what `serve` says. -/
theorem step_settles (eager : Eager program) (state next : State α) (action : Action) (sane : Sane state)
    (gone : state.alive = false) (stepped : step true capacity program stops state action = some next) :
    next.alive = false ∧ (Settles program stops next ↔ Settles program stops state) := by
  obtain ⟨safe,reading,isOpen⟩ := sane
  rcases step_cases true capacity program stops state next action stepped with
    ⟨_,_,_,alive,_⟩ | ⟨_,_,alive,_⟩ | ⟨channel,_,runs,pulled,rfl⟩ | ⟨result,_,runs,done,rfl⟩
  · rw [gone] at alive
    contradiction
  · rw [gone] at alive
    contradiction
  · obtain ⟨_,_,_,same⟩ := pull_sane _ channel reading isOpen safe pulled
    refine ⟨gone,?_⟩
    simp only [Settles,Reaches,same]
  · refine ⟨gone,?_⟩
    have now : Reaches program stops state.channel.reader state.channel.pipe =
        (stops result || stopsOn program stops state.channel.pipe.length state.channel.pipe) := by
      rw [done]
      rfl
    simp only [Settles,runs,now,reaches_program program stops eager,Bool.or_eq_true,Bool.false_eq_true,
      false_or]

/-- The writer goes only when a result that stops the reader is among what it leaves. -/
def Foreseen (state : State α) (action : Action) : Prop :=
  ∀ size, action = .leave size → state.stopped = true ∨
    Reaches program stops state.channel.reader
      (state.channel.pipe++lastBytes state.channel size) = true

instance (state : State α) : (action : Action) → Decidable (Foreseen program stops state action)
  | .leave size => decidable_of_iff (state.stopped = true ∨ Reaches program stops state.channel.reader
      (state.channel.pipe++lastBytes state.channel size) = true) (by simp [Foreseen])
  | .write _ => isTrue (by simp [Foreseen])
  | .read => isTrue (by simp [Foreseen])
  | .finish => isTrue (by simp [Foreseen])

theorem leave_settles (state next : State α) (action : Action) (alive : state.alive = true)
    (stepped : step true capacity program stops state action = some next) (gone : next.alive = false) :
    Settles program stops next ↔ Foreseen program stops state action := by
  rcases step_cases true capacity program stops state next action stepped with
    ⟨_,_,_,_,_,rfl⟩ | ⟨size,rfl,_,rfl⟩ | ⟨_,_,_,_,rfl⟩ | ⟨_,_,_,_,rfl⟩
  · rw [alive] at gone
    contradiction
  · simp [Settles,Foreseen]
  · rw [alive] at gone
    contradiction
  · rw [alive] at gone
    contradiction

theorem settles_free (state : State α) (settles : Settles program stops state) : ¬Stranded state := by
  rintro ⟨_,runs,_,_,empty,room,count,next,reading,asked⟩
  have blocked : serve state.channel.reader state.channel.pipe = none := by
    rw [reading,empty,serve,if_neg (Nat.ne_of_gt asked),if_pos rfl]
  rcases settles with stopped | reaches
  · rw [runs] at stopped
    contradiction
  · simp [Reaches,blocked] at reaches

def Served (state : State α) : Prop :=
  Sane state ∧ (state.alive = false → Settles program stops state)

theorem run_free (roomy : Roomy program) (eager : Eager program) (actions : List Action)
    (state final : State α) (start : Served program stops state)
    (foreseen : Execution.Meets (step true capacity program stops) (Foreseen program stops) state actions)
    (reached : Execution.run (step true capacity program stops) state actions = some final) :
    ¬Stranded final := by
  have served : Served program stops final := by
    refine Execution.run_meets _ _ (Served program stops) ?_ actions state final start foreseen reached
    intro state action next served admitted stepped
    refine ⟨step_sane capacity program stops roomy state next action served.1 stepped,?_⟩
    intro gone
    cases alive : state.alive with
    | true => exact (leave_settles capacity program stops state next action alive stepped gone).mpr admitted
    | false =>
      exact (step_settles capacity program stops eager state next action served.1 alive stepped).2.mpr
        (served.2 alive)
  intro stranded
  exact settles_free program stops final (served.2 stranded.1) stranded

def Doomed (state : State α) : Prop :=
  Sane state ∧ state.alive = false ∧ state.stopped = false ∧
    Reaches program stops state.channel.reader state.channel.pipe = false

theorem doomed_iff (state : State α) : Doomed program stops state ↔
    Sane state ∧ state.alive = false ∧ ¬Settles program stops state := by
  simp only [Doomed,Settles,not_or,Bool.not_eq_true]

/-- A run comes to where `serve` says: to the end of a round, or to a read that blocks. -/
def Finishes (state : State α) : Option (α × List UInt8) → Prop
  | none => ∃ more final,
      Execution.run (step true capacity program stops) state more = some final ∧ Stranded final
  | some (result,rest) => ∃ more, Execution.run (step true capacity program stops) state more =
      some {state with channel := {state.channel with pipe := rest,reader := .done result}}

/-- One read, and then what follows it. -/
theorem finishes_read (state : State α) (left : List UInt8) (reader : Reading α)
    (outcome : Option (α × List UInt8))
    (stepped : step true capacity program stops state .read =
      some {state with channel := {state.channel with pipe := left,reader := reader}})
    (later : Finishes capacity program stops
      {state with channel := {state.channel with pipe := left,reader := reader}} outcome) :
    Finishes capacity program stops state outcome := by
  cases outcome with
  | none =>
    obtain ⟨more,final,continued,stranded⟩ := later
    exact ⟨.read::more,final,(Execution.run_cons _ _ _ _ _).mpr ⟨_,stepped,continued⟩,stranded⟩
  | some ended =>
    obtain ⟨result,rest⟩ := ended
    obtain ⟨more,continued⟩ := later
    exact ⟨.read::more,(Execution.run_cons _ _ _ _ _).mpr ⟨_,stepped,continued⟩⟩

theorem serve_finishes (roomyProgram : Roomy program) (reader : Reading α) (state : State α)
    (sane : Sane state) (gone : state.alive = false) (runs : state.stopped = false)
    (reading : state.channel.reader = reader) :
    Finishes capacity program stops state (serve reader state.channel.pipe) := by
  induction reader generalizing state with
  | done value =>
    refine ⟨[],?_⟩
    rw [Execution.run,← reading]
  | read room count next ih =>
    have fits : (state.channel.pipe.take count).length ≤ room := by
      have roomy := sane.roomy
      rw [reading] at roomy
      cases roomy with
      | read _ _ _ fits _ => exact Nat.le_trans (List.length_take_le _ _) fits
    rw [serve]
    split
    · rename_i zero
      have stepped : step true capacity program stops state .read = some {state with
          channel := {state.channel with pipe := state.channel.pipe,reader := next (.bytes [])}} := by
        simp [step,runs,Channel.pull,reading,sane.safe,zero]
      apply finishes_read capacity program stops state _ _ _ stepped
      exact ih _ _ (step_sane capacity program stops roomyProgram state _ _ sane stepped) gone runs rfl
    · rename_i asked
      split
      · rename_i empty
        exact ⟨[],state,rfl,gone,runs,sane.isOpen,sane.safe,empty,room,count,next,reading,
          Nat.pos_of_ne_zero asked⟩
      · rename_i present
        have stepped : step true capacity program stops state .read = some {state with
            channel := {state.channel with
              pipe := state.channel.pipe.drop count
              reader := next (.bytes (state.channel.pipe.take count))}} := by
          simp only [step,runs,Bool.false_eq_true,if_false]
          rw [Channel.pull_available state.channel room count next reading sane.safe
            (Nat.pos_of_ne_zero asked) present fits]
          rfl
        apply finishes_read capacity program stops state _ _ _ stepped
        exact ih _ _ (step_sane capacity program stops roomyProgram state _ _ sane stepped) gone runs rfl

theorem step_doomed (eager : Eager program) (roomy : Roomy program) (state next : State α) (action : Action)
    (doomed : Doomed program stops state)
    (stepped : step true capacity program stops state action = some next) : Doomed program stops next := by
  obtain ⟨sane,gone,unsettled⟩ := (doomed_iff program stops state).mp doomed
  obtain ⟨still,settles⟩ := step_settles capacity program stops eager state next action sane gone stepped
  apply (doomed_iff program stops next).mpr
  refine ⟨step_sane capacity program stops roomy state next action sane stepped,still,?_⟩
  exact fun settled => unsettled (settles.mp settled)

/-- A doomed reader is stranded in this round, or comes to the next one. -/
theorem doomed_round (eager : Eager program) (roomy : Roomy program) (state : State α)
    (doomed : Doomed program stops state) :
    (∃ more final, Execution.run (step true capacity program stops) state more = some final ∧
      Stranded final) ∨
    ∃ more next result, Execution.run (step true capacity program stops) state more = some next ∧
      Doomed program stops next ∧ next.channel.reader = program ∧
      serve state.channel.reader state.channel.pipe = some (result,next.channel.pipe) := by
  have finishes := serve_finishes capacity program stops roomy state.channel.reader state doomed.1
    doomed.2.1 doomed.2.2.1 rfl
  cases served : serve state.channel.reader state.channel.pipe with
  | none =>
    rw [served] at finishes
    exact Or.inl finishes
  | some outcome =>
    obtain ⟨result,rest⟩ := outcome
    rw [served] at finishes
    obtain ⟨first,ran⟩ := finishes
    have ended := Execution.run_invariant _ (Doomed program stops)
      (fun state action next => step_doomed capacity program stops eager roomy state next action)
      first state _ doomed ran
    have stepped : step true capacity program stops
        {state with channel := {state.channel with pipe := rest,reader := .done result}} .finish =
        some {state with
          channel := {state.channel with
            pipe := rest
            results := state.channel.results++[result]
            reader := program}
          stopped := stops result} := by
      simp [step,doomed.2.2.1]
    right
    refine ⟨first++[.finish],_,result,?_,step_doomed capacity program stops eager roomy _ _ _ ended stepped,
      rfl,rfl⟩
    rw [Execution.run_append,ran,Option.bind_some,Execution.run_cons]
    exact ⟨_,stepped,rfl⟩

/-- Every round uses up some of the bytes. -/
theorem rounds_strand (eager : Eager program) (roomy : Roomy program) (size : Nat) (state : State α)
    (doomed : Doomed program stops state) (start : state.channel.reader = program)
    (bytes : state.channel.pipe.length = size) :
    ∃ more final, Execution.run (step true capacity program stops) state more = some final ∧
      Stranded final := by
  induction size using Nat.strong_induction_on generalizing state with
  | _ size ih =>
    rcases doomed_round capacity program stops eager roomy state doomed with
      stranded | ⟨first,next,result,ran,later,again,served⟩
    · exact stranded
    · rw [start] at served
      have less := serve_lt program eager _ _ result served
      obtain ⟨more,final,continued,stranded⟩ := ih _ (bytes ▸ less) next later again rfl
      refine ⟨first++more,final,?_,stranded⟩
      rw [Execution.run_append,ran]
      exact continued

theorem doomed_strands (eager : Eager program) (roomy : Roomy program) (state : State α)
    (doomed : Doomed program stops state) :
    ∃ more final, Execution.run (step true capacity program stops) state more = some final ∧
      Stranded final := by
  rcases doomed_round capacity program stops eager roomy state doomed with
    stranded | ⟨first,next,result,ran,later,again,_⟩
  · exact stranded
  · obtain ⟨more,final,continued,stranded⟩ :=
      rounds_strand capacity program stops eager roomy _ next later again rfl
    refine ⟨first++more,final,?_,stranded⟩
    rw [Execution.run_append,ran]
    exact continued

theorem unforeseen_doomed (roomy : Roomy program) (state next : State α) (action : Action) (sane : Sane state)
    (unforeseen : ¬Foreseen program stops state action)
    (stepped : step true capacity program stops state action = some next) : Doomed program stops next := by
  have leaves : ∃ size, action = .leave size := by
    by_contra never
    exact unforeseen fun size same => absurd ⟨size,same⟩ never
  obtain ⟨size,rfl⟩ := leaves
  have kept := step_sane capacity program stops roomy state next _ sane stepped
  rcases step_cases true capacity program stops state next _ stepped with
    ⟨_,_,other,_⟩ | ⟨_,_,alive,same⟩ | ⟨_,other,_⟩ | ⟨_,other,_⟩
  · contradiction
  · have gone : next.alive = false := same ▸ rfl
    apply (doomed_iff program stops next).mpr
    refine ⟨kept,gone,fun settles => unforeseen ?_⟩
    exact (leave_settles capacity program stops state next _ alive stepped gone).mp settles
  · contradiction
  · contradiction

/-- A run in which the writer goes too early can be continued until the reader is stranded. -/
theorem run_strands (eager : Eager program) (roomy : Roomy program) (actions : List Action)
    (state final : State α) (sane : Sane state)
    (unforeseen : ¬Execution.Meets (step true capacity program stops) (Foreseen program stops) state actions)
    (reached : Execution.run (step true capacity program stops) state actions = some final) :
    ∃ more last, Execution.run (step true capacity program stops) final more = some last ∧
      Stranded last := by
  apply doomed_strands capacity program stops eager roomy final
  refine Execution.run_unmet _ (Foreseen program stops) Sane (Doomed program stops) ?_ ?_ ?_ actions state
    final sane unforeseen reached
  · exact fun state action next => step_sane capacity program stops roomy state next action
  · exact fun state action next => unforeseen_doomed capacity program stops roomy state next action
  · exact fun state action next => step_doomed capacity program stops eager roomy state next action

end Kept
end LinuxCourse.Library.Lingering
