import LinuxCourse.Library.Execution
import LinuxCourse.Library.Reading

/-! One writer and one reader on a bounded FIFO pipe. The writer makes a list of
`write` calls: one of at most `atomicSize` bytes becomes visible at once, a longer
one piece by piece. The reader runs its program over and over. Every interleaving
of the single calls is a list of actions. -/
namespace LinuxCourse.Library.Channel

structure Write where
  bytes : List UInt8
  atomic : Bool

def Write.ofCall (atomicSize : Nat) (bytes : List UInt8) : Write :=
  ⟨bytes,decide (bytes.length ≤ atomicSize)⟩

structure State (α : Type) where
  pipe : List UInt8
  writes : List Write
  closed : Bool
  reader : Reading α
  results : List α
  overrun : Bool

/-- `write size` moves the next `size` bytes of a call that is not atomic, and the
whole of an atomic one. -/
inductive Action
  | write (size : Nat)
  | close
  | read
  | finish
  deriving DecidableEq

variable {α : Type}

def push (capacity : Nat) (state : State α) (size : Nat) : Option (State α) :=
  match state.writes with
  | [] => none
  | call::rest =>
    if call.atomic then
      if state.pipe.length+call.bytes.length ≤ capacity then
        some {state with pipe := state.pipe++call.bytes,writes := rest}
      else none
    else if 0 < size ∧ size ≤ call.bytes.length ∧ state.pipe.length+size ≤ capacity then
      some {state with
        pipe := state.pipe++call.bytes.take size
        writes := if size = call.bytes.length then rest else ⟨call.bytes.drop size,false⟩::rest}
    else none

/-- A call of `read`: nothing asked for is answered at once, an empty pipe blocks
until the last write end is closed. -/
def pull (state : State α) : Option (State α) :=
  match state.reader with
  | .done _ => none
  | .read room count next =>
    if state.overrun then none
    else if count = 0 then some {state with reader := next (.bytes [])}
    else if state.pipe = [] then
      if state.closed then some {state with reader := next (.bytes [])} else none
    else if (state.pipe.take count).length ≤ room then
      some {state with
        pipe := state.pipe.drop count
        reader := next (.bytes (state.pipe.take count))}
    else some {state with overrun := true}

def step (capacity : Nat) (program : Reading α) (state : State α) : Action → Option (State α)
  | .write size => push capacity state size
  | .close => if state.writes = [] then some {state with closed := true} else none
  | .read => pull state
  | .finish =>
    match state.reader with
    | .done result => some {state with results := state.results++[result],reader := program}
    | .read _ _ _ => none

def initial (atomicSize : Nat) (program : Reading α) (calls : List (List UInt8)) : State α :=
  ⟨[],calls.map (Write.ofCall atomicSize),false,program,[],false⟩

def run (capacity : Nat) (program : Reading α) : State α → List Action → Option (State α) :=
  Execution.run (step capacity program)

theorem push_cases (capacity size : Nat) (state next : State α)
    (stepped : push capacity state size = some next) :
    ∃ call rest, state.writes = call::rest ∧
      ((call.atomic = true ∧ next = {state with pipe := state.pipe++call.bytes,writes := rest}) ∨
      (call.atomic = false ∧ ∃ writes, next = {state with pipe := state.pipe++call.bytes.take size,writes} ∧
        (writes.map Write.bytes).flatten = call.bytes.drop size++(rest.map Write.bytes).flatten)) := by
  unfold push at stepped
  cases pending : state.writes with
  | nil => simp only [pending] at stepped; contradiction
  | cons call rest =>
    simp only [pending] at stepped
    refine ⟨call,rest,rfl,?_⟩
    cases atomic : call.atomic with
    | true =>
      simp only [atomic,if_true] at stepped
      split at stepped
      · exact Or.inl ⟨rfl,(Option.some.inj stepped).symm⟩
      · contradiction
    | false =>
      simp only [atomic,Bool.false_eq_true,if_false] at stepped
      split at stepped
      · refine Or.inr ⟨rfl,_,(Option.some.inj stepped).symm,?_⟩
        split
        · rename_i whole
          simp [whole]
        · simp
      · contradiction

theorem pull_cases (state next : State α) (stepped : pull state = some next) :
    ∃ room count rest, state.reader = .read room count rest ∧
      ((count = 0 ∧ next = {state with reader := rest (.bytes [])}) ∨
      (0 < count ∧ state.pipe = [] ∧ state.closed = true ∧
        next = {state with reader := rest (.bytes [])}) ∨
      (0 < count ∧ state.pipe ≠ [] ∧ (state.pipe.take count).length ≤ room ∧
        next = {state with
          pipe := state.pipe.drop count
          reader := rest (.bytes (state.pipe.take count))}) ∨
      (0 < count ∧ state.pipe ≠ [] ∧ room < (state.pipe.take count).length ∧
        next = {state with overrun := true})) := by
  unfold pull at stepped
  cases program : state.reader with
  | done result => simp only [program] at stepped; contradiction
  | read room count rest =>
    simp only [program] at stepped
    refine ⟨room,count,rest,rfl,?_⟩
    split at stepped
    · contradiction
    split at stepped
    · rename_i zero
      exact Or.inl ⟨zero,(Option.some.inj stepped).symm⟩
    rename_i positive
    have asked : 0 < count := Nat.pos_of_ne_zero positive
    split at stepped
    · rename_i empty
      split at stepped
      · rename_i closed
        exact Or.inr (Or.inl ⟨asked,empty,closed,(Option.some.inj stepped).symm⟩)
      · contradiction
    rename_i present
    split at stepped
    · rename_i fits
      exact Or.inr (Or.inr (Or.inl ⟨asked,present,fits,(Option.some.inj stepped).symm⟩))
    · rename_i past
      exact Or.inr (Or.inr (Or.inr ⟨asked,present,by omega,(Option.some.inj stepped).symm⟩))

theorem pull_frame (state next : State α) (stepped : pull state = some next) :
    next.writes = state.writes ∧ next.closed = state.closed ∧ next.results = state.results := by
  obtain ⟨_,_,_,_,answers⟩ := pull_cases state next stepped
  rcases answers with ⟨_,rfl⟩ | ⟨_,_,_,rfl⟩ | ⟨_,_,_,rfl⟩ | ⟨_,_,_,rfl⟩ <;> exact ⟨rfl,rfl,rfl⟩

theorem pull_available (state : State α) (room count : Nat) (next : Received → Reading α)
    (asking : state.reader = .read room count next) (safe : state.overrun = false)
    (asked : 0 < count) (present : state.pipe ≠ []) (fits : (state.pipe.take count).length ≤ room) :
    pull state = some {state with
      pipe := state.pipe.drop count
      reader := next (.bytes (state.pipe.take count))} := by
  simp only [pull,asking,safe,Bool.false_eq_true,if_false,if_neg (Nat.ne_of_gt asked),if_neg present,
    if_pos fits]

theorem close_cases (capacity : Nat) (program : Reading α) (state next : State α)
    (stepped : step capacity program state .close = some next) :
    state.writes = [] ∧ next = {state with closed := true} := by
  simp only [step] at stepped
  split at stepped
  · exact ⟨by assumption,(Option.some.inj stepped).symm⟩
  · contradiction

theorem finish_cases (capacity : Nat) (program : Reading α) (state next : State α)
    (stepped : step capacity program state .finish = some next) :
    ∃ result, state.reader = .done result ∧
      next = {state with results := state.results++[result],reader := program} := by
  simp only [step] at stepped
  split at stepped
  · exact ⟨_,by assumption,(Option.some.inj stepped).symm⟩
  · contradiction

end LinuxCourse.Library.Channel
