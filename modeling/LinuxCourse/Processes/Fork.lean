import LinuxCourse.Library.Execution
import LinuxCourse.Library.Stdio

/-! `processes/fork.cpp`. The child gets a copy of all memory, and with it the buffer of standard
output, whose lines are then in two places. -/
namespace LinuxCourse.Fork
open Library Library.Stdio

inductive Who
  | parent
  | child
  deriving DecidableEq

inductive Line
  | hello
  | parentSection (pid cid : Nat)
  | parentX (x : BitVec 32)
  | created (pid ppid : Nat)
  | childX (x : BitVec 32)
  | failed (x : BitVec 32)
  deriving DecidableEq

/-- The place of a process in `main`; a process sleeps after its last `printf`. -/
inductive Stage
  | hello
  | fork
  | announce
  | add
  | report
  | sleep
  | apology
  | returned (status : Nat)
  deriving DecidableEq

structure Process where
  stage : Stage
  x : BitVec 32
  stdout : Stream Line
  killed : Bool

structure State where
  parent : Process
  child : Option Process
  output : List (Who × Line)

/-- `reaper` is the parent of a process whose own one has ended. -/
structure Ids where
  pid : Nat
  cid : Nat
  reaper : Nat

/-- A signal may end a process at any moment, and then its buffer is not written. -/
inductive Action
  | parent (forked : Bool)
  | child
  | kill (who : Who)
  deriving DecidableEq

def Process.ended (process : Process) : Bool :=
  process.killed || match process.stage with
    | .returned _ => true
    | _ => false

/-- What a process writes in one step, and its own state after it. -/
abbrev Reply : Type := List Line × Process

def Process.printf (process : Process) (line : Line) (stage : Stage) : Reply :=
  ((process.stdout.printf line).1,{process with stdout := (process.stdout.printf line).2,stage := stage})

def Process.endl (process : Process) (line : Line) (stage : Stage) : Reply :=
  ((process.stdout.endl line).1,{process with stdout := (process.stdout.endl line).2,stage := stage})

/-- Returning from `main` flushes the stream. -/
def Process.leave (process : Process) (status : Nat) : Reply :=
  (process.stdout.fflush.1,{process with stdout := process.stdout.fflush.2,stage := .returned status})

def parentStep (ids : Ids) (forked : Bool) (state : State) : Option State :=
  let tell := fun reply : Reply =>
    some {state with parent := reply.2,output := state.output++tag .parent reply.1}
  if state.parent.killed then none
  else
    match state.parent.stage with
    | .hello => tell (state.parent.printf .hello .fork)
    | .fork =>
      if forked then some {state with
        parent := {state.parent with stage := .announce}
        child := some {state.parent with stage := .announce}}
      else some {state with parent := {state.parent with stage := .apology}}
    | .announce => tell (state.parent.endl (.parentSection ids.pid ids.cid) .add)
    | .add => some {state with parent := {state.parent with x := state.parent.x+1,stage := .report}}
    | .report => tell (state.parent.printf (.parentX state.parent.x) .sleep)
    | .apology => tell (state.parent.endl (.failed state.parent.x) (.returned 1))
    | .sleep => tell (state.parent.leave 0)
    | .returned _ => none

def childStep (ids : Ids) (state : State) : Option State :=
  match state.child with
  | none => none
  | some child =>
    let tell := fun reply : Reply =>
      some {state with child := some reply.2,output := state.output++tag .child reply.1}
    if child.killed then none
    else
      match child.stage with
      | .announce =>
        tell (child.endl (.created ids.cid (if state.parent.ended then ids.reaper else ids.pid)) .report)
      | .report => tell (child.printf (.childX child.x) .sleep)
      | .sleep => tell (child.leave 0)
      | _ => none

def kill (state : State) : Who → Option State
  | .parent =>
    if state.parent.ended then none else some {state with parent := {state.parent with killed := true}}
  | .child =>
    match state.child with
    | none => none
    | some child =>
      if child.ended then none else some {state with child := some {child with killed := true}}

def step (ids : Ids) (state : State) : Action → Option State
  | .parent forked => parentStep ids forked state
  | .child => childStep ids state
  | .kill who => kill state who

def initial (lineBuffered : Bool) : State := ⟨⟨.hello,5,⟨lineBuffered,[]⟩,false⟩,none,[]⟩

/-- What the parent has printed at a place, and how much of that a full buffer holds back. -/
def Stage.parentLines (ids : Ids) : Stage → List Line
  | .hello => []
  | .fork | .announce | .apology => [.hello]
  | .add | .report => [.hello,.parentSection ids.pid ids.cid]
  | .sleep | .returned 0 => [.hello,.parentSection ids.pid ids.cid,.parentX 6]
  | .returned (_+1) => [.hello,.failed 5]

def Stage.parentBuffer : Stage → List Line
  | .fork | .announce | .apology => [.hello]
  | .sleep => [.parentX 6]
  | _ => []

def Stage.parentValue : Stage → BitVec 32
  | .report | .sleep => 6
  | _ => 5

/-- The same for the child, which has not printed what it was born with. -/
def Stage.childLines (ids : Ids) (ppid : Nat) : Stage → List Line
  | .report => [.created ids.cid ppid]
  | .sleep | .returned _ => [.created ids.cid ppid,.childX 5]
  | _ => []

def Stage.childBuffer : Stage → List Line
  | .announce => [.hello]
  | .sleep => [.childX 5]
  | _ => []

/-- What of these lines is in the buffer of a stream. -/
def kept (lineBuffered : Bool) (lines : List Line) : List Line := if lineBuffered then [] else lines

structure ParentSound (ids : Ids) (lineBuffered : Bool) (parent : Process) (output : List (Who × Line)) :
    Prop where
  mode : parent.stdout.lineBuffered = lineBuffered
  buffer : parent.stdout.buffer = kept lineBuffered parent.stage.parentBuffer
  lines : written .parent output++parent.stdout.buffer = parent.stage.parentLines ids
  value : (∀ status, parent.stage ≠ .returned status) → parent.x = parent.stage.parentValue

structure ChildSound (ids : Ids) (lineBuffered : Bool) (child : Process) (output : List (Who × Line)) :
    Prop where
  mode : child.stdout.lineBuffered = lineBuffered
  buffer : child.stdout.buffer = kept lineBuffered child.stage.childBuffer
  lines : ∃ ppid, (ppid = ids.pid ∨ ppid = ids.reaper) ∧ written .child output++child.stdout.buffer =
    kept lineBuffered [.hello]++child.stage.childLines ids ppid
  value : child.x = 5

structure Sound (ids : Ids) (lineBuffered : Bool) (state : State) : Prop where
  parent : ParentSound ids lineBuffered state.parent state.output
  child : ∀ child, state.child = some child → ChildSound ids lineBuffered child state.output
  alone : state.child = none → written .child state.output = []
  unforked : state.parent.stage = .fork → state.child = none
  early : state.parent.stage = .hello → state.child = none

theorem initial_sound (ids : Ids) (lineBuffered : Bool) : Sound ids lineBuffered (initial lineBuffered) := by
  refine ⟨⟨rfl,?_,rfl,fun _ => rfl⟩,nofun,fun _ => rfl,fun _ => rfl,fun _ => rfl⟩
  cases lineBuffered <;> rfl

theorem parent_tells (ids : Ids) (lineBuffered : Bool) (state : State) (lines : List Line) (parent : Process)
    (sound : Sound ids lineBuffered state) (mode : parent.stdout.lineBuffered = lineBuffered)
    (buffer : parent.stdout.buffer = kept lineBuffered parent.stage.parentBuffer)
    (whole : written .parent state.output++(lines++parent.stdout.buffer) = parent.stage.parentLines ids)
    (value : (∀ status, parent.stage ≠ .returned status) → parent.x = parent.stage.parentValue)
    (unforked : parent.stage = .fork → state.child = none) (later : parent.stage ≠ .hello) :
    Sound ids lineBuffered {state with parent := parent,output := state.output++tag .parent lines} := by
  have same : written .child (state.output++tag .parent lines) = written .child state.output := by
    rw [written_append,written_other Who.child Who.parent lines (by decide),List.append_nil]
  refine ⟨⟨mode,buffer,?_,value⟩,?_,?_,unforked,fun early => absurd early later⟩
  · rw [written_append,written_own,List.append_assoc]
    exact whole
  · intro child born
    obtain ⟨mode,buffer,whole,value⟩ := sound.child child born
    rw [← same] at whole
    exact ⟨mode,buffer,whole,value⟩
  · rw [same]
    exact sound.alone

theorem child_tells (ids : Ids) (lineBuffered : Bool) (state : State) (lines : List Line)
    (before child : Process) (ppid : Nat) (sound : Sound ids lineBuffered state)
    (born : state.child = some before) (mode : child.stdout.lineBuffered = lineBuffered)
    (buffer : child.stdout.buffer = kept lineBuffered child.stage.childBuffer)
    (known : ppid = ids.pid ∨ ppid = ids.reaper)
    (whole : written .child state.output++(lines++child.stdout.buffer) =
      kept lineBuffered [.hello]++child.stage.childLines ids ppid) (value : child.x = 5) :
    Sound ids lineBuffered {state with child := some child,output := state.output++tag .child lines} := by
  obtain ⟨⟨parentMode,parentBuffer,parentLines,parentValue⟩,-,-,unforked,early⟩ := sound
  have same : written .parent (state.output++tag .child lines) = written .parent state.output := by
    rw [written_append,written_other Who.parent Who.child lines (by decide),List.append_nil]
  refine ⟨⟨parentMode,parentBuffer,?_,parentValue⟩,?_,nofun,?_,?_⟩
  · rw [same]
    exact parentLines
  · intro other same
    obtain rfl := Option.some.inj same
    refine ⟨mode,buffer,⟨ppid,known,?_⟩,value⟩
    rw [written_append,written_own,List.append_assoc]
    exact whole
  · intro stage
    rw [unforked stage] at born
    contradiction
  · intro stage
    rw [early stage] at born
    contradiction

theorem kept_append (lineBuffered : Bool) (lines : List Line) (line : Line) :
    (if lineBuffered then [] else kept lineBuffered lines++[line]) = kept lineBuffered (lines++[line]) := by
  cases lineBuffered <;> rfl

section Parent
variable (ids : Ids) (lineBuffered : Bool) (state : State) (after : Stage)
  (sound : Sound ids lineBuffered state) (value : state.parent.x = after.parentValue)
  (unforked : after = .fork → state.child = none) (later : after ≠ .hello)

include sound value unforked later in
theorem parent_printf (line : Line)
    (lines : after.parentLines ids = state.parent.stage.parentLines ids++[line])
    (buffer : after.parentBuffer = state.parent.stage.parentBuffer++[line]) :
    Sound ids lineBuffered {state with
      parent := (state.parent.printf line after).2
      output := state.output++tag .parent (state.parent.printf line after).1} := by
  refine parent_tells ids lineBuffered state _ _ sound ?_ ?_ ?_ (fun _ => value) unforked later
  · rw [Process.printf,printf_lineBuffered,sound.parent.mode]
  · simp only [Process.printf,printf_buffer,sound.parent.mode,sound.parent.buffer,buffer,kept_append]
  · simp only [Process.printf,printf_whole]
    rw [← List.append_assoc,sound.parent.lines,lines]

include sound unforked later in
theorem parent_endl (line : Line) (running : (∀ status, after ≠ .returned status) → state.parent.x = after.parentValue)
    (lines : after.parentLines ids = state.parent.stage.parentLines ids++[line]) (buffer : after.parentBuffer = []) :
    Sound ids lineBuffered {state with
      parent := (state.parent.endl line after).2
      output := state.output++tag .parent (state.parent.endl line after).1} := by
  refine parent_tells ids lineBuffered state _ _ sound sound.parent.mode ?_ ?_ running unforked later
  · simp only [Process.endl,Stream.endl,buffer,kept,ite_self]
  · simp only [Process.endl,endl_whole]
    rw [← List.append_assoc,sound.parent.lines,lines]

end Parent

theorem parentStep_sound (ids : Ids) (lineBuffered forked : Bool) (state next : State)
    (sound : Sound ids lineBuffered state) (stepped : parentStep ids forked state = some next) :
    Sound ids lineBuffered next := by
  obtain ⟨mode,buffer,lines,value⟩ := sound.parent
  unfold parentStep at stepped
  dsimp only at stepped
  split at stepped
  · contradiction
  split at stepped
  · rename_i stage
    rw [stage] at value
    exact Option.some.inj stepped ▸ parent_printf ids lineBuffered state .fork sound (value nofun)
      (fun _ => sound.early stage) nofun .hello (by rw [stage]; rfl) (by rw [stage]; rfl)
  · rename_i stage
    have none := sound.unforked stage
    rw [stage] at buffer lines value
    split at stepped
    · obtain rfl := Option.some.inj stepped
      refine ⟨⟨mode,buffer,lines,fun _ => value nofun⟩,?_,nofun,nofun,nofun⟩
      intro child born
      obtain rfl := Option.some.inj born
      refine ⟨mode,buffer,⟨ids.pid,Or.inl rfl,?_⟩,value nofun⟩
      rw [sound.alone none,buffer]
      cases lineBuffered <;> rfl
    · obtain rfl := Option.some.inj stepped
      exact ⟨⟨mode,buffer,lines,fun _ => value nofun⟩,sound.child,sound.alone,nofun,nofun⟩
  · rename_i stage
    rw [stage] at value
    exact Option.some.inj stepped ▸ parent_endl ids lineBuffered state .add sound nofun nofun _
      (fun _ => value nofun) (by rw [stage]; rfl) rfl
  · rename_i stage
    rw [stage] at buffer lines value
    obtain rfl := Option.some.inj stepped
    refine ⟨⟨mode,buffer,lines,fun _ => ?_⟩,sound.child,sound.alone,nofun,nofun⟩
    rw [value nofun]
    rfl
  · rename_i stage
    rw [stage] at value
    have six := value nofun
    refine Option.some.inj stepped ▸ parent_printf ids lineBuffered state .sleep sound six nofun nofun _ ?_ ?_
    · rw [stage,six]
      rfl
    · rw [stage,six]
      rfl
  · rename_i stage
    rw [stage] at value
    refine Option.some.inj stepped ▸ parent_endl ids lineBuffered state (.returned 1) sound nofun nofun _
      (fun running => absurd rfl (running 1)) ?_ rfl
    rw [stage,value nofun]
    rfl
  · rename_i stage
    rw [stage] at buffer lines
    refine Option.some.inj stepped ▸ parent_tells ids lineBuffered state _ _ sound mode ?_ ?_
      (fun running => absurd rfl (running 0)) nofun nofun
    · cases lineBuffered <;> rfl
    · simp only [Process.leave,fflush_whole]
      exact lines
  · contradiction

theorem childStep_sound (ids : Ids) (lineBuffered : Bool) (state next : State)
    (sound : Sound ids lineBuffered state) (stepped : childStep ids state = some next) :
    Sound ids lineBuffered next := by
  unfold childStep at stepped
  split at stepped
  · contradiction
  rename_i child born
  obtain ⟨mode,buffer,⟨ppid,known,lines⟩,value⟩ := sound.child child born
  dsimp only at stepped
  split at stepped
  · contradiction
  split at stepped
  · rename_i stage
    rw [stage] at lines
    refine Option.some.inj stepped ▸ child_tells ids lineBuffered state _ child _
      (if state.parent.ended then ids.reaper else ids.pid) sound born mode ?_ ?_ ?_ value
    · cases lineBuffered <;> rfl
    · split
      · exact Or.inr rfl
      · exact Or.inl rfl
    · simp only [Process.endl,endl_whole]
      rw [← List.append_assoc,lines]
      simp [Stage.childLines]
  · rename_i stage
    rw [stage] at buffer lines
    refine Option.some.inj stepped ▸ child_tells ids lineBuffered state _ child _ ppid sound born ?_ ?_ known ?_
      value
    · rw [Process.printf,printf_lineBuffered,mode]
    · simp only [Process.printf,printf_buffer,mode,buffer,value,kept_append]
      rfl
    · simp only [Process.printf,printf_whole]
      rw [← List.append_assoc,lines,value]
      simp [Stage.childLines]
  · rename_i stage
    rw [stage] at lines
    refine Option.some.inj stepped ▸ child_tells ids lineBuffered state _ child _ ppid sound born mode ?_ known ?_
      value
    · cases lineBuffered <;> rfl
    · simp only [Process.leave,fflush_whole]
      exact lines
  · contradiction

theorem kill_sound (ids : Ids) (lineBuffered : Bool) (who : Who) (state next : State)
    (sound : Sound ids lineBuffered state) (stepped : kill state who = some next) :
    Sound ids lineBuffered next := by
  obtain ⟨⟨mode,buffer,lines,value⟩,child,alone,unforked,early⟩ := sound
  cases who with
  | parent =>
    simp only [kill] at stepped
    split at stepped
    · contradiction
    · exact Option.some.inj stepped ▸ ⟨⟨mode,buffer,lines,value⟩,child,alone,unforked,early⟩
  | child =>
    simp only [kill] at stepped
    split at stepped
    · contradiction
    rename_i process born
    obtain ⟨mode',buffer',lines',value'⟩ := child process born
    split at stepped
    · contradiction
    · obtain rfl := Option.some.inj stepped
      refine ⟨⟨mode,buffer,lines,value⟩,?_,nofun,?_,?_⟩
      · intro other same
        obtain rfl := Option.some.inj same
        exact ⟨mode',buffer',lines',value'⟩
      · intro stage
        rw [unforked stage] at born
        contradiction
      · intro stage
        rw [early stage] at born
        contradiction

theorem step_sound (ids : Ids) (lineBuffered : Bool) (state : State) (action : Action) (next : State)
    (sound : Sound ids lineBuffered state) (stepped : step ids state action = some next) :
    Sound ids lineBuffered next := by
  cases action with
  | parent forked => exact parentStep_sound ids lineBuffered forked state next sound stepped
  | child => exact childStep_sound ids lineBuffered state next sound stepped
  | kill who => exact kill_sound ids lineBuffered who state next sound stepped

/-- How often a line is in the output. -/
def copies (line : Line) (output : List (Who × Line)) : Nat := (output.map Prod.snd).count line

theorem copies_split (line : Line) (output : List (Who × Line)) :
    copies line output = (written .parent output).count line+(written .child output).count line := by
  induction output with
  | nil => rfl
  | cons entry rest ih =>
    obtain ⟨who,said⟩ := entry
    rw [copies] at ih
    rw [copies,List.map_cons,List.count_cons,ih]
    cases who with
    | parent =>
      have mine : written Who.parent ((.parent,said)::rest) = said::written .parent rest := rfl
      have other : written Who.child ((.parent,said)::rest) = written .child rest := rfl
      rw [mine,other,List.count_cons]
      dsimp only
      omega
    | child =>
      have mine : written Who.child ((.child,said)::rest) = said::written .child rest := rfl
      have other : written Who.parent ((.child,said)::rest) = written .parent rest := rfl
      rw [mine,other,List.count_cons]
      dsimp only
      omega

/-- Whatever the scheduler does and whoever is killed, each process has written what it printed, but
for what its buffer held; the child has printed in the parent's name what was in the buffer when
it was born. So the first line is there twice where the output is not a terminal. -/
theorem run_prints (ids : Ids) (lineBuffered : Bool) (actions : List Action) (final : State)
    (reached : Execution.run (step ids) (initial lineBuffered) actions = some final) :
    written .parent final.output++kept lineBuffered final.parent.stage.parentBuffer =
        final.parent.stage.parentLines ids ∧
      (∀ child, final.child = some child → ∃ ppid, (ppid = ids.pid ∨ ppid = ids.reaper) ∧
        written .child final.output++kept lineBuffered child.stage.childBuffer =
          kept lineBuffered [.hello]++child.stage.childLines ids ppid) ∧
      (final.parent.stage = .returned 0 → ∀ child, final.child = some child → child.stage = .returned 0 →
        copies .hello final.output = if lineBuffered then 1 else 2) := by
  have sound := Execution.run_invariant (step ids) (Sound ids lineBuffered)
    (fun state action next => step_sound ids lineBuffered state action next) actions _ final
    (initial_sound ids lineBuffered) reached
  have parent := sound.parent.lines
  rw [sound.parent.buffer] at parent
  have born : ∀ child, final.child = some child → ∃ ppid, (ppid = ids.pid ∨ ppid = ids.reaper) ∧
      written .child final.output++kept lineBuffered child.stage.childBuffer =
        kept lineBuffered [.hello]++child.stage.childLines ids ppid := by
    intro child there
    obtain ⟨ppid,known,lines⟩ := (sound.child child there).lines
    rw [(sound.child child there).buffer] at lines
    exact ⟨ppid,known,lines⟩
  refine ⟨parent,born,?_⟩
  intro stage child there ended
  obtain ⟨ppid,-,lines⟩ := born child there
  rw [stage] at parent
  rw [ended] at lines
  rw [copies_split]
  cases lineBuffered with
  | true =>
    simp only [kept,if_true,List.append_nil,List.nil_append,Stage.parentLines,Stage.childLines] at parent lines
    rw [parent,lines]
    rfl
  | false =>
    simp only [kept,Bool.false_eq_true,if_false,Stage.parentBuffer,Stage.childBuffer,List.append_nil,
      Stage.parentLines,Stage.childLines] at parent lines
    rw [parent,lines]
    rfl

/-- The output is a file; the child ends first. -/
def piped : List Action :=
  [.parent true,.parent true,.child,.parent true,.child,.child,.parent true,.parent true,.parent true]

theorem run_prints_piped :
    ∃ final, Execution.run (step ⟨7,8,1⟩) (initial false) piped = some final ∧
      written .parent final.output++kept false final.parent.stage.parentBuffer =
        final.parent.stage.parentLines ⟨7,8,1⟩ ∧
      copies .hello final.output = 2 := by
  have reached : Execution.run (step ⟨7,8,1⟩) (initial false) piped = some _ := rfl
  obtain ⟨parent,-,twice⟩ := run_prints ⟨7,8,1⟩ false piped _ reached
  exact ⟨_,reached,parent,twice rfl _ rfl rfl⟩

end LinuxCourse.Fork
