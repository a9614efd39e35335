import LinuxCourse.Library.Descriptors

/-! The descriptor tables of `execute` in `processes/pipe.cpp` on both sides of the `fork`: what
the command finds as its standard streams, and who holds which end of which pipe. -/
namespace LinuxCourse.PipeWiring
open Library Library.Descriptors

inductive Pipe
  | infd
  | outfd
  | errfd
  deriving DecidableEq

/-- `inherited` is what was open when the program started. -/
inductive File (φ : Type)
  | inherited (file : φ)
  | readEnd (pipe : Pipe)
  | writeEnd (pipe : Pipe)
  deriving DecidableEq

structure Fds where
  infd : Nat × Nat
  outfd : Nat × Nat
  errfd : Nat × Nat
  deriving DecidableEq

def STDIN_FILENO : Nat := 0
def STDOUT_FILENO : Nat := 1
def STDERR_FILENO : Nat := 2

section Execute
variable {φ : Type}

def start (table : Table φ) : Table (File φ) := fun fd => (table fd).map .inherited

/-- The three calls of `pipe`, where all of them work. -/
def pipes (table : Table (File φ)) (limit : Nat) : Option (Fds × Table (File φ)) :=
  (pipe table limit (.readEnd .infd) (.writeEnd .infd)).bind fun infd =>
    (pipe infd.2 limit (.readEnd .outfd) (.writeEnd .outfd)).bind fun outfd =>
      (pipe outfd.2 limit (.readEnd .errfd) (.writeEnd .errfd)).map fun errfd =>
        (⟨infd.1,outfd.1,errfd.1⟩,errfd.2)

def parent (fds : Fds) (table : Table (File φ)) : Table (File φ) :=
  closeAll table [fds.infd.1,fds.outfd.2,fds.errfd.2,fds.infd.2]

def child (fds : Fds) (table : Table (File φ)) : Table (File φ) :=
  closeAll (dup2 (dup2 (dup2 table fds.infd.1 STDIN_FILENO) fds.outfd.2 STDOUT_FILENO) fds.errfd.2
    STDERR_FILENO) [fds.infd.2,fds.outfd.1,fds.errfd.1]

def cleanup (fds : Fds) (table : Table (File φ)) : Table (File φ) :=
  closeAll table [fds.infd.1,fds.infd.2,fds.outfd.1,fds.outfd.2,fds.errfd.1,fds.errfd.2]

/-- The six descriptors are the lowest that were free, in this order. -/
structure Piped (table next : Table (File φ)) (fds : Fds) : Prop where
  infd : fds.infd.1 < fds.infd.2
  outfd : fds.infd.2 < fds.outfd.1 ∧ fds.outfd.1 < fds.outfd.2
  errfd : fds.outfd.2 < fds.errfd.1 ∧ fds.errfd.1 < fds.errfd.2
  free : table fds.infd.1 = none ∧ table fds.infd.2 = none ∧ table fds.outfd.1 = none ∧
    table fds.outfd.2 = none ∧ table fds.errfd.1 = none ∧ table fds.errfd.2 = none
  taken : ∀ other < fds.infd.2, other ≠ fds.infd.1 → table other ≠ none
  next : next = Function.update (Function.update (Function.update (Function.update (Function.update
    (Function.update table fds.infd.1 (some (.readEnd .infd))) fds.infd.2 (some (.writeEnd .infd)))
    fds.outfd.1 (some (.readEnd .outfd))) fds.outfd.2 (some (.writeEnd .outfd)))
    fds.errfd.1 (some (.readEnd .errfd))) fds.errfd.2 (some (.writeEnd .errfd))

/-- What a second `pipe` finds free lies behind the first. -/
theorem pipe_behind (table : Table (File φ)) (fds : Nat × Nat) (reads writes : File φ) (fd : Nat)
    (order : fds.1 < fds.2) (full : ∀ other < fds.2, other ≠ fds.1 → table other ≠ none)
    (free : Function.update (Function.update table fds.1 (some reads)) fds.2 (some writes) fd = none) :
    fds.2 < fd ∧ table fd = none := by
  by_cases second : fd = fds.2
  · subst second
    rw [Function.update_self] at free
    contradiction
  by_cases first : fd = fds.1
  · rw [first,Function.update_of_ne (Nat.ne_of_lt order),Function.update_self] at free
    contradiction
  rw [Function.update_of_ne second,Function.update_of_ne first] at free
  refine ⟨?_,free⟩
  by_contra before
  exact full fd (Nat.lt_of_le_of_ne (Nat.le_of_not_lt before) second) first free

theorem pipes_piped (table next : Table (File φ)) (limit : Nat) (fds : Fds)
    (made : pipes table limit = some (fds,next)) : Piped table next fds := by
  obtain ⟨⟨infd,first⟩,one,rest⟩ := Option.bind_eq_some_iff.mp made
  obtain ⟨⟨outfd,second⟩,two,last⟩ := Option.bind_eq_some_iff.mp rest
  obtain ⟨⟨errfd,third⟩,three,same⟩ := Option.map_eq_some_iff.mp last
  obtain ⟨rfl,rfl⟩ := Prod.mk.inj same
  obtain ⟨inOrder,inRead,inWrite,inFull,rfl⟩ := pipe_some table first limit _ _ infd one
  obtain ⟨outOrder,outRead,outWrite,outFull,rfl⟩ := pipe_some _ second limit _ _ outfd two
  obtain ⟨errOrder,errRead,errWrite,-,rfl⟩ := pipe_some _ third limit _ _ errfd three
  obtain ⟨behindOut,freeOut⟩ := pipe_behind table infd _ _ outfd.1 inOrder inFull outRead
  obtain ⟨-,freeOut'⟩ := pipe_behind table infd _ _ outfd.2 inOrder inFull outWrite
  obtain ⟨behindErr,freeErr⟩ := pipe_behind _ outfd _ _ errfd.1 outOrder outFull errRead
  obtain ⟨-,freeErr'⟩ := pipe_behind _ outfd _ _ errfd.2 outOrder outFull errWrite
  obtain ⟨-,lastRead⟩ := pipe_behind table infd _ _ errfd.1 inOrder inFull freeErr
  obtain ⟨-,lastWrite⟩ := pipe_behind table infd _ _ errfd.2 inOrder inFull freeErr'
  exact ⟨inOrder,⟨behindOut,outOrder⟩,⟨behindErr,errOrder⟩,
    ⟨inRead,inWrite,freeOut,freeOut',lastRead,lastWrite⟩,inFull,rfl⟩

/-- What the six descriptors stand for. -/
theorem piped_at (table next : Table (File φ)) (fds : Fds) (piped : Piped table next fds) :
    next fds.infd.1 = some (.readEnd .infd) ∧ next fds.infd.2 = some (.writeEnd .infd) ∧
      next fds.outfd.1 = some (.readEnd .outfd) ∧ next fds.outfd.2 = some (.writeEnd .outfd) ∧
      next fds.errfd.1 = some (.readEnd .errfd) ∧ next fds.errfd.2 = some (.writeEnd .errfd) := by
  obtain ⟨inOrder,⟨behindIn,outOrder⟩,⟨behindOut,errOrder⟩,-,-,rfl⟩ := piped
  refine ⟨?_,?_,?_,?_,?_,?_⟩ <;> simp (disch := omega) only [Function.update_of_ne,Function.update_self]

theorem piped_other (table next : Table (File φ)) (fds : Fds) (piped : Piped table next fds) (fd : Nat)
    (other : fd ≠ fds.infd.1 ∧ fd ≠ fds.infd.2 ∧ fd ≠ fds.outfd.1 ∧ fd ≠ fds.outfd.2 ∧
      fd ≠ fds.errfd.1 ∧ fd ≠ fds.errfd.2) : next fd = table fd := by
  obtain ⟨one,two,three,four,five,six⟩ := other
  rw [piped.next,Function.update_of_ne six,Function.update_of_ne five,Function.update_of_ne four,
    Function.update_of_ne three,Function.update_of_ne two,Function.update_of_ne one]

theorem child_at (table next : Table (File φ)) (fds : Fds) (piped : Piped table next fds) (fd : Nat) :
    child fds next fd =
      if fd = fds.infd.2 ∨ fd = fds.outfd.1 ∨ fd = fds.errfd.1 then none
      else if fd = STDERR_FILENO then some (.writeEnd .errfd)
      else if fd = STDOUT_FILENO then some (.writeEnd .outfd)
      else if fd = STDIN_FILENO then some (.readEnd .infd)
      else next fd := by
  obtain ⟨reads,-,-,writes,-,errors⟩ := piped_at table next fds piped
  have inOrder := piped.infd
  have outOrder := piped.outfd
  have errOrder := piped.errfd
  have first := dup2_at next fds.infd.1 STDIN_FILENO
  have behind : fds.outfd.2 ≠ STDIN_FILENO := by
    simp only [STDIN_FILENO]
    omega
  have behind' : fds.errfd.2 ≠ STDIN_FILENO ∧ fds.errfd.2 ≠ STDOUT_FILENO := by
    simp only [STDIN_FILENO,STDOUT_FILENO]
    omega
  have second := dup2_at (dup2 next fds.infd.1 STDIN_FILENO) fds.outfd.2 STDOUT_FILENO
  have third := dup2_at (dup2 (dup2 next fds.infd.1 STDIN_FILENO) fds.outfd.2 STDOUT_FILENO) fds.errfd.2
    STDERR_FILENO fd (.writeEnd .errfd) (by
      rw [second _ (.writeEnd .outfd) (by rw [first _ _ reads,if_neg behind,writes]),if_neg behind'.2,
        first _ _ reads,if_neg behind'.1,errors])
  rw [child,closeAll_at,third,second _ (.writeEnd .outfd) (by rw [first _ _ reads,if_neg behind,writes]),
    first _ _ reads]
  simp only [List.mem_cons,List.not_mem_nil,or_false]

theorem child_behind (table next : Table (File φ)) (fds : Fds) (piped : Piped table next fds) (fd : Nat)
    (high : STDERR_FILENO < fd) (stays : ¬(fd = fds.infd.2 ∨ fd = fds.outfd.1 ∨ fd = fds.errfd.1)) :
    child fds next fd = next fd := by
  have zero : STDIN_FILENO = 0 := rfl
  have one : STDOUT_FILENO = 1 := rfl
  have two : STDERR_FILENO = 2 := rfl
  rw [child_at table next fds piped,if_neg stays,if_neg (by omega),if_neg (by omega),if_neg (by omega)]

/-- The command always finds its standard input. -/
theorem child_stdin (table next : Table (File φ)) (fds : Fds) (piped : Piped table next fds) :
    child fds next STDIN_FILENO = some (.readEnd .infd) := by
  have inOrder := piped.infd
  have outOrder := piped.outfd
  have errOrder := piped.errfd
  have zero : STDIN_FILENO = 0 := rfl
  have one : STDOUT_FILENO = 1 := rfl
  have two : STDERR_FILENO = 2 := rfl
  rw [child_at table next fds piped,if_neg (by omega),if_neg (by omega),if_neg (by omega),if_pos rfl]

/-- No two of the standard descriptors were free. -/
def AlmostOpen (table : Table φ) : Prop :=
  ∀ first second, first < second → second ≤ STDERR_FILENO → table first ≠ none ∨ table second ≠ none

theorem almostOpen_iff (table : Table φ) (next : Table (File φ)) (fds : Fds)
    (piped : Piped (start table) next fds) : AlmostOpen table ↔ STDERR_FILENO < fds.infd.2 := by
  have free (fd : Nat) : start table fd = none ↔ table fd = none := Option.map_eq_none_iff
  constructor
  · intro almost
    by_contra low
    rcases almost fds.infd.1 fds.infd.2 piped.infd (Nat.le_of_not_lt low) with one | two
    · exact one ((free _).mp piped.free.1)
    · exact two ((free _).mp piped.free.2.1)
  · intro high first second order bound
    by_contra both
    obtain ⟨one,two⟩ := not_or.mp both
    have same (fd : Nat) (below : fd ≤ STDERR_FILENO) (none : ¬table fd ≠ Option.none) : fd = fds.infd.1 := by
      by_contra differ
      exact piped.taken fd (Nat.lt_of_le_of_lt below high) differ ((free fd).mpr (not_not.mp none))
    have equal := (same first (by omega) one).trans (same second bound two).symm
    omega

/-- What a descriptor that is open stands for. -/
theorem piped_cases (table : Table φ) (next : Table (File φ)) (fds : Fds)
    (piped : Piped (start table) next fds) (fd : Nat) (file : File φ) (there : next fd = some file) :
    (fd = fds.infd.1 ∧ file = .readEnd .infd) ∨ (fd = fds.infd.2 ∧ file = .writeEnd .infd) ∨
      (fd = fds.outfd.1 ∧ file = .readEnd .outfd) ∨ (fd = fds.outfd.2 ∧ file = .writeEnd .outfd) ∨
      (fd = fds.errfd.1 ∧ file = .readEnd .errfd) ∨ (fd = fds.errfd.2 ∧ file = .writeEnd .errfd) ∨
      ∃ old, file = .inherited old := by
  have all := piped_at (start table) next fds piped
  by_contra none
  simp only [not_or,not_and] at none
  obtain ⟨one,two,three,four,five,six,old⟩ := none
  have kept := piped_other (start table) next fds piped fd ⟨?_,?_,?_,?_,?_,?_⟩
  · rw [kept] at there
    obtain ⟨inherited,-,rfl⟩ := Option.map_eq_some_iff.mp there
    exact old ⟨inherited,rfl⟩
  all_goals
    rintro rfl
    simp only [all,Option.some.injEq] at there
    simp_all only [not_true_eq_false,forall_true_left]

/-- An end of a pipe that a process has. -/
def Held (table : Table (File φ)) (file : File φ) : Prop := ∃ fd, table fd = some file

theorem parent_held (table : Table φ) (next : Table (File φ)) (fds : Fds)
    (piped : Piped (start table) next fds) (file : File φ) (held : Held (parent fds next) file) :
    file = .readEnd .outfd ∨ file = .readEnd .errfd ∨ ∃ old, file = .inherited old := by
  obtain ⟨fd,there⟩ := held
  rw [parent,closeAll_at] at there
  split at there
  · contradiction
  · rename_i stays
    simp only [List.mem_cons,List.not_mem_nil,or_false,not_or] at stays
    obtain ⟨one,four,six,two⟩ := stays
    rcases piped_cases table next fds piped fd file there with
      ⟨same,-⟩ | ⟨same,-⟩ | ⟨-,out⟩ | ⟨same,-⟩ | ⟨-,err⟩ | ⟨same,-⟩ | old
    · exact absurd same one
    · exact absurd same two
    · exact Or.inl out
    · exact absurd same four
    · exact Or.inr (Or.inl err)
    · exact absurd same six
    · exact Or.inr (Or.inr old)

theorem child_held (table : Table φ) (next : Table (File φ)) (fds : Fds)
    (piped : Piped (start table) next fds) (file : File φ) (held : Held (child fds next) file) :
    file = .readEnd .infd ∨ file = .writeEnd .outfd ∨ file = .writeEnd .errfd ∨
      ∃ old, file = .inherited old := by
  obtain ⟨fd,there⟩ := held
  rw [child_at (start table) next fds piped] at there
  split at there
  · contradiction
  · rename_i stays
    obtain ⟨two,three,five⟩ := not_or.mp stays |>.imp_right not_or.mp
    split at there
    · exact Or.inr (Or.inr (Or.inl (Option.some.inj there).symm))
    split at there
    · exact Or.inr (Or.inl (Option.some.inj there).symm)
    split at there
    · exact Or.inl (Option.some.inj there).symm
    rcases piped_cases table next fds piped fd file there with
      ⟨-,input⟩ | ⟨same,-⟩ | ⟨same,-⟩ | ⟨-,out⟩ | ⟨same,-⟩ | ⟨-,err⟩ | old
    · exact Or.inl input
    · exact absurd same two
    · exact absurd same three
    · exact Or.inr (Or.inl out)
    · exact absurd same five
    · exact Or.inr (Or.inr (Or.inl err))
    · exact Or.inr (Or.inr (Or.inr old))

theorem parent_reads (table : Table φ) (next : Table (File φ)) (fds : Fds)
    (piped : Piped (start table) next fds) (pipe : Pipe) :
    Held (parent fds next) (.readEnd pipe) ↔ pipe ≠ .infd := by
  have inOrder := piped.infd
  have outOrder := piped.outfd
  have errOrder := piped.errfd
  obtain ⟨-,-,readOut,-,readErr,-⟩ := piped_at (start table) next fds piped
  constructor
  · intro held
    rcases parent_held table next fds piped _ held with out | err | ⟨old,inherited⟩
    · cases out
      exact nofun
    · cases err
      exact nofun
    · contradiction
  · intro other
    cases pipe with
    | infd => exact absurd rfl other
    | outfd =>
      refine ⟨fds.outfd.1,?_⟩
      rw [parent,closeAll_at,if_neg,readOut]
      simp only [List.mem_cons,List.not_mem_nil,or_false]
      omega
    | errfd =>
      refine ⟨fds.errfd.1,?_⟩
      rw [parent,closeAll_at,if_neg,readErr]
      simp only [List.mem_cons,List.not_mem_nil,or_false]
      omega

theorem child_reads (table : Table φ) (next : Table (File φ)) (fds : Fds)
    (piped : Piped (start table) next fds) (pipe : Pipe) :
    Held (child fds next) (.readEnd pipe) ↔ pipe = .infd := by
  constructor
  · intro held
    rcases child_held table next fds piped _ held with input | out | err | ⟨old,inherited⟩
    · cases input
      rfl
    all_goals contradiction
  · rintro rfl
    exact ⟨STDIN_FILENO,child_stdin (start table) next fds piped⟩

theorem child_writes (table : Table φ) (next : Table (File φ)) (fds : Fds)
    (piped : Piped (start table) next fds) (pipe : Pipe) :
    Held (child fds next) (.writeEnd pipe) ↔ pipe ≠ .infd := by
  have inOrder := piped.infd
  have outOrder := piped.outfd
  have errOrder := piped.errfd
  have two : STDERR_FILENO = 2 := rfl
  obtain ⟨-,-,-,writeOut,-,writeErr⟩ := piped_at (start table) next fds piped
  constructor
  · intro held
    rcases child_held table next fds piped _ held with input | out | err | ⟨old,inherited⟩
    · contradiction
    · cases out
      exact nofun
    · cases err
      exact nofun
    · contradiction
  · intro other
    cases pipe with
    | infd => exact absurd rfl other
    | outfd =>
      refine ⟨fds.outfd.2,?_⟩
      rw [child_behind (start table) next fds piped _ (by omega) (by omega),writeOut]
    | errfd =>
      refine ⟨fds.errfd.2,?_⟩
      rw [child_behind (start table) next fds piped _ (by omega) (by omega),writeErr]

theorem cleanup_restores (table : Table φ) (next : Table (File φ)) (fds : Fds)
    (piped : Piped (start table) next fds) : cleanup fds (parent fds next) = start table := by
  funext fd
  obtain ⟨one,two,three,four,five,six⟩ := piped.free
  rw [cleanup,closeAll_at]
  split
  · rename_i member
    simp only [List.mem_cons,List.not_mem_nil,or_false] at member
    rcases member with rfl | rfl | rfl | rfl | rfl | rfl
    · exact one.symm
    · exact two.symm
    · exact three.symm
    · exact four.symm
    · exact five.symm
    · exact six.symm
  · rename_i member
    simp only [List.mem_cons,List.not_mem_nil,or_false,not_or] at member
    rw [parent,closeAll_at,if_neg,piped_other (start table) next fds piped fd member]
    simp only [List.mem_cons,List.not_mem_nil,or_false]
    omega

end Execute

/-- The command reads from the one pipe and writes to the two others, whatever the program was
started with, as long as two of the standard descriptors were open. -/
theorem execute_wires {φ : Type} (table : Table φ) (limit : Nat) (fds : Fds) (next : Table (File φ))
    (made : pipes (start table) limit = some (fds,next)) :
    child fds next STDIN_FILENO = some (.readEnd .infd) ∧
      (child fds next STDOUT_FILENO = some (.writeEnd .outfd) ∧
        child fds next STDERR_FILENO = some (.writeEnd .errfd) ↔ AlmostOpen table) := by
  have piped := pipes_piped (start table) next limit fds made
  have inOrder := piped.infd
  have outOrder := piped.outfd
  have errOrder := piped.errfd
  have one : STDOUT_FILENO = 1 := rfl
  have two : STDERR_FILENO = 2 := rfl
  have stream := child_at (start table) next fds piped
  rw [almostOpen_iff table next fds piped]
  refine ⟨child_stdin (start table) next fds piped,?_,?_⟩
  · rintro ⟨out,err⟩
    by_contra low
    -- the descriptor that the command has to write to is one that the child closes
    have closed : STDOUT_FILENO = fds.infd.2 ∨ STDERR_FILENO = fds.infd.2 := by omega
    rcases closed with first | second
    · rw [stream,if_pos (Or.inl first)] at out
      contradiction
    · rw [stream,if_pos (Or.inl second)] at err
      contradiction
  · intro high
    constructor
    · rw [stream,if_neg (by omega),if_neg (by omega),if_pos rfl]
    · rw [stream,if_neg (by omega),if_pos rfl]

/-- Each end of a pipe is with one process at most: the write ends of the two that the parent
reads with the command alone, and that of the first with none. The parent's table is in the end
what it was. -/
theorem execute_divides {φ : Type} (table : Table φ) (limit : Nat) (fds : Fds) (next : Table (File φ))
    (made : pipes (start table) limit = some (fds,next)) :
    (∀ pipe, Held (parent fds next) (.readEnd pipe) ↔ pipe ≠ .infd) ∧
      (∀ pipe, ¬Held (parent fds next) (.writeEnd pipe)) ∧
      (∀ pipe, Held (child fds next) (.readEnd pipe) ↔ pipe = .infd) ∧
      (∀ pipe, Held (child fds next) (.writeEnd pipe) ↔ pipe ≠ .infd) ∧
      cleanup fds (parent fds next) = start table := by
  have piped := pipes_piped (start table) next limit fds made
  refine ⟨parent_reads table next fds piped,?_,child_reads table next fds piped,
    child_writes table next fds piped,cleanup_restores table next fds piped⟩
  intro pipe held
  rcases parent_held table next fds piped _ held with out | err | ⟨old,inherited⟩ <;> contradiction

/-- Standard input is closed. -/
def noInput : Table Nat := fun fd => if fd = 1 ∨ fd = 2 then some fd else none

theorem execute_wires_noInput :
    ∃ fds next, pipes (start noInput) 16 = some (fds,next) ∧ fds.infd = (0,3) ∧
      child fds next STDIN_FILENO = some (.readEnd .infd) ∧
      (child fds next STDOUT_FILENO = some (.writeEnd .outfd) ∧
        child fds next STDERR_FILENO = some (.writeEnd .errfd) ↔ AlmostOpen noInput) := by
  have made : pipes (start noInput) 16 = some _ := rfl
  exact ⟨_,_,made,rfl,execute_wires noInput 16 _ _ made⟩

theorem execute_divides_noInput :
    ∃ fds next, pipes (start noInput) 16 = some (fds,next) ∧
      (∀ pipe, ¬Held (parent fds next) (.writeEnd pipe)) ∧ cleanup fds (parent fds next) = start noInput := by
  have made : pipes (start noInput) 16 = some _ := rfl
  obtain ⟨-,writes,-,-,restored⟩ := execute_divides noInput 16 _ _ made
  exact ⟨_,_,made,writes,restored⟩

end LinuxCourse.PipeWiring
