import LinuxCourse.Library.CString

/-! `processes/readnonblock.cpp`. While a FIFO is empty, a read that may not block comes back
with 0 or with -1, depending on whether a writer has opened the other end. -/
namespace LinuxCourse.Readnonblock
open Library Bytes

def BUFSIZ : Nat := 8192
def EXIT_SUCCESS : Nat := 0
def EXIT_FAILURE : Nat := 1
def EAGAIN : Nat := 11

/-- The result of a `read`: the bytes it put into the buffer, or -1 and `errno`. -/
inductive Received
  | bytes (text : List UInt8) (asked : text.length ≤ BUFSIZ-1)
  | failed (errno : Nat)
  deriving DecidableEq

structure Buffer where
  memory : List UInt8
  size : memory.length = BUFSIZ

def Buffer.store (buffer : Buffer) (bytes : List UInt8) : Buffer :=
  ⟨Bytes.store buffer.memory bytes,by rw [store_length,buffer.size]⟩

/-- What `printf` shows of the buffer. -/
def Buffer.shown (buffer : Buffer) : List UInt8 := cstring buffer.memory

/-- The status is `none` as long as the program runs. `rounds` counts how often it went
back to the head of its loop, `touched` are the places of the buffer that were used. -/
structure Outcome where
  status : Option Nat
  printed : List (List UInt8)
  rounds : Nat
  touched : List Nat
  deriving DecidableEq

/-- The places that `read`, the store of the NUL and `printf` use. -/
def Buffer.touched (buffer : Buffer) (len : Nat) : List Nat :=
  List.range len++[len]++List.range (buffer.shown.length+1)

/-- The results of the reads one after another. `errno` is printed, and not looked at. -/
def loop (buffer : Buffer) : List Received → Outcome
  | [] => ⟨none,[],0,[]⟩
  | .failed _::_ => ⟨some EXIT_FAILURE,[],0,[]⟩
  | .bytes text _::later =>
    let buffer := buffer.store (text++[0])
    if 0 < text.length then ⟨some EXIT_SUCCESS,[buffer.shown],0,buffer.touched text.length⟩
    else
      let outcome := loop buffer later
      {outcome with
        printed := buffer.shown::outcome.printed
        rounds := outcome.rounds+1
        touched := buffer.touched text.length++outcome.touched}

def main (isOpen : Bool) (buffer : Buffer) (reads : List Received) : Outcome :=
  if isOpen = true then loop buffer reads else ⟨some EXIT_FAILURE,[],0,[]⟩

/-- There is nothing in the FIFO. -/
def Received.Nothing : Received → Prop
  | .bytes text _ => text = []
  | .failed errno => errno = EAGAIN

/-- What a round without data shows: the empty string, or nothing where the read failed. -/
def Received.idle : Received → List (List UInt8)
  | .bytes _ _ => [[]]
  | .failed _ => []

structure Waits (reads : List Received) (outcome : Outcome) : Prop where
  served : ∀ waits text asked later, reads = waits++.bytes text asked::later → 0 < text.length →
    (∀ wait ∈ waits, wait.Nothing) →
    outcome.status = some EXIT_SUCCESS ∧ outcome.rounds = waits.length ∧
      outcome.printed = waits.flatMap Received.idle++[text]
  failed : outcome.status = some EXIT_FAILURE →
    ∃ errno, reads[outcome.rounds]? = some (.failed errno) ∧ errno ≠ EAGAIN
  inside : ∀ k ∈ outcome.touched, k < BUFSIZ

/-- The first result other than 0 is not `EAGAIN`, and not text with a NUL in it. -/
def Prompt : List Received → Prop
  | [] => True
  | .failed errno::_ => errno ≠ EAGAIN
  | .bytes text _::later => if 0 < text.length then NulFree text else Prompt later

section
variable (buffer : Buffer) (text : List UInt8) (asked : text.length ≤ BUFSIZ-1)

include asked

theorem shown_store : (buffer.store (text++[0])).shown = cstring text := by
  have size : (text++[0]).length ≤ buffer.memory.length := by
    rw [buffer.size,List.length_append,List.length_singleton,BUFSIZ]
    rw [BUFSIZ] at asked
    omega
  have stored : (buffer.store (text++[0])).memory = _ := store_within buffer.memory _ size
  rw [Buffer.shown,stored,List.append_assoc,List.singleton_append,cstring_terminated]

theorem touched_inside (k : Nat) (member : k ∈ (buffer.store (text++[0])).touched text.length) :
    k < BUFSIZ := by
  have shorter : (cstring text).length ≤ text.length := (List.takeWhile_prefix _).length_le
  rw [Buffer.touched,shown_store buffer text asked] at member
  simp only [List.mem_append,List.mem_range,List.mem_singleton] at member
  rw [BUFSIZ] at asked ⊢
  omega

end

theorem loop_inside (buffer : Buffer) (reads : List Received) :
    ∀ k ∈ (loop buffer reads).touched, k < BUFSIZ := by
  induction reads generalizing buffer with
  | nil => simp [loop]
  | cons received later ih =>
    cases received with
    | failed errno => simp [loop]
    | bytes text asked =>
      intro k member
      rw [loop] at member
      split at member
      · exact touched_inside buffer text asked k member
      · rcases List.mem_append.mp member with here | behind
        · exact touched_inside buffer text asked k here
        · exact ih _ k behind

/-- A round without data: the program prints its line with an empty string, and is where it was. -/
theorem waits_again (buffer : Buffer) (asked : 0 ≤ BUFSIZ-1) (later : List Received) :
    Waits (.bytes [] asked::later) (loop buffer (.bytes [] asked::later)) ↔
      Waits later (loop (buffer.store [0]) later) := by
  have shown : (buffer.store [0]).shown = [] := shown_store buffer [] asked
  have round : loop buffer (.bytes [] asked::later) =
      {loop (buffer.store [0]) later with
        printed := (buffer.store [0]).shown::(loop (buffer.store [0]) later).printed
        rounds := (loop (buffer.store [0]) later).rounds+1
        touched := (buffer.store [0]).touched 0++(loop (buffer.store [0]) later).touched} := rfl
  rw [round,shown]
  constructor
  · rintro ⟨served,failed,_⟩
    refine ⟨?_,failed,loop_inside _ later⟩
    rintro waits text fits rest rfl present idle
    obtain ⟨status,rounds,printed⟩ := served (.bytes [] asked::waits) text fits rest rfl present
      (List.forall_mem_cons.mpr ⟨rfl,idle⟩)
    exact ⟨status,Nat.succ.inj rounds,(List.cons.inj printed).2⟩
  · rintro ⟨served,failed,inside⟩
    refine ⟨?_,failed,?_⟩
    · intro waits text fits rest split present idle
      cases waits with
      | nil =>
        obtain ⟨rfl,_⟩ := Received.bytes.inj (List.cons.inj split).1
        contradiction
      | cons wait waits =>
        obtain ⟨rfl,behind⟩ := List.cons.inj split
        obtain ⟨status,rounds,printed⟩ := served waits text fits rest behind present
          (List.forall_mem_cons.mp idle).2
        exact ⟨status,congrArg (·+1) rounds,congrArg ([] :: ·) printed⟩
    · intro k member
      rcases List.mem_append.mp member with here | behind
      · exact touched_inside buffer [] asked k here
      · exact inside k behind

/-- The data comes at once. -/
theorem waits_data (buffer : Buffer) (text : List UInt8) (asked : text.length ≤ BUFSIZ-1)
    (present : 0 < text.length) (later : List Received) :
    Waits (.bytes text asked::later) (loop buffer (.bytes text asked::later)) ↔ NulFree text := by
  have shown := shown_store buffer text asked
  have exits : loop buffer (.bytes text asked::later) =
      ⟨some EXIT_SUCCESS,[cstring text],0,(buffer.store (text++[0])).touched text.length⟩ := by
    rw [loop,if_pos present,shown]
  rw [exits]
  constructor
  · intro waits
    obtain ⟨_,_,printed⟩ := waits.served [] text asked later rfl present (by simp)
    exact (cstring_eq_iff text).mp (List.cons.inj printed).1
  · intro free
    have whole := (cstring_eq_iff text).mpr free
    refine ⟨?_,by simp [EXIT_SUCCESS,EXIT_FAILURE],touched_inside buffer text asked⟩
    intro waits other fits rest split inhabited idle
    cases waits with
    | nil =>
      obtain ⟨rfl,_⟩ := Received.bytes.inj (List.cons.inj split).1
      exact ⟨rfl,rfl,congrArg ([·]) whole⟩
    | cons wait waits =>
      obtain ⟨rfl,_⟩ := List.cons.inj split
      have empty : text = [] := (List.forall_mem_cons.mp idle).1
      rw [empty] at present
      contradiction

theorem waits_failed (buffer : Buffer) (errno : Nat) (later : List Received) :
    Waits (.failed errno::later) (loop buffer (.failed errno::later)) ↔ errno ≠ EAGAIN := by
  constructor
  · intro waits
    obtain ⟨found,same,other⟩ := waits.failed rfl
    cases same
    exact other
  · intro other
    refine ⟨?_,fun _ => ⟨errno,rfl,other⟩,by simp [loop]⟩
    intro waits text fits rest split _ idle
    cases waits with
    | nil => exact absurd (List.cons.inj split).1 (by simp)
    | cons wait waits =>
      obtain ⟨rfl,_⟩ := List.cons.inj split
      exact absurd (List.forall_mem_cons.mp idle).1 other

theorem waits_iff (buffer : Buffer) (reads : List Received) :
    Waits reads (main true buffer reads) ↔ Prompt reads := by
  rw [main,if_pos rfl]
  induction reads generalizing buffer with
  | nil =>
    refine ⟨fun _ => trivial,fun _ => ⟨?_,by simp [loop],by simp [loop]⟩⟩
    intro waits text fits rest split
    exact absurd split (by simp)
  | cons received later ih =>
    cases received with
    | failed errno => exact waits_failed buffer errno later
    | bytes text asked =>
      rw [Prompt]
      cases text with
      | nil => exact (waits_again buffer asked later).trans (ih _)
      | cons byte rest => exact waits_data buffer (byte::rest) asked (by simp) later

def cleared : Buffer := ⟨zeros BUFSIZ,zeros_length BUFSIZ⟩

/-- A writer is connected, and writes after the first read. -/
def lateData : List Received := [.failed EAGAIN,.bytes [104,105] (by decide)]

theorem gives_up :
    main true cleared lateData = ⟨some EXIT_FAILURE,[],0,[]⟩ ∧
      ¬Waits lateData (main true cleared lateData) := by
  refine ⟨rfl,?_⟩
  intro waits
  obtain ⟨status,_⟩ := waits.served [.failed EAGAIN] [104,105] (by decide) [] rfl (by decide)
    (by simp [Received.Nothing])
  have same : EXIT_FAILURE = EXIT_SUCCESS := Option.some.inj status
  contradiction

end LinuxCourse.Readnonblock
