import LinuxCourse.Processes.PipeCapture
import Mathlib.Data.List.Forall2

/-! The memory accesses of the two copy loops of `processes/pipe.cpp`. `k` is never compared
with the size of the global, and nothing ends the string in the local buffer. -/
namespace LinuxCourse.PipeCapture
open Library Bytes Pipe

/-- What `read` comes back with, whatever the child writes. -/
inductive Answer
  | data (bytes : List UInt8) (present : 0 < bytes.length) (asked : bytes.length ≤ READ_SIZE)
  | eof
  | failed

def Answer.received : Answer → Received
  | .data bytes _ _ => .bytes bytes
  | .eof => .bytes []
  | .failed => .failed

/-- A call of `strlen` on the local buffer, and a store to `StdOut[k]` or `StdErr[k]`. -/
inductive Access
  | strlen (buffer : Stack)
  | store (global : Stream) (k : Nat)

def Access.Inside : Access → Prop
  | .strlen buffer => 0 ∈ buffer.memory.take CHUNCK
  | .store _ k => k < GLOBAL_SIZE

@[simp] theorem inside_strlen (buffer : Stack) :
    (Access.strlen buffer).Inside ↔ 0 ∈ buffer.memory.take CHUNCK := Iff.rfl

@[simp] theorem inside_store (global : Stream) (k : Nat) :
    (Access.store global k).Inside ↔ k < GLOBAL_SIZE := Iff.rfl

/-- The `for` loop: `strlen` is called at each test, so once more than the body is run. -/
def forAccesses (global : Stream) (buffer : Stack) (k : Nat) : List Access :=
  .strlen buffer::(List.range (cstring buffer.memory).length).flatMap fun i =>
    [.store global (k+i),.strlen buffer]

/-- The `do` loop; a read that fails goes through the body once more. -/
def doAccesses (global : Stream) (progress : Progress) : List Received → List Access
  | [] => []
  | .bytes []::_ => []
  | .failed::_ => forAccesses global progress.buffer progress.copied.length
  | .bytes (byte::rest)::later =>
    let buffer := progress.buffer.store (byte::rest)
    forAccesses global buffer progress.copied.length++
      doAccesses global ⟨buffer,progress.copied++cstring buffer.memory⟩ later

/-- A loop and the store of the NUL after it. -/
def loopAccesses (global : Stream) (progress : Progress) (reads : List Received) : List Access :=
  doAccesses global progress reads++[.store global (copyLoop progress reads).copied.length]

def captureAccesses (buffer : Stack) (out err : List Received) : List Access :=
  loopAccesses .out ⟨buffer,[]⟩ out++loopAccesses .err ⟨(copyLoop ⟨buffer,[]⟩ out).buffer,[]⟩ err

/-- The byte at a place of the buffer: the last chunk that reached it brought it. -/
def byteAt (memory : List UInt8) (chunks : List (List UInt8)) (place : Nat) : Option UInt8 :=
  match chunks.reverse.find? fun chunk => place < chunk.length with
  | some chunk => chunk[place]?
  | none => memory[place]?

/-- After these chunks the first NUL of the buffer is at `place`. -/
structure Ends (memory : List UInt8) (chunks : List (List UInt8)) (place : Nat) : Prop where
  inside : place < CHUNCK
  nul : byteAt memory chunks place = some 0
  first : ∀ earlier < place, byteAt memory chunks earlier ≠ some 0

/-- The chunks that have come in when each round of a loop copies. -/
def rounds (before : List (List UInt8)) : List Answer → List (List (List UInt8))
  | [] => []
  | .eof::_ => []
  | .failed::_ => [before]
  | .data bytes _ _::later => (before++[bytes])::rounds (before++[bytes]) later

def arrived : List Answer → List (List UInt8)
  | .data bytes _ _::later => bytes::arrived later
  | _ => []

/-- In each round there is a NUL in the buffer, and all that is copied before one, together
with the last NUL, has room in the global. -/
def Fits (memory : List UInt8) (before : List (List UInt8)) (reads : List Answer) : Prop :=
  ∃ lengths, List.Forall₂ (Ends memory) (rounds before reads) lengths ∧ lengths.sum < GLOBAL_SIZE

def loaded (buffer : Stack) (chunks : List (List UInt8)) : Stack := chunks.foldl Stack.store buffer

theorem loaded_byteAt (buffer : Stack) (chunks : List (List UInt8))
    (asked : ∀ chunk ∈ chunks, chunk.length ≤ READ_SIZE) (place : Nat) :
    (loaded buffer chunks).memory[place]? = byteAt buffer.memory chunks place := by
  induction chunks using List.reverseRecOn with
  | nil => rfl
  | append_singleton chunks chunk ih =>
    have earlier := ih fun chunk member => asked chunk (List.mem_append_left _ member)
    have short : chunk.length ≤ (loaded buffer chunks).memory.length := by
      have size := asked chunk (List.mem_append_right _ List.mem_cons_self)
      exact Nat.le_trans (Nat.le_trans size (by decide)) (loaded buffer chunks).holds
    have last : loaded buffer (chunks++[chunk]) = (loaded buffer chunks).store chunk := by
      simp [loaded]
    rw [last,Stack.store_memory,store_within _ _ short,byteAt,List.reverse_append,
      List.reverse_singleton,List.singleton_append,List.find?_cons]
    by_cases before : place < chunk.length
    · simp only [before,decide_true]
      rw [List.getElem?_append_left before]
    · simp only [before,decide_false]
      rw [List.getElem?_append_right (Nat.le_of_not_lt before),List.getElem?_drop,
        Nat.add_sub_cancel' (Nat.le_of_not_lt before),earlier,byteAt]

theorem ends_iff (buffer : Stack) (chunks : List (List UInt8))
    (asked : ∀ chunk ∈ chunks, chunk.length ≤ READ_SIZE) (place : Nat) :
    Ends buffer.memory chunks place ↔ 0 ∈ (loaded buffer chunks).memory.take CHUNCK ∧
      (cstring (loaded buffer chunks).memory).length = place := by
  rw [cstring_ends_iff]
  simp only [loaded_byteAt buffer chunks asked]
  exact ⟨fun ⟨inside,nul,first⟩ => ⟨inside,nul,first⟩,fun ⟨inside,nul,first⟩ => ⟨inside,nul,first⟩⟩

theorem forAccesses_inside (global : Stream) (buffer : Stack) (k : Nat) :
    (∀ access ∈ forAccesses global buffer k, access.Inside) ↔
      0 ∈ buffer.memory.take CHUNCK ∧ ∀ i < (cstring buffer.memory).length, k+i < GLOBAL_SIZE := by
  rw [forAccesses,List.forall_mem_cons]
  apply and_congr_right
  intro ended
  constructor
  · intro inside i before
    apply inside (.store global (k+i))
    exact List.mem_flatMap.mpr ⟨i,List.mem_range.mpr before,List.mem_cons_self⟩
  · intro room access member
    obtain ⟨i,before,either⟩ := List.mem_flatMap.mp member
    rcases List.mem_cons.mp either with rfl | again
    · exact room i (List.mem_range.mp before)
    · rw [List.mem_singleton.mp again]
      exact ended

theorem fits_cons (memory : List UInt8) (chunks : List (List UInt8)) (later : List (List (List UInt8)))
    (ended : Prop) (size k : Nat) (ends : ∀ place, Ends memory chunks place ↔ ended ∧ size = place) :
    (∃ lengths, List.Forall₂ (Ends memory) (chunks::later) lengths ∧ k+lengths.sum < GLOBAL_SIZE) ↔
      ended ∧ ∃ lengths, List.Forall₂ (Ends memory) later lengths ∧ k+size+lengths.sum < GLOBAL_SIZE := by
  constructor
  · rintro ⟨_,related,room⟩
    obtain ⟨place,lengths,now,others,rfl⟩ := List.forall₂_cons_left_iff.mp related
    obtain ⟨inside,rfl⟩ := (ends place).mp now
    exact ⟨inside,lengths,others,by rwa [List.sum_cons,← Nat.add_assoc] at room⟩
  · rintro ⟨inside,lengths,others,room⟩
    exact ⟨size::lengths,.cons ((ends size).mpr ⟨inside,rfl⟩) others,
      by rwa [List.sum_cons,← Nat.add_assoc]⟩

theorem fits_nil (memory : List UInt8) (k : Nat) :
    (∃ lengths, List.Forall₂ (Ends memory) [] lengths ∧ k+lengths.sum < GLOBAL_SIZE) ↔ k < GLOBAL_SIZE := by
  constructor
  · rintro ⟨lengths,related,room⟩
    rw [List.forall₂_nil_left_iff.mp related] at room
    exact room
  · intro room
    exact ⟨[],.nil,room⟩

/-- A round that brings data, and the loop from there on. -/
theorem loopAccesses_data (global : Stream) (progress : Progress) (bytes : List UInt8)
    (present : 0 < bytes.length) (fits : bytes.length ≤ READ_SIZE) (later : List Answer) :
    loopAccesses global progress ((Answer.data bytes present fits::later).map Answer.received) =
      forAccesses global (progress.buffer.store bytes) progress.copied.length++
        loopAccesses global ⟨progress.buffer.store bytes,
          progress.copied++cstring (progress.buffer.store bytes).memory⟩ (later.map Answer.received) := by
  cases bytes with
  | nil => contradiction
  | cons byte bytes => simp [loopAccesses,doAccesses,copyLoop,Answer.received]

/-- Every access of a loop is inside exactly if its rounds end and their sum leaves room. -/
theorem loop_inside (base : Stack) (global : Stream) (reads : List Answer) (before : List (List UInt8))
    (progress : Progress) (asked : ∀ chunk ∈ before, chunk.length ≤ READ_SIZE)
    (held : progress.buffer = loaded base before) :
    (∀ access ∈ loopAccesses global progress (reads.map Answer.received), access.Inside) ↔
      ∃ lengths, List.Forall₂ (Ends base.memory) (rounds before reads) lengths ∧
        progress.copied.length+lengths.sum < GLOBAL_SIZE := by
  induction reads generalizing before progress with
  | nil =>
    rw [rounds,fits_nil]
    simp [loopAccesses,doAccesses,copyLoop]
  | cons answer later ih =>
    cases answer with
    | eof =>
      rw [rounds,fits_nil]
      simp [loopAccesses,doAccesses,copyLoop,Answer.received]
    | failed =>
      rw [rounds,fits_cons _ _ _ _ _ _ (ends_iff base before asked),fits_nil,← held]
      simp only [List.map_cons,Answer.received,loopAccesses,doAccesses,copyLoop,List.forall_mem_append,
        forAccesses_inside,List.forall_mem_singleton,inside_store,List.length_append,and_assoc]
      apply and_congr_right
      intro _
      apply and_iff_right_of_imp
      intro room i before
      omega
    | data bytes present fits =>
      have known : ∀ chunk ∈ before++[bytes], chunk.length ≤ READ_SIZE := by
        intro chunk member
        rcases List.mem_append.mp member with old | new
        · exact asked chunk old
        · exact List.mem_singleton.mp new ▸ fits
      have filled : progress.buffer.store bytes = loaded base (before++[bytes]) := by
        simp [loaded,held]
      have rest := ih (before++[bytes])
        ⟨progress.buffer.store bytes,progress.copied++cstring (progress.buffer.store bytes).memory⟩ known filled
      rw [loopAccesses_data,List.forall_mem_append,forAccesses_inside,rest,rounds,
        fits_cons _ _ _ _ _ _ (ends_iff base (before++[bytes]) known),← filled,List.length_append,and_assoc]
      apply and_congr_right
      intro _
      apply and_iff_right_of_imp
      rintro ⟨lengths,_,room⟩ i before
      omega

theorem copyLoop_buffer (reads : List Answer) (progress : Progress) :
    (copyLoop progress (reads.map Answer.received)).buffer = loaded progress.buffer (arrived reads) := by
  induction reads generalizing progress with
  | nil => rfl
  | cons answer later ih =>
    cases answer with
    | eof => rfl
    | failed => rfl
    | data bytes present fits =>
      cases bytes with
      | nil => contradiction
      | cons byte bytes =>
        simp only [List.map_cons,Answer.received,copyLoop,arrived,ih]
        rfl

theorem arrived_asked (reads : List Answer) : ∀ chunk ∈ arrived reads, chunk.length ≤ READ_SIZE := by
  induction reads with
  | nil => simp [arrived]
  | cons answer later ih =>
    cases answer with
    | eof => simp [arrived]
    | failed => simp [arrived]
    | data bytes present fits => exact List.forall_mem_cons.mpr ⟨fits,ih⟩

/-- The loops stay inside their buffers exactly on the outputs that fit. -/
theorem inside_iff (buffer : Stack) (out err : List Answer) :
    (∀ access ∈ captureAccesses buffer (out.map Answer.received) (err.map Answer.received),
      access.Inside) ↔
    Fits buffer.memory [] out ∧ Fits buffer.memory (arrived out) err := by
  rw [captureAccesses,List.forall_mem_append]
  apply and_congr
  · have first := loop_inside buffer .out out [] ⟨buffer,[]⟩ (by simp) rfl
    simpa only [Fits,List.length_nil,Nat.zero_add] using first
  · have second := loop_inside buffer .err err (arrived out)
      ⟨(copyLoop ⟨buffer,[]⟩ (out.map Answer.received)).buffer,[]⟩ (arrived_asked out)
      (copyLoop_buffer out ⟨buffer,[]⟩)
    simpa only [Fits,List.length_nil,Nat.zero_add] using second

/-- 4096 bytes of text, in chunks as large as they can be. -/
def page : List Chunk := List.replicate 128 ⟨List.replicate 32 97,by decide,by decide,by decide⟩

def Chunk.answer (chunk : Chunk) : Answer := .data chunk.bytes chunk.present chunk.asked

theorem page_copied :
    (copyLoop ⟨blank,[]⟩ ((page.map Chunk.answer).map Answer.received)).copied.length = GLOBAL_SIZE := by
  have settled : Settled blank.memory (page.map Chunk.size) := by
    rw [page,List.map_replicate]
    constructor
    · exact List.pairwise_replicate.mpr (Or.inr (Nat.le_refl 32))
    · intro size member
      rw [List.eq_of_mem_replicate member]
      decide +kernel
  have same := (copies_eq_iff blank page).mpr ((exact_iff blank page).mpr settled)
  have reads : (page.map Chunk.answer).map Answer.received = page.map fun chunk => .bytes chunk.bytes := by
    rw [List.map_map]
    rfl
  rw [reads,copyLoop_chunks,List.nil_append,same]
  decide +kernel

/-- The NUL goes behind the end of `StdOut`; and on a stack without a NUL `strlen` goes on
behind the buffer for an output of one byte. -/
theorem page_outside :
    (¬∀ access ∈ captureAccesses blank ((page.map Chunk.answer).map Answer.received) [], access.Inside) ∧
    ¬∀ access ∈ captureAccesses ⟨List.replicate CHUNCK 1,by simp⟩
      ([.data [97] (by decide) (by decide)].map Answer.received) [], access.Inside := by
  constructor
  · intro inside
    have last := inside (.store .out GLOBAL_SIZE)
      (by simp only [captureAccesses,loopAccesses,page_copied]; simp)
    exact absurd last (Nat.lt_irrefl GLOBAL_SIZE)
  · intro inside
    have first := inside (.strlen ⟨store (List.replicate CHUNCK 1) [97],by simp⟩)
      (List.mem_append_left _ List.mem_cons_self)
    rw [inside_strlen] at first
    exact absurd first (by decide +kernel)

end LinuxCourse.PipeCapture
