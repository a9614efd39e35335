import LinuxCourse.Library.CString
import LinuxCourse.Library.Reading
import LinuxCourse.Processes.Pipe

/-! The two loops of `processes/pipe.cpp` that copy what a child wrote into `StdOut` and
`StdErr`. Both go through one local buffer, and take its string rather than the number of
bytes that `read` returned. -/
namespace LinuxCourse.PipeCapture
open Library Bytes Pipe

def CHUNCK : Nat := 256

/-- The stack from the local `buffer` on: its own bytes, which nobody has set, and what
`strlen` finds behind them. -/
structure Stack where
  memory : List UInt8
  holds : CHUNCK ≤ memory.length

def Stack.store (stack : Stack) (bytes : List UInt8) : Stack :=
  ⟨Bytes.store stack.memory bytes,by
    rw [store_length]
    exact stack.holds⟩

@[simp] theorem Stack.store_memory (stack : Stack) (bytes : List UInt8) :
    (stack.store bytes).memory = Bytes.store stack.memory bytes := rfl

/-- `copied` is what was put into the global so far, in `k` bytes. -/
structure Progress where
  buffer : Stack
  copied : List UInt8

/-- The results of `read` one after another; none left is the end of file. -/
def copyLoop (progress : Progress) : List Received → Progress
  | [] => progress
  | .bytes []::_ => progress
  | .failed::_ => {progress with copied := progress.copied++cstring progress.buffer.memory}
  | .bytes (byte::rest)::later =>
    let buffer := progress.buffer.store (byte::rest)
    copyLoop ⟨buffer,progress.copied++cstring buffer.memory⟩ later

structure Globals where
  StdOut : List UInt8
  StdErr : List UInt8

def Globals.of (globals : Globals) : Stream → List UInt8
  | .out => globals.StdOut
  | .err => globals.StdErr

def GLOBAL_SIZE : Nat := 4096

/-- A global once a loop has ended; `k` bytes and the NUL may run past its end. -/
def terminated (copied : List UInt8) : List UInt8 := store (zeros GLOBAL_SIZE) (copied++[0])

def capture (buffer : Stack) (out err : List Received) : Globals :=
  let first := copyLoop ⟨buffer,[]⟩ out
  let second := copyLoop ⟨first.buffer,[]⟩ err
  ⟨terminated first.copied,terminated second.copied⟩

/-- What one `read` of text returns. -/
structure Chunk where
  bytes : List UInt8
  present : 0 < bytes.length
  asked : bytes.length ≤ READ_SIZE
  free : NulFree bytes

def Chunk.size (chunk : Chunk) : Nat := chunk.bytes.length

def text (chunks : List Chunk) : List UInt8 := (chunks.map Chunk.bytes).flatten

/-- A child's output as it comes in. -/
structure Output where
  chunks : List Chunk
  fits : (text chunks).length < GLOBAL_SIZE

def Output.reads (output : Output) : List Received := output.chunks.map fun chunk => .bytes chunk.bytes

def Captured (global bytes : List UInt8) : Prop := global.take (bytes.length+1) = bytes++[0]

def stored (buffer : Stack) (chunks : List Chunk) : Stack :=
  chunks.foldl (fun buffer chunk => buffer.store chunk.bytes) buffer

/-- What the rounds of a loop add to the global. -/
def copies (buffer : Stack) : List Chunk → List UInt8
  | [] => []
  | chunk::later =>
    cstring (buffer.store chunk.bytes).memory++copies (buffer.store chunk.bytes) later

theorem copyLoop_chunks (progress : Progress) (chunks : List Chunk) :
    copyLoop progress (chunks.map fun chunk => .bytes chunk.bytes) =
      ⟨stored progress.buffer chunks,progress.copied++copies progress.buffer chunks⟩ := by
  induction chunks generalizing progress with
  | nil => simp [copyLoop,stored,copies]
  | cons chunk later ih =>
    obtain ⟨bytes,present,asked,free⟩ := chunk
    cases bytes with
    | nil => simp at present
    | cons byte rest =>
      simp only [List.map_cons,copyLoop,ih,stored,List.foldl_cons,copies,List.append_assoc]

theorem Chunk.inside (chunk : Chunk) (buffer : Stack) : chunk.size < buffer.memory.length := by
  apply Nat.lt_of_le_of_lt chunk.asked
  exact Nat.lt_of_lt_of_le (by decide) buffer.holds

theorem text_nulFree (chunks : List Chunk) : NulFree (text chunks) := by
  intro byte member
  obtain ⟨bytes,part,inside⟩ := List.mem_flatten.mp member
  obtain ⟨chunk,_,rfl⟩ := List.mem_map.mp part
  exact chunk.free byte inside

theorem copies_nulFree (buffer : Stack) (chunks : List Chunk) : NulFree (copies buffer chunks) := by
  induction chunks generalizing buffer with
  | nil => intro byte member; contradiction
  | cons chunk later ih =>
    intro byte member
    rcases List.mem_append.mp member with now | after
    · exact cstring_nulFree _ byte now
    · exact ih _ byte after

/-- A round adds its own bytes, and then whatever the buffer has behind them. -/
theorem round_copies (buffer : Stack) (chunk : Chunk) :
    cstring (buffer.store chunk.bytes).memory =
      chunk.bytes++cstring (buffer.memory.drop chunk.size) := by
  rw [Stack.store_memory,store_within _ _ (Nat.le_of_lt (chunk.inside buffer)),cstring_append _ _ chunk.free]
  rfl

theorem copies_long (buffer : Stack) (chunks : List Chunk) :
    (text chunks).length ≤ (copies buffer chunks).length := by
  induction chunks generalizing buffer with
  | nil => exact Nat.zero_le _
  | cons chunk later ih =>
    have rest := ih (buffer.store chunk.bytes)
    simp only [text,List.map_cons,List.flatten_cons,copies,round_copies,List.length_append] at rest ⊢
    omega

/-- Each round finds a NUL right behind the bytes it reads. -/
def Exact (buffer : Stack) : List Chunk → Prop
  | [] => True
  | chunk::later => buffer.memory[chunk.size]? = some 0 ∧ Exact (buffer.store chunk.bytes) later

/-- Nothing that a round adds too much can be made up for later. -/
theorem copies_eq_iff (buffer : Stack) (chunks : List Chunk) :
    copies buffer chunks = text chunks ↔ Exact buffer chunks := by
  induction chunks generalizing buffer with
  | nil => exact ⟨fun _ => trivial,fun _ => rfl⟩
  | cons chunk later ih =>
    have ended := cstring_store buffer.memory chunk.bytes chunk.free (chunk.inside buffer)
    have long := copies_long (buffer.store chunk.bytes) later
    have whole : text (chunk::later) = chunk.bytes++text later := rfl
    rw [Exact,← ih,Chunk.size,← ended]
    constructor
    · intro same
      rw [copies,round_copies,whole,List.append_assoc,List.append_cancel_left_eq] at same
      have sizes := congrArg List.length same
      rw [List.length_append] at sizes
      have none : cstring (buffer.memory.drop chunk.size) = [] :=
        List.eq_nil_of_length_eq_zero (by omega)
      rw [none,List.nil_append] at same
      refine ⟨?_,same⟩
      have round := round_copies buffer chunk
      rwa [none,List.append_nil] at round
    · rintro ⟨now,after⟩
      rw [copies,whole,after]
      exact congrArg (· ++ text later) now

/-- The sizes never go down, and the buffer has had a NUL at each of them. -/
def Settled (memory : List UInt8) (sizes : List Nat) : Prop :=
  sizes.Pairwise (· ≤ ·) ∧ ∀ size ∈ sizes, memory[size]? = some 0

theorem store_nul_iff (memory bytes : List UInt8) (free : NulFree bytes)
    (inside : bytes.length ≤ memory.length) (place : Nat) :
    (store memory bytes)[place]? = some 0 ↔ bytes.length ≤ place ∧ memory[place]? = some 0 := by
  rw [store_within _ _ inside]
  by_cases behind : bytes.length ≤ place
  · rw [List.getElem?_append_right behind,List.getElem?_drop,Nat.add_sub_cancel' behind]
    simp only [behind,true_and]
  · have before : place < bytes.length := Nat.lt_of_not_le behind
    rw [List.getElem?_append_left before,List.getElem?_eq_getElem before]
    simp only [behind,false_and,iff_false,Option.some.injEq]
    exact free _ (List.getElem_mem before)

theorem exact_iff (buffer : Stack) (chunks : List Chunk) :
    Exact buffer chunks ↔ Settled buffer.memory (chunks.map Chunk.size) := by
  induction chunks generalizing buffer with
  | nil => simp [Exact,Settled]
  | cons chunk later ih =>
    have behind (size : Nat) : (buffer.store chunk.bytes).memory[size]? = some 0 ↔
        chunk.size ≤ size ∧ buffer.memory[size]? = some 0 :=
      store_nul_iff buffer.memory chunk.bytes chunk.free (Nat.le_of_lt (chunk.inside buffer)) size
    simp only [Exact,ih,Settled,behind,List.map_cons,List.pairwise_cons,List.forall_mem_cons]
    constructor
    · rintro ⟨now,ordered,later⟩
      exact ⟨⟨fun size member => (later size member).1,ordered⟩,now,
        fun size member => (later size member).2⟩
    · rintro ⟨⟨smallest,ordered⟩,now,later⟩
      exact ⟨now,ordered,fun size member => ⟨smallest size member,later size member⟩⟩

theorem exact_append (buffer : Stack) (first second : List Chunk) :
    Exact buffer (first++second) ↔ Exact buffer first ∧ Exact (stored buffer first) second := by
  induction first generalizing buffer with
  | nil => simp [Exact,stored]
  | cons chunk later ih =>
    simp only [List.cons_append,Exact,ih,stored,List.foldl_cons,and_assoc]

theorem captured_iff (copied bytes : List UInt8) (free : NulFree copied) (bare : NulFree bytes)
    (fits : bytes.length < GLOBAL_SIZE) : Captured (terminated copied) bytes ↔ copied = bytes := by
  have front : (terminated copied).take (bytes.length+1) =
      (copied++0::(zeros GLOBAL_SIZE).drop (copied++[0]).length).take (bytes.length+1) := by
    rw [terminated,store,List.take_take,zeros_length,Nat.min_eq_left fits,List.append_assoc]
    rfl
  rw [Captured,front]
  constructor
  · intro same
    have whole := List.take_append_drop (bytes.length+1)
      (copied++0::(zeros GLOBAL_SIZE).drop (copied++[0]).length)
    rw [same,List.append_assoc,List.singleton_append] at whole
    rw [← cstring_ended copied _ free,← whole,cstring_ended bytes _ bare]
  · rintro rfl
    rw [List.append_cons,List.take_left' (by simp)]

theorem captured_exact (buffer : Stack) (output : Output) :
    Captured (terminated (copies buffer output.chunks)) (text output.chunks) ↔
      Exact buffer output.chunks := by
  rw [captured_iff _ _ (copies_nulFree _ _) (text_nulFree _) output.fits]
  exact copies_eq_iff buffer output.chunks

theorem capture_reads (buffer : Stack) (out err : Output) :
    capture buffer out.reads err.reads = ⟨terminated (copies buffer out.chunks),
      terminated (copies (stored buffer out.chunks) err.chunks)⟩ := by
  simp only [capture,Output.reads,copyLoop_chunks,List.nil_append]

theorem captured_exactly_iff (buffer : Stack) (out err : Output) :
    (Captured (capture buffer out.reads err.reads).StdOut (text out.chunks) ∧
      Captured (capture buffer out.reads err.reads).StdErr (text err.chunks)) ↔
    Settled buffer.memory ((out.chunks++err.chunks).map Chunk.size) := by
  rw [← exact_iff,exact_append,← captured_exact,← captured_exact,capture_reads]

def blank : Stack := ⟨zeros CHUNCK,by simp⟩

/-- Two bytes and then one, as when the last chunk is the shortest. -/
def shrinking : Output :=
  ⟨[⟨[97,98],by decide,by decide,by decide⟩,⟨[99],by decide,by decide,by decide⟩],by decide⟩

def silent : Output := ⟨[],by decide⟩

theorem leftover_captured :
    ¬Captured (capture blank shrinking.reads silent.reads).StdOut (text shrinking.chunks) := by
  intro captured
  simp only [capture_reads] at captured
  have settled := (exact_iff _ _).mp ((captured_exact blank shrinking).mp captured)
  exact absurd settled.1 (by decide)

/-- The parent is through with the loop that reads a stream. -/
def passed : Parent → Stream → Bool
  | .read .err, .out => true
  | .done, _ => true
  | _, _ => false

structure Sound (state : State) : Prop where
  sized : ∀ stream, ∀ bytes ∈ state.received stream, 0 < bytes.length ∧ bytes.length ≤ READ_SIZE
  finished : state.exited = true → state.script = []
  drained : ∀ stream, passed state.parent stream = true →
    state.exited = true ∧ (state.pipes stream).bytes = []

theorem execute_sound (state next : State) (count : Nat) (sound : Sound state)
    (stepped : execute state count = some next) : Sound next := by
  obtain ⟨sized,finished,drained⟩ := sound
  rcases execute_steps state next count stepped with
    ⟨_,rfl⟩ | ⟨_,rfl⟩ | ⟨_,_,rfl⟩ | ⟨target,reading,⟨empty,_,ended,rfl⟩ | ⟨present,positive,asked,rfl⟩⟩
  · exact ⟨sized,finished,by simp [passed]⟩
  · exact ⟨sized,finished,by simp [passed]⟩
  · exact ⟨sized,finished,by simp [passed]⟩
  · refine ⟨sized,finished,?_⟩
    intro stream past
    refine ⟨ended,?_⟩
    cases target with
    | out =>
      cases stream with
      | out => exact empty
      | err => simp [passed] at past
    | err =>
      cases stream with
      | out => exact (drained .out (by rw [reading]; rfl)).2
      | err => exact empty
  · refine ⟨?_,finished,?_⟩
    · intro stream bytes member
      by_cases same : stream = target
      · subst same
        simp only [Function.update_self,List.mem_append,List.mem_singleton] at member
        rcases member with before | now
        · exact sized stream bytes before
        · have some := List.length_pos_iff.mpr present
          rw [now,List.length_take]
          omega
      · simp only [Function.update_of_ne same] at member
        exact sized stream bytes member
    · intro stream past
      have other : stream ≠ target := by
        rintro rfl
        rw [reading] at past
        cases stream <;> simp [passed] at past
      simp only [Function.update_of_ne other]
      exact drained stream past

theorem child_sound (state next : State) (count : Nat) (sound : Sound state)
    (stepped : child state count = some next) : Sound next := by
  obtain ⟨sized,finished,drained⟩ := sound
  obtain ⟨running,moved⟩ := child_steps state next count stepped
  have reading (stream : Stream) : passed state.parent stream = false := by
    rw [Bool.eq_false_iff]
    intro past
    have ended := (drained stream past).1
    rw [running] at ended
    contradiction
  rcases moved with ⟨script,rfl⟩ | ⟨_,_,_,rfl⟩ | ⟨_,_,_,_,_,_,_,_,rfl⟩
  · exact ⟨sized,fun _ => script,by simp [reading]⟩
  · exact ⟨sized,by simp [running],by simp [reading]⟩
  · exact ⟨sized,by simp [running],by simp [reading]⟩

theorem run_sound (capacity : Stream → Nat) (script : List (Stream × List UInt8)) (actions : List Action)
    (final : State) (reached : run (initial capacity script) actions = some final) : Sound final := by
  refine Execution.run_invariant step Sound ?_ actions _ final ⟨?_,?_,?_⟩ reached
  · intro state action next sound stepped
    cases action with
    | parent count => exact execute_sound state next count sound stepped
    | child count => exact child_sound state next count sound stepped
  · simp [initial]
  · simp [initial]
  · simp [initial,passed]

/-- A parent that is done has read all that the child wrote. -/
theorem done_received (capacity : Stream → Nat) (script : List (Stream × List UInt8))
    (actions : List Action) (final : State) (reached : run (initial capacity script) actions = some final)
    (done : final.parent = .done) (stream : Stream) :
    (final.received stream).flatten = written stream script := by
  have sound := run_sound capacity script actions final reached
  obtain ⟨exited,empty⟩ := sound.drained stream (by rw [done]; rfl)
  obtain ⟨_,flowed⟩ := run_flow capacity script actions final reached stream
  rw [flow,empty,sound.finished exited,written,List.append_nil,List.append_nil] at flowed
  exact flowed

theorem chunks_of (received : List (List UInt8)) (free : NulFree received.flatten)
    (sized : ∀ bytes ∈ received, 0 < bytes.length ∧ bytes.length ≤ READ_SIZE) :
    ∃ chunks : List Chunk, chunks.map Chunk.bytes = received := by
  induction received with
  | nil => exact ⟨[],rfl⟩
  | cons bytes later ih =>
    obtain ⟨chunks,same⟩ := ih (fun byte member => free byte (by simp [member]))
      (fun bytes member => sized bytes (List.mem_cons_of_mem _ member))
    obtain ⟨present,asked⟩ := sized bytes List.mem_cons_self
    exact ⟨⟨bytes,present,asked,fun byte member => free byte (by simp [member])⟩::chunks,
      by rw [List.map_cons,same]⟩

/-- However the two processes interleave, the globals hold the child's output exactly if
the reads came back in growing sizes over a buffer with a NUL at each of them. -/
theorem run_captured (capacity : Stream → Nat) (script : List (Stream × List UInt8))
    (actions : List Action) (final : State) (reached : run (initial capacity script) actions = some final)
    (done : final.parent = .done) (free : ∀ stream, NulFree (written stream script))
    (short : ∀ stream, (written stream script).length < GLOBAL_SIZE) (buffer : Stack) :
    (∀ stream, Captured ((capture buffer ((final.received .out).map .bytes)
        ((final.received .err).map .bytes)).of stream) (written stream script)) ↔
      Settled buffer.memory ((final.received .out++final.received .err).map List.length) := by
  have all := done_received capacity script actions final reached done
  have sound := run_sound capacity script actions final reached
  have output (stream : Stream) : ∃ output : Output, output.chunks.map Chunk.bytes = final.received stream := by
    obtain ⟨chunks,same⟩ :=
      chunks_of (final.received stream) (by rw [all]; exact free stream) (sound.sized stream)
    exact ⟨⟨chunks,by rw [text,same,all]; exact short stream⟩,same⟩
  obtain ⟨out,outs⟩ := output .out
  obtain ⟨err,errs⟩ := output .err
  have reads (output : Output) : output.reads = (output.chunks.map Chunk.bytes).map .bytes := by
    rw [Output.reads,List.map_map]
    rfl
  have sizes : (final.received .out++final.received .err).map List.length =
      (out.chunks++err.chunks).map Chunk.size := by
    rw [← outs,← errs,← List.map_append,List.map_map]
    rfl
  have outText : text out.chunks = written .out script := by rw [text,outs,all]
  have errText : text err.chunks = written .err script := by rw [text,errs,all]
  rw [sizes,← exact_iff,exact_append,← captured_exact,← captured_exact,outText,errText,← outs,← errs,
    ← reads,← reads]
  simp only [capture_reads]
  constructor
  · intro captured
    have first := captured .out
    have second := captured .err
    simp only [Globals.of] at first second
    exact ⟨first,second⟩
  · rintro ⟨first,second⟩ stream
    cases stream with
    | out => simpa only [Globals.of] using first
    | err => simpa only [Globals.of] using second

end LinuxCourse.PipeCapture
