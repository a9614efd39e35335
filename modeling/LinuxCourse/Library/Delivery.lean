import LinuxCourse.Library.Channel

/-! What a framed channel delivers. `Parses` is a reader run on a byte string
whose every request is met in full; `Fits` also says that no request crosses the
boundary between two calls of `write`. Requests are met in full in every
interleaving when each call is atomic and the requests fit; otherwise only in
those in which no request finds too little in the pipe. -/
namespace LinuxCourse.Library.Channel

variable {α M : Type}

inductive Parses : Reading α → List UInt8 → α → Prop
  | done (result) : Parses (.done result) [] result
  | read (room count next bytes result)
      (enough : count ≤ bytes.length) (fits : count ≤ room)
      (rest : Parses (next (.bytes (bytes.take count))) (bytes.drop count) result) :
      Parses (.read room count next) bytes result

inductive Fits : Reading α → List (List UInt8) → α → Prop
  | done (result) : Fits (.done result) [] result
  | skip (program segments result) (rest : Fits program segments result) :
      Fits program ([]::segments) result
  | nothing (room next segments result) (rest : Fits (next (.bytes [])) segments result) :
      Fits (.read room 0 next) segments result
  | read (room count next segment segments result) (asked : 0 < count)
      (enough : count ≤ segment.length) (fits : count ≤ room)
      (rest : Fits (next (.bytes (segment.take count))) (segment.drop count::segments) result) :
      Fits (.read room count next) (segment::segments) result

def Delivered (expected results : List α) : Prop := results <+: expected ∨ expected <+: results

theorem delivered_get (expected results : List α) (delivered : Delivered expected results)
    (k : Nat) (inside : k < expected.length) (result : α) (returned : results[k]? = some result) :
    result = expected[k] := by
  have bound : k < results.length := (List.getElem?_eq_some_iff.mp returned).1
  have actual : results[k] = result := (List.getElem?_eq_some_iff.mp returned).2
  rcases delivered with early | late
  · rw [← actual]
    exact early.getElem bound
  · rw [← actual]
    exact (late.getElem inside).symm

theorem delivered_partway (out : M → α) (before later : List M) (current : M) (results : List α)
    (same : results = before.map out) :
    Delivered ((before++current::later).map out) results := by
  refine Or.inl ⟨(current::later).map out,?_⟩
  rw [same,← List.map_append]

def stream (state : State α) : List UInt8 := state.pipe++(state.writes.map Write.bytes).flatten

theorem stream_push (capacity size : Nat) (state next : State α)
    (stepped : push capacity state size = some next) :
    stream next = stream state ∧ next.results = state.results ∧ next.reader = state.reader := by
  obtain ⟨call,rest,pending,⟨_,rfl⟩ | ⟨_,writes,rfl,remaining⟩⟩ :=
    push_cases capacity size state next stepped
  · simp [stream,pending]
  · simp only [stream,pending,remaining,List.map_cons,List.flatten_cons,List.append_assoc,and_self,and_true]
    rw [← List.append_assoc (call.bytes.take size),List.take_append_drop]

/-- No call of `read` returns fewer bytes than it asks for. -/
def Full (state : State α) (action : Action) : Prop :=
  action = .read → ∀ room count next, state.reader = .read room count next → count ≤ state.pipe.length

section Framed

variable (frame : M → List UInt8) (out : M → α)

/-- Until the last message is delivered, the reader has part of one message still
to parse and the stream holds that part and the later messages. -/
def Tracks (messages : List M) (state : State α) : Prop :=
  (∃ before current later bytes, messages = before++current::later ∧
    state.results = before.map out ∧ Parses state.reader bytes (out current) ∧
    stream state = bytes++later.flatMap frame) ∨
  messages.map out <+: state.results

theorem tracks_delivered (messages : List M) (state : State α)
    (tracks : Tracks frame out messages state) :
    Delivered (messages.map out) state.results := by
  rcases tracks with ⟨before,current,later,_,rfl,same,_,_⟩ | finished
  · exact delivered_partway out before later current state.results same
  · exact Or.inr finished

theorem tracks_initial (atomicSize : Nat) (program : Reading α) (messages : List M)
    (calls : List (List UInt8)) (written : calls.flatten = messages.flatMap frame)
    (parses : ∀ message ∈ messages, Parses program (frame message) (out message)) :
    Tracks frame out messages (initial atomicSize program calls) := by
  cases messages with
  | nil => exact Or.inr List.nil_prefix
  | cons first later =>
    refine Or.inl ⟨[],first,later,frame first,rfl,rfl,parses first (by simp),?_⟩
    have bytes : calls.map (Write.bytes ∘ Write.ofCall atomicSize) = calls := by
      simp [Function.comp_def,Write.ofCall]
    simp only [stream,initial,List.nil_append,List.map_map,bytes,written,List.flatMap_cons]

theorem tracks_pull (messages : List M) (state next : State α)
    (tracks : Tracks frame out messages state) (full : Full state .read)
    (stepped : pull state = some next) : Tracks frame out messages next := by
  obtain ⟨room,count,rest,asking,answers⟩ := pull_cases state next stepped
  have enough := full rfl room count rest asking
  rcases tracks with ⟨before,current,later,bytes,split,same,parses,ahead⟩ | finished
  · left
    rw [asking] at parses
    cases parses with
    | read _ _ _ _ _ within fits rest =>
      have front : state.pipe.take count = bytes.take count := by
        have both := congrArg (List.take count) ahead
        rwa [stream,List.take_append_of_le_length enough,List.take_append_of_le_length within] at both
      have behind : state.pipe.drop count++(state.writes.map Write.bytes).flatten =
          bytes.drop count++later.flatMap frame := by
        have both := congrArg (List.drop count) ahead
        rwa [stream,List.drop_append_of_le_length enough,List.drop_append_of_le_length within] at both
      rcases answers with ⟨zero,rfl⟩ | ⟨_,empty,_,rfl⟩ | ⟨_,_,_,rfl⟩ | ⟨_,_,past,rfl⟩
      · subst zero
        exact ⟨before,current,later,bytes,split,same,by simpa using rest,ahead⟩
      · rw [empty,List.length_nil] at enough
        omega
      · exact ⟨before,current,later,bytes.drop count,split,same,front ▸ rest,behind⟩
      · have taken := List.length_take_le count state.pipe
        omega
  · right
    obtain ⟨_,_,results⟩ := pull_frame state next stepped
    rw [results]
    exact finished

theorem tracks_finish (program : Reading α) (messages : List M) (state : State α) (result : α)
    (parses : ∀ message ∈ messages, Parses program (frame message) (out message))
    (tracks : Tracks frame out messages state) (ready : state.reader = .done result) :
    Tracks frame out messages {state with results := state.results++[result],reader := program} := by
  rcases tracks with ⟨before,current,later,bytes,split,same,parsed,ahead⟩ | finished
  · rw [ready] at parsed
    cases parsed with
    | done =>
      cases later with
      | nil =>
        right
        exact ⟨[],by simp [split,same]⟩
      | cons following rest =>
        left
        refine ⟨before++[current],following,rest,frame following,by simp [split],by simp [same],
          parses following (by simp [split]),?_⟩
        simpa [stream] using ahead
  · exact Or.inr (finished.trans (List.prefix_append _ _))

/-- In a run in which every request is met in full, the k-th result is what the
k-th message parses to, however its bytes were cut into calls and pieces. -/
theorem delivers_full (atomicSize capacity : Nat) (program : Reading α) (messages : List M)
    (calls : List (List UInt8)) (written : calls.flatten = messages.flatMap frame)
    (parses : ∀ message ∈ messages, Parses program (frame message) (out message))
    (actions : List Action) (final : State α)
    (full : Execution.Meets (step capacity program) Full (initial atomicSize program calls) actions)
    (reached : run capacity program (initial atomicSize program calls) actions = some final) :
    Delivered (messages.map out) final.results := by
  apply tracks_delivered frame out messages final
  refine Execution.run_meets (step capacity program) Full (Tracks frame out messages) ?_ actions _ final
    (tracks_initial frame out atomicSize program messages calls written parses) full reached
  intro state action next tracks full stepped
  cases action with
  | write size =>
    obtain ⟨bytes,results,reader⟩ := stream_push capacity size state next stepped
    simpa only [Tracks,bytes,results,reader] using tracks
  | close =>
    obtain ⟨_,rfl⟩ := close_cases capacity program state next stepped
    exact tracks
  | read => exact tracks_pull frame out messages state next tracks full stepped
  | finish =>
    obtain ⟨result,ready,rfl⟩ := finish_cases capacity program state next stepped
    exact tracks_finish frame out program messages state result parses tracks ready

end Framed

theorem fits_done (result expected : α) (segments : List (List UInt8))
    (fits : Fits (.done result) segments expected) :
    result = expected ∧ ∀ segment ∈ segments, segment = [] := by
  generalize reads : Reading.done result = program at fits
  induction fits with
  | done value => cases reads; simp
  | skip _ segments _ _ ih =>
    obtain ⟨same,empty⟩ := ih reads
    exact ⟨same,by simpa using empty⟩
  | nothing => cases reads
  | read => cases reads

theorem fits_skips (program : Reading α) (result : α) (blanks segments : List (List UInt8))
    (blank : ∀ segment ∈ blanks, segment = []) (fits : Fits program segments result) :
    Fits program (blanks++segments) result := by
  induction blanks with
  | nil => exact fits
  | cons first rest ih =>
    have empty : first = [] := blank first (by simp)
    subst first
    exact .skip _ _ _ (ih (fun segment member => blank segment (by simp [member])))

theorem fits_nothing (room : Nat) (next : Received → Reading α) (result : α)
    (segments : List (List UInt8)) (fits : Fits (.read room 0 next) segments result) :
    Fits (next (.bytes [])) segments result := by
  generalize reads : Reading.read room 0 next = program at fits
  induction fits with
  | done => cases reads
  | skip _ segments _ _ ih => exact .skip _ _ _ (ih reads)
  | nothing _ _ _ _ rest => cases reads; exact rest
  | read _ _ _ _ _ _ asked => cases reads; omega

theorem fits_read (room count : Nat) (next : Received → Reading α) (result : α)
    (segments : List (List UInt8)) (asked : 0 < count)
    (fits : Fits (.read room count next) segments result) :
    ∃ blanks segment rest, segments = blanks++segment::rest ∧
      (∀ blank ∈ blanks, blank = []) ∧ count ≤ segment.length ∧ count ≤ room ∧
      Fits (next (.bytes (segment.take count))) (blanks++segment.drop count::rest) result := by
  generalize reads : Reading.read room count next = program at fits
  induction fits with
  | done => cases reads
  | skip _ _ _ _ ih =>
    obtain ⟨blanks,segment,rest,rfl,blank,enough,within,fits⟩ := ih reads
    exact ⟨[]::blanks,segment,rest,rfl,by simpa using blank,enough,within,.skip _ _ _ fits⟩
  | nothing => cases reads; omega
  | read _ _ _ segment segments _ _ enough within rest =>
    cases reads
    exact ⟨[],segment,segments,rfl,by simp,enough,within,rest⟩

theorem fits_parses (program : Reading α) (segments : List (List UInt8)) (result : α)
    (fits : Fits program segments result) : Parses program segments.flatten result := by
  induction fits with
  | done result => exact .done result
  | skip _ _ _ _ ih => exact ih
  | nothing room next _ _ _ ih =>
    exact .read _ _ _ _ _ (Nat.zero_le _) (Nat.zero_le _) (by simpa using ih)
  | read room count next segment segments _ _ enough within _ ih =>
    refine .read _ _ _ _ _ ?_ within ?_
    · simp only [List.flatten_cons,List.length_append]
      omega
    · rw [List.flatten_cons,List.take_append_of_le_length enough,List.drop_append_of_le_length enough]
      exact ih

theorem ready_front (blanks rest later ready pending : List (List UInt8)) (segment : List UInt8)
    (blank : ∀ blank ∈ blanks, blank = [])
    (split : (blanks++segment::rest)++later = ready++pending) (present : ready.flatten ≠ []) :
    ∃ behind, ready = blanks++segment::behind ∧ rest++later = behind++pending := by
  induction blanks generalizing ready with
  | nil =>
    cases ready with
    | nil => simp at present
    | cons first behind =>
      simp only [List.nil_append,List.cons_append,List.cons.injEq] at split
      exact ⟨behind,by simp [split.1],split.2⟩
  | cons head blanks ih =>
    cases ready with
    | nil => simp at present
    | cons first others =>
      simp only [List.cons_append,List.cons.injEq] at split
      have empty : first = [] := by rw [← split.1]; exact blank head (by simp)
      obtain ⟨behind,same,continued⟩ := ih others (fun b member => blank b (by simp [member]))
        split.2 (by simpa [empty] using present)
      exact ⟨behind,by rw [same,split.1]; rfl,continued⟩

section Atomic

variable (segments : M → List (List UInt8)) (out : M → α)

/-- As `Tracks`, with the boundaries between the calls kept: what the reader has
yet to read is the segments in the pipe and then the calls not yet made. -/
def Aligned (messages : List M) (state : State α) : Prop :=
  (∃ before current later unread ready, messages = before++current::later ∧
    state.results = before.map out ∧ Fits state.reader unread (out current) ∧
    unread++later.flatMap segments = ready++state.writes.map Write.bytes ∧
    state.pipe = ready.flatten ∧ (∀ call ∈ state.writes, call.atomic = true) ∧
    (state.closed = true → state.writes = [])) ∧ state.overrun = false ∨
  messages.map out <+: state.results

theorem aligned_delivered (messages : List M) (state : State α)
    (aligned : Aligned segments out messages state) :
    Delivered (messages.map out) state.results := by
  rcases aligned with ⟨⟨before,current,later,_,_,rfl,same,_⟩,_⟩ | finished
  · exact delivered_partway out before later current state.results same
  · exact Or.inr finished

theorem aligned_initial (atomicSize : Nat) (program : Reading α) (messages : List M)
    (short : ∀ message ∈ messages, ∀ segment ∈ segments message, segment.length ≤ atomicSize)
    (fits : ∀ message ∈ messages, Fits program (segments message) (out message)) :
    Aligned segments out messages (initial atomicSize program (messages.flatMap segments)) := by
  cases messages with
  | nil => exact Or.inr List.nil_prefix
  | cons first later =>
    have calls : (((first::later).flatMap segments).map (Write.ofCall atomicSize)).map Write.bytes =
        (first::later).flatMap segments := by
      simp only [List.map_map]
      exact List.map_id _
    refine Or.inl ⟨⟨[],first,later,segments first,[],rfl,rfl,fits first (by simp),calls.symm,rfl,?_,?_⟩,rfl⟩
    · intro call member
      obtain ⟨bytes,inside,rfl⟩ := List.mem_map.mp member
      obtain ⟨message,sent,part⟩ := List.mem_flatMap.mp inside
      simpa [Write.ofCall] using short message sent bytes part
    · simp [initial]

theorem aligned_push (capacity size : Nat) (messages : List M) (state next : State α)
    (aligned : Aligned segments out messages state)
    (stepped : push capacity state size = some next) : Aligned segments out messages next := by
  obtain ⟨call,rest,pending,moved⟩ := push_cases capacity size state next stepped
  rcases aligned with
    ⟨⟨before,current,later,unread,ready,split,same,fits,ahead,piped,atomic,closed⟩,safe⟩ | finished
  · rcases moved with ⟨_,rfl⟩ | ⟨partly,_⟩
    · refine Or.inl ⟨⟨before,current,later,unread,ready++[call.bytes],split,same,fits,?_,?_,?_,?_⟩,safe⟩
      · rw [ahead,pending]
        simp
      · simp [piped]
      · exact fun other member => atomic other (by simp [pending,member])
      · intro shut
        have none := closed shut
        rw [pending] at none
        contradiction
    · have whole := atomic call (by simp [pending])
      rw [whole] at partly
      contradiction
  · rcases moved with ⟨_,rfl⟩ | ⟨_,_,rfl,_⟩ <;> exact Or.inr finished

theorem aligned_pull (messages : List M) (state next : State α)
    (aligned : Aligned segments out messages state)
    (stepped : pull state = some next) : Aligned segments out messages next := by
  obtain ⟨room,count,program,asking,answers⟩ := pull_cases state next stepped
  rcases aligned with
    ⟨⟨before,current,later,unread,ready,split,same,fits,ahead,piped,atomic,closed⟩,safe⟩ | finished
  · rw [asking] at fits
    rcases answers with ⟨zero,rfl⟩ | ⟨asked,empty,shut,rfl⟩ | ⟨asked,present,_,rfl⟩ | ⟨asked,present,past,rfl⟩
    · subst zero
      exact Or.inl ⟨⟨before,current,later,unread,ready,split,same,fits_nothing _ _ _ _ fits,
        ahead,piped,atomic,closed⟩,safe⟩
    · obtain ⟨blanks,segment,rest,rfl,_,enough,_,_⟩ := fits_read _ _ _ _ _ asked fits
      have all : ready = blanks++segment::(rest++later.flatMap segments) := by
        simpa [closed shut] using ahead.symm
      have nonempty : state.pipe ≠ [] := by
        intro nothing
        rw [piped,all] at nothing
        simp only [List.flatten_append,List.flatten_cons,List.append_eq_nil_iff] at nothing
        rw [nothing.2.1,List.length_nil] at enough
        omega
      contradiction
    · obtain ⟨blanks,segment,rest,rfl,blank,enough,_,continued⟩ := fits_read _ _ _ _ _ asked fits
      obtain ⟨behind,rfl,tail⟩ := ready_front _ _ _ _ _ _ blank ahead (piped ▸ present)
      have nothing : blanks.flatten = [] := List.flatten_eq_nil_iff.mpr blank
      have front : state.pipe = segment++behind.flatten := by simp [piped,nothing]
      refine Or.inl ⟨⟨before,current,later,blanks++segment.drop count::rest,
        blanks++segment.drop count::behind,split,same,?_,?_,?_,atomic,closed⟩,safe⟩
      · rw [front,List.take_append_of_le_length enough]
        exact continued
      · simp only [List.append_assoc,List.cons_append,tail]
      · simp only [front,List.drop_append_of_le_length enough,List.flatten_append,
          List.flatten_cons,nothing,List.nil_append]
    · obtain ⟨_,_,_,_,_,_,within,_⟩ := fits_read _ _ _ _ _ asked fits
      have taken := List.length_take_le count state.pipe
      omega
  · right
    obtain ⟨_,_,results⟩ := pull_frame state next stepped
    rw [results]
    exact finished

theorem aligned_finish (program : Reading α) (messages : List M) (state : State α) (result : α)
    (programFits : ∀ message ∈ messages, Fits program (segments message) (out message))
    (aligned : Aligned segments out messages state) (ready : state.reader = .done result) :
    Aligned segments out messages
      {state with results := state.results++[result],reader := program} := by
  rcases aligned with
    ⟨⟨before,current,later,unread,inPipe,split,same,fits,ahead,piped,atomic,closed⟩,safe⟩ | finished
  · rw [ready] at fits
    obtain ⟨rfl,blank⟩ := fits_done result _ unread fits
    cases later with
    | nil =>
      right
      exact ⟨[],by simp [split,same]⟩
    | cons following rest =>
      have starts := fits_skips program (out following) unread (segments following) blank
        (programFits following (by simp [split]))
      refine Or.inl ⟨⟨before++[current],following,rest,unread++segments following,inPipe,
        by simp [split],by simp [same],starts,?_,piped,atomic,closed⟩,safe⟩
      simpa using ahead
  · exact Or.inr (finished.trans (List.prefix_append _ _))

/-- When every call is atomic and no request crosses the boundary between two
calls, every interleaving delivers the messages in order. -/
theorem delivers_atomic (atomicSize capacity : Nat) (program : Reading α) (messages : List M)
    (short : ∀ message ∈ messages, ∀ segment ∈ segments message, segment.length ≤ atomicSize)
    (fits : ∀ message ∈ messages, Fits program (segments message) (out message))
    (actions : List Action) (final : State α)
    (reached : run capacity program (initial atomicSize program (messages.flatMap segments)) actions =
      some final) :
    Delivered (messages.map out) final.results := by
  apply aligned_delivered segments out messages final
  refine Execution.run_invariant (step capacity program) (Aligned segments out messages) ?_ actions _ final
    (aligned_initial segments out atomicSize program messages short fits) reached
  intro state action next aligned stepped
  cases action with
  | write size => exact aligned_push segments out capacity size messages state next aligned stepped
  | close =>
    obtain ⟨done,rfl⟩ := close_cases capacity program state next stepped
    rcases aligned with
      ⟨⟨before,current,later,unread,ready,split,same,fits,ahead,piped,atomic,_⟩,safe⟩ | finished
    · exact Or.inl ⟨⟨before,current,later,unread,ready,split,same,fits,ahead,piped,atomic,
        fun _ => done⟩,safe⟩
    · exact Or.inr finished
  | read => exact aligned_pull segments out messages state next aligned stepped
  | finish =>
    obtain ⟨result,ready,rfl⟩ := finish_cases capacity program state next stepped
    exact aligned_finish segments out program messages state result fits aligned ready

end Atomic

end LinuxCourse.Library.Channel
