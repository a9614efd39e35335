import LinuxCourse.Library.Lingering

/-! A writer that goes only after its last call, on a pipe that the reader keeps open. What
becomes of the reader is then in the messages: it ends if one of them stops it, and waits
for ever if none does. -/
namespace LinuxCourse.Library.Lingering
open Channel (stream Full Parses Fits Aligned)

variable {α M : Type}

section Outlook
variable (capacity : Nat) (program : Reading α) (stops : α → Bool)

/-- Whether the reader has ended, or would if it got all the bytes still to come at once. -/
def outlook (state : State α) : Bool :=
  state.stopped || Reaches program stops state.channel.reader (stream state.channel)

/-- The writer makes its last call before it goes, and no read before that comes up short. -/
def Whole (state : State α) (action : Action) : Prop :=
  state.channel.writes = [] ∨
    (∀ size, action ≠ .leave size) ∧ (action = .read → Full state.channel .read)

theorem pull_stream (channel next : Channel.State α) (roomy : Roomy channel.reader)
    (isOpen : channel.closed = false) (whole : channel.writes = [] ∨ Full channel .read)
    (stepped : Channel.pull channel = some next) :
    serve next.reader (stream next) = serve channel.reader (stream channel) := by
  obtain ⟨room,count,rest,asking,answers⟩ := Channel.pull_cases channel next stepped
  rcases answers with ⟨zero,rfl⟩ | ⟨_,_,closed,_⟩ | ⟨asked,present,_,rfl⟩ | ⟨_,_,past,_⟩
  · rw [asking,serve,if_pos zero]
    rfl
  · rw [isOpen] at closed
    contradiction
  · have more : stream channel ≠ [] := List.append_ne_nil_of_left_ne_nil present _
    rw [asking,serve,if_neg (Nat.ne_of_gt asked),if_neg more]
    rcases whole with last | full
    · simp only [stream,last,List.map_nil,List.flatten_nil,List.append_nil]
    · have enough := full rfl room count rest asking
      rw [stream,stream,List.take_append_of_le_length enough,List.drop_append_of_le_length enough]
  · rw [asking] at roomy
    cases roomy with
    | read _ _ _ fits _ =>
      have taken := List.length_take_le count channel.pipe
      omega

theorem step_outlook (eager : Eager program) (state next : State α) (action : Action) (sane : Sane state)
    (whole : Whole state action)
    (stepped : step true capacity program stops state action = some next) :
    outlook program stops next = outlook program stops state := by
  obtain ⟨_,reading,isOpen⟩ := sane
  rcases step_cases true capacity program stops state next action stepped with
    ⟨size,channel,_,_,pushed,rfl⟩ | ⟨size,rfl,_,rfl⟩ | ⟨channel,rfl,_,pulled,rfl⟩ | ⟨result,_,runs,done,rfl⟩
  · obtain ⟨bytes,_,reader⟩ := Channel.stream_push capacity size _ channel pushed
    simp only [outlook,bytes,reader]
  · have last : state.channel.writes = [] := by
      rcases whole with last | ⟨stays,_⟩
      · exact last
      · exact absurd rfl (stays size)
    simp only [outlook,stream,lastBytes,last,List.map_nil,List.flatten_nil,List.append_nil]
  · have same := pull_stream _ channel reading isOpen (whole.imp_right fun full => full.2 rfl) pulled
    simp only [outlook,Reaches,same]
  · have now : Reaches program stops state.channel.reader (stream state.channel) =
        (stops result || Reaches program stops program (stream state.channel)) := by
      rw [done,reaches_program program stops eager]
      rfl
    simp only [outlook,runs,now,Bool.false_or]
    rfl

/-- One that has gone has nothing more to write. -/
def Silent (state : State α) : Prop :=
  state.alive = false → state.channel.writes = []

theorem step_silent (state next : State α) (action : Action) (silent : Silent state)
    (stepped : step true capacity program stops state action = some next) : Silent next := by
  intro gone
  rcases step_cases true capacity program stops state next action stepped with
    ⟨_,_,_,alive,_,rfl⟩ | ⟨_,_,_,rfl⟩ | ⟨channel,_,_,pulled,rfl⟩ | ⟨_,_,_,_,rfl⟩
  · rw [alive] at gone
    contradiction
  · rfl
  · obtain ⟨writes,_⟩ := Channel.pull_frame _ channel pulled
    exact writes.trans (silent gone)
  · exact silent gone

theorem silent_settles (state : State α) (silent : Silent state) (gone : state.alive = false) :
    outlook program stops state = true ↔ Settles program stops state := by
  simp only [outlook,stream,silent gone,List.map_nil,List.flatten_nil,List.append_nil,Bool.or_eq_true,
    Settles]

/-- Whether the reader is stranded in the end is settled by the calls alone. -/
theorem run_whole (eager : Eager program) (roomy : Roomy program) (actions : List Action)
    (state final : State α) (sane : Sane state) (silent : Silent state)
    (whole : Execution.Meets (step true capacity program stops) Whole state actions)
    (reached : Execution.run (step true capacity program stops) state actions = some final) :
    (outlook program stops state = true → ¬Stranded final) ∧
    (outlook program stops state = false → final.alive = false →
      ∃ more last, Execution.run (step true capacity program stops) final more = some last ∧
        Stranded last) := by
  obtain ⟨kept,quiet,same⟩ : Sane final ∧ Silent final ∧
      outlook program stops final = outlook program stops state := by
    refine Execution.run_meets _ Whole (fun now => Sane now ∧ Silent now ∧
      outlook program stops now = outlook program stops state) ?_ actions state final ⟨sane,silent,rfl⟩
      whole reached
    intro now action next ⟨sane,silent,same⟩ whole stepped
    refine ⟨step_sane capacity program stops roomy now next action sane stepped,
      step_silent capacity program stops now next action silent stepped,?_⟩
    rw [step_outlook capacity program stops eager now next action sane whole stepped,same]
  constructor
  · intro ends stranded
    have settles := (silent_settles program stops final quiet stranded.1).mp (same.trans ends)
    exact settles_free program stops final settles stranded
  · intro waits gone
    apply doomed_strands capacity program stops eager roomy final
    apply (doomed_iff program stops final).mpr
    refine ⟨kept,gone,fun settles => ?_⟩
    rw [← silent_settles program stops final quiet gone,same,waits] at settles
    contradiction

end Outlook

section Messages
variable (program : Reading α) (stops : α → Bool) (frame : M → List UInt8) (out : M → α)

theorem parses_serve (reader : Reading α) (bytes rest : List UInt8) (result : α)
    (parses : Parses reader bytes result) : serve reader (bytes++rest) = some (result,rest) := by
  induction parses with
  | done result => rfl
  | read room count next bytes result enough _ _ ih =>
    rw [serve]
    split
    · rename_i zero
      rw [zero,List.take_zero,List.drop_zero] at ih
      exact ih
    · rename_i asked
      have more : bytes++rest ≠ [] := by
        apply List.append_ne_nil_of_left_ne_nil
        intro none
        rw [none] at enough
        exact asked (Nat.le_zero.mp enough)
      rw [if_neg more,List.take_append_of_le_length enough,List.drop_append_of_le_length enough]
      exact ih

theorem reaches_frames (eager : Eager program) (messages : List M)
    (parses : ∀ message ∈ messages, Parses program (frame message) (out message)) :
    Reaches program stops program (messages.flatMap frame) =
      messages.any fun message => stops (out message) := by
  induction messages with
  | nil =>
    rw [List.flatMap_nil,Reaches,serve_nil program eager]
    rfl
  | cons message later ih =>
    have first := parses_serve program _ (later.flatMap frame) _ (parses message List.mem_cons_self)
    have rest := ih fun other member => parses other (List.mem_cons_of_mem message member)
    rw [reaches_program program stops eager] at rest
    rw [List.flatMap_cons,Reaches,first,List.any_cons,← rest]

theorem outlook_initial (eager : Eager program) (atomicSize : Nat) (calls : List (List UInt8))
    (messages : List M) (written : calls.flatten = messages.flatMap frame)
    (parses : ∀ message ∈ messages, Parses program (frame message) (out message)) :
    outlook program stops (initial program atomicSize calls) =
      messages.any fun message => stops (out message) := by
  have bytes : (calls.map (Channel.Write.ofCall atomicSize)).map Channel.Write.bytes = calls := by
    rw [List.map_map]
    exact List.map_id _
  have all : stream (initial program atomicSize calls).channel = messages.flatMap frame := by
    rw [← written,stream,initial,Channel.initial,bytes,List.nil_append]
  rw [outlook,all,← reaches_frames program stops frame out eager messages parses]
  rfl

end Messages

section Atomic
variable (capacity : Nat) (program : Reading α) (stops : α → Bool)
variable (segments : M → List (List UInt8)) (out : M → α)

/-- The writer goes only after its last call. -/
def Complete (state : State α) (action : Action) : Prop :=
  ∀ size, action = .leave size → state.channel.writes = []

/-- As `Aligned`, and after the last message nothing is on its way. -/
def Lined (messages : List M) (channel : Channel.State α) : Prop :=
  Aligned segments out messages channel ∧ channel.results.length < messages.length ∨
    channel.reader = program ∧ stream channel = []

theorem aligned_partway (messages : List M) (channel : Channel.State α)
    (aligned : Aligned segments out messages channel) (more : channel.results.length < messages.length) :
    ∃ before current later unread ready, messages = before++current::later ∧
      channel.results = before.map out ∧ Fits channel.reader unread (out current) ∧
      unread++later.flatMap segments = ready++channel.writes.map Channel.Write.bytes ∧
      channel.pipe = ready.flatten := by
  rcases aligned with
    ⟨⟨before,current,later,unread,ready,split,same,fits,ahead,piped,_,_⟩,_⟩ | finished
  · exact ⟨before,current,later,unread,ready,split,same,fits,ahead,piped⟩
  · have most := finished.length_le
    rw [List.length_map] at most
    omega

theorem eager_blocked (eager : Eager program) (channel : Channel.State α) (waits : channel.reader = program)
    (nothing : stream channel = []) (isOpen : channel.closed = false) : Channel.pull channel = none := by
  obtain ⟨room,count,next,rfl,asked⟩ := eager
  have empty := (List.append_eq_nil_iff.mp nothing).1
  simp [Channel.pull,waits,empty,isOpen,Nat.ne_of_gt asked]

theorem lined_full (eager : Eager program) (messages : List M) (channel next : Channel.State α)
    (lined : Lined program segments out messages channel) (isOpen : channel.closed = false)
    (stepped : Channel.pull channel = some next) : Full channel .read := by
  rcases lined with ⟨aligned,more⟩ | ⟨waits,nothing⟩
  · intro _ room count rest asking
    obtain ⟨_,_,later,unread,ready,_,_,fits,ahead,piped⟩ :=
      aligned_partway segments out messages channel aligned more
    rw [asking] at fits
    rcases Nat.eq_zero_or_pos count with rfl | asked
    · exact Nat.zero_le _
    have present : channel.pipe ≠ [] := by
      intro empty
      simp [Channel.pull,asking,empty,isOpen,Nat.ne_of_gt asked] at stepped
    obtain ⟨blanks,segment,others,rfl,blank,enough,_,_⟩ := Channel.fits_read _ _ _ _ _ asked fits
    obtain ⟨behind,rfl,_⟩ := Channel.ready_front _ _ _ _ _ _ blank ahead (piped ▸ present)
    rw [piped,List.flatten_append,List.flatten_cons,List.length_append,List.length_append]
    omega
  · rw [eager_blocked program eager channel waits nothing isOpen] at stepped
    contradiction

theorem lined_push (size : Nat) (messages : List M) (channel next : Channel.State α)
    (lined : Lined program segments out messages channel)
    (stepped : Channel.push capacity channel size = some next) :
    Lined program segments out messages next := by
  obtain ⟨bytes,results,reader⟩ := Channel.stream_push capacity size channel next stepped
  rcases lined with ⟨aligned,more⟩ | ⟨waits,nothing⟩
  · left
    rw [results]
    exact ⟨Channel.aligned_push segments out capacity size messages channel next aligned stepped,more⟩
  · right
    rw [reader,bytes]
    exact ⟨waits,nothing⟩

theorem lined_pull (eager : Eager program) (messages : List M) (channel next : Channel.State α)
    (lined : Lined program segments out messages channel) (isOpen : channel.closed = false)
    (stepped : Channel.pull channel = some next) : Lined program segments out messages next := by
  rcases lined with ⟨aligned,more⟩ | ⟨waits,nothing⟩
  · left
    obtain ⟨_,_,results⟩ := Channel.pull_frame channel next stepped
    rw [results]
    exact ⟨Channel.aligned_pull segments out messages channel next aligned stepped,more⟩
  · rw [eager_blocked program eager channel waits nothing isOpen] at stepped
    contradiction

theorem lined_finish (eager : Eager program) (messages : List M) (channel : Channel.State α) (result : α)
    (fits : ∀ message ∈ messages, Fits program (segments message) (out message))
    (lined : Lined program segments out messages channel) (done : channel.reader = .done result) :
    Lined program segments out messages
      {channel with results := channel.results++[result],reader := program} := by
  rcases lined with ⟨aligned,more⟩ | ⟨waits,_⟩
  · rcases Nat.lt_or_ge (channel.results.length+1) messages.length with still | last
    · left
      refine ⟨Channel.aligned_finish segments out program messages channel result fits aligned done,?_⟩
      rw [List.length_append]
      exact still
    · right
      obtain ⟨before,current,later,unread,ready,split,same,fits,ahead,piped⟩ :=
        aligned_partway segments out messages channel aligned more
      rw [done] at fits
      obtain ⟨_,blank⟩ := Channel.fits_done _ _ _ fits
      have none : later = [] := by
        rw [split,same,List.length_map,List.length_append,List.length_cons] at last
        exact List.eq_nil_of_length_eq_zero (by omega)
      rw [none,List.flatMap_nil,List.append_nil] at ahead
      refine ⟨rfl,?_⟩
      rw [stream,piped,← List.flatten_append,← ahead]
      exact List.flatten_eq_nil_iff.mpr blank
  · obtain ⟨_,_,_,rfl,_⟩ := eager
    rw [waits] at done
    contradiction

theorem lined_initial (atomicSize : Nat) (messages : List M)
    (short : ∀ message ∈ messages, ∀ segment ∈ segments message, segment.length ≤ atomicSize)
    (fits : ∀ message ∈ messages, Fits program (segments message) (out message)) :
    Lined program segments out messages
      (Channel.initial atomicSize program (messages.flatMap segments)) := by
  cases messages with
  | nil => exact Or.inr ⟨rfl,rfl⟩
  | cons first later =>
    exact Or.inl ⟨Channel.aligned_initial segments out atomicSize program (first::later) short fits,
      Nat.zero_lt_succ later.length⟩

def Regular (messages : List M) (state : State α) : Prop :=
  Sane state ∧ (state.channel.writes = [] ∨ Lined program segments out messages state.channel)

theorem step_regular (eager : Eager program) (roomy : Roomy program) (messages : List M)
    (fits : ∀ message ∈ messages, Fits program (segments message) (out message))
    (state next : State α) (action : Action) (regular : Regular program segments out messages state)
    (stepped : step true capacity program stops state action = some next) :
    Regular program segments out messages next := by
  obtain ⟨sane,lined⟩ := regular
  refine ⟨step_sane capacity program stops roomy state next action sane stepped,?_⟩
  rcases step_cases true capacity program stops state next action stepped with
    ⟨size,channel,_,_,pushed,rfl⟩ | ⟨size,_,_,rfl⟩ | ⟨channel,_,_,pulled,rfl⟩ | ⟨result,_,_,done,rfl⟩
  · rcases lined with last | lined
    · simp [Channel.push,last] at pushed
    · exact Or.inr (lined_push capacity program segments out size messages _ channel lined pushed)
  · exact Or.inl rfl
  · rcases lined with last | lined
    · obtain ⟨writes,_⟩ := Channel.pull_frame _ channel pulled
      exact Or.inl (writes.trans last)
    · exact Or.inr (lined_pull program segments out eager messages _ channel lined sane.isOpen pulled)
  · rcases lined with last | lined
    · exact Or.inl last
    · exact Or.inr (lined_finish program segments out eager messages _ result fits lined done)

theorem regular_whole (eager : Eager program) (messages : List M) (state next : State α) (action : Action)
    (regular : Regular program segments out messages state) (complete : Complete state action)
    (stepped : step true capacity program stops state action = some next) : Whole state action := by
  obtain ⟨sane,last | lined⟩ := regular
  · exact Or.inl last
  rcases step_cases true capacity program stops state next action stepped with
    ⟨_,_,rfl,_⟩ | ⟨size,rfl,_⟩ | ⟨channel,rfl,_,pulled,_⟩ | ⟨_,rfl,_⟩
  · exact Or.inr ⟨nofun,nofun⟩
  · exact Or.inl (complete size rfl)
  · exact Or.inr ⟨nofun,fun _ =>
      lined_full program segments out eager messages _ channel lined sane.isOpen pulled⟩
  · exact Or.inr ⟨nofun,nofun⟩

/-- When every call is atomic and no request crosses the boundary between two calls, the
reader comes to an end exactly if some message stops it, in every interleaving. -/
theorem run_complete (eager : Eager program) (roomy : Roomy program) (atomicSize : Nat)
    (messages : List M)
    (short : ∀ message ∈ messages, ∀ segment ∈ segments message, segment.length ≤ atomicSize)
    (fits : ∀ message ∈ messages, Fits program (segments message) (out message))
    (actions : List Action) (final : State α)
    (complete : Execution.Meets (step true capacity program stops) Complete
      (initial program atomicSize (messages.flatMap segments)) actions)
    (reached : Execution.run (step true capacity program stops)
      (initial program atomicSize (messages.flatMap segments)) actions = some final) :
    ((∃ message ∈ messages, stops (out message) = true) → ¬Stranded final) ∧
    ((∀ message ∈ messages, stops (out message) = false) → final.alive = false →
      ∃ more last, Execution.run (step true capacity program stops) final more = some last ∧
        Stranded last) := by
  have sane : Sane (initial program atomicSize (messages.flatMap segments)) := ⟨rfl,roomy,rfl⟩
  have whole := Execution.meets_stronger _ Complete Whole (Regular program segments out messages)
    (fun state action next regular _ stepped =>
      step_regular capacity program stops segments out eager roomy messages fits state next action regular
        stepped)
    (fun state action next => regular_whole capacity program stops segments out eager messages state next
      action)
    actions _ final ⟨sane,Or.inr (lined_initial program segments out atomicSize messages short fits)⟩
    complete reached
  have written : (messages.flatMap segments).flatten = messages.flatMap fun m => (segments m).flatten := by
    simp only [List.flatMap_def,List.flatten_flatten,List.map_map]
    rfl
  have foreseen := outlook_initial program stops (fun m => (segments m).flatten) out eager atomicSize
    (messages.flatMap segments) messages written
    (fun message member => Channel.fits_parses _ _ _ (fits message member))
  have settled := run_whole capacity program stops eager roomy actions _ final sane nofun whole reached
  rw [foreseen,List.any_eq_true,List.any_eq_false] at settled
  simpa only [Bool.not_eq_true] using settled

end Atomic
end LinuxCourse.Library.Lingering
