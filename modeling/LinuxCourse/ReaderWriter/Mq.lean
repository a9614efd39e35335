import LinuxCourse.Library.Bytes
import LinuxCourse.Library.NamedQueue
import LinuxCourse.ReaderWriter.MessageQueue

/-! `threads/reader_writer/mq.c`. The queue is created only if there is none of that name,
and never unlinked; the Writer and the Reader look at no return code. -/
namespace LinuxCourse.Mq
open Library MessageQueue Bytes

def MQ_MAX_MSG_SIZE : Nat := 4

inductive WriterStage
  | increment
  | send
  | print
  deriving DecidableEq

inductive ReaderStage
  | receive
  | print
  deriving DecidableEq

/-- `increments` and `sent` record what the thread has done; the program has neither. -/
structure Writer where
  stage : WriterStage
  index : BitVec 32
  increments : Nat
  sent : List (BitVec 32)

structure Reader where
  stage : ReaderStage
  index : BitVec 32
  printed : List (BitVec 32)

structure System where
  named : NamedQueue
  writer : Writer
  reader : Reader

def writer (system : System) : Option System :=
  let own := system.writer
  match own.stage with
  | .increment =>
    some {system with
      writer := {own with stage := .send,index := own.index+1,increments := own.increments+1}}
  | .send =>
    match system.named.send ((encode own.index).take MQ_MAX_MSG_SIZE) with
    | .done named =>
      some {system with
        named
        writer := {own with stage := .print,sent := own.sent++[own.index]}}
    | .failed => some {system with writer := {own with stage := .print}}
    | .blocked => none
  | .print => some {system with writer := {own with stage := .increment}}

/-- What `mq_receive` delivers overwrites the front of `index`. -/
def reader (system : System) : Option System :=
  let own := system.reader
  match own.stage with
  | .receive =>
    match system.named.receive MQ_MAX_MSG_SIZE with
    | .done (message,named) =>
      some {system with
        named
        reader := {own with stage := .print,index := decode (store (encode own.index) message)}}
    | .failed => some {system with reader := {own with stage := .print}}
    | .blocked => none
  | .print =>
    some {system with reader := {own with stage := .receive,printed := own.printed++[own.index]}}

inductive Action
  | writer
  | reader
  deriving DecidableEq

def step (system : System) : Action → Option System
  | .writer => writer system
  | .reader => reader system

/-- The threads are about to start their loops on what `mq_open` has given. -/
def main (existing : Option NamedQueue) : System :=
  ⟨NamedQueue.openOrCreate existing MQ_MAX_SIZE MQ_MAX_MSG_SIZE,⟨.increment,0,0,[]⟩,⟨.receive,0,[]⟩⟩

def run : System → List Action → Option System := Execution.run step

/-- The Reader has printed the first of the numbers that this Writer has sent. -/
def Isolated (system : System) : Prop :=
  system.writer.sent.map BitVec.toNat = List.range' 1 system.writer.sent.length ∧
    system.reader.printed <+: system.writer.sent

def Reader.pending (own : Reader) : List (BitVec 32) :=
  match own.stage with
  | .receive => []
  | .print => [own.index]

structure Clean (system : System) : Prop where
  received : system.reader.printed++system.reader.pending++system.named.queue.messages.map decode =
    system.writer.sent
  whole : ∀ message ∈ system.named.queue.messages, message.length = MQ_MAX_MSG_SIZE
  small : system.named.msgsize ≤ MQ_MAX_MSG_SIZE
  index : system.writer.index = BitVec.ofNat 32 system.writer.increments
  sent : system.writer.sent = counted system.writer.sent.length
  silent : system.named.msgsize < MQ_MAX_MSG_SIZE → system.writer.sent = []
  ahead : system.named.msgsize = MQ_MAX_MSG_SIZE → system.writer.increments =
    system.writer.sent.length+if system.writer.stage = .send then 1 else 0

theorem writer_clean (system next : System) (clean : Clean system) (stepped : writer system = some next) :
    Clean next := by
  obtain ⟨received,whole,small,index,sent,silent,ahead⟩ := clean
  obtain ⟨named,⟨stage,own,increments,values⟩,reader⟩ := system
  cases stage with
  | increment =>
    obtain rfl := Option.some.inj stepped
    refine ⟨received,whole,small,?_,sent,silent,?_⟩
    · rw [index]
      exact (BitVec.ofNat_add increments 1).symm
    · intro full
      simpa using ahead full
  | print =>
    obtain rfl := Option.some.inj stepped
    exact ⟨received,whole,small,index,sent,silent,ahead⟩
  | send =>
    simp only [writer] at stepped
    cases result : named.send ((encode own).take MQ_MAX_MSG_SIZE) with
    | done queued =>
      rw [result] at stepped
      obtain rfl := Option.some.inj stepped
      have message : (encode own).take MQ_MAX_MSG_SIZE = encode own := rfl
      rw [message] at result
      obtain ⟨fits,msgsize,messages⟩ := NamedQueue.send_done named queued _ result
      -- a send that succeeds shows that the messages have just the size of an `int`
      have full : named.msgsize = MQ_MAX_MSG_SIZE := Nat.le_antisymm small fits
      have count := ahead full
      simp only [if_true] at count
      refine ⟨?_,?_,Nat.le_of_eq (msgsize.trans full),index,?_,?_,?_⟩
      · simp only [messages,List.map_append,List.map_singleton,decode_encode,← List.append_assoc]
        exact congrArg (· ++ [own]) received
      · simp only [messages]
        exact List.forall_mem_append.mpr ⟨whole,by simp [MQ_MAX_MSG_SIZE]⟩
      · have last : own = BitVec.ofNat 32 (values.length+1) := index.trans (congrArg _ count)
        simp only [List.length_append,List.length_singleton,counted_succ]
        rw [← last]
        exact congrArg (· ++ [own]) sent
      · intro short
        exact absurd (msgsize.trans full) (Nat.ne_of_lt short)
      · intro _
        simpa using count
    | failed =>
      rw [result] at stepped
      obtain rfl := Option.some.inj stepped
      have large := NamedQueue.send_failed named _ result
      have short : named.msgsize < MQ_MAX_MSG_SIZE := large
      exact ⟨received,whole,small,index,sent,silent,fun full => absurd full (Nat.ne_of_lt short)⟩
    | blocked =>
      rw [result] at stepped
      contradiction

theorem reader_clean (system next : System) (clean : Clean system) (stepped : reader system = some next) :
    Clean next := by
  obtain ⟨received,whole,small,index,sent,silent,ahead⟩ := clean
  obtain ⟨named,own,⟨stage,value,printed⟩⟩ := system
  cases stage with
  | print =>
    obtain rfl := Option.some.inj stepped
    refine ⟨?_,whole,small,index,sent,silent,ahead⟩
    simpa [Reader.pending] using received
  | receive =>
    simp only [reader] at stepped
    cases result : named.receive MQ_MAX_MSG_SIZE with
    | done delivered =>
      obtain ⟨message,rest⟩ := delivered
      rw [result] at stepped
      obtain rfl := Option.some.inj stepped
      obtain ⟨msgsize,messages⟩ := NamedQueue.receive_done named rest _ message result
      simp only [messages] at received whole
      obtain ⟨four,others⟩ := List.forall_mem_cons.mp whole
      have stored : store (encode value) message = message := store_full _ _ four
      refine ⟨?_,others,Nat.le_trans (Nat.le_of_eq msgsize) small,index,sent,?_,?_⟩
      · simpa [Reader.pending,stored] using received
      · simp only [msgsize]
        exact silent
      · simp only [msgsize]
        exact ahead
    | failed => exact absurd ((NamedQueue.receive_failed_iff named _).mp result) (Nat.not_lt_of_le small)
    | blocked =>
      rw [result] at stepped
      contradiction

theorem run_clean (actions : List Action) (system final : System) (clean : Clean system)
    (reached : run system actions = some final) : Clean final := by
  refine Execution.run_invariant step Clean ?_ actions system final clean reached
  intro state action next holds stepped
  cases action with
  | writer => exact writer_clean state next holds stepped
  | reader => exact reader_clean state next holds stepped

theorem clean_isolated (system : System) (clean : Clean system)
    (small : system.writer.increments < 2^31) : Isolated system := by
  have length : system.writer.sent.length ≤ system.writer.increments := by
    rcases Nat.lt_or_eq_of_le clean.small with short | full
    · rw [clean.silent short]
      exact Nat.zero_le _
    · rw [clean.ahead full]
      exact Nat.le_add_right _ _
  refine ⟨?_,?_⟩
  · have numbers := counted_toNat system.writer.sent.length (by omega)
    rwa [← clean.sent] at numbers
  · rw [← clean.received,List.append_assoc]
    exact List.prefix_append _ _

/-- There is no queue of that name, or an empty one whose messages fit the buffer. -/
def Fresh (existing : Option NamedQueue) : Prop :=
  ∀ named, existing = some named → named.queue.messages = [] ∧ named.msgsize ≤ MQ_MAX_MSG_SIZE

theorem main_clean (existing : Option NamedQueue) (fresh : Fresh existing) : Clean (main existing) := by
  cases existing with
  | none =>
    exact ⟨rfl,fun _ member => absurd member List.not_mem_nil,Nat.le_refl _,rfl,rfl,fun _ => rfl,fun _ => rfl⟩
  | some named =>
    obtain ⟨empty,small⟩ := fresh named rfl
    refine ⟨?_,?_,small,rfl,rfl,fun _ => rfl,fun _ => rfl⟩
    · simp [main,NamedQueue.openOrCreate,Reader.pending,empty]
    · simp [main,NamedQueue.openOrCreate,empty]

/-- The Reader is first, and prints a message of another run or, where `mq_receive` fails,
its own zero. -/
theorem stale_printed (named : NamedQueue)
    (stale : named.queue.messages ≠ [] ∨ MQ_MAX_MSG_SIZE < named.msgsize) :
    ∃ final value, run (main (some named)) [.reader,.reader] = some final ∧
      final.reader.printed = [value] ∧ final.writer = ⟨.increment,0,0,[]⟩ := by
  cases result : named.receive MQ_MAX_MSG_SIZE with
  | done delivered =>
    simp only [run,Execution.run,step,reader,main,NamedQueue.openOrCreate,Option.getD_some,result,
      Option.bind_some]
    exact ⟨_,_,rfl,rfl,rfl⟩
  | failed =>
    simp only [run,Execution.run,step,reader,main,NamedQueue.openOrCreate,Option.getD_some,result,
      Option.bind_some]
    exact ⟨_,_,rfl,rfl,rfl⟩
  | blocked =>
    obtain ⟨fits,empty⟩ := NamedQueue.receive_blocked named _ result
    rcases stale with present | large
    · exact absurd empty present
    · exact absurd fits (Nat.not_le_of_lt large)

theorem stale_mixed (named : NamedQueue)
    (stale : named.queue.messages ≠ [] ∨ MQ_MAX_MSG_SIZE < named.msgsize) :
    ∃ actions final, run (main (some named)) actions = some final ∧
      final.writer.increments < 2^31 ∧ ¬Isolated final := by
  obtain ⟨final,value,reached,printed,untouched⟩ := stale_printed named stale
  refine ⟨_,final,reached,by rw [untouched]; decide,?_⟩
  rintro ⟨_,ahead⟩
  rw [printed,untouched] at ahead
  exact absurd (List.prefix_nil.mp ahead) (List.cons_ne_nil _ _)

theorem isolated_iff (existing : Option NamedQueue) :
    (∀ actions final, run (main existing) actions = some final →
      final.writer.increments < 2^31 → Isolated final) ↔ Fresh existing := by
  constructor
  · rintro isolated named rfl
    by_contra left
    rw [Classical.not_and_iff_not_or_not,Nat.not_le] at left
    obtain ⟨actions,final,reached,small,mixed⟩ := stale_mixed named left
    exact mixed (isolated actions final reached small)
  · intro fresh actions final reached small
    exact clean_isolated final (run_clean actions _ final (main_clean existing fresh) reached) small

/-- What an earlier run leaves that was stopped between its eighth send and the receipt. -/
def leftover : NamedQueue :=
  ⟨MQ_MAX_MSG_SIZE,⟨MQ_MAX_SIZE,[[8,0,0,0]],by decide⟩,by decide⟩

theorem mixed_leftover :
    ∃ actions final, run (main (some leftover)) actions = some final ∧
      final.reader.printed = [8] ∧ final.writer.sent = [] ∧ ¬Isolated final := by
  have ran : (run (main (some leftover)) [.reader,.reader]).map
      (fun final => (final.reader.printed,final.writer.sent)) = some ([8],[]) := by decide +kernel
  obtain ⟨final,reached,values⟩ := Option.map_eq_some_iff.mp ran
  obtain ⟨printed,sent⟩ := Prod.mk.inj values
  refine ⟨_,final,reached,printed,sent,?_⟩
  rintro ⟨_,ahead⟩
  rw [printed,sent] at ahead
  exact absurd (List.prefix_nil.mp ahead) (List.cons_ne_nil _ _)

end LinuxCourse.Mq
