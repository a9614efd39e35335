import LinuxCourse.Library.Queue

/-! A message queue with a name, which outlives the programs that use it. Its message size
is fixed when it is created, whatever a later opening asks for. -/
namespace LinuxCourse.Library

structure NamedQueue where
  msgsize : Nat
  queue : Queue (List UInt8)
  sized : ∀ message ∈ queue.messages, message.length ≤ msgsize

/-- A call that returns a value, one that fails, and one that does not return yet. -/
inductive Answer (α : Type)
  | done (value : α)
  | failed
  | blocked

namespace NamedQueue

def create (maxmsg msgsize : Nat) : NamedQueue :=
  ⟨msgsize,Queue.create maxmsg,fun _ member => absurd member List.not_mem_nil⟩

/-- `mq_open` with `O_CREAT`. -/
def openOrCreate (existing : Option NamedQueue) (maxmsg msgsize : Nat) : NamedQueue :=
  existing.getD (create maxmsg msgsize)

def send (named : NamedQueue) (message : List UInt8) : Answer NamedQueue :=
  if fits : message.length ≤ named.msgsize then
    match sent : named.queue.send message with
    | some queue =>
      .done ⟨named.msgsize,queue,by
        rw [(Queue.send_cases named.queue queue message sent).2.2]
        exact List.forall_mem_append.mpr ⟨named.sized,by simpa using fits⟩⟩
    | none => .blocked
  else .failed

/-- `size` is the size of the buffer, which must take any message of the queue. -/
def receive (named : NamedQueue) (size : Nat) : Answer (List UInt8 × NamedQueue) :=
  if named.msgsize ≤ size then
    match received : named.queue.receive with
    | some (message,queue) =>
      .done (message,⟨named.msgsize,queue,fun other member => named.sized other (by
        rw [(Queue.receive_cases named.queue queue message received).2]
        exact List.mem_cons_of_mem message member)⟩)
    | none => .blocked
  else .failed

theorem send_done (named next : NamedQueue) (message : List UInt8) (sent : named.send message = .done next) :
    message.length ≤ named.msgsize ∧ next.msgsize = named.msgsize ∧
      next.queue.messages = named.queue.messages++[message] := by
  unfold send at sent
  split at sent
  · split at sent
    · rename_i fits queue queued
      obtain rfl := Answer.done.inj sent
      exact ⟨fits,rfl,(Queue.send_cases named.queue queue message queued).2.2⟩
    · contradiction
  · contradiction

theorem send_failed (named : NamedQueue) (message : List UInt8) (failed : named.send message = .failed) :
    named.msgsize < message.length := by
  unfold send at failed
  split at failed
  · split at failed <;> contradiction
  · rename_i large
    exact Nat.lt_of_not_le large

theorem receive_done (named next : NamedQueue) (size : Nat) (message : List UInt8)
    (received : named.receive size = .done (message,next)) :
    next.msgsize = named.msgsize ∧ named.queue.messages = message::next.queue.messages := by
  unfold receive at received
  split at received
  · split at received
    · rename_i first queue taken
      obtain ⟨rfl,rfl⟩ := Prod.mk.inj (Answer.done.inj received)
      exact ⟨rfl,(Queue.receive_cases named.queue queue first taken).2⟩
    · contradiction
  · contradiction

theorem receive_failed_iff (named : NamedQueue) (size : Nat) :
    named.receive size = .failed ↔ size < named.msgsize := by
  unfold receive
  split
  · rename_i fits
    split <;> simp [Nat.not_lt_of_le fits]
  · rename_i small
    simpa using Nat.lt_of_not_le small

theorem receive_blocked (named : NamedQueue) (size : Nat) (blocked : named.receive size = .blocked) :
    named.msgsize ≤ size ∧ named.queue.messages = [] := by
  unfold receive at blocked
  split at blocked
  · rename_i fits
    split at blocked
    · contradiction
    · rename_i empty
      refine ⟨fits,?_⟩
      obtain ⟨msgsize,⟨maxmsg,messages,within⟩,sized⟩ := named
      cases messages with
      | nil => rfl
      | cons first rest => contradiction
  · contradiction

end NamedQueue
end LinuxCourse.Library
