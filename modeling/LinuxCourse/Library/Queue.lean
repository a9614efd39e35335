import Mathlib.Data.List.Basic
import Mathlib.Data.List.Range

/-! A bounded message queue with one priority, and the log of what its receivers
took. Log and queue together are what was sent, in the order in which it was. -/
namespace LinuxCourse.Library

structure Queue (α : Type) where
  maxmsg : Nat
  messages : List α
  within : messages.length ≤ maxmsg

/-- The two attributes of `struct mq_attr` that the programs read. -/
structure Attr where
  maxmsg : Nat
  curmsgs : Nat
  deriving DecidableEq

namespace Queue
variable {α ι : Type}

def create (maxmsg : Nat) : Queue α := ⟨maxmsg,[],Nat.zero_le maxmsg⟩

def send (queue : Queue α) (message : α) : Option (Queue α) :=
  if room : queue.messages.length < queue.maxmsg then
    some ⟨queue.maxmsg,queue.messages++[message],by rwa [List.length_append]⟩
  else none

def receive (queue : Queue α) : Option (α × Queue α) :=
  match queue with
  | ⟨_,[],_⟩ => none
  | ⟨maxmsg,message::rest,within⟩ => some (message,⟨maxmsg,rest,Nat.le_of_succ_le within⟩)

def getattr (queue : Queue α) : Attr := ⟨queue.maxmsg,queue.messages.length⟩

theorem send_cases (queue next : Queue α) (message : α) (sent : queue.send message = some next) :
    queue.messages.length < queue.maxmsg ∧ next.maxmsg = queue.maxmsg ∧
      next.messages = queue.messages++[message] := by
  unfold send at sent
  split at sent
  · rename_i room
    have same := Option.some.inj sent
    subst same
    exact ⟨room,rfl,rfl⟩
  · contradiction

theorem send_isSome (queue : Queue α) (message : α) :
    (queue.send message).isSome ↔ queue.messages.length < queue.maxmsg := by
  unfold send
  split <;> simp_all

theorem receive_cases (queue next : Queue α) (message : α)
    (received : queue.receive = some (message,next)) :
    next.maxmsg = queue.maxmsg ∧ queue.messages = message::next.messages := by
  obtain ⟨maxmsg,messages,within⟩ := queue
  cases messages with
  | nil => contradiction
  | cons first rest =>
    obtain ⟨rfl,rfl⟩ := Prod.mk.inj (Option.some.inj received)
    exact ⟨rfl,rfl⟩

/-- What was received, by anyone, and then what is still queued. -/
def history (log : List (ι × α)) (queue : Queue α) : List α := log.map Prod.snd++queue.messages

def taken [DecidableEq ι] (log : List (ι × α)) (receiver : ι) : List α :=
  (log.filter (·.1 = receiver)).map Prod.snd

theorem history_send (log : List (ι × α)) (queue next : Queue α) (message : α)
    (sent : queue.send message = some next) :
    history log next = history log queue++[message] := by
  obtain ⟨_,_,messages⟩ := send_cases queue next message sent
  rw [history,history,messages,List.append_assoc]

theorem history_receive (log : List (ι × α)) (queue next : Queue α) (receiver : ι) (message : α)
    (received : queue.receive = some (message,next)) :
    history (log++[(receiver,message)]) next = history log queue := by
  obtain ⟨_,messages⟩ := receive_cases queue next message received
  simp only [history,messages,List.map_append,List.map_cons,List.map_nil,List.append_assoc,
    List.singleton_append]

theorem taken_sublist [DecidableEq ι] (log : List (ι × α)) (queue : Queue α) (receiver : ι) :
    (taken log receiver).Sublist (history log queue) := by
  have some : (taken log receiver).Sublist (log.map Prod.snd) :=
    List.filter_sublist.map Prod.snd
  exact some.trans (List.sublist_append_left _ _)

theorem taken_pairwise [DecidableEq ι] (relation : α → α → Prop) (log : List (ι × α))
    (queue : Queue α) (ordered : (history log queue).Pairwise relation) (receiver : ι) :
    (taken log receiver).Pairwise relation :=
  ordered.sublist (taken_sublist log queue receiver)

theorem messages_consecutive (number : α → Nat) (log : List (ι × α)) (queue : Queue α) (count : Nat)
    (counted : (history log queue).map number = List.range' 1 count) :
    queue.messages.map number = List.range' (log.length+1) queue.messages.length := by
  have total : count = log.length+queue.messages.length := by
    have lengths := congrArg List.length counted
    simpa [history] using lengths.symm
  rw [history,List.map_append,total,← List.range'_append_1] at counted
  have parts := (List.append_inj counted (by simp)).2
  rw [parts,Nat.add_comm]

end Queue
end LinuxCourse.Library
