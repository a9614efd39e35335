import LinuxCourse.Library.Delivery
import LinuxCourse.Processes.Piperw

/-! The TLV channel of `processes/piperw.cpp`, one `write` and two `read` calls a
frame, none of them in a loop. A frame has at most 1032 bytes, so its write is
atomic, and both reads of it find what they ask for at every reader position. -/
namespace LinuxCourse.Piperw
open Library Bytes Tlv

theorem readTlvFromPipe_fits (tlv : TLV) (valid : tlv.Valid) :
    Channel.Fits readTlvFromPipe [writeTlvToPipe tlv] (some tlv.received) := by
  have bound := (valid_iff tlv).mp valid
  have size := tlv.sized
  have head : (encode tlv.type++encode tlv.length).length = 8 := by simp
  have front : (writeTlvToPipe tlv).take 8 = encode tlv.type++encode tlv.length := by
    rw [writeTlvToPipe_frame tlv valid]
    exact List.take_left' head
  have behind : (writeTlvToPipe tlv).drop 8 = tlv.value.take tlv.length.toNat := by
    rw [writeTlvToPipe_frame tlv valid]
    exact List.drop_left' head
  have length := writeTlvToPipe_length tlv valid
  refine .read _ _ _ _ _ _ (by omega) (by omega) (by omega) ?_
  simp only [front,behind,head,storeObject_encoded,valid_toSize tlv valid]
  rw [if_neg (by omega)]
  have taken : (tlv.value.take tlv.length.toNat).length = tlv.length.toNat := by
    rw [List.length_take]
    omega
  cases count : tlv.length.toNat with
  | zero =>
    have none : tlv.received = (⟨tlv.type,tlv.length,zeros 1024,by simp⟩ : TLV).storeValue [] := by
      simp [TLV.received,TLV.storeValue,count]
    rw [none]
    exact .nothing _ _ _ _ (.skip _ _ _ (.done _))
  | succ n =>
    rw [count] at taken
    refine .read _ _ _ _ _ _ (by omega) (by omega) (by omega) ?_
    rw [List.take_of_length_le (Nat.le_of_eq taken),List.drop_of_length_le (Nat.le_of_eq taken)]
    have all : tlv.received =
        (⟨tlv.type,tlv.length,zeros 1024,by simp⟩ : TLV).storeValue (tlv.value.take (n+1)) := by
      simp only [TLV.received,TLV.storeValue,count]
    rw [all]
    exact .skip _ _ _ (.done _)

def channel (sent : List TLV) : Channel.State (Option TLV) :=
  Channel.initial PIPE_BUF readTlvFromPipe (sent.map writeTlvToPipe)

/-- In every interleaving the k-th call that returns yields the k-th TLV. -/
theorem channel_in_order (capacity : Nat) (sent : List TLV) (valid : ∀ tlv ∈ sent, tlv.Valid)
    (actions : List Channel.Action) (final : Channel.State (Option TLV))
    (reached : Channel.run capacity readTlvFromPipe (channel sent) actions = some final)
    (k : Nat) (inside : k < sent.length) (result : Option TLV)
    (returned : final.results[k]? = some result) :
    ∃ tlv, result = some tlv ∧ tlv.payload = sent[k].payload := by
  have calls : sent.map writeTlvToPipe = sent.flatMap (fun tlv => [writeTlvToPipe tlv]) :=
    List.map_eq_flatMap
  rw [channel,calls] at reached
  have delivered := Channel.delivers_atomic (fun tlv => [writeTlvToPipe tlv])
    (fun tlv => some tlv.received) PIPE_BUF capacity readTlvFromPipe sent ?_
    (fun tlv member => readTlvFromPipe_fits tlv (valid tlv member)) actions final reached
  · have same := Channel.delivered_get _ _ delivered k (by simpa using inside) result returned
    exact ⟨sent[k].received,by simpa using same,received_payload _⟩
  · intro tlv member segment part
    have bound := (valid_iff tlv).mp (valid tlv member)
    have length := writeTlvToPipe_length tlv (valid tlv member)
    rw [List.mem_singleton.mp part,length,PIPE_BUF]
    omega

theorem channel_in_order_hello : ∃ final tlv,
    Channel.run 65536 readTlvFromPipe
      (channel [.aggregate TEXT_OP_CODE 5 [104,101,108,108,111],.aggregate END_OP_CODE 0 [0]])
      [.write 0,.read,.read,.write 0,.finish,.read] = some final ∧
    final.results[0]? = some (some tlv) ∧
    tlv.payload = ⟨TEXT_OP_CODE,5,[104,101,108,108,111]⟩ := by
  have ran : ((Channel.run 65536 readTlvFromPipe
      (channel [.aggregate TEXT_OP_CODE 5 [104,101,108,108,111],.aggregate END_OP_CODE 0 [0]])
      [.write 0,.read,.read,.write 0,.finish,.read]).map Channel.State.results) =
      some [some (TLV.aggregate TEXT_OP_CODE 5 [104,101,108,108,111]).received] := by
    decide +kernel
  obtain ⟨final,reached,results⟩ := Option.map_eq_some_iff.mp ran
  have valid : ∀ tlv ∈ [TLV.aggregate TEXT_OP_CODE 5 [104,101,108,108,111],
      TLV.aggregate END_OP_CODE 0 [0]], tlv.Valid := by
    intro tlv member
    simp only [List.mem_cons,List.not_mem_nil,or_false] at member
    rcases member with rfl | rfl <;> exact ⟨by decide,by decide⟩
  have first : final.results[0]? =
      some (some (TLV.aggregate TEXT_OP_CODE 5 [104,101,108,108,111]).received) := by rw [results]; rfl
  obtain ⟨tlv,same,payload⟩ := channel_in_order 65536 _ valid _ final reached 0 (by simp) _ first
  exact ⟨final,tlv,reached,same ▸ first,payload.trans (by decide +kernel)⟩

end LinuxCourse.Piperw
