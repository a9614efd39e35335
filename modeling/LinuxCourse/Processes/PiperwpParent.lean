import LinuxCourse.Library.Farewell
import LinuxCourse.Processes.PiperwpChannel
import LinuxCourse.Processes.PiperwpValue

/-! The parent of `processes/piperwp.cpp` after the child has gone, at any byte of what it
had to write. `fork` leaves both ends open in both, and the parent never closes its own
write end: a read of the empty pipe blocks, and only an END message ends the loop. -/
namespace LinuxCourse.Piperwp
open Library Bytes Tlv Lingering

/-- END exits, and a null result is used by the switch. -/
def leaves : Option TLV → Bool
  | none => true
  | some tlv => tlv.type = END_OP_CODE

def forked (sent : List TLV) : Lingering.State (Option TLV) :=
  Lingering.initial readTlvFromPipe PIPE_BUF (sent.flatMap writeTlvToPipe)

def step (capacity : Nat) :
    Lingering.State (Option TLV) → Lingering.Action → Option (Lingering.State (Option TLV)) :=
  Lingering.step true capacity readTlvFromPipe leaves

theorem readTlvFromPipe_eager : Eager readTlvFromPipe := ⟨4,4,_,rfl,by decide⟩

theorem readTlvFromPipe_roomy : Roomy readTlvFromPipe := by
  apply Roomy.read
  · exact Nat.le_refl 4
  intro type _
  apply Roomy.read
  · exact Nat.le_refl 4
  intro length _
  dsimp only
  split
  · exact .done _
  split
  · rename_i positive
    apply Roomy.read
    · exact Nat.le_of_eq (positive_size _ positive).2
    · exact fun value _ => .done _
  · exact .done _

/-- What follows the header of a message: nothing if `length` is not positive, else a value of
`length` bytes, of which one at least has to be there. -/
def body (type length : BitVec 32) (bytes : List UInt8) : Option (BitVec 32 × List UInt8) :=
  if length.toInt ≤ 0 then some (type,bytes)
  else if bytes = [] then none
  else some (type,bytes.drop length.toNat)

/-- The message in front of some bytes after which nothing comes: its type, and what follows it.
Of its length too one byte is enough. -/
def message (bytes : List UInt8) : Option (BitVec 32 × List UInt8) :=
  if bytes.length ≤ 4 then none
  else body (decode (bytes.take 4)) (decode (store (zeros 4) ((bytes.drop 4).take 4))) (bytes.drop 8)

def types : Nat → List UInt8 → List (BitVec 32)
  | 0, _ => []
  | count+1, bytes =>
    match message bytes with
    | none => []
    | some (type,rest) => type::types count rest

/-- An END message is among the messages in the bytes. -/
def EndIn (bytes : List UInt8) : Prop := END_OP_CODE ∈ types bytes.length bytes

instance (bytes : List UInt8) : Decidable (EndIn bytes) := inferInstanceAs (Decidable (_ ∈ _))

/-- The part of a message that has been read, each of its fields filled up with zeros. -/
def back : List (List UInt8) → List UInt8
  | [] => []
  | [type] => store (zeros 4) type
  | [type,length] => store (zeros 4) type++store (zeros 4) length
  | type::length::value::_ => store (zeros 4) type++store (zeros 4) length++
      store (zeros (decode (store (zeros 4) length)).toNat) value

/-- When the child goes, the parent has left its loop, or an END message is in what its current
call has read together with what the pipe still holds. -/
def EndAhead (history : Lingering.State (Option TLV) × List (List UInt8)) (action : Lingering.Action) : Prop :=
  ∀ size, action = .leave size → history.1.stopped = true ∨
    EndIn (back history.2++(history.1.channel.pipe++lastBytes history.1.channel size))

instance (history : Lingering.State (Option TLV) × List (List UInt8)) :
    (action : Lingering.Action) → Decidable (EndAhead history action)
  | .leave size => decidable_of_iff (history.1.stopped = true ∨
      EndIn (back history.2++(history.1.channel.pipe++lastBytes history.1.channel size))) (by simp [EndAhead])
  | .write _ => isTrue (by simp [EndAhead])
  | .read => isTrue (by simp [EndAhead])
  | .finish => isTrue (by simp [EndAhead])

/-- The places of the reader in one call. -/
def Position (reader : Reading (Option TLV)) : List (List UInt8) → Prop
  | [] => reader = readTlvFromPipe
  | [type] => type.length ≤ 4 ∧ reader = afterType type
  | [type,length] => type.length ≤ 4 ∧ length.length ≤ 4 ∧ reader = afterLength (header type length)
  | [type,length,value] => type.length ≤ 4 ∧ length.length ≤ 4 ∧ 0 < (header type length).length.toInt ∧
      value.length ≤ (header type length).length.toNat ∧
      reader = .done (some ((header type length).storeValue value))
  | _ => False

theorem position_grows (room count : Nat) (next : Received → Reading (Option TLV))
    (answers : List (List UInt8)) (data : List UInt8) (here : Position (.read room count next) answers)
    (fits : data.length ≤ count) : Position (next (.bytes data)) (answers++[data]) := by
  match answers,here with
  | [],here =>
    obtain ⟨_,rfl,rfl⟩ := Reading.read.inj (here.trans readTlvFromPipe_eq)
    exact ⟨fits,rfl⟩
  | [type],⟨four,here⟩ =>
    obtain ⟨_,rfl,rfl⟩ := Reading.read.inj here
    exact ⟨four,fits,if_neg (by omega)⟩
  | [type,length],⟨four,more,here⟩ =>
    by_cases some : 0 < (header type length).length.toInt
    · rw [afterLength,if_pos some] at here
      obtain ⟨_,rfl,rfl⟩ := Reading.read.inj here
      rw [(positive_size _ some).2] at fits
      exact ⟨four,more,some,fits,rfl⟩
    · rw [afterLength,if_neg some] at here
      contradiction
  | [type,length,value],⟨_,_,_,_,here⟩ => contradiction

/-- The reader and the messages come to the same: both to nothing, or both to a message, with
the same bytes behind it. -/
def Agrees (served : Option (Option TLV × List UInt8)) (parsed : Option (BitVec 32 × List UInt8)) : Prop :=
  served.map (fun result => (leaves result.1,result.2)) =
    parsed.map fun found => (decide (found.1 = END_OP_CODE),found.2)

theorem afterLength_agrees (tlv : TLV) (bytes : List UInt8) :
    Agrees (serve (afterLength tlv) bytes) (body tlv.type tlv.length bytes) := by
  by_cases some : 0 < tlv.length.toInt
  · obtain ⟨positive,size⟩ := positive_size _ some
    rw [afterLength,if_pos some,size,serve,if_neg (Nat.ne_of_gt positive),body,if_neg (Int.not_le.mpr some)]
    split <;> rfl
  · rw [afterLength,if_neg some,body,if_pos (Int.not_lt.mp some)]
    rfl

theorem header_type (type length : List UInt8) : (header type length).type = decode (store (zeros 4) type) := rfl

theorem header_length (type length : List UInt8) :
    (header type length).length = decode (store (zeros 4) length) := by
  have fresh : (TLV.new.storeType type).length = 0 := rfl
  have zero : encode 0 = zeros 4 := rfl
  rw [header,TLV.storeLength,fresh,zero]

theorem message_front (front bytes : List UInt8) (four : front.length = 4) : message (front++bytes) =
    if bytes = [] then none
    else body (decode front) (decode (store (zeros 4) (bytes.take 4))) (bytes.drop 4) := by
  have size : (front++bytes).length ≤ 4 ↔ bytes = [] := by
    rw [List.length_append,four,← List.length_eq_zero_iff]
    omega
  have behind : (front++bytes).drop 8 = bytes.drop 4 := by
    rw [List.drop_append,four,List.drop_of_length_le (by omega),List.nil_append]
  simp only [message,size,behind,List.take_left' four,List.drop_left' four]

theorem afterType_agrees (type bytes : List UInt8) :
    Agrees (serve (afterType type) bytes) (message (store (zeros 4) type++bytes)) := by
  rw [message_front _ _ (by simp),afterType,serve,if_neg (by decide)]
  split
  · rfl
  · have four := List.length_take_le 4 bytes
    simp only [if_neg (by omega : ¬8 < (bytes.take 4).length)]
    rw [← header_type type (bytes.take 4),← header_length type (bytes.take 4)]
    exact afterLength_agrees (header type (bytes.take 4)) (bytes.drop 4)

theorem readTlvFromPipe_agrees (bytes : List UInt8) :
    Agrees (serve readTlvFromPipe bytes) (message bytes) := by
  rw [readTlvFromPipe_eq,serve,if_neg (by decide)]
  split
  · rename_i empty
    rw [empty]
    rfl
  · by_cases short : bytes.length ≤ 4
    · -- the type takes all there is, and the read of the length blocks
      rw [List.drop_of_length_le short,message,if_pos short]
      rfl
    · have four : (bytes.take 4).length = 4 := List.length_take_of_le (by omega)
      have agrees := afterType_agrees (bytes.take 4) (bytes.drop 4)
      rw [store_full _ _ (by simpa using four),List.take_append_drop] at agrees
      exact agrees

/-- What has been read and what is left make up the message that the reader is in. -/
theorem position_agrees (reader : Reading (Option TLV)) (answers : List (List UInt8)) (bytes : List UInt8)
    (here : Position reader answers) : Agrees (serve reader bytes) (message (back answers++bytes)) := by
  have whole (length : List UInt8) : store (zeros 4) (store (zeros 4) length) = store (zeros 4) length :=
    store_full _ _ (by simp)
  have filled (length rest : List UInt8) : store (zeros 4) length++rest ≠ [] :=
    List.append_ne_nil_of_left_ne_nil (List.ne_nil_of_length_pos (by simp)) rest
  match answers,here with
  | [],here =>
    rw [here]
    exact readTlvFromPipe_agrees bytes
  | [type],⟨_,here⟩ =>
    rw [here]
    exact afterType_agrees type bytes
  | [type,length],⟨_,_,here⟩ =>
    rw [here,back,List.append_assoc,message_front _ _ (by simp),if_neg (filled _ _),
      List.take_left' (by simp),List.drop_left' (by simp),whole,← header_type type length,
      ← header_length type length]
    exact afterLength_agrees (header type length) bytes
  | [type,length,value],⟨_,_,longer,fits,here⟩ =>
    rw [header_length] at longer
    have positive := (positive_size _ longer).1
    have present : store (zeros (decode (store (zeros 4) length)).toNat) value++bytes ≠ [] := by
      refine List.append_ne_nil_of_left_ne_nil (List.ne_nil_of_length_pos ?_) _
      rwa [store_length,zeros_length]
    rw [here,back,List.append_assoc,List.append_assoc,message_front _ _ (by simp),if_neg (filled _ _),
      List.take_left' (by simp),List.drop_left' (by simp),whole,body,if_neg (Int.not_le.mpr longer),
      if_neg present,List.drop_left' (by simp)]
    rfl

theorem stopsOn_types (count : Nat) (bytes : List UInt8) :
    stopsOn readTlvFromPipe leaves count bytes = true ↔ END_OP_CODE ∈ types count bytes := by
  induction count generalizing bytes with
  | zero => simp [stopsOn,types]
  | succ count ih =>
    have agrees := readTlvFromPipe_agrees bytes
    rw [stopsOn,types]
    cases served : serve readTlvFromPipe bytes with
    | none =>
      rw [Agrees,served,Option.map_none] at agrees
      rw [Option.map_eq_none_iff.mp agrees.symm]
      simp
    | some outcome =>
      obtain ⟨result,rest⟩ := outcome
      rw [Agrees,served,Option.map_some] at agrees
      obtain ⟨⟨type,behind⟩,found,same⟩ := Option.map_eq_some_iff.mp agrees.symm
      simp only [Prod.mk.injEq] at same
      obtain ⟨ends,rfl⟩ := same
      rw [found]
      simp only [← ends,Bool.or_eq_true,decide_eq_true_eq,ih,List.mem_cons,@eq_comm _ END_OP_CODE type]

theorem message_lt (bytes rest : List UInt8) (type : BitVec 32) (found : message bytes = some (type,rest)) :
    rest.length < bytes.length := by
  have agrees := readTlvFromPipe_agrees bytes
  rw [Agrees,found,Option.map_some] at agrees
  obtain ⟨⟨result,behind⟩,served,same⟩ := Option.map_eq_some_iff.mp agrees
  simp only [Prod.mk.injEq] at same
  obtain ⟨_,rfl⟩ := same
  exact serve_lt _ readTlvFromPipe_eager _ _ _ served

/-- The reader leaves its loop on the bytes left exactly if they bring an END message. -/
theorem reaches_endIn (reader : Reading (Option TLV)) (answers : List (List UInt8)) (bytes : List UInt8)
    (here : Position reader answers) :
    Reaches readTlvFromPipe leaves reader bytes = true ↔ EndIn (back answers++bytes) := by
  have agrees := position_agrees reader answers bytes here
  rw [Reaches]
  cases found : message (back answers++bytes) with
  | none =>
    rw [Agrees,found,Option.map_none] at agrees
    rw [Option.map_eq_none_iff.mp agrees,EndIn]
    cases (back answers++bytes).length <;> simp [types,found]
  | some outcome =>
    obtain ⟨type,rest⟩ := outcome
    have less := message_lt _ _ _ found
    rw [Agrees,found,Option.map_some] at agrees
    obtain ⟨⟨result,behind⟩,served,same⟩ := Option.map_eq_some_iff.mp agrees
    simp only [Prod.mk.injEq] at same
    obtain ⟨ends,rfl⟩ := same
    obtain ⟨count,size⟩ := Nat.exists_eq_succ_of_ne_zero (Nat.ne_of_gt (Nat.zero_lt_of_lt less))
    simp only [served,EndIn,size,types,found,ends,Bool.or_eq_true,decide_eq_true_eq,List.mem_cons,
      stopsOn_stable readTlvFromPipe leaves readTlvFromPipe_eager behind.length count behind (Nat.le_refl _)
        (by omega),stopsOn_types,@eq_comm _ END_OP_CODE type]

theorem meets_ahead (capacity : Nat) (sent : List TLV) (actions : List Lingering.Action) :
    Execution.Meets (Execution.recording (step capacity) answer) EndAhead (forked sent,[]) actions ↔
      Execution.Meets (step capacity) (Foreseen readTlvFromPipe leaves) (forked sent) actions := by
  refine Execution.meets_recording (step capacity) answer EndAhead _
    (fun history => Sane history.1 ∧ Position history.1.channel.reader history.2) ?_ ?_ actions _ _
    ⟨⟨rfl,readTlvFromPipe_roomy,rfl⟩,rfl⟩
  · rintro ⟨state,answers⟩ action ⟨next,recorded⟩ ⟨sane,here⟩ moved
    obtain ⟨stepped,rfl⟩ := Execution.recording_step _ _ _ _ _ moved
    exact ⟨step_sane capacity _ leaves readTlvFromPipe_roomy state next action sane stepped,
      step_position capacity _ leaves Position rfl position_grows state next action answers sane here stepped⟩
  · rintro ⟨state,answers⟩ action ⟨_,here⟩
    refine forall_congr' fun size => imp_congr_right fun _ => or_congr_right ?_
    exact (reaches_endIn _ answers _ here).symm

/-- The parent is never stranded in a run in which the child goes with an END message
ahead; any other run goes on to where the parent is stranded. -/
theorem never_stranded_when (capacity : Nat) (sent : List TLV) (actions : List Lingering.Action)
    (final : Lingering.State (Option TLV))
    (reached : Execution.run (step capacity) (forked sent) actions = some final) :
    (Execution.Meets (Execution.recording (step capacity) answer) EndAhead (forked sent,[]) actions →
      ¬Stranded final) ∧
    (¬Execution.Meets (Execution.recording (step capacity) answer) EndAhead (forked sent,[]) actions →
      ∃ more last, Execution.run (step capacity) final more = some last ∧ Stranded last) := by
  rw [meets_ahead]
  have sane : Sane (forked sent) := ⟨rfl,readTlvFromPipe_roomy,rfl⟩
  constructor
  · intro ahead
    refine run_free capacity readTlvFromPipe leaves readTlvFromPipe_roomy readTlvFromPipe_eager actions
      (forked sent) final ⟨sane,?_⟩ ahead reached
    intro gone
    contradiction
  · intro behind
    exact run_strands capacity readTlvFromPipe leaves readTlvFromPipe_eager readTlvFromPipe_roomy actions
      (forked sent) final sane behind reached

def world : List UInt8 := [119,111,114,108,100]

def demo : List TLV :=
  [.construct TEXT_OP_CODE 5 hello,.construct TEXT_OP_CODE 5 world,.construct END_OP_CODE 0 []]

def demoRun : List Lingering.Action :=
  List.replicate 6 (.write 0)++[.leave 0]++
    (List.replicate 2 [.read,.read,.read,.finish]).flatten++[.read,.read,.finish]

theorem never_stranded_when_demo : ∃ final,
    Execution.run (step 65536) (forked demo) demoRun = some final ∧ ¬Stranded final := by
  have runs : (Execution.run (step 65536) (forked demo) demoRun).isSome = true := by decide +kernel
  obtain ⟨final,reached⟩ := Option.isSome_iff_exists.mp runs
  refine ⟨final,reached,?_⟩
  exact (never_stranded_when 65536 demo demoRun final reached).1 (by decide +kernel)

/-- The child writes its first message and dies. -/
theorem stranded_after_hello : ∃ final,
    Execution.run (step 65536) (forked demo)
      [.write 0,.write 0,.leave 0,.read,.read,.read,.finish] = some final ∧ Stranded final := by
  have stuck : ((Execution.run (step 65536) (forked demo)
      [.write 0,.write 0,.leave 0,.read,.read,.read,.finish]).map fun final => decide (Stranded final)) =
      some true := by
    decide +kernel
  obtain ⟨final,reached,stranded⟩ := Option.map_eq_some_iff.mp stuck
  exact ⟨final,reached,of_decide_eq_true stranded⟩

/-- A child that lives to its last `write` strands the parent exactly if it sent no END
message, however the calls interleave. -/
theorem end_message_decides (capacity : Nat) (sent : List TLV) (holds : ∀ tlv ∈ sent, tlv.Holds)
    (short : ∀ tlv ∈ sent, tlv.length.toNat ≤ PIPE_BUF) (actions : List Lingering.Action)
    (final : Lingering.State (Option TLV))
    (complete : Execution.Meets (step capacity) Complete (forked sent) actions)
    (reached : Execution.run (step capacity) (forked sent) actions = some final) :
    ((∃ tlv ∈ sent, tlv.type = END_OP_CODE) → ¬Stranded final) ∧
    ((∀ tlv ∈ sent, tlv.type ≠ END_OP_CODE) → final.alive = false →
      ∃ more last, Execution.run (step capacity) final more = some last ∧ Stranded last) := by
  have settled := run_complete capacity readTlvFromPipe leaves writeTlvToPipe
    (fun tlv : TLV => some tlv.received) readTlvFromPipe_eager readTlvFromPipe_roomy PIPE_BUF sent
    (writes_short sent holds short) (fun tlv member => readTlvFromPipe_fits tlv (holds tlv member))
    actions final complete reached
  have ends (tlv : TLV) : leaves (some tlv.received) = decide (tlv.type = END_OP_CODE) := rfl
  simp only [ends,decide_eq_true_eq,decide_eq_false_iff_not] at settled
  exact settled

end LinuxCourse.Piperwp
