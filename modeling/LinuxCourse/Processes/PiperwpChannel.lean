import LinuxCourse.Library.Delivery
import LinuxCourse.Processes.Piperwp

/-! The TLV channel of `processes/piperwp.cpp`. The value has no bound, and each part
of a frame is fetched by one `read` outside any loop: a value longer than `PIPE_BUF`
may still be on its way when it is read, and is then taken to be complete. -/
namespace LinuxCourse.Piperwp
open Library Bytes Tlv

def TLV.received (tlv : TLV) : TLV :=
  ⟨tlv.type,tlv.length,
    if 0 < tlv.length.toInt then some ((tlv.value.getD []).take tlv.length.toNat) else none⟩

theorem holds_nonneg (tlv : TLV) (holds : tlv.Holds) :
    tlv.length.toNat < 2^31 ∧ toSize tlv.length = tlv.length.toNat ∧
      (0 < tlv.length.toInt ↔ 0 < tlv.length.toNat) := by
  have bound := tlv.length.isLt
  have nonneg := holds.1
  have small : tlv.length.toNat < 2^31 := by
    rw [BitVec.toInt_eq_toNat_cond] at nonneg
    split at nonneg <;> omega
  refine ⟨small,toSize_nonneg _ small,?_⟩
  rw [BitVec.toInt_eq_toNat_cond,if_pos (by omega)]
  omega

theorem received_payload (tlv : TLV) (holds : tlv.Holds) : tlv.received.payload = tlv.payload := by
  obtain ⟨_,_,positive⟩ := holds_nonneg tlv holds
  simp only [TLV.payload,TLV.received,Payload.mk.injEq,true_and]
  by_cases some : 0 < tlv.length.toInt
  · simp only [some,if_true,Option.getD_some,List.take_take,Nat.min_self]
  · have none : tlv.length.toNat = 0 := by omega
    simp only [none,List.take_zero]

theorem stored_header (type length : BitVec 32) :
    (TLV.new.storeType (encode type)).storeLength (encode length) = ⟨type,length,none⟩ := by
  have stored (old value : BitVec 32) : decode (store (encode old) (encode value)) = value := by
    rw [store_full _ _ (by simp),decode_encode]
  simp only [TLV.storeType,TLV.storeLength,TLV.new,stored]

theorem readTlvFromPipe_fits (tlv : TLV) (holds : tlv.Holds) :
    Channel.Fits readTlvFromPipe (writeTlvToPipe tlv) (some tlv.received) := by
  obtain ⟨small,size,positive⟩ := holds_nonneg tlv holds
  have value : ((tlv.value.getD []).take tlv.length.toNat).length = tlv.length.toNat :=
    List.length_take_of_le holds.2
  have four := encode_length tlv.type
  have length := encode_length tlv.length
  rw [readTlvFromPipe,writeTlvToPipe,size]
  refine .read _ _ _ _ _ _ (by omega) (by simp) (by omega) ?_
  rw [List.take_left' four,List.drop_left' four]
  refine .read _ _ _ _ _ _ (by omega) (by simp) (by omega) ?_
  rw [List.take_of_length_le (Nat.le_of_eq length),List.drop_of_length_le (Nat.le_of_eq length)]
  simp only [length,stored_header]
  rw [if_neg (by omega)]
  refine .skip _ _ _ ?_
  by_cases some : 0 < tlv.length.toInt
  · rw [if_pos some,size]
    refine .read _ _ _ _ _ _ (positive.mp some) (Nat.le_of_eq value.symm) (by omega) ?_
    rw [List.take_of_length_le (Nat.le_of_eq value),List.drop_of_length_le (Nat.le_of_eq value)]
    have all : (⟨tlv.type,tlv.length,none⟩ : TLV).storeValue ((tlv.value.getD []).take tlv.length.toNat) =
        tlv.received := by
      simp only [TLV.storeValue,TLV.received,some,if_true]
      rw [store_full _ _ (by rw [value,zeros_length])]
    simp only [all]
    exact .skip _ _ _ (.done _)
  · have none : tlv.length.toNat = 0 := by omega
    have all : (⟨tlv.type,tlv.length,Option.none⟩ : TLV) = tlv.received := by
      simp only [TLV.received,some,if_false]
    rw [if_neg some,all,none,List.take_zero]
    exact .skip _ _ _ (.done _)

def channel (sent : List TLV) : Channel.State (Option TLV) :=
  Channel.initial PIPE_BUF readTlvFromPipe (sent.flatMap writeTlvToPipe)

theorem full_in_order (capacity : Nat) (sent : List TLV) (holds : ∀ tlv ∈ sent, tlv.Holds)
    (actions : List Channel.Action) (final : Channel.State (Option TLV))
    (full : Execution.Meets (Channel.step capacity readTlvFromPipe) Channel.Full (channel sent) actions)
    (reached : Channel.run capacity readTlvFromPipe (channel sent) actions = some final) :
    Channel.Delivered (sent.map fun tlv => some tlv.received) final.results := by
  refine Channel.delivers_full (fun tlv => (writeTlvToPipe tlv).flatten) (fun tlv => some tlv.received)
    PIPE_BUF capacity readTlvFromPipe sent (sent.flatMap writeTlvToPipe) ?_ ?_ actions final full reached
  · simp only [List.flatMap_def,List.flatten_flatten,List.map_map]
    rfl
  · intro tlv member
    exact Channel.fits_parses _ _ _ (readTlvFromPipe_fits tlv (holds tlv member))

theorem writes_short (sent : List TLV) (holds : ∀ tlv ∈ sent, tlv.Holds)
    (short : ∀ tlv ∈ sent, tlv.length.toNat ≤ PIPE_BUF) :
    ∀ tlv ∈ sent, ∀ segment ∈ writeTlvToPipe tlv, segment.length ≤ PIPE_BUF := by
  intro tlv member segment part
  obtain ⟨_,size,_⟩ := holds_nonneg tlv (holds tlv member)
  simp only [writeTlvToPipe,List.mem_cons,List.not_mem_nil,or_false] at part
  rcases part with rfl | rfl
  · simp [PIPE_BUF]
  · have bound := short tlv member
    rw [List.length_take,size]
    omega

theorem short_in_order (capacity : Nat) (sent : List TLV) (holds : ∀ tlv ∈ sent, tlv.Holds)
    (short : ∀ tlv ∈ sent, tlv.length.toNat ≤ PIPE_BUF)
    (actions : List Channel.Action) (final : Channel.State (Option TLV))
    (reached : Channel.run capacity readTlvFromPipe (channel sent) actions = some final) :
    Channel.Delivered (sent.map fun tlv => some tlv.received) final.results := by
  exact Channel.delivers_atomic writeTlvToPipe (fun tlv => some tlv.received) PIPE_BUF capacity
    readTlvFromPipe sent (writes_short sent holds short)
    (fun tlv member => readTlvFromPipe_fits tlv (holds tlv member)) actions final reached

/-- `readTlvFromPipe` once it has the header. -/
def readValue (type length : BitVec 32) : Reading (Option TLV) :=
  .read length.toNat (toSize length) fun
    | .failed => .done none
    | .bytes value => .done (some ((⟨type,length,none⟩ : TLV).storeValue value))

theorem header_pushed (type length : BitVec 32) (writes : List Channel.Write) :
    Channel.step 65536 readTlvFromPipe
      ⟨[],⟨encode type++encode length,true⟩::writes,false,readTlvFromPipe,[],false⟩ (.write 0) =
      some ⟨encode type++encode length,writes,false,readTlvFromPipe,[],false⟩ := by
  have eight : (encode type++encode length).length = 8 := by simp
  simp only [Channel.step,Channel.push,List.length_nil,eight,List.nil_append,if_true]
  rw [if_pos (by omega)]

theorem type_pulled (type length : BitVec 32) (writes : List Channel.Write) :
    Channel.pull ⟨encode type++encode length,writes,false,readTlvFromPipe,[],false⟩ =
      some ⟨encode length,writes,false,afterType (encode type),[],false⟩ := by
  have taken : (encode type++encode length).take 4 = encode type := List.take_left' (encode_length type)
  have dropped : (encode type++encode length).drop 4 = encode length := List.drop_left' (encode_length type)
  rw [Channel.pull_available _ 4 4 _ rfl rfl (by omega) (by simp [encode]) (by simp [taken])]
  simp only [taken,dropped]
  rfl

theorem length_pulled (type length : BitVec 32) (positive : 0 < length.toInt) (writes : List Channel.Write) :
    Channel.pull ⟨encode length,writes,false,afterType (encode type),[],false⟩ =
      some ⟨[],writes,false,readValue type length,[],false⟩ := by
  have whole : (encode length).take 4 = encode length := List.take_of_length_le (by simp)
  have none : (encode length).drop 4 = [] := List.drop_of_length_le (by simp)
  have four : ¬8 < (encode length).length := by simp
  rw [Channel.pull_available _ 4 4 _ rfl rfl (by omega) (by simp [encode]) (by simp)]
  simp only [whole,none,if_neg four,header,stored_header,afterLength,if_pos positive]
  rfl

section
variable (type length : BitVec 32) (block : List UInt8) (size : block.length = length.toNat)
  (long : PIPE_BUF < length.toNat) (small : length.toNat < 2^31)

include size long small

theorem channel_long :
    channel [⟨type,length,some block⟩] =
      ⟨[],[⟨encode type++encode length,true⟩,⟨block,false⟩],false,readTlvFromPipe,[],false⟩ := by
  have calls : (writeTlvToPipe ⟨type,length,some block⟩).map (Channel.Write.ofCall PIPE_BUF) =
      [⟨encode type++encode length,true⟩,⟨block,false⟩] := by
    simp only [writeTlvToPipe,toSize_nonneg length small,Option.getD_some,
      List.take_of_length_le (Nat.le_of_eq size),List.map_cons,List.map_nil,Channel.Write.ofCall,size,
      List.length_append,encode_length,Nat.not_le_of_gt long,decide_false]
    rfl
  simp only [channel,Channel.initial,List.flatMap_cons,List.flatMap_nil,List.append_nil,calls]

/-- The whole value is there when it is read. -/
theorem whole_run (fits : length.toNat ≤ 65536) :
    Execution.Meets (Channel.step 65536 readTlvFromPipe) Channel.Full (channel [⟨type,length,some block⟩])
      [.write 0,.read,.read,.write length.toNat,.read,.finish] ∧
    Channel.run 65536 readTlvFromPipe (channel [⟨type,length,some block⟩])
      [.write 0,.read,.read,.write length.toNat,.read,.finish] =
      some ⟨[],[],false,readTlvFromPipe,[some ⟨type,length,some block⟩],false⟩ := by
  have positive : 0 < length.toInt := by
    rw [PIPE_BUF] at long
    rw [BitVec.toInt_eq_toNat_cond,if_pos (by omega)]
    omega
  rw [PIPE_BUF] at long
  have present : block ≠ [] := List.ne_nil_of_length_pos (by omega)
  have taken : block.take length.toNat = block := List.take_of_length_le (Nat.le_of_eq size)
  have dropped : block.drop length.toNat = [] := List.drop_of_length_le (Nat.le_of_eq size)
  have stored : store (zeros length.toNat) block = block := store_full _ _ (by rw [size,zeros_length])
  have pushed : Channel.step 65536 readTlvFromPipe
      ⟨[],[⟨block,false⟩],false,readValue type length,[],false⟩ (.write length.toNat) =
      some ⟨block,[],false,readValue type length,[],false⟩ := by
    simp only [Channel.step,Channel.push,List.length_nil,List.nil_append,Bool.false_eq_true,if_false,size,
      if_true,taken]
    rw [if_pos (by omega)]
  have pulled : Channel.step 65536 readTlvFromPipe
      ⟨block,[],false,readValue type length,[],false⟩ .read =
      some ⟨[],[],false,.done (some ⟨type,length,some block⟩),[],false⟩ := by
    rw [Channel.step,readValue,toSize_nonneg length small,
      Channel.pull_available _ length.toNat length.toNat _ rfl rfl (by omega) present (List.length_take_le _ _)]
    simp only [taken,dropped,TLV.storeValue,stored]
  rw [channel_long type length block size long small]
  refine Execution.taken_cons _ _ _ _ _ _ _ (header_pushed type length _) ?_ ?_
  · intro reads
    contradiction
  refine Execution.taken_cons _ _ _ _ _ _ _ (type_pulled type length _) ?_ ?_
  · rintro - room count next asking
    obtain ⟨_,rfl,_⟩ := Reading.read.inj asking
    simp
  refine Execution.taken_cons _ _ _ _ _ _ _ (length_pulled type length positive _) ?_ ?_
  · rintro - room count next asking
    obtain ⟨_,rfl,_⟩ := Reading.read.inj asking
    simp
  refine Execution.taken_cons _ _ _ _ _ _ _ pushed ?_ ?_
  · intro reads
    contradiction
  refine Execution.taken_cons _ _ _ _ _ _ _ pulled ?_ ?_
  · rintro - room count next asking
    obtain ⟨_,rfl,_⟩ := Reading.read.inj asking
    rw [toSize_nonneg length small,size]
  refine Execution.taken_cons _ _ _ _ _ _ _ rfl ?_ ⟨trivial,rfl⟩
  intro reads
  contradiction

end

/-- The k-th call that returns yields the k-th TLV in each interleaving in which no
`read` finds less than it asks for, and in all of them when no value is longer
than `PIPE_BUF`. -/
theorem channel_in_order_when (capacity : Nat) (sent : List TLV) (holds : ∀ tlv ∈ sent, tlv.Holds)
    (actions : List Channel.Action) (final : Channel.State (Option TLV))
    (whole : Execution.Meets (Channel.step capacity readTlvFromPipe) Channel.Full (channel sent) actions ∨
      ∀ tlv ∈ sent, tlv.length.toNat ≤ PIPE_BUF)
    (reached : Channel.run capacity readTlvFromPipe (channel sent) actions = some final)
    (k : Nat) (inside : k < sent.length) (result : Option TLV)
    (returned : final.results[k]? = some result) :
    ∃ tlv, result = some tlv ∧ tlv.payload = sent[k].payload := by
  have delivered : Channel.Delivered (sent.map fun tlv => some tlv.received) final.results := by
    rcases whole with full | short
    · exact full_in_order capacity sent holds actions final full reached
    · exact short_in_order capacity sent holds short actions final reached
  have same := Channel.delivered_get _ _ delivered k (by simpa using inside) result returned
  exact ⟨sent[k].received,by simpa using same,
    received_payload _ (holds _ (List.getElem_mem inside))⟩

/-- A short value, and one that is longer than `PIPE_BUF`. -/
theorem channel_in_order_when_hello : (∃ final tlv,
    Channel.run 65536 readTlvFromPipe (channel [.construct TEXT_OP_CODE 5 [104,101,108,108,111]])
      [.write 0,.read,.read,.write 0,.read,.finish] = some final ∧
    final.results[0]? = some (some tlv) ∧
    tlv.payload = ⟨TEXT_OP_CODE,5,[104,101,108,108,111]⟩) ∧
    ∃ final tlv, Channel.run 65536 readTlvFromPipe (channel [⟨TEXT_OP_CODE,4097,some (List.replicate 4097 1)⟩])
      [.write 0,.read,.read,.write 4097,.read,.finish] = some final ∧
    final.results[0]? = some (some tlv) ∧
    tlv.payload = TLV.payload ⟨TEXT_OP_CODE,4097,some (List.replicate 4097 1)⟩ := by
  have ran : ((Channel.run 65536 readTlvFromPipe
      (channel [.construct TEXT_OP_CODE 5 [104,101,108,108,111]])
      [.write 0,.read,.read,.write 0,.read,.finish]).map Channel.State.results) =
      some [some (TLV.construct TEXT_OP_CODE 5 [104,101,108,108,111]).received] := by
    decide +kernel
  obtain ⟨final,reached,results⟩ := Option.map_eq_some_iff.mp ran
  have holds : ∀ tlv ∈ [TLV.construct TEXT_OP_CODE 5 [104,101,108,108,111]], tlv.Holds := by
    intro tlv member
    rw [List.mem_singleton.mp member]
    exact ⟨by decide,by decide⟩
  have short : ∀ tlv ∈ [TLV.construct TEXT_OP_CODE 5 [104,101,108,108,111]],
      tlv.length.toNat ≤ PIPE_BUF := by
    intro tlv member
    rw [List.mem_singleton.mp member]
    decide
  have first : final.results[0]? =
      some (some (TLV.construct TEXT_OP_CODE 5 [104,101,108,108,111]).received) := by rw [results]; rfl
  obtain ⟨tlv,same,payload⟩ :=
    channel_in_order_when 65536 _ holds _ final (Or.inr short) reached 0 (by simp) _ first
  refine ⟨⟨final,tlv,reached,same ▸ first,payload.trans (by decide)⟩,?_⟩
  have size : (List.replicate 4097 (1 : UInt8)).length = (4097 : BitVec 32).toNat := List.length_replicate
  obtain ⟨full,long⟩ := whole_run TEXT_OP_CODE 4097 _ size (by decide) (by decide) (by decide)
  have enough : ∀ tlv ∈ [(⟨TEXT_OP_CODE,4097,some (List.replicate 4097 1)⟩ : TLV)], tlv.Holds := by
    intro tlv member
    rw [List.mem_singleton.mp member]
    exact ⟨by decide,Nat.le_of_eq size.symm⟩
  obtain ⟨longTlv,sent,whole⟩ :=
    channel_in_order_when 65536 _ enough _ _ (Or.inl full) long 0 Nat.zero_lt_one _ rfl
  exact ⟨_,longTlv,long,congrArg some sent,whole⟩

section
variable (type length : BitVec 32) (block : List UInt8) (size : block.length = length.toNat)
  (long : PIPE_BUF < length.toNat) (small : length.toNat < 2^31)

include size long small

/-- One byte of the value is there when it is read. -/
theorem value_cut :
    Channel.run 65536 readTlvFromPipe ⟨[],[⟨block,false⟩],false,readValue type length,[],false⟩
      [.write 1,.read,.finish] =
    some ⟨[],[⟨block.drop 1,false⟩],false,readTlvFromPipe,
      [some ⟨type,length,some (store (zeros length.toNat) (block.take 1))⟩],false⟩ := by
  rw [PIPE_BUF] at long
  have first : (block.take 1).length = 1 := by
    rw [List.length_take]
    omega
  have present : block.take 1 ≠ [] := by
    intro none
    rw [none] at first
    contradiction
  have one : 1 ≠ block.length := by omega
  have rest : (block.take 1).take length.toNat = block.take 1 := List.take_of_length_le (by omega)
  have empty : (block.take 1).drop length.toNat = [] := List.drop_of_length_le (by omega)
  simp only [Channel.run,Execution.run,Channel.step,Channel.push,List.length_nil,List.nil_append,
    Bool.false_eq_true,if_false,one]
  rw [if_pos (by omega),Option.bind_some,readValue,toSize_nonneg length small,
    Channel.pull_available _ length.toNat length.toNat _ rfl rfl (by omega) present (List.length_take_le _ _),
    Option.bind_some]
  simp only [rest,empty,Option.bind_some,TLV.storeValue,List.nil_append]

theorem cut_run :
    Channel.run 65536 readTlvFromPipe (channel [⟨type,length,some block⟩])
      [.write 0,.read,.read,.write 1,.read,.finish] =
    some ⟨[],[⟨block.drop 1,false⟩],false,readTlvFromPipe,
      [some ⟨type,length,some (store (zeros length.toNat) (block.take 1))⟩],false⟩ := by
  have positive : 0 < length.toInt := by
    rw [PIPE_BUF] at long
    rw [BitVec.toInt_eq_toNat_cond,if_pos (by omega)]
    omega
  have header : Channel.run 65536 readTlvFromPipe (channel [⟨type,length,some block⟩])
      [.write 0,.read,.read] = some ⟨[],[⟨block,false⟩],false,readValue type length,[],false⟩ := by
    rw [channel_long type length block size long small,Channel.run,Execution.run_cons]
    refine ⟨_,header_pushed type length _,(Execution.run_cons _ _ _ _ _).mpr ⟨_,type_pulled type length _,?_⟩⟩
    exact (Execution.run_cons _ _ _ _ _).mpr ⟨_,length_pulled type length positive _,rfl⟩
  have parts : ([.write 0,.read,.read,.write 1,.read,.finish] : List Channel.Action) =
      [.write 0,.read,.read]++[.write 1,.read,.finish] := rfl
  rw [Channel.run] at header
  rw [parts,Channel.run,Execution.run_append,header,Option.bind_some]
  exact value_cut type length block size long small

end

theorem cut_differs (type length : BitVec 32) (block : List UInt8) (size : block.length = length.toNat)
    (i : Nat) (later : 0 < i) (inside : i < length.toNat) (nonzero : block[i]? ≠ some 0) :
    TLV.payload ⟨type,length,some (store (zeros length.toNat) (block.take 1))⟩ ≠
      TLV.payload ⟨type,length,some block⟩ := by
  intro same
  have first : (block.take 1).length = 1 := by
    rw [List.length_take]
    omega
  have values : ((store (zeros length.toNat) (block.take 1)).take length.toNat)[i]? =
      (block.take length.toNat)[i]? := by
    have equal := congrArg Payload.value same
    simp only [TLV.payload,Option.getD_some] at equal
    rw [equal]
  rw [List.getElem?_take_of_lt inside,List.getElem?_take_of_lt inside,
    store_zeros _ _ (by omega),List.getElem?_append_right (by omega),zeros,
    List.getElem?_replicate,if_pos (by omega)] at values
  exact nonzero values.symm

theorem channel_cut_4097 : ∃ final tlv,
    TLV.Holds ⟨TEXT_OP_CODE,4097,some (List.replicate 4097 1)⟩ ∧
    Channel.run 65536 readTlvFromPipe (channel [⟨TEXT_OP_CODE,4097,some (List.replicate 4097 1)⟩])
      [.write 0,.read,.read,.write 1,.read,.finish] = some final ∧
    final.results[0]? = some (some tlv) ∧
    tlv.payload ≠ TLV.payload ⟨TEXT_OP_CODE,4097,some (List.replicate 4097 1)⟩ := by
  have long : (4097 : BitVec 32).toNat = 4097 := by decide
  have size : (List.replicate 4097 (1 : UInt8)).length = (4097 : BitVec 32).toNat := by
    rw [List.length_replicate,long]
  refine ⟨_,_,⟨by decide,?_⟩,
    cut_run TEXT_OP_CODE 4097 (List.replicate 4097 1) size (by decide) (by decide),rfl,
    cut_differs TEXT_OP_CODE 4097 _ size 1 (by omega) (by decide) ?_⟩
  · rw [Option.getD_some,size]
  · rw [List.getElem?_replicate,if_pos (by omega)]
    decide

end LinuxCourse.Piperwp
