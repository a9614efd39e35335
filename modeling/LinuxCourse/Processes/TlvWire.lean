import LinuxCourse.Processes.PiperwParent
import LinuxCourse.Processes.Piperwp
import Mathlib.Data.List.TakeWhile

/-! The two TLV programs against each other: what their writers put on a pipe for
one message, and what their readers take from one finished byte stream. -/
namespace LinuxCourse.TlvWire
open Library Bytes Tlv

structure Message where
  type : BitVec 32
  length : BitVec 32
  text : List UInt8

def Message.Sendable (message : Message) : Prop :=
  0 ≤ message.length.toInt ∧ message.length.toInt ≤ 1024 ∧
    0 ∉ message.text ∧ message.text.length ≤ 1023

def piperwBytes (message : Message) : List UInt8 :=
  Piperw.writeTlvToPipe (.aggregate message.type message.length message.text)

def piperwpBytes (message : Message) : List UInt8 :=
  (Piperwp.writeTlvToPipe (.construct message.type message.length message.text)).flatten

theorem strncpy_text (text : List UInt8) (count : Nat) (clean : 0 ∉ text) :
    Piperwp.strncpy text count = (text++zeros count).take count := by
  have all : text.takeWhile (· ≠ 0) = text := by
    rw [List.takeWhile_eq_self_iff]
    intro byte member
    simp only [decide_eq_true_eq]
    rintro rfl
    exact clean member
  rw [Piperwp.strncpy,all,store_fill]

theorem message_bytes (message : Message) (sendable : message.Sendable) :
    piperwBytes message = piperwpBytes message := by
  obtain ⟨nonneg,small,clean,short⟩ := sendable
  have bound := (toInt_range message.length 1024 (by omega)).mp ⟨nonneg,small⟩
  have next : (message.length+1).toNat = message.length.toNat+1 := by
    rw [BitVec.toNat_add]
    have one : (1 : BitVec 32).toNat = 1 := rfl
    omega
  have size := toSize_nonneg message.length (by omega)
  have block := toSize_nonneg (message.length+1) (by omega)
  have valid : (Piperw.TLV.aggregate message.type message.length message.text).Valid := ⟨nonneg,small⟩
  have copied : store (zeros (message.length.toNat+1))
      (Piperwp.strncpy message.text (message.length.toNat+1)) =
        (message.text++zeros (message.length.toNat+1)).take (message.length.toNat+1) := by
    rw [strncpy_text _ _ clean]
    exact store_full _ _ (by simp)
  have values : (store (zeros 1024) message.text).take message.length.toNat =
      (store (zeros (message.length.toNat+1))
        (Piperwp.strncpy message.text (message.length.toNat+1))).take message.length.toNat := by
    rw [store_zeros _ _ (by omega),copied,List.take_take,Nat.min_eq_left (by omega)]
    exact take_zeros _ _ _ _ (by omega) (by omega)
  rw [piperwBytes,piperwpBytes,Piperw.writeTlvToPipe_frame _ valid]
  simp only [Piperw.TLV.aggregate,Piperwp.writeTlvToPipe,Piperwp.TLV.construct,Option.getD_some,
    List.flatten_cons,List.flatten_nil,List.append_nil,size,block,next,values]

theorem header_split (bytes : List UInt8) :
    (Piperw.header (bytes.take 8)).take 4 = store (zeros 4) (bytes.take 4) ∧
    (Piperw.header (bytes.take 8)).drop 4 = store (zeros 4) ((bytes.drop 4).take 4) := by
  rw [Piperw.header,store_fill,store_fill,store_fill]
  constructor
  · rw [List.take_take]
    exact take_zeros _ _ _ _ (by omega) (by omega)
  · rw [List.drop_take]
    by_cases enough : 4 ≤ bytes.length
    · rw [List.drop_append_of_le_length enough]
      exact take_zeros _ _ _ _ (by omega) (by omega)
    · rw [List.drop_append,List.drop_of_length_le (by omega : bytes.length ≤ 4)]
      simp only [zeros,List.drop_replicate,List.nil_append,List.take_replicate]
      congr 1
      omega

theorem piperw_call (source : Source) (whole : source.Whole) (valid : (Piperw.headerAt source).Valid) :
    ∃ tlv rest, Piperw.readTlvFromPipe.run source = (.returned (some tlv),rest) ∧
      tlv.payload = ⟨(Piperw.headerAt source).type,(Piperw.headerAt source).length,
        store (zeros (Piperw.headerAt source).length.toNat)
          ((source.bytes.drop 8).take (Piperw.headerAt source).length.toNat)⟩ ∧
      rest.bytes = (source.bytes.drop 8).drop (Piperw.headerAt source).length.toNat ∧ rest.Whole := by
  have bound := (Piperw.valid_iff _).mp valid
  have size := Piperw.valid_toSize _ valid
  obtain ⟨works,_,behind,wholeBehind⟩ := source.whole_read 8 whole
  obtain ⟨answered,value,remaining,wholeRest⟩ :=
    (source.after 8).whole_read (toSize (Piperw.headerAt source).length) wholeBehind
  have fits : (Piperw.valueAt source).length ≤ 1024 := by
    have taken := (source.after 8).delivered_length_le (toSize (Piperw.headerAt source).length)
    rw [Piperw.valueAt]
    omega
  obtain ⟨_,result,_⟩ := Piperw.run_header_works source works
  rw [if_neg answered,if_pos fits] at result
  refine ⟨_,_,result,?_,?_,wholeRest⟩
  · rw [Piperw.call_payload source bound,← size,value,behind]
  · rw [Piperw.afterCall,remaining,behind,size]

theorem piperwp_call (source : Source) (whole : source.Whole) (type length : BitVec 32)
    (typed : decode (store (zeros 4) (source.bytes.take 4)) = type)
    (counted : decode (store (zeros 4) ((source.bytes.drop 4).take 4)) = length)
    (small : length.toNat < 2^31) :
    ∃ tlv rest, Piperwp.readTlvFromPipe.run source = (.returned (some tlv),rest) ∧
      tlv.payload = ⟨type,length,
        store (zeros length.toNat) ((source.bytes.drop 8).take length.toNat)⟩ ∧
      rest.bytes = (source.bytes.drop 8).drop length.toNat ∧ rest.Whole := by
  obtain ⟨typeWorks,typeBytes,afterType,wholeType⟩ := source.whole_read 4 whole
  obtain ⟨lengthWorks,lengthBytes,afterLength,wholeLength⟩ := (source.after 4).whole_read 4 wholeType
  obtain ⟨valueWorks,valueBytes,afterValue,wholeValue⟩ :=
    ((source.after 4).after 4).whole_read (toSize length) wholeLength
  rw [afterType] at lengthBytes afterLength
  rw [List.drop_drop] at afterLength
  have size := toSize_nonneg length small
  have blank : encode 0 = zeros 4 := by decide
  have object : (Piperwp.TLV.new.storeType (source.delivered 4)).storeLength ((source.after 4).delivered 4) =
      ⟨type,length,none⟩ := by
    simp only [Piperwp.TLV.storeType,Piperwp.TLV.storeLength,Piperwp.TLV.new,blank,typeBytes,
      lengthBytes,typed,counted]
  have four := (source.after 4).delivered_length_le 4
  have accepted : ¬ 8 < ((source.after 4).delivered 4).length := by omega
  rw [Piperwp.readTlvFromPipe,Reading.run_deliver _ _ _ _ typeWorks (source.delivered_length_le 4)]
  simp only
  rw [Reading.run_deliver _ _ _ _ lengthWorks four]
  simp only [accepted,if_false,object]
  split
  · rw [Reading.run_deliver _ _ _ _ valueWorks
      ((Source.delivered_length_le _ _).trans (Nat.le_of_eq size)),Reading.run_done]
    refine ⟨_,_,rfl,?_,by rw [afterValue,afterLength,size],wholeValue⟩
    rw [size,afterLength] at valueBytes
    simp only [Piperwp.TLV.payload,Piperwp.TLV.storeValue,Option.getD_some,size,valueBytes]
    rw [List.take_of_length_le (by simp)]
  · rename_i none
    have zero : length.toNat = 0 := by
      rw [BitVec.toInt_eq_toNat_cond,if_pos (by omega)] at none
      omega
    rw [Reading.run_done]
    refine ⟨_,_,rfl,?_,by rw [afterLength,zero,List.drop_zero],wholeLength⟩
    simp only [Piperwp.TLV.payload,zero,List.take_zero]
    rfl

theorem call_agrees (first second : Source) (same : first.bytes = second.bytes)
    (wholeFirst : first.Whole) (wholeSecond : second.Whole) (valid : (Piperw.headerAt first).Valid) :
    ∃ one two restOne restTwo, Piperw.readTlvFromPipe.run first = (.returned (some one),restOne) ∧
      Piperwp.readTlvFromPipe.run second = (.returned (some two),restTwo) ∧
      one.payload = two.payload ∧ restOne.bytes = restTwo.bytes ∧ restOne.Whole ∧ restTwo.Whole := by
  have bound := (Piperw.valid_iff _).mp valid
  obtain ⟨type,length⟩ := Piperw.headerAt_fields first
  obtain ⟨_,delivered,_,_⟩ := first.whole_read 8 wholeFirst
  obtain ⟨front,behind⟩ := header_split first.bytes
  rw [delivered,front,same] at type
  rw [delivered,behind,same] at length
  obtain ⟨one,restOne,ranOne,payloadOne,bytesOne,afterOne⟩ := piperw_call first wholeFirst valid
  obtain ⟨two,restTwo,ranTwo,payloadTwo,bytesTwo,afterTwo⟩ :=
    piperwp_call second wholeSecond _ _ type.symm length.symm (by omega)
  exact ⟨one,two,restOne,restTwo,ranOne,ranTwo,by rw [payloadOne,payloadTwo,same],
    by rw [bytesOne,bytesTwo,same],afterOne,afterTwo⟩

theorem positions_agree (bytes : List UInt8) (calls : Nat)
    (inRange : ∀ j < calls,
      (Piperw.headerAt (Piperw.readTlvFromPipe.position j (Source.closed bytes))).Valid) :
    (Piperw.readTlvFromPipe.position calls (Source.closed bytes)).bytes =
      (Piperwp.readTlvFromPipe.position calls (Source.closed bytes)).bytes ∧
    (Piperw.readTlvFromPipe.position calls (Source.closed bytes)).Whole ∧
    (Piperwp.readTlvFromPipe.position calls (Source.closed bytes)).Whole := by
  induction calls with
  | zero => exact ⟨rfl,Source.closed_whole bytes,Source.closed_whole bytes⟩
  | succ calls ih =>
    obtain ⟨same,wholeFirst,wholeSecond⟩ := ih (fun j before => inRange j (by omega))
    obtain ⟨_,_,_,_,ranOne,ranTwo,_,bytes,afterOne,afterTwo⟩ :=
      call_agrees _ _ same wholeFirst wholeSecond (inRange calls (by omega))
    rw [Reading.position_succ,Reading.position_succ,ranOne,ranTwo]
    exact ⟨bytes,afterOne,afterTwo⟩

/-- One wire format: the writers put the same bytes on the pipe for the same list of
messages, and on any finished stream, cut off anywhere, the k-th calls of the two
readers return the same message as long as the length fields are in range. -/
theorem wire_agrees :
    (∀ sent : List Message, (∀ message ∈ sent, message.Sendable) →
      sent.flatMap piperwBytes = sent.flatMap piperwpBytes) ∧
    (∀ (bytes : List UInt8) (k : Nat),
      (∀ j ≤ k, (Piperw.headerAt (Piperw.readTlvFromPipe.position j (Source.closed bytes))).Valid) →
      ∃ one two,
        (Piperw.readTlvFromPipe.run
          (Piperw.readTlvFromPipe.position k (Source.closed bytes))).1 = .returned (some one) ∧
        (Piperwp.readTlvFromPipe.run
          (Piperwp.readTlvFromPipe.position k (Source.closed bytes))).1 = .returned (some two) ∧
        one.payload = two.payload) := by
  constructor
  · intro sent sendable
    apply List.flatMap_congr
    intro message member
    exact message_bytes message (sendable message member)
  · intro bytes k inRange
    obtain ⟨same,wholeFirst,wholeSecond⟩ :=
      positions_agree bytes k (fun j before => inRange j (by omega))
    obtain ⟨one,two,_,_,ranOne,ranTwo,payload,_⟩ :=
      call_agrees _ _ same wholeFirst wholeSecond (inRange k (Nat.le_refl k))
    exact ⟨one,two,by rw [ranOne],by rw [ranTwo],payload⟩

theorem wire_agrees_hello :
    [(⟨TEXT_OP_CODE,5,[104,101,108,108,111]⟩ : Message)].flatMap piperwBytes =
      [(⟨TEXT_OP_CODE,5,[104,101,108,108,111]⟩ : Message)].flatMap piperwpBytes ∧
    ∃ one two,
      (Piperw.readTlvFromPipe.run (Source.closed [0,0,0,0,5])).1 = .returned (some one) ∧
      (Piperwp.readTlvFromPipe.run (Source.closed [0,0,0,0,5])).1 = .returned (some two) ∧
      one.payload = two.payload := by
  constructor
  · refine wire_agrees.1 _ ?_
    intro message member
    rw [List.mem_singleton.mp member]
    exact ⟨by decide,by decide,by decide,by decide⟩
  · refine wire_agrees.2 [0,0,0,0,5] 0 ?_
    intro j before
    obtain rfl : j = 0 := by omega
    exact ⟨by decide +kernel,by decide +kernel⟩

end LinuxCourse.TlvWire
