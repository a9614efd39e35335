import LinuxCourse.Library.CString
import LinuxCourse.Processes.Piperwp

/-! The text in a TLV of `processes/piperwp.cpp`, which the parent prints as a string. The
constructor allocates one byte more than `length`, the reader does not, and neither makes
sure that the block ends in a NUL. -/
namespace LinuxCourse.Piperwp
open Library Bytes Tlv

/-- `new` throws when the size that it is given is negative. -/
def TLV.make (type length : BitVec 32) (text : List UInt8) : Option TLV :=
  if 0 ≤ (length+1).toInt then some (.construct type length text) else none

def wireHeader (source : Source) : TLV :=
  (TLV.new.storeType (source.delivered 4)).storeLength ((source.after 4).delivered 4)

/-- The bytes of the value that arrive. -/
def wireValue (source : Source) : List UInt8 :=
  ((source.after 4).after 4).delivered (wireHeader source).length.toNat

def wire (source : Source) : TLV :=
  if 0 < (wireHeader source).length.toInt then (wireHeader source).storeValue (wireValue source)
  else wireHeader source

/-- A way to come by a TLV: the constructor with a string, or a call of `readTlvFromPipe`. -/
inductive Origin
  | constructed (type length : BitVec 32) (nonneg : 0 ≤ length.toInt) (text : List UInt8)
  | received (source : Source)

def Origin.tlv : Origin → Option TLV
  | .constructed type length _ text => TLV.make type length text
  | .received source =>
    match (readTlvFromPipe.run source).1 with
    | .returned result => result
    | .overrun => none

/-- The four bytes in front, or as many of them as the first read brings, with zeros behind. -/
def Origin.type : Origin → BitVec 32
  | .constructed type _ _ _ => type
  | .received source => decode (store (zeros 4) (source.delivered 4))

/-- What the TLV should hold. -/
def Origin.text : Origin → List UInt8
  | .constructed _ _ _ text => text
  | .received source => wireValue source

def Printable (tlv : TLV) (text : List UInt8) : Prop :=
  ∃ block, tlv.value = some block ∧ 0 ∈ block ∧ cstring block = cstring (text.take tlv.length.toNat)

/-- The string is no longer than `length`; a value that was received is there, and is
shorter than `length` or brings a NUL along. -/
def Origin.Terminated : Origin → Prop
  | .constructed _ length _ text => (cstring text).length ≤ length.toNat
  | .received source =>
    0 < (wireHeader source).length.toInt ∧
      ((wireValue source).length < (wireHeader source).length.toNat ∨ 0 ∈ wireValue source)

theorem positive_size (length : BitVec 32) (positive : 0 < length.toInt) :
    0 < length.toNat ∧ toSize length = length.toNat := by
  have bound := length.isLt
  have small : length.toNat < 2^31 := by
    rw [BitVec.toInt_eq_toNat_cond] at positive
    split at positive <;> omega
  rw [BitVec.toInt_eq_toNat_cond,if_pos (by omega)] at positive
  exact ⟨by omega,toSize_nonneg length small⟩

theorem run_received (source rest : Source) (tlv : TLV)
    (returned : readTlvFromPipe.run source = (.returned (some tlv),rest)) : tlv = wire source := by
  have four := (source.after 4).delivered_length_le 4
  by_cases typeFails : source.cut = .fail
  · rw [readTlvFromPipe,Reading.run_fail _ _ _ _ typeFails,Reading.run_done] at returned
    simp at returned
  rw [readTlvFromPipe,Reading.run_deliver _ _ _ _ typeFails (source.delivered_length_le 4)] at returned
  by_cases lengthFails : (source.after 4).cut = .fail
  · rw [Reading.run_fail _ _ _ _ lengthFails,Reading.run_done] at returned
    simp at returned
  rw [Reading.run_deliver _ _ _ _ lengthFails four] at returned
  simp only [if_neg (by omega : ¬8 < ((source.after 4).delivered 4).length)] at returned
  rw [← wireHeader] at returned
  by_cases some : 0 < (wireHeader source).length.toInt
  · obtain ⟨_,size⟩ := positive_size _ some
    rw [if_pos some,size] at returned
    by_cases valueFails : ((source.after 4).after 4).cut = .fail
    · rw [Reading.run_fail _ _ _ _ valueFails,Reading.run_done] at returned
      simp at returned
    · rw [Reading.run_deliver _ _ _ _ valueFails (Source.delivered_length_le _ _),Reading.run_done] at returned
      simp only [Prod.mk.injEq,Outcome.returned.injEq,Option.some.injEq] at returned
      rw [wire,if_pos some,← returned.1]
      rfl
  · rw [if_neg some,Reading.run_done] at returned
    simp only [Prod.mk.injEq,Outcome.returned.injEq,Option.some.injEq] at returned
    rw [wire,if_neg some,← returned.1]

theorem make_size (type length : BitVec 32) (nonneg : 0 ≤ length.toInt) (text : List UInt8) (tlv : TLV)
    (made : TLV.make type length text = some tlv) :
    toSize (length+1) = length.toNat+1 ∧ tlv = .construct type length text := by
  unfold TLV.make at made
  split at made
  · rename_i fits
    have bound := length.isLt
    have next : (length+1).toNat = (length.toNat+1)%2^32 := by rw [BitVec.toNat_add]; rfl
    rw [BitVec.toInt_eq_toNat_cond] at nonneg fits
    have small : (length+1).toNat < 2^31 := by
      split at nonneg <;> split at fits <;> omega
    refine ⟨?_,(Option.some.inj made).symm⟩
    rw [toSize_nonneg _ small,next]
    split at nonneg <;> omega
  · contradiction

/-- `strncpy` fills the block to its end. -/
theorem construct_block (size : Nat) (text : List UInt8) :
    store (zeros size) (strncpy text size) = store (zeros size) ((cstring text).take size) := by
  rw [store_full _ _ (by simp [strncpy])]
  rfl

theorem constructed_printable (type length : BitVec 32) (nonneg : 0 ≤ length.toInt) (text : List UInt8)
    (tlv : TLV) (made : TLV.make type length text = some tlv) :
    Printable tlv text ↔ (cstring text).length ≤ length.toNat := by
  obtain ⟨size,rfl⟩ := make_size type length nonneg text tlv made
  have short : ((cstring text).take (length.toNat+1)).length ≤ length.toNat+1 := List.length_take_le _ _
  have free : 0 ∉ (cstring text).take (length.toNat+1) := by
    intro member
    exact cstring_nulFree text 0 (List.mem_of_mem_take member) rfl
  have ended := zero_mem_store (length.toNat+1) _ short
  simp only [Printable,TLV.construct,size,construct_block,Option.some.injEq,exists_eq_left',ended,free,
    or_false,List.length_take]
  constructor
  · rintro ⟨room,_⟩
    omega
  · intro fits
    refine ⟨by omega,?_⟩
    rw [store_zeros _ _ short,cstring_zeros,List.take_of_length_le (by omega),cstring_idem,cstring_take,
      List.take_of_length_le fits]

theorem received_printable (source : Source) :
    Printable (wire source) (wireValue source) ↔ (Origin.received source).Terminated := by
  have short : (wireValue source).length ≤ (wireHeader source).length.toNat :=
    Source.delivered_length_le _ _
  have ended := zero_mem_store _ _ short
  by_cases some : 0 < (wireHeader source).length.toInt
  · simp only [Printable,wire,some,if_true,TLV.storeValue,Option.some.injEq,exists_eq_left',ended,
      Origin.Terminated,true_and,and_iff_left_iff_imp]
    intro _
    rw [store_zeros _ _ short,cstring_zeros,List.take_of_length_le short]
  · have null : (wireHeader source).value = none := rfl
    simp only [Printable,wire,some,if_false,null,Origin.Terminated,false_and,iff_false]
    rintro ⟨block,none,_⟩
    contradiction

theorem obtained_received (source : Source) (tlv : TLV) (obtained : (Origin.received source).tlv = some tlv) :
    tlv = wire source := by
  simp only [Origin.tlv] at obtained
  cases returned : readTlvFromPipe.run source with
  | mk outcome rest =>
    simp only [returned] at obtained
    cases outcome with
    | overrun => contradiction
    | returned result =>
      simp only at obtained
      subst obtained
      exact run_received source rest tlv returned

theorem obtained_type (origin : Origin) (tlv : TLV) (obtained : origin.tlv = some tlv) :
    tlv.type = origin.type := by
  cases origin with
  | constructed type length nonneg text =>
    obtain ⟨_,rfl⟩ := make_size type length nonneg text tlv obtained
    rfl
  | received source =>
    rw [obtained_received source tlv obtained,wire]
    split <;> rfl

/-- Whatever the type of the TLV, its value prints as the text exactly if that text ends
inside the block. -/
theorem printable_iff (origin : Origin) (tlv : TLV) (obtained : origin.tlv = some tlv) :
    Printable tlv origin.text ↔ origin.Terminated := by
  cases origin with
  | constructed type length nonneg text =>
    exact constructed_printable type length nonneg text tlv obtained
  | received source =>
    rw [obtained_received source tlv obtained]
    exact received_printable source

/-- Only the texts are printed. -/
theorem text_printable_iff (origin : Origin) (tlv : TLV) (obtained : origin.tlv = some tlv) :
    (tlv.type = TEXT_OP_CODE → Printable tlv origin.text) ↔
      (origin.type ≠ TEXT_OP_CODE ∨ origin.Terminated) := by
  rw [obtained_type origin tlv obtained,printable_iff origin tlv obtained,imp_iff_not_or]

def hello : List UInt8 := [104,101,108,108,111]

theorem text_printable_iff_hello : Printable (.construct TEXT_OP_CODE 5 hello) hello := by
  refine (text_printable_iff (.constructed TEXT_OP_CODE 5 (by decide) hello) _ rfl).mpr ?_ rfl
  exact Or.inr (show (cstring hello).length ≤ (5 : BitVec 32).toNat by decide)

/-- The child's own first message, as the parent reads it. -/
def firstMessage : Origin :=
  .received (.closed (writeTlvToPipe (.construct TEXT_OP_CODE 5 hello)).flatten)

theorem hello_unterminated : ∃ tlv, firstMessage.tlv = some tlv ∧ tlv.type = TEXT_OP_CODE ∧
    ¬Printable tlv firstMessage.text := by
  refine ⟨⟨TEXT_OP_CODE,5,some hello⟩,by decide +kernel,rfl,?_⟩
  rintro ⟨block,same,ended,_⟩
  obtain rfl := Option.some.inj same
  exact absurd ended (by decide)

end LinuxCourse.Piperwp
