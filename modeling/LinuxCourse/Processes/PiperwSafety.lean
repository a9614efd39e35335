import LinuxCourse.Processes.Piperw

/-! What `readTlvFromPipe` of `processes/piperw.cpp` does on arbitrary bytes, at any
position of any stream. Its guard compares the byte count of the header read with
the size of `value`, so the decoded length reaches `read` as the peer sent it. -/
namespace LinuxCourse.Piperw
open Library Bytes Tlv

def headerAt (source : Source) : TLV := TLV.new.storeObject (source.delivered 8)

def valueAt (source : Source) : List UInt8 :=
  (source.after 8).delivered (toSize (headerAt source).length)

def Safe (source : Source) : Prop :=
  (∀ request ∈ readTlvFromPipe.requests source, request.2 ≤ request.1) ∧
  match (readTlvFromPipe.run source).1 with
  | .overrun => False
  | .returned none => True
  | .returned (some tlv) => tlv.Valid ∧ (tlv.type = TEXT_OP_CODE → 0 ∈ tlv.value)

/-- The length field is in range, and a text that fills `value` brings a NUL along. -/
def Contained (source : Source) : Prop :=
  source.cut = .fail ∨
  (headerAt source).Valid ∧
    ((source.after 8).cut = .fail ∨ (headerAt source).type ≠ TEXT_OP_CODE ∨
      (valueAt source).length < 1024 ∨ 0 ∈ valueAt source)

theorem valid_iff_toSize (tlv : TLV) : tlv.Valid ↔ toSize tlv.length ≤ 1024 := by
  rw [valid_iff]
  by_cases nonneg : tlv.length.toNat < 2^31
  · rw [toSize_nonneg _ nonneg]
  · rw [toSize_negative _ (by omega)]
    omega

theorem storeObject_value (data : List UInt8) (short : data.length ≤ 8) :
    (TLV.new.storeObject data).value = zeros 1024 := by rw [storeObject_header data short]

theorem run_header_fails (source : Source) (fails : source.cut = .fail) :
    readTlvFromPipe.run source = (.returned none,source.after 8) ∧
    readTlvFromPipe.requests source = [(1032,8)] := by
  constructor
  · rw [readTlvFromPipe,Reading.run_fail _ _ _ _ fails,Reading.run_done]
  · simp only [readTlvFromPipe,Reading.requests,fails]

def afterCall (source : Source) : Source :=
  (source.after 8).after (toSize (headerAt source).length)

theorem run_header_works (source : Source) (works : source.cut ≠ .fail) :
    readTlvFromPipe.requests source = [(1032,8),(1024,toSize (headerAt source).length)] ∧
    readTlvFromPipe.run source =
      (if (source.after 8).cut = .fail then .returned none
      else if (valueAt source).length ≤ 1024 then
        .returned (some ((headerAt source).storeValue (valueAt source)))
      else .overrun,afterCall source) ∧
    readTlvFromPipe.fails source = decide ((source.after 8).cut = .fail) := by
  have short := source.delivered_length_le 8
  have inside : (source.delivered 8).length ≤ 1032 := by omega
  have accepted : ¬ 1024 < (source.delivered 8).length := by omega
  refine ⟨?_,?_,?_⟩
  · cases fate : source.cut with
    | fail => exact False.elim (works fate)
    | upTo limit =>
      simp only [readTlvFromPipe,Reading.requests,fate,inside,accepted,if_true,if_false,headerAt]
      cases (source.after 8).cut with
      | fail => rfl
      | upTo limit => simp only [ite_self]
  · rw [readTlvFromPipe,Reading.run_deliver _ _ _ _ works inside]
    simp only [accepted,if_false]
    change (Reading.read 1024 (toSize (headerAt source).length) _).run (source.after 8) = _
    split
    · rename_i fails
      rw [Reading.run_fail _ _ _ _ fails,Reading.run_done]
      rfl
    · rename_i answered
      split
      · rename_i fits
        rw [Reading.run_deliver _ _ _ _ answered fits,Reading.run_done]
        rfl
      · rename_i past
        rw [Reading.run_overrun _ _ _ _ answered (Nat.lt_of_not_le past)]
        rfl
  · cases fate : source.cut with
    | fail => exact False.elim (works fate)
    | upTo limit =>
      simp only [readTlvFromPipe,Reading.fails,fate,inside,accepted,if_true,if_false]
      cases (source.after 8).cut with
      | fail => simp
      | upTo limit => simp

theorem safe_iff_contained (source : Source) : Safe source ↔ Contained source := by
  by_cases works : source.cut = .fail
  · obtain ⟨result,requests⟩ := run_header_fails source works
    simp [Safe,Contained,works,result,requests]
  · obtain ⟨requests,result⟩ := run_header_works source works
    have taken : (valueAt source).length ≤ toSize (headerAt source).length :=
      Source.delivered_length_le _ _
    have blank : (headerAt source).value = zeros 1024 :=
      storeObject_value _ (source.delivered_length_le 8)
    simp only [Safe,Contained,works,requests,result,false_or,List.mem_cons,List.not_mem_nil,or_false,
      forall_eq_or_imp,forall_eq]
    constructor
    · rintro ⟨⟨_,asked⟩,returned⟩
      refine ⟨(valid_iff_toSize _).mpr asked,?_⟩
      by_cases fails : (source.after 8).cut = .fail
      · exact Or.inl fails
      simp only [fails,taken.trans asked,if_true,if_false,storeValue_valid,TLV.storeValue_type,TLV.storeValue_value,
        blank,zero_mem_store 1024 _ (taken.trans asked)] at returned
      by_cases text : (headerAt source).type = TEXT_OP_CODE
      · exact Or.inr (Or.inr (returned.2 text))
      · exact Or.inr (Or.inl text)
    · rintro ⟨valid,ends⟩
      have asked := (valid_iff_toSize _).mp valid
      refine ⟨⟨by omega,asked⟩,?_⟩
      by_cases fails : (source.after 8).cut = .fail
      · simp only [fails,if_true]
      simp only [fails,taken.trans asked,if_true,if_false,storeValue_valid,TLV.storeValue_type,TLV.storeValue_value,
        blank,zero_mem_store 1024 _ (taken.trans asked)]
      refine ⟨valid,fun text => ?_⟩
      rcases ends with failing | other | ends
      · exact absurd failing fails
      · exact absurd text other
      · exact ends

/-- At every entry point of every stream a call is safe exactly when the length
it decodes is in range and a full-length text contains a NUL. -/
theorem call_safe_iff (stream : Source) (calls : Nat) :
    Safe (readTlvFromPipe.position calls stream) ↔
      Contained (readTlvFromPipe.position calls stream) :=
  safe_iff_contained _

theorem call_unsafe_2000 :
    ¬Safe (Source.closed ([0,0,0,0,208,7,0,0]++List.replicate 2000 1)) := by
  intro safe
  have asked := safe.1 (1024,2000) (by decide +kernel)
  omega

end LinuxCourse.Piperw
