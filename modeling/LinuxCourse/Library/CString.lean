import LinuxCourse.Library.Bytes
import Mathlib.Data.List.TakeWhile

/-! Strings in memory that end at their first NUL. -/
namespace LinuxCourse.Library
open Bytes

/-- What a reader of strings sees at the front of a memory. -/
def cstring (memory : List UInt8) : List UInt8 := memory.takeWhile (· ≠ 0)

def NulFree (bytes : List UInt8) : Prop := ∀ byte ∈ bytes, byte ≠ 0

instance (bytes : List UInt8) : Decidable (NulFree bytes) := List.decidableBAll (· ≠ 0) bytes

theorem cstring_nulFree (memory : List UInt8) : NulFree (cstring memory) := by
  intro byte member
  simpa using List.mem_takeWhile_imp member

theorem cstring_append (front rest : List UInt8) (free : NulFree front) :
    cstring (front++rest) = front++cstring rest := by
  apply List.takeWhile_append_of_pos
  intro byte member
  exact decide_eq_true (free byte member)

@[simp] theorem cstring_nul (rest : List UInt8) : cstring (0::rest) = [] := by simp [cstring]

theorem cstring_ended (front rest : List UInt8) (free : NulFree front) :
    cstring (front++0::rest) = front := by
  rw [cstring_append front _ free,cstring_nul,List.append_nil]

theorem cstring_take (memory : List UInt8) (count : Nat) :
    cstring (memory.take count) = (cstring memory).take count := List.take_takeWhile.symm

theorem cstring_eq_iff (bytes : List UInt8) : cstring bytes = bytes ↔ NulFree bytes := by
  constructor
  · intro whole
    rw [← whole]
    exact cstring_nulFree bytes
  · intro free
    simpa [cstring] using cstring_append bytes [] free

theorem cstring_idem (memory : List UInt8) : cstring (cstring memory) = cstring memory :=
  (cstring_eq_iff _).mpr (cstring_nulFree memory)

/-- What lies behind a NUL is not seen, whether or not the string has ended before. -/
theorem cstring_terminated (bytes rest : List UInt8) : cstring (bytes++0::rest) = cstring bytes := by
  induction bytes with
  | nil => exact cstring_nul rest
  | cons byte bytes ih =>
    rw [cstring,cstring,List.cons_append,List.takeWhile_cons,List.takeWhile_cons]
    split
    · exact congrArg (byte :: ·) ih
    · rfl

theorem cstring_zeros (bytes : List UInt8) (count : Nat) : cstring (bytes++zeros count) = cstring bytes := by
  cases count with
  | zero => rw [zeros,List.replicate_zero,List.append_nil]
  | succ count => exact cstring_terminated bytes (zeros count)

theorem cstring_eq_nil_iff (memory : List UInt8) (present : memory ≠ []) :
    cstring memory = [] ↔ memory[0]? = some 0 := by
  cases memory with
  | nil => contradiction
  | cons byte rest =>
    by_cases nul : byte = 0 <;> simp [cstring,nul]

/-- Text that was stored reads back as itself exactly if a NUL lies behind it. -/
theorem cstring_store (memory bytes : List UInt8) (free : NulFree bytes)
    (inside : bytes.length < memory.length) :
    cstring (store memory bytes) = bytes ↔ memory[bytes.length]? = some 0 := by
  have behind : memory.drop bytes.length ≠ [] := by
    intro none
    exact absurd (List.drop_eq_nil_iff.mp none) (Nat.not_le_of_lt inside)
  rw [store_within _ _ (Nat.le_of_lt inside),cstring_append _ _ free]
  constructor
  · intro same
    have none : cstring (memory.drop bytes.length) = [] := by simpa using same
    simpa using (cstring_eq_nil_iff _ behind).mp none
  · intro nul
    have none := (cstring_eq_nil_iff _ behind).mpr (by simpa using nul)
    rw [none,List.append_nil]

/-- The front of a memory holds a whole string exactly if there is a NUL in it. -/
theorem cstring_ends_iff (memory : List UInt8) (size place : Nat) :
    0 ∈ memory.take size ∧ (cstring memory).length = place ↔
      place < size ∧ memory[place]? = some 0 ∧ ∀ earlier < place, memory[earlier]? ≠ some 0 := by
  induction memory generalizing size place with
  | nil => simp
  | cons byte rest ih =>
    cases size with
    | zero => simp
    | succ size =>
      by_cases nul : byte = 0
      · subst nul
        simp only [List.take_succ_cons,List.mem_cons_self,true_and,cstring_nul,List.length_nil]
        constructor
        · rintro rfl
          simp
        · rintro ⟨_,_,first⟩
          by_contra later
          exact first 0 (Nat.pos_of_ne_zero (Ne.symm later)) rfl
      · have kept : cstring (byte::rest) = byte::cstring rest := by simp [cstring,nul]
        rw [kept,List.take_succ_cons,List.mem_cons,List.length_cons]
        cases place with
        | zero => simp [nul]
        | succ place =>
          simp only [Ne.symm nul,false_or,Nat.add_right_cancel_iff,ih,Nat.add_lt_add_iff_right,
            List.getElem?_cons_succ]
          apply and_congr_right
          intro _
          apply and_congr_right
          intro _
          constructor
          · intro first earlier before
            cases earlier with
            | zero => simp [nul]
            | succ earlier => exact first earlier (Nat.lt_of_succ_lt_succ before)
          · intro first earlier before
            exact first (earlier+1) (Nat.succ_lt_succ before)

end LinuxCourse.Library
