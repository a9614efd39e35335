import LinuxCourse.Library.Bytes

/-! Programs that read from a byte stream, one `read` call at a time. A program
is data, so one definition runs on a recorded stream here and inside a
concurrent system elsewhere. -/
namespace LinuxCourse.Library
open Bytes

inductive Received
  | failed
  | bytes (data : List UInt8)

/-- `read room count next` asks for `count` bytes at an address that has `room`
bytes up to the end of its object. -/
inductive Reading (α : Type)
  | done (result : α)
  | read (room count : Nat) (next : Received → Reading α)

/-- What the system does at one call of `read`: it fails, or it hands over up to
`limit+1` of the bytes that are there. -/
inductive Cut
  | fail
  | upTo (limit : Nat)
  deriving DecidableEq

/-- The bytes still to come and the fate of each call still to be made. At the
end of `bytes` every call that does not fail returns no byte. -/
structure Source where
  bytes : List UInt8
  cuts : Nat → Cut

def Cut.size : Cut → Nat → Nat
  | .fail, _ => 0
  | .upTo limit, count => min count (limit+1)

def Cut.Serves : Cut → Nat → Prop
  | .fail, _ => False
  | .upTo limit, count => count ≤ limit+1

namespace Source

def cut (source : Source) : Cut := source.cuts 0

def delivered (source : Source) (count : Nat) : List UInt8 :=
  source.bytes.take (source.cut.size count)

def after (source : Source) (count : Nat) : Source :=
  ⟨source.bytes.drop (source.cut.size count),fun i => source.cuts (i+1)⟩

def closed (bytes : List UInt8) : Source := ⟨bytes,fun _ => .upTo bytes.length⟩

theorem delivered_length_le (source : Source) (count : Nat) :
    (source.delivered count).length ≤ count := by
  simp only [delivered,List.length_take]
  cases source.cut with
  | fail => simp [Cut.size]
  | upTo limit => simp only [Cut.size]; omega

theorem delivered_append (source : Source) (count : Nat) :
    source.delivered count ++ (source.after count).bytes = source.bytes :=
  List.take_append_drop _ _

theorem delivered_ne_nil (source : Source) (count : Nat) (asked : 0 < count)
    (works : source.cut ≠ .fail) (present : source.bytes ≠ []) : source.delivered count ≠ [] := by
  have size : 0 < source.bytes.length := List.length_pos_iff.mpr present
  intro empty
  have none := congrArg List.length empty
  cases fate : source.cut with
  | fail => exact works fate
  | upTo limit =>
    simp only [delivered,fate,Cut.size,List.length_take,List.length_nil] at none
    omega

theorem delivered_served (source : Source) (count : Nat) (serves : source.cut.Serves count) :
    source.delivered count = source.bytes.take count ∧
      (source.after count).bytes = source.bytes.drop count := by
  cases fate : source.cut with
  | fail => rw [fate] at serves; exact False.elim serves
  | upTo limit =>
    rw [fate] at serves
    have size : min count (limit+1) = count := Nat.min_eq_left serves
    simp only [delivered,after,fate,Cut.size,size,and_self]

/-- A source whose every call is served with all that is left, as after `closed`. -/
def Whole (source : Source) : Prop :=
  ∃ limit, source.bytes.length ≤ limit ∧ source.cuts = fun _ => .upTo limit

theorem closed_whole (bytes : List UInt8) : (closed bytes).Whole :=
  ⟨bytes.length,Nat.le_refl _,rfl⟩

theorem whole_read (source : Source) (count : Nat) (whole : source.Whole) :
    source.cut ≠ .fail ∧ source.delivered count = source.bytes.take count ∧
      (source.after count).bytes = source.bytes.drop count ∧ (source.after count).Whole := by
  obtain ⟨limit,enough,cuts⟩ := whole
  have fate : source.cut = .upTo limit := by rw [cut,cuts]
  refine ⟨by rw [fate]; simp,?_,?_,limit,?_,?_⟩
  · rw [delivered,fate,Cut.size]
    by_cases small : count ≤ limit+1
    · rw [Nat.min_eq_left small]
    · rw [List.take_of_length_le (by omega),List.take_of_length_le (by omega)]
  · rw [after,fate,Cut.size]
    by_cases small : count ≤ limit+1
    · rw [Nat.min_eq_left small]
    · rw [List.drop_of_length_le (by omega),List.drop_of_length_le (by omega)]
  · rw [after,List.length_drop]
    omega
  · rw [after,cuts]

end Source

inductive Outcome (α : Type)
  | returned (result : α)
  | overrun
  deriving DecidableEq

namespace Reading

/-- One call of the program. A `read` that stores past its object ends it. -/
def run {α : Type} : Reading α → Source → Outcome α × Source
  | .done result, source => (.returned result,source)
  | .read room count next, source =>
    match source.cut with
    | .fail => (next .failed).run (source.after count)
    | .upTo _ =>
      if (source.delivered count).length ≤ room then
        (next (.bytes (source.delivered count))).run (source.after count)
      else (.overrun,source.after count)

/-- The calls of `read` that are made, each as its room and its byte count. -/
def requests {α : Type} : Reading α → Source → List (Nat × Nat)
  | .done _, _ => []
  | .read room count next, source =>
    (room,count) ::
      match source.cut with
      | .fail => (next .failed).requests (source.after count)
      | .upTo _ =>
        if (source.delivered count).length ≤ room then
          (next (.bytes (source.delivered count))).requests (source.after count)
        else []

def fails {α : Type} : Reading α → Source → Bool
  | .done _, _ => false
  | .read room count next, source =>
    match source.cut with
    | .fail => true
    | .upTo _ =>
      if (source.delivered count).length ≤ room then
        (next (.bytes (source.delivered count))).fails (source.after count)
      else false

def position {α : Type} (program : Reading α) : Nat → Source → Source
  | 0, source => source
  | calls+1, source => position program calls (program.run source).2

theorem position_succ {α : Type} (program : Reading α) (calls : Nat) (source : Source) :
    program.position (calls+1) source = (program.run (program.position calls source)).2 := by
  induction calls generalizing source with
  | zero => rfl
  | succ calls ih => exact ih (program.run source).2

@[simp] theorem run_done {α : Type} (result : α) (source : Source) :
    (done result).run source = (.returned result,source) := rfl

theorem run_fail {α : Type} (room count : Nat) (next : Received → Reading α) (source : Source)
    (fails : source.cut = .fail) :
    (read room count next).run source = (next .failed).run (source.after count) := by
  simp only [run,fails]

theorem run_deliver {α : Type} (room count : Nat) (next : Received → Reading α) (source : Source)
    (works : source.cut ≠ .fail) (fits : (source.delivered count).length ≤ room) :
    (read room count next).run source =
      (next (.bytes (source.delivered count))).run (source.after count) := by
  cases fate : source.cut with
  | fail => exact False.elim (works fate)
  | upTo limit => simp only [run,fate,fits,if_true]

theorem run_overrun {α : Type} (room count : Nat) (next : Received → Reading α) (source : Source)
    (works : source.cut ≠ .fail) (past : room < (source.delivered count).length) :
    (read room count next).run source = (.overrun,source.after count) := by
  cases fate : source.cut with
  | fail => exact False.elim (works fate)
  | upTo limit => simp only [run,fate,Nat.not_le_of_gt past,if_false]

end Reading

theorem lagging_zero (lag count c : Nat) (field tail : List UInt8) (size : field.length = count)
    (same : (zeros lag++(field++tail)).take c++zeros (count-c) = field) (within : c ≤ count)
    (j : Nat) (inside : j < count) (late : 0 < lag ∨ c ≤ j) : field[j]? = some 0 := by
  induction j using Nat.strong_induction_on with
  | _ j ih =>
    have entry : ((zeros lag++(field++tail)).take c++zeros (count-c))[j]? = field[j]? := by rw [same]
    have front : ((zeros lag++(field++tail)).take c).length = c := by
      simp only [List.length_take,List.length_append,zeros_length,size]
      omega
    by_cases past : c ≤ j
    · rw [List.getElem?_append_right (by omega),front,zeros,List.getElem?_replicate,
        if_pos (by omega)] at entry
      exact entry.symm
    · have positive : 0 < lag := by omega
      rw [List.getElem?_append_left (by omega),List.getElem?_take_of_lt (by omega)] at entry
      by_cases early : j < lag
      · rw [List.getElem?_append_left (by simpa using early),zeros,List.getElem?_replicate,if_pos early] at entry
        exact entry.symm
      · rw [List.getElem?_append_right (by simp; omega),zeros_length,
          List.getElem?_append_left (by omega)] at entry
        rw [← entry]
        exact ih (j-lag) (by omega) (by omega) (Or.inl positive)

theorem lagging_read (lag count c : Nat) (field tail : List UInt8) (size : field.length = count)
    (within : c ≤ count)
    (same : (zeros lag++(field++tail)).take c++zeros (count-c) = field) :
    (zeros lag++(field++tail)).drop c = zeros (lag+count-c)++tail := by
  have whole : field = field.take (c-lag)++zeros (count-(c-lag)) := by
    apply List.ext_getElem?
    intro j
    by_cases early : j < c-lag
    · rw [List.getElem?_append_left (by simp; omega),List.getElem?_take_of_lt early]
    · have front : (field.take (c-lag)).length = c-lag := by simp; omega
      rw [List.getElem?_append_right (by omega),front,zeros,List.getElem?_replicate]
      split
      · exact lagging_zero lag count c field tail size same within j (by omega) (by omega)
      · exact List.getElem?_eq_none (by omega)
  by_cases early : c ≤ lag
  · have none : c-lag = 0 := by omega
    rw [none,List.take_zero,List.nil_append,Nat.sub_zero] at whole
    rw [List.drop_append_of_le_length (by simpa using early),whole]
    simp only [zeros,List.drop_replicate,← List.append_assoc,← List.replicate_add]
    congr 2
    omega
  · rw [List.drop_append,List.drop_of_length_le (by simp; omega),zeros_length,List.nil_append,
      List.drop_append_of_le_length (by omega)]
    conv_lhs => rw [whole]
    rw [List.drop_left' (by simp; omega)]
    congr 2
    omega

/-- A field that looks complete once the missing bytes are taken as zero: either
it was served, or the zeros that were not read stand before what follows it. -/
theorem Source.lagging (source : Source) (lag count : Nat) (field tail : List UInt8)
    (ahead : source.bytes = zeros lag++(field++tail)) (size : field.length = count)
    (works : source.cut ≠ .fail) (same : store (zeros count) (source.delivered count) = field) :
    ∃ behind, (source.after count).bytes = zeros behind++tail ∧ lag ≤ behind ∧
      (behind = 0 → source.cut.Serves count) := by
  cases fate : source.cut with
  | fail => exact False.elim (works fate)
  | upTo limit =>
    have delivered : source.delivered count = (zeros lag++(field++tail)).take (min count (limit+1)) := by
      simp only [Source.delivered,fate,Cut.size,ahead]
    have taken : (source.delivered count).length = min count (limit+1) := by
      simp only [delivered,List.length_take,List.length_append,zeros_length,size]
      omega
    rw [store_zeros _ _ (by omega),taken,delivered] at same
    refine ⟨lag+count-min count (limit+1),?_,by omega,?_⟩
    · simp only [Source.after,fate,Cut.size,ahead]
      exact lagging_read lag count _ field tail size (by omega) same
    · intro none
      simp only [Cut.Serves]
      omega

end LinuxCourse.Library
