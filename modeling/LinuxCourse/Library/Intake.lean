import Mathlib.Data.List.Induction
import Mathlib.Data.Set.Basic

/-! A collection that is offered items in their order, and takes an offer in up to the first item
that it has. -/
namespace LinuxCourse.Library.Intake

variable {α : Type}

def accept (le : α → α → Prop) (present offer : Set α) : Set α :=
  present ∪ {item | item ∈ offer ∧ ∀ other ∈ offer, le other item → other ∉ present}

def accepts (le : α → α → Prop) (offers : List (Set α)) (present : Set α) : Set α :=
  offers.foldl (accept le) present

/-- What is taken of a sorted offer. -/
theorem mem_takeWhile (le : α → α → Prop) (total : ∀ first second, le first second ∨ le second first)
    (fresh : α → Bool) (offer : List α) (sorted : offer.Pairwise fun first second => ¬le second first)
    (item : α) :
    item ∈ offer.takeWhile fresh ↔
      item ∈ offer ∧ ∀ other ∈ offer, le other item → fresh other = true := by
  induction offer with
  | nil => simp
  | cons first rest ih =>
    obtain ⟨behind,others⟩ := List.pairwise_cons.mp sorted
    have below : ∀ other ∈ rest, le first other := fun other member =>
      (total first other).resolve_right (behind other member)
    have same : le first first := (total first first).elim id id
    rw [List.takeWhile_cons]
    cases taken : fresh first with
    | false =>
      rw [if_neg Bool.false_ne_true]
      refine ⟨nofun,?_⟩
      rintro ⟨member,all⟩
      rcases List.mem_cons.mp member with rfl | later
      · rw [all item List.mem_cons_self same] at taken
        contradiction
      · rw [all first List.mem_cons_self (below item later)] at taken
        contradiction
    | true =>
      rw [if_pos rfl,List.mem_cons,ih others]
      constructor
      · rintro (rfl | ⟨later,all⟩)
        · refine ⟨List.mem_cons_self,?_⟩
          intro other member lower
          rcases List.mem_cons.mp member with rfl | after
          · exact taken
          · exact absurd lower (behind other after)
        · refine ⟨List.mem_cons_of_mem _ later,?_⟩
          intro other member lower
          rcases List.mem_cons.mp member with rfl | after
          · exact taken
          · exact all other after lower
      · rintro ⟨member,all⟩
        rcases List.mem_cons.mp member with rfl | later
        · exact Or.inl rfl
        · exact Or.inr ⟨later,fun other after => all other (List.mem_cons_of_mem _ after)⟩

theorem accepts_concat (le : α → α → Prop) (offers : List (Set α)) (last present : Set α) :
    accepts le (offers++[last]) present = accept le (accepts le offers present) last := by
  rw [accepts,List.foldl_append]
  rfl

section Growing
variable (le : α → α → Prop) (trans : ∀ first second third, le first second → le second third → le first third)
  (antisymm : ∀ first second, le first second → le second first → first = second)

include antisymm in
/-- Of each offer the least item is there. -/
theorem accepts_least (offers : List (Set α)) (offer : Set α) (member : offer ∈ offers) (least : α)
    (inside : least ∈ offer) (below : ∀ other ∈ offer, le least other) :
    least ∈ accepts le offers ∅ := by
  induction offers using List.reverseRecOn with
  | nil => contradiction
  | append_singleton before last ih =>
    rw [accepts_concat]
    by_cases there : least ∈ accepts le before ∅
    · exact Or.inl there
    · rcases List.mem_append.mp member with earlier | now
      · exact absurd (ih earlier) there
      · rw [List.mem_singleton.mp now] at inside below
        refine Or.inr ⟨inside,?_⟩
        intro other listed lower
        rw [antisymm other least lower (below other listed)]
        exact there

include trans antisymm in
/-- Where every offer has the items of the ones before, an item gets in if it is lower than all
that was offered before it, and not at all where it is not. -/
theorem accepts_growing (offers : List (Set α)) (growing : offers.Pairwise fun first second => first ⊆ second)
    (least : ∀ offer ∈ offers, ∀ item ∈ offer, ∃ least ∈ offer, ∀ other ∈ offer, le least other) (item : α) :
    item ∈ accepts le offers ∅ ↔ ∃ before offer after, offers = before++offer::after ∧ item ∈ offer ∧
      ∀ earlier ∈ before, ∀ other ∈ earlier, ¬le other item := by
  induction offers using List.reverseRecOn generalizing item with
  | nil =>
    constructor
    · intro inside
      contradiction
    · rintro ⟨before,offer,after,split,-⟩
      have length := congrArg List.length split
      simp at length
  | append_singleton init last ih =>
    obtain ⟨grows,-,up⟩ := List.pairwise_append.mp growing
    have smaller := fun offer member => least offer (List.mem_append_left _ member)
    have known := ih grows smaller
    rw [accepts_concat]
    constructor
    · rintro (there | ⟨listed,fresh⟩)
      · obtain ⟨before,offer,after,rfl,inside,lower⟩ := (known item).mp there
        exact ⟨before,offer,after++[last],by simp,inside,lower⟩
      · refine ⟨init,last,[],rfl,listed,?_⟩
        intro earlier member other inside lower
        -- the least item of that offer was taken, and is offered again before this one
        obtain ⟨first,among,below⟩ := smaller earlier member other inside
        have taken := accepts_least le antisymm init earlier member first among below
        have again := up earlier member last List.mem_cons_self among
        exact fresh first again (trans _ _ _ (below other inside) lower) taken
    · rintro ⟨before,offer,after,split,inside,lower⟩
      rcases List.eq_nil_or_concat after with rfl | ⟨rest,tail,rfl⟩
      · obtain ⟨rfl,same⟩ := List.append_inj' split rfl
        obtain rfl := List.singleton_inj.mp same
        refine Or.inr ⟨inside,?_⟩
        intro other _ under taken
        obtain ⟨front,offer,back,rfl,listed,-⟩ := (known other).mp taken
        exact lower offer (List.mem_append_right _ List.mem_cons_self) other listed under
      · rw [List.concat_eq_append,← List.cons_append,← List.append_assoc] at split
        obtain ⟨rfl,-⟩ := List.append_inj' split rfl
        exact Or.inl ((known item).mpr ⟨before,offer,rest,rfl,inside,lower⟩)

end Growing

end LinuxCourse.Library.Intake
