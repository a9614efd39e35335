import Mathlib.Data.List.Nodup
import Mathlib.Data.List.Perm.Basic

/-! An account of resources: those that a program took, and those that it gave back or
handed over, each as often as it did. -/
namespace LinuxCourse.Library

structure Ledger (ρ : Type) where
  taken : List ρ
  settled : List ρ

namespace Ledger
variable {ρ : Type}

def empty : Ledger ρ := ⟨[],[]⟩

def take (ledger : Ledger ρ) (resource : ρ) : Ledger ρ :=
  {ledger with taken := ledger.taken++[resource]}

def settle (ledger : Ledger ρ) (resources : List ρ) : Ledger ρ :=
  {ledger with settled := ledger.settled++resources}

/-- Nothing is left out, nothing is settled twice, and nothing that was never taken. -/
def ExactlyOnce [DecidableEq ρ] (ledger : Ledger ρ) : Prop :=
  (∀ resource ∈ ledger.taken, ledger.settled.count resource = 1) ∧
    ∀ resource ∈ ledger.settled, resource ∈ ledger.taken

instance [DecidableEq ρ] (ledger : Ledger ρ) : Decidable (ExactlyOnce ledger) := inferInstanceAs (Decidable (_ ∧ _))

/-- What was taken is what was settled and what is still out. -/
structure Owes (ledger : Ledger ρ) (out : List ρ) : Prop where
  distinct : ledger.taken.Nodup
  accounted : ledger.taken.Perm (ledger.settled++out)

theorem owes_empty : Owes (empty : Ledger ρ) [] := ⟨List.nodup_nil,List.Perm.refl _⟩

theorem owes_take (ledger : Ledger ρ) (out : List ρ) (resource : ρ) (owes : Owes ledger out)
    (fresh : resource ∉ ledger.taken) : Owes (ledger.take resource) (out++[resource]) := by
  constructor
  · apply List.nodup_append'.mpr
    refine ⟨owes.distinct,List.nodup_singleton resource,?_⟩
    intro other member same
    rw [List.mem_singleton.mp same] at member
    exact fresh member
  · rw [take,← List.append_assoc]
    exact owes.accounted.append_right _

theorem owes_settle (ledger : Ledger ρ) (out resources : List ρ) (owes : Owes ledger (out++resources)) :
    Owes (ledger.settle resources) out := by
  constructor
  · exact owes.distinct
  · apply owes.accounted.trans
    rw [settle,List.append_assoc]
    exact List.Perm.append_left _ List.perm_append_comm

/-- Nothing is ever settled twice. -/
theorem owes_nodup (ledger : Ledger ρ) (out : List ρ) (owes : Owes ledger out) :
    ledger.settled.Nodup :=
  (List.nodup_append'.mp (owes.accounted.nodup_iff.mp owes.distinct)).1

theorem exactlyOnce_iff [DecidableEq ρ] (ledger : Ledger ρ) (out : List ρ) (owes : Owes ledger out) :
    ExactlyOnce ledger ↔ out = [] := by
  have once := owes_nodup ledger out owes
  constructor
  · rintro ⟨settled,_⟩
    by_contra rest
    obtain ⟨resource,member⟩ := List.exists_mem_of_ne_nil out rest
    have taken : resource ∈ ledger.taken := owes.accounted.mem_iff.mpr (List.mem_append_right _ member)
    have counted := owes.accounted.count_eq resource
    rw [List.count_append,settled resource taken,
      List.count_eq_one_of_mem owes.distinct taken] at counted
    exact absurd (List.count_pos_iff.mpr member) (by omega)
  · rintro rfl
    have same {resource : ρ} : resource ∈ ledger.taken ↔ resource ∈ ledger.settled := by
      rw [owes.accounted.mem_iff,List.append_nil]
    exact ⟨fun resource member => List.count_eq_one_of_mem once (same.mp member),
      fun resource member => same.mpr member⟩

end Ledger
end LinuxCourse.Library
