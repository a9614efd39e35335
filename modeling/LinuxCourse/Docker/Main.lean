import LinuxCourse.Docker.UtilZip

/-! `main` of `docker/app/main.c`: what it does with the array that `scandir` returned, in
the order in which it does it. -/
namespace LinuxCourse.Zipper
open Library UtilZip

/-- `scandir` sets `namelist` to as many entries as it returns, or returns -1. -/
inductive Scandir
  | entries (names : List Path)
  | failed

def Scandir.names : Scandir → List Path
  | .entries names => names
  | .failed => []

def Scandir.n : Scandir → Int
  | .entries names => names.length
  | .failed => -1

/-- `name` reads the name of `namelist[i]`, and `free` frees it. -/
inductive Event
  | declare (size : Int)
  | name (i : Nat)
  | create (file_paths : List Path)
  | free (i : Nat)
  | freeArray
  deriving DecidableEq

def FREED : Nat := 100

def main (scan : Scandir) : List Event :=
  [.declare scan.n]++(List.range scan.n.toNat).map .name++[.create scan.names]++
    (List.range FREED).map .free++[.freeArray]

inductive Block
  | entry (i : Nat)
  | array
  deriving DecidableEq

def Scandir.blocks : Scandir → List Block
  | .entries names => (List.range names.length).map .entry++[.array]
  | .failed => []

def Event.freed : Event → Option Block
  | .free i => some (.entry i)
  | .freeArray => some .array
  | _ => none

/-- What `scandir` allocated, and what a run gives back. -/
def ledger (scan : Scandir) (events : List Event) : Ledger Block :=
  ⟨scan.blocks,events.filterMap Event.freed⟩

structure Sound (scan : Scandir) (events : List Event) : Prop where
  declared : ∀ size, .declare size ∈ events → 0 ≤ size
  named : ∀ i, .name i ∈ events ↔ i < scan.names.length
  inside : ∀ i, .free i ∈ events → i < scan.names.length
  freed : (ledger scan events).ExactlyOnce
  late : ∃ before file_paths after, events = before++.create file_paths::after ∧
    before.filterMap Event.freed = []

theorem names_kept (count : Nat) : ((List.range count).map Event.name).filterMap Event.freed = [] := by
  simp [List.filterMap_map,Function.comp_def,Event.freed]

theorem frees_settled (count : Nat) :
    ((List.range count).map Event.free).filterMap Event.freed = (List.range count).map .entry := by
  rw [List.filterMap_map,← List.filterMap_eq_map]
  rfl

theorem main_settled (scan : Scandir) :
    (ledger scan (main scan)).settled = (List.range FREED).map .entry++[.array] := by
  simp only [ledger,main,List.filterMap_append,names_kept,frees_settled]
  rfl

theorem entry_settled (scan : Scandir) (i : Nat) :
    .entry i ∈ (ledger scan (main scan)).settled ↔ i < FREED := by
  simp [main_settled]

theorem entry_taken (scan : Scandir) (events : List Event) (i : Nat) :
    .entry i ∈ (ledger scan events).taken ↔ i < scan.names.length := by
  cases scan <;> simp [ledger,Scandir.blocks,Scandir.names]

theorem full_owes (names : List Path) (full : names.length = FREED) :
    (ledger (.entries names) (main (.entries names))).Owes [] := by
  constructor
  · have entries : ((List.range names.length).map Block.entry).Nodup :=
      List.nodup_range.map fun first second same => Block.entry.inj same
    simpa [ledger,Scandir.blocks,List.nodup_append] using entries
  · rw [main_settled,← full,List.append_nil]
    rfl

theorem exactlyOnce_count (scan : Scandir) (once : (ledger scan (main scan)).ExactlyOnce) :
    scan.names.length = FREED := by
  apply Nat.le_antisymm
  · by_contra more
    have taken := (entry_taken scan (main scan) FREED).mpr (Nat.lt_of_not_le more)
    have settled : .entry FREED ∈ (ledger scan (main scan)).settled := by
      apply List.count_pos_iff.mp
      rw [once.1 _ taken]
      exact Nat.one_pos
    exact absurd ((entry_settled scan FREED).mp settled) (Nat.lt_irrefl FREED)
  · have settled : .entry (FREED-1) ∈ (ledger scan (main scan)).settled :=
      (entry_settled scan (FREED-1)).mpr (by decide)
    have taken := (entry_taken scan (main scan) (FREED-1)).mp (once.2 _ settled)
    exact Nat.le_of_pred_lt taken

/-- Nothing is given back before `UTIL_ZIP_create` has returned. -/
theorem main_late (scan : Scandir) : ∃ before file_paths after,
    main scan = before++.create file_paths::after ∧ before.filterMap Event.freed = [] := by
  refine ⟨[.declare scan.n]++(List.range scan.n.toNat).map .name,scan.names,
    (List.range FREED).map .free++[.freeArray],?_,?_⟩
  · simp only [main,List.append_assoc,List.cons_append,List.nil_append]
  · rw [List.filterMap_append,names_kept]
    rfl

theorem full_sound (names : List Path) (full : names.length = FREED) :
    Sound (.entries names) (main (.entries names)) := by
  constructor
  · intro size member
    have same : size = names.length := by simpa [main,Scandir.n] using member
    rw [same]
    exact Int.natCast_nonneg _
  · intro i
    simp [main,Scandir.n,Scandir.names]
  · intro i member
    have bound : i < FREED := by simpa [main] using member
    rw [Scandir.names,full]
    exact bound
  · exact (Ledger.exactlyOnce_iff _ _ (full_owes names full)).mpr rfl
  · exact main_late (.entries names)

/-- The second loop has the right bound for one size of the directory only. -/
theorem main_sound_iff (scan : Scandir) : Sound scan (main scan) ↔ scan.n = FREED := by
  cases scan with
  | failed =>
    constructor
    · intro sound
      exact absurd (exactlyOnce_count _ sound.freed) (by decide)
    · intro count
      contradiction
  | entries names =>
    constructor
    · intro sound
      exact congrArg Int.ofNat (exactlyOnce_count _ sound.freed)
    · intro count
      exact full_sound names (Int.ofNat.inj count)

theorem two_entries : ¬Sound (.entries [['a'],['b']]) (main (.entries [['a'],['b']])) := by
  intro sound
  have full := exactlyOnce_count _ sound.freed
  contradiction

end LinuxCourse.Zipper
