import LinuxCourse.Docker.UtilZip

/-! Who owns the files and sources of `UTIL_ZIP_create`. A directory is added without its
source, and the pointer to the source is then cleared; a file for which no source could be
made is not closed. -/
namespace LinuxCourse.UtilZip
open Library

def Resource.round : Resource → Nat
  | .file i => i
  | .source i => i

/-- What nobody holds any longer after a round. -/
def roundLost (i : Nat) (attempt : Attempt) : List Resource :=
  if attempt.path.isSome = true ∧ attempt.calls.fopen = true then
    if attempt.calls.zip_source_filep = false then [.file i]
    else if attempt.calls.is_dir = true ∧ attempt.calls.zip_add = true then [.file i,.source i]
    else []
  else []

/-- The rounds up to and with the first one that goes to `ERR_FREE_MEM`. -/
def lost : Nat → List Attempt → List Resource
  | _, [] => []
  | i, attempt::rest =>
    roundLost i attempt++if attempt.works = true then lost (i+1) rest else []

/-- Between two rounds: no source is at hand, and later rounds take other resources. -/
structure Between (i : Nat) (session : Session) (out : List Resource) : Prop where
  idle : session.zs = none
  owes : session.ledger.Owes out
  earlier : ∀ resource ∈ session.ledger.taken, resource.round < i

theorem opened_owes (i : Nat) (session : Session) (out : List Resource) (between : Between i session out) :
    (session.ledger.take (.file i)).Owes (out++[.file i]) := by
  apply Ledger.owes_take _ _ _ between.owes
  intro member
  exact absurd (between.earlier _ member) (Nat.lt_irrefl i)

theorem sourced_owes (i : Nat) (session : Session) (out : List Resource) (between : Between i session out) :
    ((session.ledger.take (.file i)).take (.source i)).Owes (out++[.file i,.source i]) := by
  rw [← List.singleton_append,← List.append_assoc]
  apply Ledger.owes_take _ _ _ (opened_owes i session out between)
  intro member
  rcases List.mem_append.mp member with before | file
  · exact absurd (between.earlier _ before) (Nat.lt_irrefl i)
  · simp at file

theorem addPath_owes (i : Nat) (attempt : Attempt) (session : Session) (out : List Resource)
    (between : Between i session out) :
    (freeSource (addPath i attempt session).2).ledger.Owes (out++roundLost i attempt) ∧
      (attempt.works = true → Between (i+1) (addPath i attempt session).2 (out++roundLost i attempt)) := by
  have opened := opened_owes i session out between
  have sourced := sourced_owes i session out between
  have settled := Ledger.owes_settle _ _ _ sourced
  have later : ∀ resource ∈ ((session.ledger.take (.file i)).take (.source i)).taken,
      resource.round < i+1 := by
    intro resource member
    simp only [Ledger.take,List.mem_append,List.mem_singleton] at member
    rcases member with (before | rfl) | rfl
    · exact Nat.lt_succ_of_lt (between.earlier resource before)
    · exact Nat.lt_succ_self i
    · exact Nat.lt_succ_self i
  obtain ⟨path,fopen,filep,directory,added⟩ := attempt
  cases path with
  | none => simpa [addPath,roundLost,Attempt.works,freeSource,between.idle] using between.owes
  | some path =>
    cases fopen with
    | false => simpa [addPath,roundLost,Attempt.works,freeSource,between.idle] using between.owes
    | true =>
      cases filep with
      | false => simpa [addPath,roundLost,Attempt.works,freeSource] using opened
      | true =>
        cases added with
        | false =>
          -- the source is at hand when the round goes to ERR_FREE_MEM
          cases directory <;> simpa [addPath,roundLost,Attempt.works,freeSource] using settled
        | true =>
          cases directory with
          | true =>
            simp only [addPath,roundLost,Attempt.works,freeSource]
            exact ⟨sourced,fun _ => ⟨rfl,sourced,later⟩⟩
          | false =>
            simpa [addPath,roundLost,Attempt.works,freeSource] using
              And.intro settled (Between.mk rfl settled later)

theorem addPaths_owes (i : Nat) (attempts : List Attempt) (session : Session) (out : List Resource)
    (between : Between i session out) :
    (freeSource (addPaths i attempts session).2).ledger.Owes (out++lost i attempts) := by
  induction attempts generalizing i session out with
  | nil => simpa [addPaths,lost,freeSource,between.idle] using between.owes
  | cons attempt rest ih =>
    obtain ⟨owes,next⟩ := addPath_owes i attempt session out between
    rw [addPaths_cons,lost]
    cases works : attempt.works with
    | true =>
      rw [if_pos rfl,if_pos rfl,← List.append_assoc]
      exact ih (i+1) _ _ (next works)
    | false =>
      rw [if_neg Bool.false_ne_true,if_neg Bool.false_ne_true,List.append_nil]
      exact owes

theorem start_between (archive : Option (List Entry)) : Between 0 ⟨.load archive,none,.empty⟩ [] := by
  refine ⟨rfl,Ledger.owes_empty,?_⟩
  intro resource member
  contradiction

theorem create_owes (input : Input) (archive : Option (List Entry)) (opened : input.Opened) :
    (UTIL_ZIP_create input archive).ledger.Owes (lost 0 input.attempts) := by
  rw [create_opened input archive opened]
  exact addPaths_owes 0 input.attempts _ [] (start_between archive)

/-- Whatever fails, no file and no source is given up twice. -/
theorem create_settled_nodup (input : Input) (archive : Option (List Entry)) :
    (UTIL_ZIP_create input archive).ledger.settled.Nodup := by
  by_cases opened : input.Opened
  · exact Ledger.owes_nodup _ _ (create_owes input archive opened)
  · rw [create_refused input archive opened]
    exact List.nodup_nil

/-- A file that is opened gets a source, and none is made for a directory that is added. -/
def Attempt.Tidy (attempt : Attempt) : Prop :=
  attempt.path.isSome = true → attempt.calls.fopen = true →
    attempt.calls.zip_source_filep = true ∧
      ¬(attempt.calls.is_dir = true ∧ attempt.calls.zip_add = true)

theorem roundLost_eq_nil_iff (i : Nat) (attempt : Attempt) : roundLost i attempt = [] ↔ attempt.Tidy := by
  unfold roundLost Attempt.Tidy
  split
  · rename_i opened
    split
    · rename_i none
      simp [opened,none]
    · split
      · rename_i directory
        simp [opened,directory]
      · rename_i made plain
        simpa [opened,made] using plain
  · rename_i closed
    simp only [true_iff]
    intro given opens
    exact absurd ⟨given,opens⟩ closed

/-- A round takes place when each of those before it gets to its end. -/
theorem lost_eq_nil_iff (i : Nat) (attempts : List Attempt) :
    lost i attempts = [] ↔
      ∀ before attempt after, attempts = before++attempt::after →
        (∀ earlier ∈ before, earlier.works = true) → attempt.Tidy := by
  induction attempts generalizing i with
  | nil => simp [lost]
  | cons attempt rest ih =>
    rw [lost,List.append_eq_nil_iff,roundLost_eq_nil_iff]
    constructor
    · rintro ⟨tidy,none⟩ before other after split reached
      cases before with
      | nil =>
        obtain ⟨rfl,_⟩ := List.cons.inj split
        exact tidy
      | cons first before =>
        obtain ⟨rfl,behind⟩ := List.cons.inj split
        rw [if_pos (reached attempt List.mem_cons_self)] at none
        exact (ih (i+1)).mp none before other after behind
          fun earlier member => reached earlier (List.mem_cons_of_mem _ member)
    · intro all
      refine ⟨all [] attempt rest rfl (by simp),?_⟩
      split
      · rename_i works
        apply (ih (i+1)).mpr
        intro before other after split reached
        apply all (attempt::before) other after
        · rw [split,List.cons_append]
        · intro earlier member
          rcases List.mem_cons.mp member with rfl | behind
          · exact works
          · exact reached earlier behind
      · rfl

theorem owned_iff (input : Input) (archive : Option (List Entry)) :
    (UTIL_ZIP_create input archive).ledger.ExactlyOnce ↔
      (input.Opened → ∀ before attempt after, input.attempts = before++attempt::after →
        (∀ earlier ∈ before, earlier.works = true) → attempt.Tidy) := by
  by_cases opened : input.Opened
  · rw [Ledger.exactlyOnce_iff _ _ (create_owes input archive opened),lost_eq_nil_iff]
    exact ⟨fun tidy _ => tidy,fun tidy => tidy opened⟩
  · rw [create_refused input archive opened]
    exact ⟨fun _ isOpen => absurd isOpen opened,fun _ => ⟨by simp [Ledger.empty],by simp [Ledger.empty]⟩⟩

/-- One directory, and every call succeeds. -/
def oneDirectory : Input :=
  ⟨some [⟨some ['d'],{plainFile with is_dir := true}⟩],some ['z'],true,true⟩

theorem source_leaked :
    (UTIL_ZIP_create oneDirectory none).ledger = ⟨[.file 0,.source 0],[]⟩ ∧
      ¬(UTIL_ZIP_create oneDirectory none).ledger.ExactlyOnce := ⟨rfl,by decide⟩

end LinuxCourse.UtilZip
