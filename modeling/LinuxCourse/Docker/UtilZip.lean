import LinuxCourse.Library.Ledger
import LinuxCourse.Library.Staged
import Mathlib.Data.List.TakeWhile

/-! `UTIL_ZIP_create` of `docker/app/src/util_zip.c`. Each call into stdio, libzip or `stat`
comes back as the input says, so a property of all inputs holds for every pattern of failures. -/
namespace LinuxCourse.UtilZip
open Library

abbrev Path : Type := List Char

/-- What is behind the last slash, slashes at the very end apart. -/
def basename (path : Path) : Path :=
  if path = [] then ['.']
  else
    let trimmed := path.reverse.dropWhile (· = '/')
    if trimmed = [] then ['/'] else (trimmed.takeWhile (· ≠ '/')).reverse

structure Entry where
  name : Path
  directory : Bool
  deriving DecidableEq

/-- How the calls on one path come back; `zip_add` stands for `zip_dir_add` or
`zip_file_add`, whichever is made. -/
structure Calls where
  fopen : Bool
  zip_source_filep : Bool
  is_dir : Bool
  zip_add : Bool

structure Attempt where
  path : Option Path
  calls : Calls

inductive Resource
  | file (i : Nat)
  | source (i : Nat)
  deriving DecidableEq

/-- `zs` is the source made in round `i`, or `none` for the null pointer. -/
structure Session where
  za : Staged Entry
  zs : Option Nat
  ledger : Ledger Resource

/-- The loop body: whether it gets to its end, or goes to `ERR_FREE_MEM`. A source that the
archive takes over takes its file with it. -/
def addPath (i : Nat) (attempt : Attempt) (session : Session) : Bool × Session :=
  match attempt.path with
  | none => (false,session)
  | some path =>
    if attempt.calls.fopen = false then (false,session)
    else
      let opened := {session with ledger := session.ledger.take (.file i)}
      if attempt.calls.zip_source_filep = false then (false,{opened with zs := none})
      else
        let sourced := {opened with zs := some i,ledger := opened.ledger.take (.source i)}
        if attempt.calls.is_dir = true then
          if attempt.calls.zip_add = false then (false,sourced)
          else (true,{sourced with za := sourced.za.add [⟨basename path,true⟩],zs := none})
        else
          if attempt.calls.zip_add = false then (false,sourced)
          else
            (true,{sourced with
              za := sourced.za.add [⟨basename path,false⟩]
              zs := none
              ledger := sourced.ledger.settle [.file i,.source i]})

def addPaths : Nat → List Attempt → Session → Bool × Session
  | _, [], session => (true,session)
  | i, attempt::rest, session =>
    match addPath i attempt session with
    | (true,next) => addPaths (i+1) rest next
    | (false,next) => (false,next)

/-- `zip_source_free`, which closes the file of the source as well. -/
def freeSource (session : Session) : Session :=
  match session.zs with
  | some i => {session with ledger := session.ledger.settle [.file i,.source i]}
  | none => session

structure Input where
  file_paths : Option (List Attempt)
  zip_out_file : Option Path
  zip_open : Bool
  zip_close : Bool

/-- `archive` is the file at `zip_out_file`, when there is one. -/
structure Result where
  ret : Bool
  archive : Option (List Entry)
  ledger : Ledger Resource

def UTIL_ZIP_create (input : Input) (archive : Option (List Entry)) : Result :=
  match input.file_paths, input.zip_out_file with
  | some paths, some _ =>
    if input.zip_open = true then
      let (ret,session) := addPaths 0 paths ⟨.load archive,none,.empty⟩
      let freed := freeSource session
      ⟨ret,freed.za.commit input.zip_close,freed.ledger⟩
    else ⟨false,archive,.empty⟩
  | _, _ => ⟨false,archive,.empty⟩

def Attempt.works (attempt : Attempt) : Bool :=
  attempt.path.isSome && attempt.calls.fopen && attempt.calls.zip_source_filep && attempt.calls.zip_add

def Attempt.entry (attempt : Attempt) : Entry :=
  ⟨basename (attempt.path.getD []),attempt.calls.is_dir⟩

theorem addPath_za (i : Nat) (attempt : Attempt) (session : Session) :
    (addPath i attempt session).1 = attempt.works ∧
      (addPath i attempt session).2.za =
        session.za.add (if attempt.works = true then [attempt.entry] else []) := by
  obtain ⟨path,fopen,filep,directory,added⟩ := attempt
  cases path with
  | none => simp [addPath,Attempt.works]
  | some path =>
    cases fopen <;> cases filep <;> cases directory <;> cases added <;>
      simp [addPath,Attempt.works,Attempt.entry]

theorem addPaths_cons (i : Nat) (attempt : Attempt) (rest : List Attempt) (session : Session) :
    addPaths i (attempt::rest) session =
      if attempt.works = true then addPaths (i+1) rest (addPath i attempt session).2
      else (false,(addPath i attempt session).2) := by
  have ended := (addPath_za i attempt session).1
  rw [addPaths,← ended]
  split
  · rename_i next same
    rw [same]
    rfl
  · rename_i next same
    rw [same]
    rfl

theorem addPaths_za (i : Nat) (attempts : List Attempt) (session : Session) :
    (addPaths i attempts session).1 = attempts.all Attempt.works ∧
      (addPaths i attempts session).2.za =
        session.za.add ((attempts.takeWhile Attempt.works).map Attempt.entry) := by
  induction attempts generalizing i session with
  | nil => simp [addPaths]
  | cons attempt rest ih =>
    obtain ⟨_,za⟩ := addPath_za i attempt session
    rw [addPaths_cons]
    cases works : attempt.works with
    | true =>
      obtain ⟨all,added⟩ := ih (i+1) (addPath i attempt session).2
      rw [if_pos rfl,all,added,za]
      simp [works]
    | false =>
      rw [if_neg Bool.false_ne_true,za]
      simp [works]

theorem freeSource_za (session : Session) : (freeSource session).za = session.za := by
  unfold freeSource
  split <;> rfl

/-- The pointers are there and the archive could be opened. -/
def Input.Opened (input : Input) : Prop :=
  input.file_paths.isSome ∧ input.zip_out_file.isSome ∧ input.zip_open = true

def Input.attempts (input : Input) : List Attempt := input.file_paths.getD []

def Input.session (input : Input) (archive : Option (List Entry)) : Session :=
  (addPaths 0 input.attempts ⟨.load archive,none,.empty⟩).2

theorem create_opened (input : Input) (archive : Option (List Entry)) (opened : input.Opened) :
    UTIL_ZIP_create input archive = ⟨input.attempts.all Attempt.works,
      (Staged.load archive |>.add ((input.attempts.takeWhile Attempt.works).map Attempt.entry)).commit
        input.zip_close,
      (freeSource (input.session archive)).ledger⟩ := by
  obtain ⟨paths,out,opens,closes⟩ := input
  obtain ⟨given,named,opens⟩ := opened
  obtain ⟨paths,rfl⟩ := Option.isSome_iff_exists.mp given
  obtain ⟨out,rfl⟩ := Option.isSome_iff_exists.mp named
  obtain ⟨all,za⟩ := addPaths_za 0 paths ⟨.load archive,none,.empty⟩
  simp only at opens
  simp only [UTIL_ZIP_create,opens,if_true,freeSource_za,all,za,Input.attempts,Input.session,
    Option.getD_some]

theorem create_refused (input : Input) (archive : Option (List Entry)) (refused : ¬input.Opened) :
    UTIL_ZIP_create input archive = ⟨false,archive,.empty⟩ := by
  obtain ⟨paths,out,opens,closes⟩ := input
  cases paths with
  | none => rfl
  | some paths =>
    cases out with
    | none => rfl
    | some out =>
      cases opens with
      | true => exact absurd ⟨rfl,rfl,rfl⟩ refused
      | false => rfl

def Input.Succeeds (input : Input) : Prop :=
  input.Opened ∧ ∀ attempt ∈ input.attempts, attempt.works = true

theorem create_ret (input : Input) (archive : Option (List Entry)) :
    (UTIL_ZIP_create input archive).ret = true ↔ input.Succeeds := by
  by_cases opened : input.Opened
  · rw [create_opened input archive opened]
    simp only [List.all_eq_true,Input.Succeeds,opened,true_and]
  · rw [create_refused input archive opened]
    simp [Input.Succeeds,opened]

/-- Success is only reported when the archive was written, with an entry for each path. -/
def Honest (input : Input) (archive : Option (List Entry)) : Prop :=
  let result := UTIL_ZIP_create input archive
  result.ret = true →
    input.zip_close = true ∧
    (∀ attempt ∈ input.attempts, ∃ path, attempt.path = some path ∧
      ∃ entry ∈ Staged.contents result.archive, entry.name = basename path) ∧
    ∀ entry ∈ Staged.contents archive, entry ∈ Staged.contents result.archive

theorem success_written (input : Input) (archive : Option (List Entry)) (succeeds : input.Succeeds)
    (closes : input.zip_close = true) :
    Staged.contents (UTIL_ZIP_create input archive).archive =
      Staged.contents archive++input.attempts.map Attempt.entry := by
  have all : input.attempts.takeWhile Attempt.works = input.attempts :=
    List.takeWhile_eq_self_iff.mpr succeeds.2
  rw [create_opened input archive succeeds.1,closes,Staged.commit_succeeds,all]
  rfl

theorem honest_iff (input : Input) (archive : Option (List Entry)) :
    Honest input archive ↔ (input.Succeeds → input.zip_close = true) := by
  constructor
  · intro honest succeeds
    exact (honest ((create_ret input archive).mpr succeeds)).1
  · intro closed reported
    have succeeds := (create_ret input archive).mp reported
    have written := success_written input archive succeeds (closed succeeds)
    refine ⟨closed succeeds,?_,?_⟩
    · intro attempt member
      have works := succeeds.2 attempt member
      simp only [Attempt.works,Bool.and_eq_true] at works
      obtain ⟨path,found⟩ := Option.isSome_iff_exists.mp works.1.1.1
      refine ⟨path,found,attempt.entry,?_,?_⟩
      · rw [written]
        exact List.mem_append_right _ (List.mem_map_of_mem member)
      · rw [Attempt.entry,found]
        rfl
    · intro entry member
      rw [written]
      exact List.mem_append_left _ member

def plainFile : Calls := ⟨true,true,false,true⟩

/-- One file, and no room on the disk when the archive is written. -/
def fullDisk : Input := ⟨some [⟨some ['a'],plainFile⟩],some ['z'],true,false⟩

theorem success_unwritten : ¬Honest fullDisk none := by
  intro honest
  have written := (honest rfl).1
  contradiction

/-- A call that fails leaves the archive as it was. -/
def AllOrNothing (input : Input) (archive : Option (List Entry)) : Prop :=
  (UTIL_ZIP_create input archive).ret = false → (UTIL_ZIP_create input archive).archive = archive

theorem none_pending_iff (attempts : List Attempt) :
    (attempts.takeWhile Attempt.works).map Attempt.entry = [] ↔
      ¬∃ first ∈ attempts.head?, first.works = true := by
  cases attempts with
  | nil => simp
  | cons attempt rest =>
    cases works : attempt.works <;> simp [works]

/-- What was added before a failure is written all the same, when there is any. -/
theorem all_or_nothing_iff (input : Input) (archive : Option (List Entry)) :
    AllOrNothing input archive ↔
      (input.Opened → input.zip_close = true → (∃ first ∈ input.attempts.head?, first.works = true) →
        ∀ attempt ∈ input.attempts, attempt.works = true) := by
  by_cases opened : input.Opened
  · have unchanged := Staged.commit_unchanged_iff
      (Staged.load archive |>.add ((input.attempts.takeWhile Attempt.works).map Attempt.entry))
      input.zip_close
    have pending : (Staged.load archive |>.add
        ((input.attempts.takeWhile Attempt.works).map Attempt.entry)).pending = [] ↔ _ :=
      none_pending_iff input.attempts
    have failed : input.attempts.all Attempt.works = false ↔
        ¬∀ attempt ∈ input.attempts, attempt.works = true := by
      rw [← List.all_eq_true,Bool.not_eq_true]
    rw [AllOrNothing,create_opened input archive opened]
    simp only [failed]
    rw [pending] at unchanged
    constructor
    · intro kept _ closes added
      by_contra failing
      exact unchanged.mp (kept failing) closes added
    · intro whole failing
      exact unchanged.mpr fun closes added => failing (whole opened closes added)
  · rw [AllOrNothing,create_refused input archive opened]
    exact ⟨fun _ isOpen => absurd isOpen opened,fun _ _ => rfl⟩

/-- The second of two files cannot be opened. -/
def missingSecond : Input :=
  ⟨some [⟨some ['a'],plainFile⟩,⟨some ['b'],{plainFile with fopen := false}⟩],some ['z'],true,true⟩

theorem half_written : ¬AllOrNothing missingSecond none := by
  intro kept
  have stored : (UTIL_ZIP_create missingSecond none).archive = some [⟨['a'],false⟩] := by decide
  have unchanged := kept rfl
  rw [stored] at unchanged
  contradiction

end LinuxCourse.UtilZip
