import LinuxCourse.Docker.UtilZip

/-! A second call of `UTIL_ZIP_create` with the arguments of the first. `zip_open` has the
flag `ZIP_CREATE` alone, so it opens what the first call wrote, and the flags of
`zip_file_add` and `zip_dir_add` are 0, so neither replaces an entry that is there. -/
namespace LinuxCourse.UtilZip
open Library

/-- A file or a directory that can be read. -/
structure Readable where
  path : Path
  directory : Bool
  deriving DecidableEq

def Readable.entry (readable : Readable) : Entry := ⟨basename readable.path,readable.directory⟩

/-- What is to go into the archive; no two of them have one basename. -/
structure Selection where
  files : List Readable
  distinct : (files.map fun readable => basename readable.path).Nodup

/-- The calls of a run in which only an entry that is there makes one fail. The name of a
directory is stored with a slash behind it, and so is not that of a file. -/
def respond : List Entry → List Readable → List Attempt
  | _, [] => []
  | present, readable::rest =>
    ⟨some readable.path,⟨true,true,readable.directory,decide (readable.entry ∉ present)⟩⟩::
      respond (present++[readable.entry]) rest

def Selection.create (selection : Selection) (zip_out_file : Path) (archive : Option (List Entry)) :
    Result :=
  UTIL_ZIP_create
    ⟨some (respond (Staged.contents archive) selection.files),some zip_out_file,true,true⟩ archive

def entryNames (archive : Option (List Entry)) : Set Path :=
  {name | ∃ entry ∈ Staged.contents archive, entry.name = name}

/-- Two calls, for an output that does not exist before. -/
def Repeatable (selection : Selection) (zip_out_file : Path) : Prop :=
  let first := selection.create zip_out_file none
  let second := selection.create zip_out_file first.archive
  first.ret = true ∧ second.ret = true ∧ entryNames second.archive = entryNames first.archive

theorem respond_entry (present : List Entry) (files : List Readable) :
    (respond present files).map Attempt.entry = files.map Readable.entry := by
  induction files generalizing present with
  | nil => rfl
  | cons readable rest ih => exact congrArg (readable.entry :: ·) (ih _)

/-- New names are all taken in. -/
theorem respond_works (present : List Entry) (files : List Readable)
    (distinct : (files.map fun readable => basename readable.path).Nodup)
    (fresh : ∀ readable ∈ files, readable.entry ∉ present) :
    ∀ attempt ∈ respond present files, attempt.works = true := by
  induction files generalizing present with
  | nil => simp [respond]
  | cons readable rest ih =>
    obtain ⟨new,others⟩ := List.nodup_cons.mp distinct
    obtain ⟨absent,later⟩ := List.forall_mem_cons.mp fresh
    have behind := ih (present++[readable.entry]) others (by
      intro other member inside
      rcases List.mem_append.mp inside with before | same
      · exact later other member before
      · apply new
        have name := congrArg Entry.name (List.mem_singleton.mp same)
        exact List.mem_map.mpr ⟨other,member,name⟩)
    intro attempt member
    rcases List.mem_cons.mp member with rfl | rest
    · simp [Attempt.works,absent]
    · exact behind attempt rest

theorem first_call (selection : Selection) (zip_out_file : Path) :
    (selection.create zip_out_file none).ret = true ∧
      Staged.contents (selection.create zip_out_file none).archive =
        selection.files.map Readable.entry := by
  have works := respond_works [] selection.files selection.distinct (by simp)
  have opened : Input.Opened ⟨some (respond [] selection.files),some zip_out_file,true,true⟩ := ⟨rfl,rfl,rfl⟩
  constructor
  · exact (create_ret _ none).mpr ⟨opened,works⟩
  · rw [← respond_entry [] selection.files]
    exact success_written _ none ⟨opened,works⟩ rfl

/-- The first name is there already, so nothing is added. -/
theorem second_call (selection : Selection) (zip_out_file : Path) (archive : Option (List Entry))
    (there : ∀ readable ∈ selection.files, readable.entry ∈ Staged.contents archive) :
    ((selection.create zip_out_file archive).ret = true ↔ selection.files = []) ∧
      (selection.create zip_out_file archive).archive = archive := by
  have opened : Input.Opened ⟨some (respond (Staged.contents archive) selection.files),
    some zip_out_file,true,true⟩ := ⟨rfl,rfl,rfl⟩
  rw [Selection.create,create_opened _ archive opened]
  cases files : selection.files with
  | nil => simp [Input.attempts,respond,Staged.commit,Staged.load]
  | cons readable rest =>
    rw [files] at there
    have present := there readable List.mem_cons_self
    simp [Input.attempts,respond,Attempt.works,present,Staged.commit,Staged.load]

theorem create_again (selection : Selection) (zip_out_file : Path) :
    let first := selection.create zip_out_file none
    let second := selection.create zip_out_file first.archive
    first.ret = true ∧ (second.ret = true ↔ selection.files = []) ∧
      entryNames second.archive = entryNames first.archive := by
  intro first second
  obtain ⟨returned,written⟩ := first_call selection zip_out_file
  have there : ∀ readable ∈ selection.files, readable.entry ∈ Staged.contents first.archive := by
    intro readable member
    rw [written]
    exact List.mem_map_of_mem member
  obtain ⟨again,kept⟩ := second_call selection zip_out_file first.archive there
  exact ⟨returned,again,congrArg entryNames kept⟩

def singleFile : Selection := ⟨[⟨['a'],false⟩],by decide⟩

theorem second_call_fails :
    (singleFile.create ['z'] (singleFile.create ['z'] none).archive).ret = false ∧
      ¬Repeatable singleFile ['z'] := by
  refine ⟨by decide,?_⟩
  intro repeatable
  exact absurd repeatable.2.1 (by decide)

end LinuxCourse.UtilZip
