import LinuxCourse.Library.Intake
import LinuxCourse.Docker.UtilZip
import Mathlib.Data.List.Sort

/-! The container run after run: `main` of `docker/app/main.c` lists the input directory and hands
the names to `UTIL_ZIP_create`, which opens the archive of the runs before. -/
namespace LinuxCourse.Zipper
open Library UtilZip

/-- The names in a directory are names of its files, without a slash. -/
structure Dirent where
  d_name : Path
  named : d_name ≠ []
  plain : '/' ∉ d_name
  deriving DecidableEq

structure Directory where
  files : List Dirent
  distinct : (files.map Dirent.d_name).Nodup

def scandir_filter (file : Dirent) : Bool :=
  if file.d_name = ['.'] ∨ file.d_name = ['.','.'] then false else true

/-- Whether `strcoll` puts the first name not behind the second, in the C locale. -/
def collates : Path → Path → Bool
  | [],_ => true
  | _::_,[] => false
  | first::firsts,second::seconds =>
    first.toNat < second.toNat || (first = second && collates firsts seconds)

def alphasort (first second : Dirent) : Prop := collates first.d_name second.d_name = true

instance : DecidableRel alphasort := fun _ _ => inferInstanceAs (Decidable (_ = true))

def scandir (directory : Directory) : List Dirent :=
  (directory.files.filter scandir_filter).insertionSort alphasort

/-- A run: what `/root/zip_in` holds, whether `scandir` can read it, and how the calls on each
path come back, where an entry that is there already does not make `zip_file_add` or `zip_dir_add`
fail. -/
structure Container where
  zip_in : Directory
  scans : Bool
  calls : Path → Calls
  zip_open : Bool
  zip_close : Bool

namespace Container

/-- Where `scandir` fails, `n` is -1, and neither loop up to `n` makes a round. -/
def namelist (container : Container) : List Dirent :=
  if container.scans = true then scandir container.zip_in else []

def entry (container : Container) (file : Dirent) : Entry :=
  ⟨basename file.d_name,(container.calls file.d_name).is_dir⟩

/-- An entry is not added again; `present` has those of the archive and of this run. -/
def attempts (container : Container) : List Entry → List Dirent → List Attempt
  | _,[] => []
  | present,file::rest =>
    ⟨some file.d_name,{container.calls file.d_name with
      zip_add := (container.calls file.d_name).zip_add && decide (container.entry file ∉ present)}⟩::
        container.attempts (present++[container.entry file]) rest

def zip_out_file : Path := "/root/zip_out/zipped.zip".toList

def input (container : Container) (archive : Option (List Entry)) : Input :=
  ⟨some (container.attempts (Staged.contents archive) container.namelist),some zip_out_file,
    container.zip_open,container.zip_close⟩

/-- What a run leaves at `zip_out_file`; the frees that follow have no part in it. -/
def run (container : Container) (archive : Option (List Entry)) : Option (List Entry) :=
  (UTIL_ZIP_create (container.input archive) archive).archive

end Container

def runs (containers : List Container) (archive : Option (List Entry)) : Option (List Entry) :=
  containers.foldl (fun archive container => container.run archive) archive

theorem basename_plain (file : Dirent) : basename file.d_name = file.d_name := by
  have kept (name : Path) (plain : '/' ∉ name) : name.dropWhile (· = '/') = name := by
    cases name with
    | nil => rfl
    | cons first rest =>
      rw [List.dropWhile_cons,if_neg]
      intro slash
      exact plain (decide_eq_true_eq.mp slash ▸ List.mem_cons_self)
  have plain : '/' ∉ file.d_name.reverse := by
    rw [List.mem_reverse]
    exact file.plain
  have whole : file.d_name.reverse.takeWhile (· ≠ '/') = file.d_name.reverse := by
    apply List.takeWhile_eq_self_iff.mpr
    intro letter member
    exact decide_eq_true fun slash => plain (slash ▸ member)
  rw [basename,if_neg file.named,kept _ plain]
  simp only [List.reverse_eq_nil_iff,if_neg file.named,whole,List.reverse_reverse]

theorem collates_total (first second : Path) : collates first second = true ∨ collates second first = true := by
  induction first generalizing second with
  | nil => exact Or.inl rfl
  | cons letter rest ih =>
    cases second with
    | nil => exact Or.inr rfl
    | cons other others =>
      simp only [collates,Bool.or_eq_true,Bool.and_eq_true,decide_eq_true_eq]
      rcases Nat.lt_trichotomy letter.toNat other.toNat with less | same | more
      · exact Or.inl (Or.inl less)
      · obtain rfl := Char.toNat_inj.mp same
        rcases ih others with before | behind
        · exact Or.inl (Or.inr ⟨rfl,before⟩)
        · exact Or.inr (Or.inr ⟨rfl,behind⟩)
      · exact Or.inr (Or.inl more)

theorem collates_trans (first second third : Path) (before : collates first second = true)
    (after : collates second third = true) : collates first third = true := by
  induction first generalizing second third with
  | nil => rfl
  | cons letter rest ih =>
    cases second with
    | nil => contradiction
    | cons other others =>
      cases third with
      | nil => contradiction
      | cons last lasts =>
        simp only [collates,Bool.or_eq_true,Bool.and_eq_true,decide_eq_true_eq] at before after ⊢
        rcases before with less | ⟨rfl,one⟩
        · rcases after with more | ⟨rfl,-⟩
          · exact Or.inl (Nat.lt_trans less more)
          · exact Or.inl less
        · rcases after with more | ⟨rfl,two⟩
          · exact Or.inl more
          · exact Or.inr ⟨rfl,ih others lasts one two⟩

theorem collates_antisymm (first second : Path) (before : collates first second = true)
    (behind : collates second first = true) : first = second := by
  induction first generalizing second with
  | nil =>
    cases second with
    | nil => rfl
    | cons => contradiction
  | cons letter rest ih =>
    cases second with
    | nil => contradiction
    | cons other others =>
      simp only [collates,Bool.or_eq_true,Bool.and_eq_true,decide_eq_true_eq] at before behind
      rcases before with less | ⟨rfl,one⟩
      · rcases behind with more | ⟨rfl,-⟩
        · exact absurd (Nat.lt_trans less more) (Nat.lt_irrefl _)
        · exact absurd less (Nat.lt_irrefl _)
      · rcases behind with more | ⟨-,two⟩
        · exact absurd more (Nat.lt_irrefl _)
        · rw [ih others one two]

theorem mem_scandir (directory : Directory) (file : Dirent) :
    file ∈ scandir directory ↔ file ∈ directory.files ∧ scandir_filter file = true := by
  rw [scandir,List.mem_insertionSort,List.mem_filter]

theorem scandir_distinct (directory : Directory) : ((scandir directory).map Dirent.d_name).Nodup := by
  have same := (List.perm_insertionSort alphasort (directory.files.filter scandir_filter)).map Dirent.d_name
  exact same.nodup_iff.mpr (directory.distinct.sublist ((List.filter_sublist).map _))

theorem scandir_sorted (directory : Directory) :
    (scandir directory).Pairwise fun first second => ¬alphasort second first := by
  have total : Std.Total alphasort := ⟨fun first second => collates_total first.d_name second.d_name⟩
  have trans : IsTrans Dirent alphasort := ⟨fun first second third => collates_trans _ _ _⟩
  have sorted := List.pairwise_insertionSort alphasort (directory.files.filter scandir_filter)
  have distinct := List.pairwise_map.mp (scandir_distinct directory)
  refine (sorted.and distinct).imp ?_
  rintro first second ⟨before,differ⟩ behind
  exact differ (collates_antisymm _ _ before behind)

theorem namelist_sublist (container : Container) : container.namelist.Sublist (scandir container.zip_in) := by
  rw [Container.namelist]
  split
  · exact List.Sublist.refl _
  · exact List.nil_sublist _

theorem entry_name (container : Container) (file : Dirent) : (container.entry file).name = file.d_name :=
  basename_plain file

theorem entries_distinct (container : Container) :
    ((scandir container.zip_in).map container.entry).Nodup := by
  have names : ((scandir container.zip_in).map container.entry).map Entry.name =
      (scandir container.zip_in).map Dirent.d_name := by
    rw [List.map_map]
    exact List.map_congr_left fun file _ => entry_name container file
  apply List.Nodup.of_map Entry.name
  rw [names]
  exact scandir_distinct container.zip_in

/-- Whatever fails, what is taken are the first names, up to one that is there. -/
theorem attempts_taken (container : Container) (present : List Entry) (files : List Dirent) :
    ∃ count, ((container.attempts present files).takeWhile Attempt.works).map Attempt.entry =
        (files.map container.entry).take count ∧
      ∀ entry ∈ (files.map container.entry).take count, entry ∉ present := by
  induction files generalizing present with
  | nil => exact ⟨0,rfl,fun _ member => absurd member List.not_mem_nil⟩
  | cons file rest ih =>
    rw [Container.attempts,List.takeWhile_cons]
    split
    · rename_i works
      simp only [Attempt.works,Bool.and_eq_true,decide_eq_true_eq] at works
      obtain ⟨count,taken,fresh⟩ := ih (present++[container.entry file])
      refine ⟨count+1,?_,?_⟩
      · rw [List.map_cons,taken,List.map_cons,List.take_succ_cons]
        rfl
      · rw [List.map_cons,List.take_succ_cons]
        intro entry member
        rcases List.mem_cons.mp member with rfl | later
        · exact works.2.2
        · exact fun inside => fresh entry later (List.mem_append_left _ inside)
    · exact ⟨0,rfl,fun _ member => absurd member List.not_mem_nil⟩

/-- One run, whatever fails in it. -/
theorem run_taken (container : Container) (archive : Option (List Entry)) :
    ∃ count, Staged.contents (container.run archive) =
        Staged.contents archive++(container.namelist.map container.entry).take count ∧
      ∀ entry ∈ (container.namelist.map container.entry).take count,
        entry ∉ Staged.contents archive := by
  have nothing : ∃ count, Staged.contents archive =
        Staged.contents archive++(container.namelist.map container.entry).take count ∧
      ∀ entry ∈ (container.namelist.map container.entry).take count,
        entry ∉ Staged.contents archive :=
    ⟨0,(List.append_nil _).symm,fun _ member => absurd member List.not_mem_nil⟩
  by_cases opened : (container.input archive).Opened
  · rw [Container.run,create_opened _ _ opened]
    cases closes : container.zip_close with
    | false =>
      simp only [Container.input,closes,Staged.commit_fails]
      exact nothing
    | true =>
      obtain ⟨count,taken,fresh⟩ :=
        attempts_taken container (Staged.contents archive) container.namelist
      refine ⟨count,?_,fresh⟩
      simp only [Container.input,closes,Staged.commit_succeeds,Input.attempts,Option.getD_some,taken]
      rfl
  · rw [Container.run,create_refused _ _ opened]
    exact nothing

theorem runs_cons (container : Container) (rest : List Container) (archive : Option (List Entry)) :
    runs (container::rest) archive = runs rest (container.run archive) := rfl

/-- Over all runs, and whatever fails in them, the archive has no entry twice, loses none, and has
only what was listed. -/
theorem runs_keep (containers : List Container) (archive : Option (List Entry))
    (distinct : (Staged.contents archive).Nodup) :
    (Staged.contents (runs containers archive)).Nodup ∧
      Staged.contents archive <+: Staged.contents (runs containers archive) ∧
      ∀ entry ∈ Staged.contents (runs containers archive), entry ∈ Staged.contents archive ∨
        ∃ container ∈ containers, ∃ file ∈ container.zip_in.files, scandir_filter file = true ∧
          entry = container.entry file := by
  induction containers generalizing archive with
  | nil => exact ⟨distinct,List.prefix_refl _,fun _ member => Or.inl member⟩
  | cons container rest ih =>
    obtain ⟨count,contents,fresh⟩ := run_taken container archive
    have once : (Staged.contents (container.run archive)).Nodup := by
      rw [contents]
      have apart := (entries_distinct container).sublist ((namelist_sublist container).map container.entry)
      refine List.nodup_append.mpr ⟨distinct,apart.sublist (List.take_sublist _ _),?_⟩
      rintro old there new taken rfl
      exact fresh old taken there
    obtain ⟨nodup,kept,listed⟩ := ih (container.run archive) once
    rw [runs_cons]
    refine ⟨nodup,?_,?_⟩
    · rw [contents] at kept
      exact (List.prefix_append _ _).trans kept
    · intro entry member
      rcases listed entry member with before | ⟨other,later,found⟩
      · rw [contents] at before
        rcases List.mem_append.mp before with old | new
        · exact Or.inl old
        · obtain ⟨file,inside,rfl⟩ := List.mem_map.mp (List.mem_of_mem_take new)
          have scanned := (namelist_sublist container).subset inside
          obtain ⟨there,passes⟩ := (mem_scandir container.zip_in file).mp scanned
          exact Or.inr ⟨container,List.mem_cons_self,file,there,passes,rfl⟩
      · exact Or.inr ⟨other,List.mem_cons_of_mem _ later,found⟩

/-- A run in which all calls work; `kind` says which names are directories. -/
structure Container.Works (kind : Path → Bool) (container : Container) : Prop where
  scans : container.scans = true
  calls : ∀ file ∈ container.zip_in.files, container.calls file.d_name = ⟨true,true,kind file.d_name,true⟩
  opens : container.zip_open = true
  closes : container.zip_close = true

/-- Where nothing else fails, the first entry that is there ends the run. -/
theorem attempts_fresh (container : Container) (present taken : List Entry) (files : List Dirent)
    (works : ∀ file ∈ files, (container.calls file.d_name).fopen = true ∧
      (container.calls file.d_name).zip_source_filep = true ∧ (container.calls file.d_name).zip_add = true)
    (distinct : (files.map container.entry).Nodup)
    (others : ∀ file ∈ files, container.entry file ∉ taken) :
    ((container.attempts (present++taken) files).takeWhile Attempt.works).map Attempt.entry =
      (files.map container.entry).takeWhile (· ∉ present) := by
  induction files generalizing taken with
  | nil => rfl
  | cons file rest ih =>
    obtain ⟨opens,sources,adds⟩ := works file List.mem_cons_self
    obtain ⟨differs,apart⟩ := List.nodup_cons.mp distinct
    have new := others file List.mem_cons_self
    have behind := ih (taken++[container.entry file])
      (fun other member => works other (List.mem_cons_of_mem _ member)) apart (by
        intro other member inside
        rcases List.mem_append.mp inside with before | same
        · exact others other (List.mem_cons_of_mem _ member) before
        · exact differs (List.mem_singleton.mp same ▸ List.mem_map_of_mem member))
    rw [← List.append_assoc] at behind
    rw [Container.attempts,List.takeWhile_cons,List.map_cons,List.takeWhile_cons]
    by_cases there : container.entry file ∈ present
    · simp [Attempt.works,opens,sources,adds,there]
    · simp only [Attempt.works,opens,sources,adds,List.mem_append,there,new,or_self,not_false_eq_true,
        decide_true,Bool.and_self,Option.isSome_some,if_true,List.map_cons,behind]
      rfl

theorem run_contents (kind : Path → Bool) (container : Container) (archive : Option (List Entry))
    (works : container.Works kind) :
    Staged.contents (container.run archive) = Staged.contents archive++
      ((scandir container.zip_in).map container.entry).takeWhile (· ∉ Staged.contents archive) := by
  have opened : (container.input archive).Opened := ⟨rfl,rfl,works.opens⟩
  have each := attempts_fresh container (Staged.contents archive) [] (scandir container.zip_in)
    (by
      intro file member
      rw [works.calls file ((mem_scandir container.zip_in file).mp member).1]
      exact ⟨rfl,rfl,rfl⟩)
    (entries_distinct container) (fun _ _ => List.not_mem_nil)
  rw [List.append_nil] at each
  rw [Container.run,create_opened _ _ opened]
  simp only [Container.input,Container.namelist,works.scans,if_true,works.closes,Staged.commit_succeeds,
    Input.attempts,Option.getD_some,each]
  rfl

def names (kind : Path → Bool) (archive : Option (List Entry)) : Set Path :=
  {name | ⟨name,kind name⟩ ∈ Staged.contents archive}

def Container.listed (container : Container) : Set Path :=
  {name | ∃ file ∈ scandir container.zip_in, file.d_name = name}

def Collates (first second : Path) : Prop := collates first second = true

theorem works_entry (kind : Path → Bool) (container : Container) (works : container.Works kind)
    (file : Dirent) (member : file ∈ scandir container.zip_in) :
    container.entry file = ⟨file.d_name,kind file.d_name⟩ := by
  rw [Container.entry,basename_plain,works.calls file ((mem_scandir container.zip_in file).mp member).1]

/-- A run on the names alone. -/
theorem run_accepts (kind : Path → Bool) (container : Container) (archive : Option (List Entry))
    (works : container.Works kind) :
    names kind (container.run archive) = Intake.accept Collates (names kind archive) container.listed := by
  have sorted : ((scandir container.zip_in).map container.entry).Pairwise
      fun first second => ¬Collates second.name first.name := by
    rw [List.pairwise_map]
    simp only [entry_name]
    exact scandir_sorted container.zip_in
  have taken := Intake.mem_takeWhile (fun first second : Entry => Collates first.name second.name)
    (fun first second => collates_total _ _) (fun entry => decide (entry ∉ Staged.contents archive)) _ sorted
  ext name
  rw [names,Set.mem_ofPred_eq,run_contents kind container archive works,List.mem_append,taken]
  apply or_congr_right
  have given := works_entry kind container works
  constructor
  · rintro ⟨member,first⟩
    obtain ⟨file,inside,same⟩ := List.mem_map.mp member
    have equal : file.d_name = name := by
      rw [← entry_name container file,same]
    refine ⟨⟨file,inside,equal⟩,?_⟩
    rintro other ⟨listed,here,rfl⟩ lower
    have absent := first (container.entry listed) (List.mem_map_of_mem here) (by
      rw [entry_name]
      exact lower)
    rw [given listed here] at absent
    have missing : ⟨listed.d_name,kind listed.d_name⟩ ∉ Staged.contents archive := of_decide_eq_true absent
    exact missing
  · rintro ⟨⟨file,inside,rfl⟩,first⟩
    refine ⟨List.mem_map.mpr ⟨file,inside,given file inside⟩,?_⟩
    rintro entry member lower
    obtain ⟨other,here,rfl⟩ := List.mem_map.mp member
    rw [entry_name] at lower
    have absent := first other.d_name ⟨other,here,rfl⟩ lower
    rw [given other here]
    exact decide_eq_true absent

theorem runs_accepts (kind : Path → Bool) (containers : List Container) (archive : Option (List Entry))
    (works : ∀ container ∈ containers, container.Works kind) :
    names kind (runs containers archive) =
      Intake.accepts Collates (containers.map Container.listed) (names kind archive) := by
  induction containers generalizing archive with
  | nil => rfl
  | cons container rest ih =>
    rw [runs_cons,ih _ fun other member => works other (List.mem_cons_of_mem _ member)]
    rw [run_accepts kind container archive (works container List.mem_cons_self)]
    rfl

/-- The first of the names that `scandir` returns is the least. -/
theorem listed_least (container : Container) (name : Path) (member : name ∈ container.listed) :
    ∃ least ∈ container.listed, ∀ other ∈ container.listed, Collates least other := by
  have sorted := scandir_sorted container.zip_in
  unfold Container.listed at member ⊢
  obtain ⟨file,inside,-⟩ := member
  cases files : scandir container.zip_in with
  | nil =>
    rw [files] at inside
    contradiction
  | cons first rest =>
    rw [files] at sorted
    refine ⟨first.d_name,⟨first,List.mem_cons_self,rfl⟩,?_⟩
    rintro other ⟨listed,here,rfl⟩
    rcases List.mem_cons.mp here with rfl | later
    · exact (collates_total _ _).elim id id
    · exact (collates_total _ _).resolve_right ((List.pairwise_cons.mp sorted).1 listed later)

/-- While files are only added to the directory, the archive gets those that come before all that
an earlier run has listed, and never gets the others. -/
theorem runs_growing (kind : Path → Bool) (containers : List Container)
    (works : ∀ container ∈ containers, container.Works kind)
    (growing : containers.Pairwise fun first second => ∀ file ∈ first.zip_in.files, file ∈ second.zip_in.files)
    (name : Path) :
    ⟨name,kind name⟩ ∈ Staged.contents (runs containers none) ↔
      ∃ before container after, containers = before++container::after ∧
        (∃ file ∈ scandir container.zip_in, file.d_name = name) ∧
        ∀ earlier ∈ before, ∀ file ∈ scandir earlier.zip_in, collates file.d_name name = false := by
  have refined := runs_accepts kind containers none works
  have empty : names kind none = ∅ := Set.eq_empty_of_forall_notMem fun _ => List.not_mem_nil
  have grows := Intake.accepts_growing Collates collates_trans collates_antisymm
    (containers.map Container.listed)
    (List.pairwise_map.mpr (growing.imp fun more name ⟨file,member,same⟩ => by
      obtain ⟨there,passes⟩ := (mem_scandir _ file).mp member
      exact ⟨file,(mem_scandir _ file).mpr ⟨more file there,passes⟩,same⟩))
    (by
      intro offer member
      obtain ⟨container,-,rfl⟩ := List.mem_map.mp member
      exact listed_least container)
    name
  rw [← empty,← refined] at grows
  refine grows.trans ⟨?_,?_⟩
  · rintro ⟨before,offer,after,split,listed,first⟩
    obtain ⟨front,back,rfl,rfl,ends⟩ := List.map_eq_append_iff.mp split
    obtain ⟨container,rest,rfl,rfl,-⟩ := List.map_eq_cons_iff.mp ends
    refine ⟨front,container,rest,rfl,listed,?_⟩
    intro earlier member file inside
    exact Bool.eq_false_iff.mpr (first earlier.listed (List.mem_map_of_mem member) file.d_name ⟨file,inside,rfl⟩)
  · rintro ⟨before,container,after,rfl,listed,first⟩
    refine ⟨before.map Container.listed,container.listed,after.map Container.listed,by simp,listed,?_⟩
    rintro offer member other inside
    obtain ⟨earlier,there,rfl⟩ := List.mem_map.mp member
    obtain ⟨file,here,rfl⟩ := inside
    exact Bool.eq_false_iff.mp (first earlier there file here)

def fileA : Dirent := ⟨['a'],by decide,by decide⟩
def fileB : Dirent := ⟨['b'],by decide,by decide⟩
def fileC : Dirent := ⟨['c'],by decide,by decide⟩

/-- A run that finds the file `b` only, and one that finds three files. -/
def earlyRun : Container := ⟨⟨[fileB],by decide⟩,true,fun _ => ⟨true,true,false,true⟩,true,true⟩
def laterRun : Container := ⟨⟨[fileC,fileB,fileA],by decide⟩,true,fun _ => ⟨true,true,false,true⟩,true,true⟩

theorem runs_keep_three :
    Staged.contents (runs [laterRun] (some [⟨['b'],false⟩])) = [⟨['b'],false⟩,⟨['a'],false⟩] ∧
      (Staged.contents (runs [laterRun] (some [⟨['b'],false⟩]))).Nodup :=
  ⟨by decide,(runs_keep [laterRun] (some [⟨['b'],false⟩]) (by decide)).1⟩

theorem runs_growing_three :
    (⟨['c'],false⟩ : Entry) ∉ Staged.contents (runs [earlyRun,laterRun] none) ∧
      ((⟨['a'],false⟩ : Entry) ∈ Staged.contents (runs [earlyRun,laterRun] none) ↔
        ∃ before container after, [earlyRun,laterRun] = before++container::after ∧
          (∃ file ∈ scandir container.zip_in, file.d_name = ['a']) ∧
          ∀ earlier ∈ before, ∀ file ∈ scandir earlier.zip_in, collates file.d_name ['a'] = false) := by
  refine ⟨by decide,runs_growing (fun _ => false) [earlyRun,laterRun] ?_ ?_ ['a']⟩
  · intro container member
    have either : container = earlyRun ∨ container = laterRun := by simpa using member
    rcases either with rfl | rfl <;> exact ⟨rfl,fun _ _ => rfl,rfl,rfl⟩
  · refine List.pairwise_pair.mpr ?_
    intro file member
    rw [List.mem_singleton.mp member]
    exact List.mem_cons_of_mem _ List.mem_cons_self

end LinuxCourse.Zipper
