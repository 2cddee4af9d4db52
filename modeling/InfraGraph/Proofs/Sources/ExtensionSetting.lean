import InfraGraph.Proofs.Sources.Discovery
import Mathlib.Tactic.Choose

/-!
# Setting the extension

The extension of source files is set in a configuration file or as an option of the command line. An
option loses the dots before it, a setting in a file keeps them; but the extension of a name never
has a dot in it, so a setting with a dot before it finds no file in any directory. Otherwise both
ways lead to the same files and so to the same graph.

## Main results

* `Configuration.extension_of_setting` — a configuration file has its way.
* `eq_of_flatten_eq` — nothing can be left out of a list of files without showing.
* `load_of_setting` — where both ways agree and where they do not.
-/

namespace InfraGraph

/-! ## Settings -/

namespace Configuration

/-- The only setting with a text is the extension. -/
theorem withSetting?_text_eq_some {c d : Configuration} {key s : List Char}
    (h : c.withSetting? key (.text s) = some d) :
    key = "extension".toList ∧ d = { c with extension := String.ofList s } := by
  dsimp only [withSetting?] at h
  split at h
  · rename_i hkey
    exact ⟨hkey, (Option.some.inj h).symm⟩
  · cases h

private theorem withSetting?_extension {c d : Configuration} {key : List Char} {s : Toml.Setting}
    (h : c.withSetting? key s = some d) (hkey : key ≠ "extension".toList) :
    d.extension = c.extension := by
  cases s with
  | text s => exact absurd (withSetting?_text_eq_some h).1 hkey
  | texts items =>
      dsimp only [withSetting?] at h
      split at h
      · rw [← Option.some.inj h]
      · cases h

private theorem extension_of_unset {settings : List (List Char × Toml.Setting)}
    {c d : Configuration} (h : settings.foldlM (fun c s => c.withSetting? s.1 s.2) c = some d)
    (hunset : "extension".toList ∉ settings.map Prod.fst) : d.extension = c.extension := by
  induction settings generalizing c with
  | nil =>
      cases h
      rfl
  | cons s rest ih =>
      rw [List.map_cons, List.mem_cons, not_or] at hunset
      rw [List.foldlM_cons] at h
      obtain ⟨next, hnext, hrest⟩ := Option.bind_eq_some_iff.1 h
      rw [ih hrest hunset.2, withSetting?_extension hnext (Ne.symm hunset.1)]

/-- The extension that is set is the one that the configuration gets. -/
theorem extension_of_set {settings : List (List Char × Toml.Setting)} {c d : Configuration}
    {e : List Char} (h : settings.foldlM (fun c s => c.withSetting? s.1 s.2) c = some d)
    (hnodup : (settings.map Prod.fst).Nodup)
    (hset : ("extension".toList, Toml.Setting.text e) ∈ settings) :
    d.extension = String.ofList e := by
  induction settings generalizing c with
  | nil => cases hset
  | cons s rest ih =>
      rw [List.map_cons, List.nodup_cons] at hnodup
      rw [List.foldlM_cons] at h
      obtain ⟨next, hnext, hrest⟩ := Option.bind_eq_some_iff.1 h
      rcases List.mem_cons.1 hset with rfl | hmem
      · rw [extension_of_unset hrest hnodup.1]
        rw [(withSetting?_text_eq_some hnext).2]
      · exact ih hrest hnodup.2 hmem

/-- The extension of a configuration is the one that is set. -/
theorem extension_of_setting {text : List Char} {settings : List (List Char × Toml.Setting)}
    {c : Configuration} {e : String} (hsettings : Toml.read? text = some settings)
    (hset : ("extension".toList, Toml.Setting.text e.toList) ∈ settings)
    (hc : read? text = some c) : c.extension = e := by
  have hnodup : (settings.map Prod.fst).Nodup := by
    unfold Toml.read? at hsettings
    obtain ⟨found, -, hfound⟩ := Option.bind_eq_some_iff.1 hsettings
    split at hfound
    · cases hfound
      assumption
    · cases hfound
  rw [read?, hsettings] at hc
  rw [extension_of_set hc hnodup hset, String.ofList_toList]

/-- An option without a dot before it is taken as it is. -/
theorem withExtension_of_dotless (c : Configuration) {e : String} (h : e.toList.head? ≠ some '.') :
    (c.withExtension e).extension = e := by
  have hkept : e.toList.dropWhile (· = '.') = e.toList := by
    cases hcs : e.toList with
    | nil => rfl
    | cons x cs =>
        rw [hcs, List.head?_cons] at h
        simpa using fun hx => h (congrArg some hx)
  rw [withExtension, hkept, String.ofList_toList]

end Configuration

namespace Sources

/-! ## Extensions with dots -/

private theorem not_hasExtension_of_dotted {e : String} (h : e.toList.head? = some '.')
    (name : Path) :
    ¬ HasExtension name e := by
  rintro ⟨stem, -, hdot, -⟩
  obtain ⟨cs, hcs⟩ := List.head?_eq_some_iff.1 h
  rw [hcs] at hdot
  exact hdot List.mem_cons_self

/-- No name in a directory has an extension that begins with a dot. -/
theorem namesIn_dotted {e : String} (h : e.toList.head? = some '.') {path : Path}
    {listing : Listing} {names : List Path} (hnames : namesIn e path listing = .ok names) :
    names = [] := by
  refine List.eq_nil_iff_forall_not_mem.2 fun name hmem => ?_
  exact not_hasExtension_of_dotted h name (((namesIn_eq_ok hnames).2.2 name).1 hmem).2

theorem filesIn_eq_nil_iff {path : Path} {names : List Path} :
    filesIn path names = [] ↔ names = [] := by
  rw [filesIn, List.map_eq_nil_iff, ← List.length_eq_zero_iff, List.length_mergeSort,
    List.length_eq_zero_iff]

section Flatten

variable {α : Type} {parts others : List (List α)}

private theorem length_flatten_le (h : List.Forall₂ List.Sublist parts others) :
    parts.flatten.length ≤ others.flatten.length := by
  induction h with
  | nil => exact Nat.le_refl _
  | cons hpart _ ih =>
      rw [List.flatten_cons, List.flatten_cons, List.length_append, List.length_append]
      exact Nat.add_le_add hpart.length_le ih

/-- Lists whose items are parts of those of others make the same list only if nothing is left
out. -/
theorem eq_of_flatten_eq (h : List.Forall₂ List.Sublist parts others)
    (hflat : parts.flatten = others.flatten) : parts = others := by
  induction h with
  | nil => rfl
  | cons hpart hparts ih =>
      rw [List.flatten_cons, List.flatten_cons] at hflat
      have hlength := congrArg List.length hflat
      rw [List.length_append, List.length_append] at hlength
      have hfirst := hpart.length_le
      have hmore := length_flatten_le hparts
      obtain ⟨hhead, htail⟩ := List.append_inj hflat (by omega)
      rw [hhead, ih htail]

end Flatten

/-! ## The two ways -/

/-- What is at a path is no directory in which a regular file with an extension is listed. -/
def Bare (disk : Disk Id) (extension : String) (path : Path) : Prop :=
  disk.isDirectory path = Except.ok true → ∀ listing, disk.list path = Except.ok listing →
    ∀ name, .ok ⟨name, .ok true⟩ ∈ listing → ¬ HasExtension name extension

section Ways

variable {disk : Disk Id} {e extension : String} {path : Path} {paths : List Path}

/-- With an extension that begins with a dot, only a path that is a file gives one. -/
theorem mem_filesAt_dotted {files : List Path} (h : e.toList.head? = some '.')
    (hfiles : (filesAt disk e path).run = Except.ok files) :
    ∀ file ∈ files, file = path ∧ disk.isDirectory path = Except.ok false := by
  rcases filesAt_eq_ok hfiles with ⟨hfile, rfl⟩ | ⟨listing, names, -, -, hnames, rfl⟩
  · exact fun file hmem => ⟨List.mem_singleton.1 hmem, hfile⟩
  · rw [filesIn_eq_nil_iff.2 (namesIn_dotted h hnames)]
    exact fun file hmem => nomatch hmem

/-- With an extension that begins with a dot, only the paths that are files are found. -/
theorem mem_collect_dotted {files : List Path} (h : e.toList.head? = some '.')
    (hfiles : (collect disk e paths).run = Except.ok files) :
    ∀ file ∈ files, file ∈ paths ∧ disk.isDirectory file = Except.ok false := by
  obtain ⟨parts, hparts, rfl⟩ := collect_eq_ok_iff.1 hfiles
  intro file hmem
  obtain ⟨part, hpart, hfile⟩ := List.mem_flatten.1 hmem
  obtain ⟨path, hpath, hrun⟩ := exists_of_forall₂_of_mem hparts hpart
  obtain ⟨rfl, hkind⟩ := mem_filesAt_dotted h hrun file hfile
  exact ⟨hpath, hkind⟩

/-- An extension that begins with a dot finds a part of what another one does, and all of it just
if there is no file with the other one. -/
theorem filesAt_dotted {part other : List Path} (h : e.toList.head? = some '.')
    (hpart : (filesAt disk e path).run = Except.ok part)
    (hother : (filesAt disk extension path).run = Except.ok other) :
    part.Sublist other ∧ (part = other ↔ Bare disk extension path) := by
  rcases filesAt_eq_ok hpart with ⟨hfile, rfl⟩ | ⟨listing, names, hdirectory, hlist, hnames, rfl⟩
  · rcases filesAt_eq_ok hother with ⟨-, rfl⟩ | ⟨_, _, hdirectory, -⟩
    · refine ⟨List.Sublist.refl _, iff_of_true rfl fun hdirectory => ?_⟩
      cases hfile.symm.trans hdirectory
    · cases hfile.symm.trans hdirectory
  · rcases filesAt_eq_ok hother with ⟨hfile, -⟩ | ⟨again, others, -, hagain, hothers, rfl⟩
    · cases hfile.symm.trans hdirectory
    · cases hlist.symm.trans hagain
      have hmem := (namesIn_eq_ok hothers).2.2
      rw [filesIn_eq_nil_iff.2 (namesIn_dotted h hnames)]
      refine ⟨List.nil_sublist _, ?_⟩
      rw [eq_comm, filesIn_eq_nil_iff, List.eq_nil_iff_forall_not_mem]
      constructor
      · intro hnone _ again hagain name hlisted hextension
        cases hlist.symm.trans hagain
        exact hnone name ((hmem name).2 ⟨hlisted, hextension⟩)
      · intro hbare name hname
        obtain ⟨hlisted, hextension⟩ := (hmem name).1 hname
        exact hbare hdirectory listing hlist name hlisted hextension

/-- Where no path fails, a search gives the files of one after the other. -/
theorem exists_collect_eq (hfine : ∀ path ∈ paths, ¬ ∃ cause, FailsAt disk path cause)
    (extension : String) : ∃ found : Path → List Path,
      (∀ path ∈ paths, (filesAt disk extension path).run = Except.ok (found path)) ∧
        (collect disk extension paths).run = Except.ok (paths.map found).flatten := by
  have hfiles : ∀ path ∈ paths, ∃ files, (filesAt disk extension path).run = Except.ok files := by
    intro path hmem
    cases hrun : (filesAt disk extension path).run with
    | error cause => exact absurd ⟨cause, filesAt_eq_error_iff.1 hrun⟩ (hfine path hmem)
    | ok files => exact ⟨files, rfl⟩
  choose! found hfound using hfiles
  refine ⟨found, hfound, collect_eq_ok_iff.2 ⟨_, ?_, rfl⟩⟩
  rw [List.forall₂_map_right_iff, List.forall₂_same]
  exact hfound

/-- An extension that begins with a dot finds what another one does just if there is no file with
the other one in any of the directories, or if the search fails at a path. -/
theorem collect_dotted_eq_iff (h : e.toList.head? = some '.') :
    (collect disk e paths).run = (collect disk extension paths).run ↔
      (∃ path ∈ paths, ∃ cause, FailsAt disk path cause) ∨
        ∀ path ∈ paths, Bare disk extension path := by
  by_cases hfails : ∃ path ∈ paths, ∃ cause, FailsAt disk path cause
  · obtain ⟨cause, hcause⟩ :
        ∃ cause, (collect disk e paths).run = Except.error cause :=
      exists_collect_eq_error_iff.2 hfails
    have hother : (collect disk extension paths).run = Except.error cause :=
      collect_eq_error_iff.2 (collect_eq_error_iff.1 hcause)
    exact ⟨fun _ => .inl hfails, fun _ => hcause.trans hother.symm⟩
  · have hfine : ∀ path ∈ paths, ¬ ∃ cause, FailsAt disk path cause :=
      fun path hmem hfailed => hfails ⟨path, hmem, hfailed⟩
    obtain ⟨found, hfound, hcollect⟩ := exists_collect_eq hfine e
    obtain ⟨others, hothers, hcollect'⟩ := exists_collect_eq hfine extension
    have hparts : ∀ path ∈ paths, (found path).Sublist (others path) ∧
        (found path = others path ↔ Bare disk extension path) :=
      fun path hmem => filesAt_dotted h (hfound path hmem) (hothers path hmem)
    have hsublists : List.Forall₂ List.Sublist (paths.map found) (paths.map others) := by
      rw [List.forall₂_map_left_iff, List.forall₂_map_right_iff, List.forall₂_same]
      exact fun path hmem => (hparts path hmem).1
    rw [hcollect, hcollect', or_iff_right hfails, Except.ok.injEq]
    calc _ ↔ paths.map found = paths.map others :=
        ⟨eq_of_flatten_eq hsublists, congrArg List.flatten⟩
      _ ↔ ∀ path ∈ paths, found path = others path := List.map_inj_left
      _ ↔ _ := forall₂_congr fun path hmem => (hparts path hmem).2

end Ways

/-- The extension that is set in a configuration file and the same one given as an option, with the
same sources, lead to the same files and the same graph unless it begins with a dot. If it does, the
option drops the dots; the setting keeps them, and finds nothing in directories. -/
theorem load_of_setting {text : List Char} {settings : List (List Char × Toml.Setting)} {e : String}
    {c base : Configuration} (hsettings : Toml.read? text = some settings)
    (hset : ("extension".toList, Toml.Setting.text e.toList) ∈ settings)
    (hc : Configuration.read? text = some c) (hbase : base.sources = c.sources) :
    (e.toList.head? ≠ some '.' → ∀ {m : Type → Type} [Monad m] (disk : Disk m) (clock : m Clock),
      collect disk c.extension c.sources =
        collect disk (base.withExtension e).extension (base.withExtension e).sources ∧
      load disk clock c = load disk clock (base.withExtension e)) ∧
    (e.toList.head? = some '.' → ∀ disk : Disk Id,
      (∀ files, (collect disk c.extension c.sources).run = Except.ok files →
        ∀ file ∈ files, file ∈ c.sources ∧ disk.isDirectory file = Except.ok false) ∧
      ((collect disk c.extension c.sources).run =
          (collect disk (base.withExtension e).extension (base.withExtension e).sources).run ↔
        (∃ path ∈ c.sources, ∃ cause, FailsAt disk path cause) ∨
          ∀ path ∈ c.sources, Bare disk (base.withExtension e).extension path)) := by
  have hextension := Configuration.extension_of_setting hsettings hset hc
  have hsources : (base.withExtension e).sources = c.sources := hbase
  rw [hextension, hsources]
  refine ⟨fun h m _ disk clock => ?_, fun h disk =>
    ⟨fun files hfiles => mem_collect_dotted h hfiles, collect_dotted_eq_iff h⟩⟩
  have hsame := Configuration.withExtension_of_dotless base h
  rw [hsame]
  exact ⟨rfl, by rw [load, load, hextension, hsources, hsame]⟩

/-- A configuration file that names a directory and an extension. -/
def directoryText (e : String) : List Char :=
  ("sources = [\"d\"]\nextension = \"" ++ e ++ "\"").toList

/-- The directory that is named. -/
def directoryPath : Path := .ofText "d"

/-- A disk with one file in the directory, which is no text. -/
def singleDisk : Disk Id :=
  (Tree.directory [(directoryPath, .directory [(.ofText "a.topo", .file ⟨#[255]⟩)])]).disk

/-- A clock that always shows the same. -/
def stoppedClock : Id Clock := fun _ => "2024-01-01T00:00:00Z"

/-- Without a dot, the setting and the option lead to the same end. -/
theorem load_of_setting_plain :
    Configuration.read? (directoryText "topo") = some ⟨[directoryPath], "topo"⟩ ∧
      load singleDisk stoppedClock ⟨[directoryPath], "topo"⟩ =
        load singleDisk stoppedClock
          ((Configuration.standard.withSources [directoryPath]).withExtension "topo") := by
  have hread : Configuration.read? (directoryText "topo") = some ⟨[directoryPath], "topo"⟩ := by
    decide
  have hsettings : Toml.read? (directoryText "topo") =
      some [("sources".toList, .texts [['d']]), ("extension".toList, .text "topo".toList)] := by
    decide
  have hsources : (Configuration.standard.withSources [directoryPath]).sources =
      [directoryPath] := rfl
  obtain ⟨hplain, -⟩ := load_of_setting (e := "topo") hsettings (by simp) hread hsources
  exact ⟨hread, (hplain (by decide) singleDisk stoppedClock).2⟩

/-- With a dot, the setting finds nothing and all is well; the option finds the file and fails. -/
theorem load_of_setting_dotted :
    Configuration.read? (directoryText ".topo") = some ⟨[directoryPath], ".topo"⟩ ∧
      (collect singleDisk ".topo" [directoryPath]).run = Except.ok [] ∧
      (load singleDisk stoppedClock ⟨[directoryPath], ".topo"⟩).run = Except.ok Graph.empty ∧
      (Configuration.standard.withSources [directoryPath]).withExtension ".topo" =
        ⟨[directoryPath], "topo"⟩ ∧
      (collect singleDisk "topo" [directoryPath]).run = Except.ok [.ofText "d/a.topo"] ∧
      (load singleDisk stoppedClock ⟨[directoryPath], "topo"⟩).run =
        Except.error (.file (.ofText "d/a.topo") .invalidText) ∧
      (RunError.file (.ofText "d/a.topo") .invalidText).message =
        "d/a.topo: stream did not contain valid UTF-8" := by
  have hdirectory : singleDisk.isDirectory directoryPath = Except.ok true := rfl
  have hlist : singleDisk.list directoryPath =
      Except.ok [.ok ⟨.ofText "a.topo", .ok true⟩] := rfl
  have hnone : (collect singleDisk ".topo" [directoryPath]).run = Except.ok [] := by
    rw [run_collect_cons, run_filesAt, hdirectory, hlist]
    exact congrArg (fun files => Except.ok (files ++ [])) (filesIn_eq_nil_iff.2 rfl)
  have hone : (collect singleDisk "topo" [directoryPath]).run =
      Except.ok [.ofText "d/a.topo"] := by
    rw [run_collect_cons, run_filesAt, hdirectory, hlist]
    exact congrArg (fun names => Except.ok (names.map directoryPath.join ++ []))
      (List.mergeSort_singleton (.ofText "a.topo"))
  refine ⟨by decide, hnone, ?_, by decide, hone, ?_, ?_⟩
  · rw [load, ExceptT.run_bind, hnone]
    rfl
  · rw [load, ExceptT.run_bind, hone]
    rfl
  · refine (RunError.message_file _ _).trans ?_
    decide

end Sources

end InfraGraph
