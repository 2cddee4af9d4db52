import InfraGraph.Proofs.SideBySide
import InfraGraph.Sources.Loading
import InfraGraph.Sources.Tree
import Mathlib.Data.List.Perm.Basic
import Mathlib.Data.List.TakeDrop
import Mathlib.Data.List.TakeWhile

/-!
# Finding files

A disk may list the entries of a directory in any order. What a directory stands for can be said
without it: the regular files with the extension, each once, by the bytes of their names. No two
lists of files answer to that, so the files found do not depend on the order in which they are
listed. The search goes through the paths in order and ends at the first one that fails: it cannot
be looked at, it cannot be listed, or one of its entries does not come or hides what it is.

## Main results

* `Path.extension?_eq_some_iff` — what the extension of a name is.
* `filesAt_eq_ok_iff`, `filesAt_eq_error_iff` — what is found at a path, and how that fails.
* `StandsFor.unique` — a path stands for one list of files only.
* `collect_meaning` — two disks with the same contents give the same files, and which.
-/

namespace InfraGraph

/-! ## Extensions -/

/-- A name has an extension: it ends with a dot and the extension, in which there is no further dot,
and something stands before the dot. -/
theorem Path.extension?_eq_some_iff {name : Path} {extension : List UInt8} :
    name.extension? = some extension ↔
      ∃ stem, stem ≠ [] ∧ dot ∉ extension ∧ name.bytes = stem ++ dot :: extension := by
  constructor
  · intro h
    unfold extension? at h
    split at h
    · rename_i back d c cs hspan
      rw [List.span_eq_takeWhile_dropWhile, Prod.mk.injEq] at hspan
      cases h
      have hname : name.bytes.reverse = back ++ d :: c :: cs := by
        rw [← hspan.1, ← hspan.2, List.takeWhile_append_dropWhile]
      have hdot : d = dot := by
        have hstop := List.head?_dropWhile_not (· != dot) name.bytes.reverse
        rw [hspan.2] at hstop
        simpa using hstop
      refine ⟨(c :: cs).reverse, by simp, fun hmem => ?_, ?_⟩
      · rw [List.mem_reverse, ← hspan.1] at hmem
        simpa using List.mem_takeWhile_imp hmem
      · have hback := congrArg List.reverse hname
        rw [List.reverse_reverse] at hback
        simp [hback, hdot]
    · cases h
  · rintro ⟨stem, hstem, hdot, hname⟩
    obtain ⟨c, cs, hc⟩ := List.exists_cons_of_ne_nil (List.reverse_ne_nil_iff.2 hstem)
    have hfree : ∀ d ∈ extension.reverse, (d != dot) = true := by
      intro d hd
      exact bne_iff_ne.2 fun h => hdot (h ▸ List.mem_reverse.1 hd)
    have hreverse : name.bytes.reverse = extension.reverse ++ dot :: c :: cs := by
      simp [hname, hc]
    rw [extension?, hreverse, List.span_eq_takeWhile_dropWhile,
      List.takeWhile_append_of_pos hfree, List.dropWhile_append_of_pos hfree]
    simp

namespace Sources

/-- A name has an extension that a text writes. -/
def HasExtension (name : Path) (extension : String) : Prop :=
  ∃ stem, stem ≠ [] ∧ Path.dot ∉ Text.utf8 extension.toList ∧
    name.bytes = stem ++ Path.dot :: Text.utf8 extension.toList

/-! ## Listings -/

/-- What comes is an entry, and it is known what it is. -/
def Known (r : Except FileError DirectoryEntry) : Prop := ∃ name isFile, r = .ok ⟨name, .ok isFile⟩

/-- What comes ends the search in the directory at a path: no entry, for which the directory is to
blame, or an entry of which it is not known what it is, which is to blame itself. -/
inductive Spoils (path : Path) : Except FileError DirectoryEntry → RunError → Prop where
  | lost (reason : FileError) : Spoils path (.error reason) (.file path reason)
  | hidden (name : Path) (reason : FileError) :
    Spoils path (.ok ⟨name, .error reason⟩) (.file (path.join name) reason)

/-- The names of the entries that come. -/
def entryNames (listing : Listing) : List Path :=
  listing.filterMap fun r => r.toOption.map DirectoryEntry.name

/-- What comes from a directory is a known entry, or it ends the search. -/
theorem known_or_spoils (path : Path) (r : Except FileError DirectoryEntry) :
    Known r ∨ ∃ cause, Spoils path r cause := by
  rcases r with reason | ⟨name, reason | isFile⟩
  · exact .inr ⟨_, .lost reason⟩
  · exact .inr ⟨_, .hidden name reason⟩
  · exact .inl ⟨name, isFile, rfl⟩

section Listings

variable {extension : String} {path : Path} {listing : Listing} {names : List Path}

/-- What ends the search does so whatever comes after it. -/
theorem namesIn_cons_of_spoils {r : Except FileError DirectoryEntry} {cause : RunError}
    (h : Spoils path r cause) (rest : Listing) :
    namesIn extension path (r :: rest) = .error cause := by
  cases h with
  | lost reason => rfl
  | hidden name reason => rfl

/-- Whether an entry is one of those that are looked for. -/
def wanted (extension : String) (name : Path) (isFile : Bool) : Bool :=
  isFile && name.extension? == some (Text.utf8 extension.toList)

private theorem wanted_iff {name : Path} {isFile : Bool} :
    wanted extension name isFile = true ↔ isFile = true ∧ HasExtension name extension := by
  rw [wanted, Bool.and_eq_true, beq_iff_eq]
  exact and_congr_right fun _ => Path.extension?_eq_some_iff

/-- A known entry is taken if it is wanted. -/
theorem namesIn_cons_of_known (name : Path) (isFile : Bool) (rest : Listing) :
    namesIn extension path (.ok ⟨name, .ok isFile⟩ :: rest) =
      (namesIn extension path rest).map fun names =>
        if wanted extension name isFile then name :: names else names := by
  rw [namesIn]
  cases namesIn extension path rest <;> rfl

/-- An entry that is known is among those that are looked for, or behind it. -/
theorem mem_cons_known_iff {name other : Path} {isFile : Bool} {rest : Listing} :
    .ok ⟨other, .ok true⟩ ∈ Except.ok ⟨name, .ok isFile⟩ :: rest ∧ HasExtension other extension ↔
      (other = name ∧ wanted extension name isFile = true) ∨
        .ok ⟨other, .ok true⟩ ∈ rest ∧ HasExtension other extension := by
  rw [wanted_iff, List.mem_cons, or_and_right]
  refine or_congr_left ⟨?_, ?_⟩
  · rintro ⟨heq, hextension⟩
    cases heq
    exact ⟨rfl, rfl, hextension⟩
  · rintro ⟨rfl, rfl, hextension⟩
    exact ⟨rfl, hextension⟩

/-- If the search comes to the end, all entries are known, and the names are those that they
should be. -/
theorem namesIn_eq_ok (h : namesIn extension path listing = .ok names) :
    (∀ r ∈ listing, Known r) ∧ names.Sublist (entryNames listing) ∧
      ∀ name, name ∈ names ↔
        .ok ⟨name, .ok true⟩ ∈ listing ∧ HasExtension name extension := by
  induction listing generalizing names with
  | nil =>
      cases h
      simp [entryNames]
  | cons r rest ih =>
      rcases known_or_spoils path r with ⟨name, isFile, rfl⟩ | ⟨cause, hspoils⟩
      · rw [namesIn_cons_of_known] at h
        cases hrest : namesIn extension path rest with
        | error cause => rw [hrest] at h; cases h
        | ok more =>
            obtain ⟨hknown, hsublist, hmem⟩ := ih hrest
            have hall := List.forall_mem_cons.2 ⟨⟨name, isFile, rfl⟩, hknown⟩
            have hnames : names = if wanted extension name isFile then name :: more else more := by
              rw [hrest] at h
              exact (Except.ok.inj h).symm
            cases hwanted : wanted extension name isFile with
            | true =>
                rw [hnames, hwanted, if_pos rfl]
                refine ⟨hall, hsublist.cons_cons name, fun other => ?_⟩
                rw [mem_cons_known_iff, ← hmem other, hwanted, List.mem_cons]
                simp
            | false =>
                rw [hnames, hwanted, if_neg Bool.false_ne_true]
                refine ⟨hall, hsublist.cons name, fun other => ?_⟩
                rw [mem_cons_known_iff, ← hmem other, hwanted]
                simp
      · rw [namesIn_cons_of_spoils hspoils] at h
        cases h

private theorem exists_namesIn_iff :
    (∃ names, namesIn extension path listing = .ok names) ↔ ∀ r ∈ listing, Known r := by
  refine ⟨fun ⟨names, h⟩ => (namesIn_eq_ok h).1, fun h => ?_⟩
  induction listing with
  | nil => exact ⟨[], rfl⟩
  | cons r rest ih =>
      obtain ⟨⟨name, isFile, rfl⟩, hrest⟩ := List.forall_mem_cons.1 h
      obtain ⟨names, hnames⟩ := ih hrest
      rw [namesIn_cons_of_known, hnames]
      exact ⟨_, rfl⟩

/-- The search ends at the first entry that spoils it. -/
theorem namesIn_eq_error_iff {cause : RunError} :
    namesIn extension path listing = .error cause ↔
      ∃ before r after, listing = before ++ r :: after ∧ (∀ b ∈ before, Known b) ∧
        Spoils path r cause := by
  induction listing with
  | nil =>
      constructor
      · intro h
        cases h
      · rintro ⟨before, r, after, h, -⟩
        simp at h
  | cons r rest ih =>
      constructor
      · intro h
        rcases known_or_spoils path r with ⟨name, isFile, rfl⟩ | ⟨other, hspoils⟩
        · rw [namesIn_cons_of_known] at h
          cases hrest : namesIn extension path rest with
          | ok names => rw [hrest] at h; cases h
          | error reached =>
              rw [hrest] at h
              cases h
              obtain ⟨before, b, after, rfl, hbefore, hb⟩ := ih.1 hrest
              exact ⟨_ :: before, b, after, rfl,
                List.forall_mem_cons.2 ⟨⟨name, isFile, rfl⟩, hbefore⟩, hb⟩
        · rw [namesIn_cons_of_spoils hspoils] at h
          cases h
          exact ⟨[], r, rest, rfl, by simp, hspoils⟩
      · rintro ⟨before, b, after, hsplit, hbefore, hb⟩
        cases before with
        | nil =>
            cases hsplit
            exact namesIn_cons_of_spoils hb rest
        | cons first before =>
            obtain ⟨rfl, rfl⟩ := List.cons.inj hsplit
            obtain ⟨⟨name, isFile, rfl⟩, hmore⟩ := List.forall_mem_cons.1 hbefore
            rw [namesIn_cons_of_known, ih.2 ⟨before, b, after, rfl, hmore, hb⟩]
            rfl

end Listings

/-! ## What is found at a path -/

/-- What is at a path stands for files: what is no directory for its path, and a directory for the
regular files in it with the extension, strictly ordered by the bytes of their names. -/
inductive StandsFor (disk : Disk Id) (extension : String) (path : Path) : List Path → Prop where
  | file (h : disk.isDirectory path = Except.ok false) : StandsFor disk extension path [path]
  | directory {listing : Listing} {names : List Path} (h : disk.isDirectory path = Except.ok true)
    (hlist : disk.list path = Except.ok listing) (known : ∀ r ∈ listing, Known r)
    (ordered : names.Pairwise fun a b => a.bytes < b.bytes)
    (mem_iff : ∀ name, name ∈ names ↔
      .ok ⟨name, .ok true⟩ ∈ listing ∧ HasExtension name extension) :
    StandsFor disk extension path (names.map path.join)

/-- What is at a path cannot be told: it cannot be looked at, or it is a directory that cannot be
listed, or one whose listing is spoilt by an entry. -/
inductive FailsAt (disk : Disk Id) (path : Path) : RunError → Prop where
  | path {reason : FileError} (h : disk.isDirectory path = Except.error reason) :
    FailsAt disk path (.file path reason)
  | listing {reason : FileError} (h : disk.isDirectory path = Except.ok true)
    (hlist : disk.list path = Except.error reason) : FailsAt disk path (.file path reason)
  | entry {before after : Listing} {r : Except FileError DirectoryEntry} {cause : RunError}
    (h : disk.isDirectory path = Except.ok true)
    (hlist : disk.list path = Except.ok (before ++ r :: after))
    (hbefore : ∀ b ∈ before, Known b) (hspoils : Spoils path r cause) : FailsAt disk path cause

/-- A directory can be listed, with all its entries and with what they are. -/
def Listable (disk : Disk Id) (path : Path) : Prop :=
  ∃ listing, disk.list path = Except.ok listing ∧ ∀ r ∈ listing, Known r

section FilesAt

variable {disk other : Disk Id} {extension : String} {path : Path} {files : List Path}

private theorem run_map_ofExcept {ε α β : Type} (r : Except ε α) (f : α → β) :
    (do return f (← ofExcept r) : ExceptT ε Id β).run = r.map f := by
  cases r <;> rfl

theorem run_filesAt (disk : Disk Id) (extension : String) (path : Path) :
    (filesAt disk extension path).run =
      match disk.isDirectory path with
      | .error reason => Except.error (RunError.file path reason)
      | .ok false => Except.ok [path]
      | .ok true =>
        match disk.list path with
        | .error reason => Except.error (RunError.file path reason)
        | .ok listing => (namesIn extension path listing).map (filesIn path) := by
  unfold filesAt onFile
  cases disk.isDirectory path with
  | error reason => rfl
  | ok isDirectory =>
      cases isDirectory with
      | false => rfl
      | true =>
          cases disk.list path with
          | error reason => rfl
          | ok listing => exact run_map_ofExcept _ _

/-- What is found without looking at the order of the entries or at their number. -/
theorem filesAt_eq_ok {files : List Path}
    (h : (filesAt disk extension path).run = Except.ok files) :
    (disk.isDirectory path = Except.ok false ∧ files = [path]) ∨
      ∃ listing names, disk.isDirectory path = Except.ok true ∧
        disk.list path = Except.ok listing ∧
        namesIn extension path listing = .ok names ∧ files = filesIn path names := by
  rw [run_filesAt] at h
  cases hdirectory : disk.isDirectory path with
  | error reason => simp [hdirectory] at h
  | ok isDirectory =>
      cases isDirectory with
      | false =>
          simp only [hdirectory] at h
          cases h
          exact .inl ⟨rfl, rfl⟩
      | true =>
          cases hlist : disk.list path with
          | error reason => simp [hdirectory, hlist] at h
          | ok listing =>
              simp only [hdirectory, hlist] at h
              cases hnames : namesIn extension path listing with
              | error cause => rw [hnames] at h; cases h
              | ok names =>
                  rw [hnames] at h
                  cases h
                  exact .inr ⟨listing, names, rfl, rfl, hnames, rfl⟩

/-- The search at a path fails just if it cannot be told what is there. -/
theorem filesAt_eq_error_iff {cause : RunError} :
    (filesAt disk extension path).run = Except.error cause ↔ FailsAt disk path cause := by
  rw [run_filesAt]
  constructor
  · intro h
    cases hdirectory : disk.isDirectory path with
    | error reason =>
        simp only [hdirectory] at h
        cases h
        exact .path hdirectory
    | ok isDirectory =>
        cases isDirectory with
        | false => simp [hdirectory] at h
        | true =>
            cases hlist : disk.list path with
            | error reason =>
                simp only [hdirectory, hlist] at h
                cases h
                exact .listing hdirectory hlist
            | ok listing =>
                simp only [hdirectory, hlist] at h
                cases hnames : namesIn extension path listing with
                | ok names => rw [hnames] at h; cases h
                | error reached =>
                    rw [hnames] at h
                    cases h
                    obtain ⟨before, r, after, rfl, hbefore, hspoils⟩ :=
                      namesIn_eq_error_iff.1 hnames
                    exact .entry hdirectory hlist hbefore hspoils
  · rintro (hdirectory | ⟨hdirectory, hlist⟩ | ⟨hdirectory, hlist, hbefore, hspoils⟩)
    · simp only [hdirectory]
    · simp only [hdirectory, hlist]
    · simp only [hdirectory, hlist, namesIn_eq_error_iff.2 ⟨_, _, _, rfl, hbefore, hspoils⟩]
      rfl

/-- An entry that hides what it is is blamed by its own path. -/
example (disk : Disk Id) (hdirectory : disk.isDirectory (.ofText "d") = Except.ok true)
    (hlist : disk.list (.ofText "d") = Except.ok [.ok ⟨.ofText "a", .error .missing⟩]) :
    (filesAt disk "topo" (.ofText "d")).run = Except.error (.file (.ofText "d/a") .missing) := by
  rw [run_filesAt, hdirectory, hlist]
  rfl

/-- The search at a path fails just if the path cannot be looked at, or is a directory that cannot
be listed with all its entries. -/
theorem exists_failsAt_iff :
    (∃ cause, FailsAt disk path cause) ↔
      (∃ reason, disk.isDirectory path = Except.error reason) ∨
        disk.isDirectory path = Except.ok true ∧ ¬ Listable disk path := by
  constructor
  · rintro ⟨_, hdirectory | ⟨hdirectory, hlist⟩ | ⟨hdirectory, hlist, _, hspoils⟩⟩
    · exact .inl ⟨_, hdirectory⟩
    · refine .inr ⟨hdirectory, fun ⟨listing, hlisting, _⟩ => ?_⟩
      rw [hlist] at hlisting
      cases hlisting
    · refine .inr ⟨hdirectory, fun ⟨listing, hlisting, hknown⟩ => ?_⟩
      rw [hlist] at hlisting
      cases hlisting
      obtain ⟨name, isFile, rfl⟩ := hknown _ (List.mem_append_right _ List.mem_cons_self)
      cases hspoils
  · rintro (⟨reason, hdirectory⟩ | ⟨hdirectory, hlistable⟩)
    · exact ⟨_, .path hdirectory⟩
    · cases hlist : disk.list path with
      | error reason => exact ⟨_, .listing hdirectory hlist⟩
      | ok listing =>
          have hspoilt : ¬ ∀ r ∈ listing, Known r := fun h => hlistable ⟨listing, hlist, h⟩
          cases hnames : namesIn "" path listing with
          | ok names => exact absurd (exists_namesIn_iff.1 ⟨names, hnames⟩) hspoilt
          | error cause =>
              obtain ⟨before, r, after, rfl, hbefore, hspoils⟩ := namesIn_eq_error_iff.1 hnames
              exact ⟨cause, .entry hdirectory hlist hbefore hspoils⟩

end FilesAt

/-! ## In whatever order -/

section Order

variable {names others : List Path}

private theorem pairwise_le_mergeSort (names : List Path) :
    (names.mergeSort nameLE).Pairwise fun a b => a.bytes ≤ b.bytes := by
  have htrans : ∀ a b c : Path, nameLE a b = true → nameLE b c = true → nameLE a c = true := by
    simpa [nameLE] using fun a b c : Path => List.le_trans
  have htotal : ∀ a b : Path, (nameLE a b || nameLE b a) = true := by
    simpa [nameLE] using fun a b : Path => List.le_total a.bytes b.bytes
  simpa [nameLE] using List.pairwise_mergeSort htrans htotal names

/-- Names that are ordered and distinct are strictly ordered. -/
theorem pairwise_lt (hle : names.Pairwise fun a b => a.bytes ≤ b.bytes) (hnodup : names.Nodup) :
    names.Pairwise fun a b => a.bytes < b.bytes := by
  refine (hle.and hnodup).imp fun {a b} h => ?_
  refine Std.lt_of_le_of_ne h.1 fun heq => h.2 ?_
  cases a
  cases b
  exact congrArg Path.mk heq

/-- Two lists in the same strict order with the same members are the same. -/
theorem eq_of_ordered (hnames : names.Pairwise fun a b => a.bytes < b.bytes)
    (hothers : others.Pairwise fun a b => a.bytes < b.bytes)
    (hmem : ∀ name, name ∈ names ↔ name ∈ others) : names = others := by
  have hnodup : ∀ l : List Path, (l.Pairwise fun a b => a.bytes < b.bytes) → l.Nodup := by
    intro l h
    refine h.imp fun {a b} hlt heq => ?_
    exact List.lt_irrefl _ (heq ▸ hlt)
  refine List.Perm.eq_of_pairwise (fun a b _ _ hab hba => ?_) hnames hothers
    ((List.perm_ext_iff_of_nodup (hnodup _ hnames) (hnodup _ hothers)).2 hmem)
  exact absurd hab (List.lt_asymm hba)

end Order

/-- The same comes when a directory is listed, in another order. -/
inductive Relisted : Except FileError Listing → Except FileError Listing → Prop where
  | error (reason : FileError) : Relisted (.error reason) (.error reason)
  | listing {listing again : Listing} (h : listing.Perm again) : Relisted (.ok listing) (.ok again)

theorem Relisted.symm {r q : Except FileError Listing} (h : Relisted r q) : Relisted q r := by
  cases h with
  | error reason => exact .error reason
  | listing hperm => exact .listing hperm.symm

/-- Two disks hold the same at a path, but that its entries are listed in another order. -/
structure SameContents (disk other : Disk Id) (path : Path) : Prop where
  isDirectory : disk.isDirectory path = other.isDirectory path
  list : Relisted (disk.list path) (other.list path)

/-- No two entries of a directory have the same name. -/
def Distinct (disk : Disk Id) (path : Path) : Prop :=
  ∀ listing, disk.list path = Except.ok listing → (entryNames listing).Nodup

section StandsFor

variable {disk other : Disk Id} {extension : String} {path : Path} {files others : List Path}

/-- A path stands for one list of files only. -/
theorem StandsFor.unique (h : StandsFor disk extension path files)
    (k : StandsFor disk extension path others) : files = others := by
  cases h with
  | file h =>
      cases k with
      | file => rfl
      | directory k => rw [h] at k; cases k
  | directory h hlist _ ordered mem_iff =>
      cases k with
      | file k => rw [h] at k; cases k
      | directory _ hlist' _ ordered' mem_iff' =>
          rw [hlist] at hlist'
          cases hlist'
          rw [eq_of_ordered ordered ordered' fun name => (mem_iff name).trans (mem_iff' name).symm]

private theorem standsFor_of_filesAt (hdistinct : Distinct disk path)
    (h : (filesAt disk extension path).run = Except.ok files) :
    StandsFor disk extension path files := by
  rcases filesAt_eq_ok h with ⟨hfile, rfl⟩ | ⟨listing, names, hdirectory, hlist, hnames, rfl⟩
  · exact .file hfile
  · obtain ⟨hknown, hsublist, hmem⟩ := namesIn_eq_ok hnames
    refine .directory hdirectory hlist hknown (pairwise_lt (pairwise_le_mergeSort _) ?_)
      fun name => ?_
    · rw [(List.mergeSort_perm _ _).nodup_iff]
      exact (hdistinct listing hlist).sublist hsublist
    · rw [(List.mergeSort_perm _ _).mem_iff, hmem]

private theorem StandsFor.not_failsAt (h : StandsFor disk extension path files) {cause : RunError} :
    ¬ FailsAt disk path cause := by
  intro hfails
  rcases exists_failsAt_iff.1 ⟨cause, hfails⟩ with ⟨reason, hpath⟩ | ⟨hpath, hspoilt⟩
  · cases h with
    | file h => cases h.symm.trans hpath
    | directory h => cases h.symm.trans hpath
  · cases h with
    | file h => cases h.symm.trans hpath
    | directory _ hlist known => exact hspoilt ⟨_, hlist, known⟩

/-- Where names are distinct, the search at a path gives the files that the path stands for. -/
theorem filesAt_eq_ok_iff (hdistinct : Distinct disk path) :
    (filesAt disk extension path).run = Except.ok files ↔
      StandsFor disk extension path files := by
  refine ⟨standsFor_of_filesAt hdistinct, fun h => ?_⟩
  cases hrun : (filesAt disk extension path).run with
  | error cause => exact absurd (filesAt_eq_error_iff.1 hrun) h.not_failsAt
  | ok found => rw [(standsFor_of_filesAt hdistinct hrun).unique h]

private theorem StandsFor.relisted (h : StandsFor disk extension path files)
    (hsame : SameContents disk other path) : StandsFor other extension path files := by
  obtain ⟨hdirectory, hlists⟩ := hsame
  cases h with
  | file h => exact .file (hdirectory ▸ h)
  | @directory listing names h hlist known ordered mem_iff =>
      rw [hlist] at hlists
      generalize hagain : other.list path = result at hlists
      cases hlists with
      | listing hperm =>
          refine .directory (hdirectory ▸ h) hagain (fun r hr => known r (hperm.mem_iff.2 hr))
            ordered fun name => ?_
          rw [mem_iff name, hperm.mem_iff]

theorem SameContents.symm (hsame : SameContents disk other path) :
    SameContents other disk path where
  isDirectory := hsame.isDirectory.symm
  list := hsame.list.symm

/-- Names stay distinct in another order. -/
theorem SameContents.distinct (hsame : SameContents disk other path)
    (hdistinct : Distinct disk path) : Distinct other path := by
  intro again hagain
  obtain ⟨-, hlists⟩ := hsame
  rw [hagain] at hlists
  generalize hlist : disk.list path = result at hlists
  cases hlists with
  | listing hperm => exact (hperm.filterMap _).nodup_iff.1 (hdistinct _ hlist)

end StandsFor

/-! ## Searches -/

section Collect

variable {disk : Disk Id} {extension : String} {path : Path} {paths : List Path}

/-- A search looks at one path after the other. -/
theorem run_collect_cons (disk : Disk Id) (extension : String) (path : Path)
    (paths : List Path) :
    (collect disk extension (path :: paths)).run =
      match (filesAt disk extension path).run with
      | .error cause => Except.error cause
      | .ok files => (collect disk extension paths).run.map (files ++ ·) := by
  rw [collect, ExceptT.run_bind]
  cases (filesAt disk extension path).run with
  | error cause => rfl
  | ok files =>
      show (collect disk extension paths >>= fun more => pure (files ++ more)).run = _
      rw [ExceptT.run_bind]
      cases (collect disk extension paths).run <;> rfl

/-- A search that succeeds gives what is at each path, in order. -/
theorem collect_eq_ok_iff {files : List Path} :
    (collect disk extension paths).run = Except.ok files ↔
      ∃ parts, List.Forall₂ (fun path part =>
          (filesAt disk extension path).run = Except.ok part) paths parts ∧
        files = parts.flatten := by
  induction paths generalizing files with
  | nil =>
      constructor
      · intro h
        cases h
        exact ⟨[], .nil, rfl⟩
      · rintro ⟨parts, hparts, rfl⟩
        cases hparts
        rfl
  | cons path rest ih =>
      rw [run_collect_cons]
      constructor
      · intro h
        cases hfirst : (filesAt disk extension path).run with
        | error cause => simp [hfirst] at h
        | ok part =>
            cases hrest : (collect disk extension rest).run with
            | error cause => simp [hfirst, hrest, Except.map] at h
            | ok more =>
                obtain ⟨parts, hparts, rfl⟩ := ih.1 hrest
                simp only [hfirst, hrest] at h
                cases h
                exact ⟨_, .cons hfirst hparts, rfl⟩
      · rintro ⟨_, @⟨⟩ | @⟨_, part, _, parts, hfirst, hparts⟩, rfl⟩
        simp only [hfirst, ih.2 ⟨parts, hparts, rfl⟩, List.flatten_cons]
        rfl

/-- A search that fails does so at the first path at which it fails. -/
theorem collect_eq_error_iff {cause : RunError} :
    (collect disk extension paths).run = Except.error cause ↔
      ∃ before path after, paths = before ++ path :: after ∧
        (∀ p ∈ before, ¬ ∃ other, FailsAt disk p other) ∧ FailsAt disk path cause := by
  induction paths with
  | nil =>
      constructor
      · intro h
        cases h
      · rintro ⟨before, path, after, h, -⟩
        simp at h
  | cons path rest ih =>
      rw [run_collect_cons]
      constructor
      · intro h
        cases hfirst : (filesAt disk extension path).run with
        | error reached =>
            simp only [hfirst] at h
            cases h
            exact ⟨[], path, rest, rfl, by simp, filesAt_eq_error_iff.1 hfirst⟩
        | ok part =>
            have hfine : ¬ ∃ other, FailsAt disk path other := by
              rintro ⟨other, hfails⟩
              rw [filesAt_eq_error_iff.2 hfails] at hfirst
              cases hfirst
            cases hrest : (collect disk extension rest).run with
            | ok more => simp [hfirst, hrest, Except.map] at h
            | error reached =>
                simp only [hfirst, hrest] at h
                cases h
                obtain ⟨before, p, after, rfl, hbefore, hp⟩ := ih.1 hrest
                exact ⟨path :: before, p, after, rfl,
                  List.forall_mem_cons.2 ⟨hfine, hbefore⟩, hp⟩
      · rintro ⟨before, p, after, hsplit, hbefore, hp⟩
        cases before with
        | nil =>
            cases hsplit
            simp only [filesAt_eq_error_iff.2 hp]
        | cons first before =>
            obtain ⟨rfl, rfl⟩ := List.cons.inj hsplit
            obtain ⟨hfine, hmore⟩ := List.forall_mem_cons.1 hbefore
            cases hfirst : (filesAt disk extension path).run with
            | error reached => exact absurd ⟨reached, filesAt_eq_error_iff.1 hfirst⟩ hfine
            | ok part =>
                simp only [ih.2 ⟨before, p, after, rfl, hmore, hp⟩]
                rfl

/-- A search fails just if it fails at one of the paths. -/
theorem exists_collect_eq_error_iff :
    (∃ cause, (collect disk extension paths).run = Except.error cause) ↔
      ∃ path ∈ paths, ∃ cause, FailsAt disk path cause := by
  constructor
  · rintro ⟨cause, h⟩
    obtain ⟨before, path, after, rfl, -, hfails⟩ := collect_eq_error_iff.1 h
    exact ⟨path, by simp, cause, hfails⟩
  · rintro ⟨path, hmem, cause, hfails⟩
    cases h : (collect disk extension paths).run with
    | error reached => exact ⟨reached, rfl⟩
    | ok files =>
        obtain ⟨parts, hparts, -⟩ := collect_eq_ok_iff.1 h
        obtain ⟨part, hpart⟩ := exists_forall₂_iff.1 ⟨parts, hparts⟩ path hmem
        rw [filesAt_eq_error_iff.2 hfails] at hpart
        cases hpart

/-- Where names are distinct, a search gives the files that the paths stand for, in order. -/
theorem collect_eq_ok_iff_standsFor (hdistinct : ∀ path ∈ paths, Distinct disk path)
    {files : List Path} :
    (collect disk extension paths).run = Except.ok files ↔
      ∃ parts, List.Forall₂ (StandsFor disk extension) paths parts ∧ files = parts.flatten := by
  rw [collect_eq_ok_iff]
  refine exists_congr fun parts => and_congr_left fun _ => ⟨fun h => ?_, fun h => ?_⟩
  · exact ((List.forall₂_and_left paths parts).2 ⟨hdistinct, h⟩).imp
      fun path part hpath => (filesAt_eq_ok_iff hpath.1).1 hpath.2
  · exact ((List.forall₂_and_left paths parts).2 ⟨hdistinct, h⟩).imp
      fun path part hpath => (filesAt_eq_ok_iff hpath.1).2 hpath.2

/-- The same contents give the same files. -/
theorem collect_eq_ok_of_sameContents {other : Disk Id} {files : List Path}
    (hdistinct : ∀ path ∈ paths, Distinct disk path)
    (hsame : ∀ path ∈ paths, SameContents disk other path)
    (h : (collect disk extension paths).run = Except.ok files) :
    (collect other extension paths).run = Except.ok files := by
  obtain ⟨parts, hparts, hfiles⟩ := (collect_eq_ok_iff_standsFor hdistinct).1 h
  have hothers : ∀ path ∈ paths, Distinct other path := fun path hmem =>
    (hsame path hmem).distinct (hdistinct path hmem)
  refine (collect_eq_ok_iff_standsFor hothers).2 ⟨parts, ?_, hfiles⟩
  exact ((List.forall₂_and_left paths parts).2 ⟨hsame, hparts⟩).imp
    fun path part hpath => hpath.2.relisted hpath.1

end Collect

/-- Two disks with the same contents, however each of them lists its directories, give the same
files or both fail. A search that succeeds gives, path by path, the files that the path stands for.
It fails just if a path cannot be looked at, or is a directory that cannot be listed with all its
entries and what they are; the error is that of the first of these paths. -/
theorem collect_meaning (disk other : Disk Id) (extension : String) (paths : List Path)
    (hdistinct : ∀ path ∈ paths, Distinct disk path)
    (hsame : ∀ path ∈ paths, SameContents disk other path) :
    (∀ files, (collect disk extension paths).run = Except.ok files ↔
      (collect other extension paths).run = Except.ok files) ∧
    (∀ files, (collect disk extension paths).run = Except.ok files ↔
      ∃ parts, List.Forall₂ (StandsFor disk extension) paths parts ∧ files = parts.flatten) ∧
    (∀ cause, (collect disk extension paths).run = Except.error cause ↔
      ∃ before path after, paths = before ++ path :: after ∧
        (∀ p ∈ before, ¬ ∃ reached, FailsAt disk p reached) ∧ FailsAt disk path cause) ∧
    ((∃ cause, (collect disk extension paths).run = Except.error cause) ↔
      ∃ path ∈ paths, (∃ reason, disk.isDirectory path = Except.error reason) ∨
        disk.isDirectory path = Except.ok true ∧ ¬ Listable disk path) := by
  refine ⟨fun files => ⟨collect_eq_ok_of_sameContents hdistinct hsame,
      collect_eq_ok_of_sameContents ?_ fun path hmem => (hsame path hmem).symm⟩,
    fun files => collect_eq_ok_iff_standsFor hdistinct, fun cause => collect_eq_error_iff, ?_⟩
  · exact fun path hmem => (hsame path hmem).distinct (hdistinct path hmem)
  · rw [exists_collect_eq_error_iff]
    exact exists_congr fun path => and_congr_right fun _ => exists_failsAt_iff

/-- A name that is no text, but has an extension. -/
def strangeName : Path := ⟨0xFF :: Text.utf8 ".topo".toList⟩

/-- The entries of a directory: files with the extension and without, a dot file, names with several
dots and one that is no text, and a directory that carries the extension. -/
def mixedEntries : List (Path × Tree) :=
  [(strangeName, .file .empty), (.ofText "b.topo", .file .empty), (.ofText ".topo", .file .empty),
    (.ofText "nested.topo", .directory []), (.ofText "a.old.topo", .file .empty),
    (.ofText "a.topo.old", .file .empty)]

/-- What comes when such a directory is listed. -/
def mixedListing : Listing := mixedEntries.map fun e => .ok ⟨e.1, .ok e.2.isFile⟩

private theorem mem_mixedListing_iff {name : Path} :
    .ok ⟨name, .ok true⟩ ∈ mixedListing ↔
      name ∈ [strangeName, .ofText "b.topo", .ofText ".topo", .ofText "a.old.topo",
        .ofText "a.topo.old"] := by
  simp [mixedListing, mixedEntries, Tree.isFile]

/-- A disk with a directory whose entries are listed in an order, and a file beside it. -/
def mixedDisk (entries : List (Path × Tree)) : Disk Id :=
  (Tree.directory [(.ofText "d", .directory entries), (.ofText "z.txt", .file .empty)]).disk

/-- The file of the mixed disk and its directory. -/
def mixedPaths : List Path := [.ofText "z.txt", .ofText "d/"]

/-- Listed from the front or from the back, the directory stands for the same three files. -/
theorem collect_meaning_mixed :
    (collect (mixedDisk mixedEntries) "topo" mixedPaths).run = Except.ok
        [.ofText "z.txt", .ofText "d/a.old.topo", .ofText "d/b.topo",
          Path.join (.ofText "d/") strangeName] ∧
      (collect (mixedDisk mixedEntries.reverse) "topo" mixedPaths).run = Except.ok
        [.ofText "z.txt", .ofText "d/a.old.topo", .ofText "d/b.topo",
          Path.join (.ofText "d/") strangeName] := by
  have hfile : (mixedDisk mixedEntries).isDirectory (.ofText "z.txt") = Except.ok false := rfl
  have hdirectory : (mixedDisk mixedEntries).isDirectory (.ofText "d/") = Except.ok true := rfl
  have hlist : (mixedDisk mixedEntries).list (.ofText "d/") = Except.ok mixedListing := rfl
  have hdistinct : ∀ path ∈ mixedPaths, Distinct (mixedDisk mixedEntries) path := by
    refine List.forall_mem_cons.2 ⟨?_, List.forall_mem_cons.2 ⟨?_, List.forall_mem_nil _⟩⟩
    · rintro _ ⟨⟩
    · rintro _ ⟨⟩
      exact List.nodup_iff_pairwise_ne.2 (by decide)
  have hsame : ∀ path ∈ mixedPaths,
      SameContents (mixedDisk mixedEntries) (mixedDisk mixedEntries.reverse) path := by
    refine List.forall_mem_cons.2 ⟨⟨rfl, .error _⟩, List.forall_mem_cons.2 ⟨⟨rfl, ?_⟩,
      List.forall_mem_nil _⟩⟩
    exact .listing (List.reverse_perm _).symm
  obtain ⟨hsearches, hfiles, -⟩ := collect_meaning (mixedDisk mixedEntries)
    (mixedDisk mixedEntries.reverse) "topo" mixedPaths hdistinct hsame
  have hnames : StandsFor (mixedDisk mixedEntries) "topo" (.ofText "d/")
      ([.ofText "a.old.topo", .ofText "b.topo", strangeName].map (Path.join (.ofText "d/"))) := by
    refine .directory hdirectory hlist ?_ (by decide) fun name => ?_
    · exact List.forall_mem_map.2 fun e _ => ⟨_, _, rfl⟩
    · rw [HasExtension, ← Path.extension?_eq_some_iff, mem_mixedListing_iff]
      constructor
      · revert name
        decide
      · rintro ⟨hmem, hextension⟩
        revert name
        decide
  have hfound := (hfiles _).2 ⟨_, .cons (.file hfile) (.cons hnames .nil), rfl⟩
  exact ⟨hfound, (hsearches _).1 hfound⟩

end Sources

end InfraGraph
