import PowerfarmKernel.Kernel.Sample
import PowerfarmKernel.Lib.SortBy

/-!
# Building the package

`scripts/release/build_package.py` packs the files of the repository, and the wheels it is
installed from, into one archive. The owner and the time of every entry are fixed, and the
files are packed in the order of their relative paths, so that the package is the same
whoever builds it.

Two decisions look at the path of a file from the root of the file system, and not from the
repository: which files are left out, and which are executable. They come out differently
below certain directories. `PowerfarmKernel.Package.build_eq_iff` says below which, and that
nothing else about a place shows in the package.
-/

namespace PowerfarmKernel

namespace Package

/-! ### Files -/

/-- A file of a tree: its path from the root of the tree, and its content. -/
structure File where
  path : List String
  content : Bytes
deriving DecidableEq

/-- `relative_to(root).as_posix()`. -/
def File.posix (f : File) : String := "/".intercalate f.path

/-- **A tree of files**, in the order a file system lists them. -/
structure Tree where
  files : List File
  /-- No two files have one path. -/
  unique : (files.map File.posix).Nodup

/-- `PurePath.name`. -/
def nameOf (parts : List String) : String := parts.getLast?.getD ""

/-- `PurePath.suffix`: the last dot of the name and what follows, if the dot is neither the
first nor the last character. -/
def suffixOf (parts : List String) : String :=
  let reversed := (nameOf parts).toList.reverse
  let extension := reversed.takeWhile (· ≠ '.')
  let stem := (reversed.dropWhile (· ≠ '.')).drop 1
  if stem = [] ∨ extension = [] then "" else .ofList ('.' :: extension.reverse)

/-! ### What is packed -/

/-- `INCLUDE`. -/
def included : List String :=
  ["agent", "conformance", "deploy", "genesis", "kernel", "ledger", "protocol", "service", "docs",
    "supabase", "worker", "README.md", "Powerfarm Implementation Plan 2.md",
    "Powerfarm System Specification v3.md", "pyproject.toml", "uv.lock"]

/-- What a file below an included directory is asked for, by its parts: no part is a cache or
a scratch directory, and the name is none of a file that tools leave behind. -/
def isKept (parts : List String) : Bool :=
  "__pycache__" ∉ parts ∧ ".temp" ∉ parts ∧ nameOf parts ≠ ".DS_Store" ∧
    ¬".pyc".toList <:+ (nameOf parts).toList ∧ ¬".pyo".toList <:+ (nameOf parts).toList

/-- The files under one of the included names: the file of that name, or what is kept of the
directory. -/
def filesUnder (root : List String) (files : List File) (name : String) : List File :=
  if ∃ f ∈ files, f.path = [name] then files.filter fun f => f.path = [name]
  else files.filter fun f => f.path.head? = some name ∧ isKept (root ++ f.path)

/-- `included_files`, of a tree whose root has these parts. -/
def includedFiles (root : List String) (tree : Tree) : List File :=
  (included.flatMap (filesUnder root tree.files)).sortBy File.posix

/-! ### Entries -/

/-- An entry of the archive. -/
structure Entry where
  name : String
  uid : ℕ
  gid : ℕ
  uname : String
  gname : String
  mtime : ℤ
  mode : ℕ
  content : Bytes
deriving DecidableEq

/-- A file is packed as executable. -/
def isExecutable (parts : List String) : Bool :=
  suffixOf parts = ".sh" ∨
    (suffixOf parts = ".py" ∧ ∃ part ∈ parts, part ∈ ["deploy", "scripts"])

/-- `add_file`, of a source with these parts. -/
def addFile (source : List String) (content : Bytes) (destination : String) (epoch : ℤ) :
    Entry where
  name := destination
  uid := 0
  gid := 0
  uname := "root"
  gname := "root"
  mtime := epoch
  mode := if isExecutable source then 0o755 else 0o644
  content := content

/-- A package: the entries of its archive, and the manifest. -/
@[ext] structure Built where
  entries : List Entry
  manifest : Bytes
deriving DecidableEq

/-- **What a package is built from**, besides the files: the digest and the JSON encoder the
builder imports, and what it is told. -/
structure Release where
  /-- `hashlib.sha256(data).hexdigest()`. -/
  sha256 : Bytes → String
  /-- `json.dumps(value, separators=(",", ":"), sort_keys=True).encode()`. -/
  dumps : CanonValue → Bytes
  version : String
  /-- `git rev-parse HEAD`. -/
  commit : String
  /-- `SOURCE_DATE_EPOCH`. -/
  epoch : ℤ

variable (R : Release)

/-- The name of the archive's directory. -/
def Release.packageRoot : String := "powerfarm-" ++ R.version

/-- A file is a migration, by its parts. -/
def isMigration (parts : List String) : Bool :=
  nameOf parts.dropLast = "migrations" ∧ suffixOf parts = ".sql"

/-- A migration, as the manifest lists it. -/
def migration (f : File) : CanonValue := .dict
  [("name", .str (nameOf f.path)), ("sha256", .str (R.sha256 f.content)),
    ("version", .str (.ofList ((nameOf f.path).toList.takeWhile (· ≠ '_'))))]

/-- The manifest of a package with these files. -/
def manifest (root : List String) (files : List File) : CanonValue := .dict
  [("format", .str "powerfarm-package-v1"), ("git_commit", .str R.commit),
    ("migrations", .list ((files.filter fun f => isMigration (root ++ f.path)).map (migration R))),
    ("platform", .str "macos-arm64"), ("source_date_epoch", .int R.epoch),
    ("version", .str R.version)]

/-- The entry of a file of the repository. -/
def fileEntry (root : List String) (f : File) : Entry :=
  addFile (root ++ f.path) f.content (R.packageRoot ++ "/" ++ f.posix) R.epoch

/-- The entry of a wheel. -/
def wheelEntry (wheelhouse : List String) (w : File) : Entry :=
  addFile (wheelhouse ++ w.path) w.content (R.packageRoot ++ "/wheelhouse/" ++ nameOf w.path)
    R.epoch

/-- The entry of the manifest. -/
def manifestEntry (manifest : Bytes) : Entry where
  name := R.packageRoot ++ "/package-manifest.jcs.json"
  uid := 0
  gid := 0
  uname := "root"
  gname := "root"
  mtime := R.epoch
  mode := 0o644
  content := manifest

/-- **`main`**: the package of a tree and a wheelhouse, at the places with these parts. -/
def build (root : List String) (tree : Tree) (wheelhouse : List String) (wheels : Tree) : Built :=
  let files := includedFiles root tree
  let manifestBytes := R.dumps (manifest R root files) ++ [10]
  { entries := files.map (fileEntry R root) ++
      ((wheels.files.filter fun w => w.path.length = 1).sortBy fun w => nameOf w.path).map
        (wheelEntry R wheelhouse) ++ [manifestEntry R manifestBytes]
    manifest := manifestBytes }

/-! ### Which files are packed -/

/-- **A place is hidden**: one of its parts is left out of packages. -/
def Hidden (parts : List String) : Prop := "__pycache__" ∈ parts ∨ ".temp" ∈ parts

/-- **A place is one of scripts**: one of its parts makes programs executable. -/
def Scripted (parts : List String) : Prop := "deploy" ∈ parts ∨ "scripts" ∈ parts

/-- A file is packed under its own name. -/
def Named (f : File) : Prop := ∃ name ∈ included, f.path = [name]

/-- **A file is packed from a directory**, unless the tree is in a hidden place. -/
structure Carried (tree : Tree) (f : File) : Prop where
  mem : f ∈ tree.files
  under : ∃ name ∈ included, f.path.head? = some name ∧ ¬∃ g ∈ tree.files, g.path = [name]
  kept : isKept f.path = true

variable {R} {root root' wheelhouse wheelhouse' : List String} {tree tree' wheels wheels' : Tree}
  {f g : File} {name : String}

theorem nameOf_append {parts : List String} (h : parts ≠ []) :
    nameOf (root ++ parts) = nameOf parts := by
  rw [nameOf, nameOf, List.getLast?_append_of_ne_nil _ h]

theorem suffixOf_append {parts : List String} (h : parts ≠ []) :
    suffixOf (root ++ parts) = suffixOf parts := by
  rw [suffixOf, suffixOf, nameOf_append h]

/-- **A file is kept in a place that is not hidden**, if it is kept at all. -/
theorem isKept_append {parts : List String} (h : parts ≠ []) :
    isKept (root ++ parts) = true ↔ ¬Hidden root ∧ isKept parts = true := by
  rw [isKept, isKept, nameOf_append h, Hidden, decide_eq_true_eq, decide_eq_true_eq,
    List.mem_append, List.mem_append]
  tauto

theorem ne_nil_of_head? {parts : List String} (h : parts.head? = some name) : parts ≠ [] := by
  rintro rfl
  cases h

theorem mem_filesUnder : f ∈ filesUnder root tree.files name ↔ f ∈ tree.files ∧
    (f.path = [name] ∨ (f.path.head? = some name ∧ (¬∃ g ∈ tree.files, g.path = [name]) ∧
      ¬Hidden root ∧ isKept f.path = true)) := by
  rw [filesUnder]
  split
  · rename_i hfile
    rw [List.mem_filter, decide_eq_true_eq]
    exact and_congr Iff.rfl ⟨Or.inl, fun h => h.resolve_right fun h => h.2.1 hfile⟩
  · rename_i hfile
    rw [List.mem_filter, decide_eq_true_eq]
    refine and_congr_right fun hf => ⟨fun h => ?_, fun h => ?_⟩
    · exact Or.inr ⟨h.1, hfile, (isKept_append (ne_nil_of_head? h.1)).mp h.2⟩
    · rcases h with h | h
      · exact absurd ⟨f, hf, h⟩ hfile
      · exact ⟨h.1, (isKept_append (ne_nil_of_head? h.1)).mpr h.2.2⟩

/-- **What is packed**: the files under their own names, and, in a place that is not hidden,
what is kept of the directories. -/
theorem mem_includedFiles : f ∈ includedFiles root tree ↔
    (f ∈ tree.files ∧ Named f) ∨ (Carried tree f ∧ ¬Hidden root) := by
  rw [includedFiles, List.mem_sortBy, List.mem_flatMap]
  constructor
  · rintro ⟨name, hname, hf⟩
    obtain ⟨hmem, hpath | ⟨hhead, hnone, hplace, hkept⟩⟩ := mem_filesUnder.mp hf
    · exact Or.inl ⟨hmem, name, hname, hpath⟩
    · exact Or.inr ⟨⟨hmem, ⟨name, hname, hhead, hnone⟩, hkept⟩, hplace⟩
  · rintro (⟨hmem, name, hname, hpath⟩ | ⟨⟨hmem, ⟨name, hname, hhead, hnone⟩, hkept⟩, hplace⟩)
    · exact ⟨name, hname, mem_filesUnder.mpr ⟨hmem, Or.inl hpath⟩⟩
    · exact ⟨name, hname, mem_filesUnder.mpr ⟨hmem, Or.inr ⟨hhead, hnone, hplace, hkept⟩⟩⟩

/-- A file packed from a directory is none of those packed under their own names. -/
theorem Carried.not_named (h : Carried tree f) : ¬Named f := by
  rintro ⟨name, -, hpath⟩
  obtain ⟨name', -, hhead, hnone⟩ := h.under
  rw [hpath] at hhead
  cases hhead
  exact hnone ⟨f, h.mem, hpath⟩

theorem Carried.of_perm (htrees : tree.files.Perm tree'.files) (h : Carried tree f) :
    Carried tree' f := by
  obtain ⟨name, hname, hhead, hnone⟩ := h.under
  refine ⟨htrees.mem_iff.mp h.mem, ⟨name, hname, hhead, ?_⟩, h.kept⟩
  rintro ⟨g, hg, hpath⟩
  exact hnone ⟨g, htrees.mem_iff.mpr hg, hpath⟩

/-- The order in which a file system lists a tree does not matter. -/
theorem carried_congr (htrees : tree.files.Perm tree'.files) :
    Carried tree f ↔ Carried tree' f := by
  constructor
  · exact Carried.of_perm htrees
  · exact Carried.of_perm htrees.symm

/-- No file is selected twice: the included names are different, and a path starts with one. -/
theorem nodup_selected : (included.flatMap (filesUnder root tree.files)).Nodup := by
  rw [List.nodup_flatMap]
  constructor
  · intro name _
    rw [filesUnder]
    split
    · exact tree.unique.of_map.filter _
    · exact tree.unique.of_map.filter _
  · have hnames : included.Nodup := by decide
    refine hnames.imp fun {name name'} hne f hf hf' => hne ?_
    have hhead : ∀ {name}, f ∈ filesUnder root tree.files name → f.path.head? = some name := by
      intro name hf
      rcases (mem_filesUnder.mp hf).2 with hpath | h
      · rw [hpath]
        rfl
      · exact h.1
    exact Option.some.inj ((hhead hf).symm.trans (hhead hf'))

/-- **Two places pack the same files**, in the same order, exactly when they are both hidden
or both not, or there is nothing to pack from a directory. -/
theorem includedFiles_eq_iff (htrees : tree.files.Perm tree'.files) :
    includedFiles root tree = includedFiles root' tree' ↔
      (Hidden root ↔ Hidden root') ∨ ∀ f, ¬Carried tree f := by
  have hsame : (∀ f, f ∈ includedFiles root tree ↔ f ∈ includedFiles root' tree') ↔
      (Hidden root ↔ Hidden root') ∨ ∀ f, ¬Carried tree f := by
    simp only [mem_includedFiles, ← carried_congr htrees, ← htrees.mem_iff]
    constructor
    · intro h
      by_contra hnot
      rw [not_or, not_forall] at hnot
      obtain ⟨hplaces, f, hf⟩ := hnot
      have hcarried := not_not.mp hf
      have hiff := h f
      simp only [hcarried.not_named, and_false, hcarried, true_and, false_or] at hiff
      exact hplaces (not_iff_not.mp hiff)
    · rintro (hplaces | hnone) f
      · rw [hplaces]
      · simp only [hnone f, false_and]
  rw [← hsame]
  constructor
  · intro heq f
    rw [heq]
  · intro hmem
    refine List.sortBy_congr (fun f hf g hg hposix => ?_) ?_
    · -- All that is selected is in the tree, where paths are unique.
      have hin : ∀ {f}, f ∈ included.flatMap (filesUnder root tree.files) → f ∈ tree.files := by
        intro f hf
        obtain ⟨name, -, hf⟩ := List.mem_flatMap.mp hf
        exact (mem_filesUnder.mp hf).1
      exact List.inj_on_of_nodup_map tree.unique (hin hf) (hin hg) hposix
    · refine (List.perm_ext_iff_of_nodup nodup_selected nodup_selected).mpr fun f => ?_
      have := hmem f
      rwa [includedFiles, includedFiles, List.mem_sortBy, List.mem_sortBy] at this

/-! ### Which entries they have -/

/-- No included name is that of a program or of a migration. -/
theorem suffixOf_included :
    ∀ name ∈ included, suffixOf [name] ≠ ".py" ∧ suffixOf [name] ≠ ".sql" := by
  decide +kernel

theorem Carried.ne_nil (h : Carried tree f) : f.path ≠ [] := by
  obtain ⟨name, -, hhead, -⟩ := h.under
  exact ne_nil_of_head? hhead

/-- A file packed from a directory is below it. -/
theorem Carried.dropLast_ne_nil (h : Carried tree f) : f.path.dropLast ≠ [] := by
  intro hnil
  obtain ⟨name, -, hhead, hnone⟩ := h.under
  obtain ⟨last, hlast⟩ : ∃ last, f.path = [last] := by
    rw [← List.length_eq_one_iff]
    have hlength := congrArg List.length hnil
    have hpos := List.length_pos_iff.mpr h.ne_nil
    rw [List.length_dropLast, List.length_nil] at hlength
    omega
  rw [hlast] at hhead
  cases hhead
  exact hnone ⟨f, h.mem, hlast⟩

theorem Named.ne_nil (h : Named f) : f.path ≠ [] := by
  obtain ⟨name, -, hpath⟩ := h
  rw [hpath]
  exact List.cons_ne_nil _ _

/-- No program is packed under its own name. -/
theorem Named.suffixOf_ne (h : Named f) : suffixOf f.path ≠ ".py" := by
  obtain ⟨name, hname, hpath⟩ := h
  rw [hpath]
  exact (suffixOf_included name hname).1

/-- What is packed is either under its own name or in a directory. -/
theorem named_or_carried (hf : f ∈ includedFiles root tree) : Named f ∨ Carried tree f :=
  (mem_includedFiles.mp hf).imp And.right And.left

theorem ne_nil_of_mem (hf : f ∈ includedFiles root tree) : f.path ≠ [] := by
  rcases named_or_carried hf with hnamed | hcarried
  · exact hnamed.ne_nil
  · exact hcarried.ne_nil

/-- **Migrations are the same everywhere**: no file packed under its own name is one. -/
theorem isMigration_append (hf : f ∈ includedFiles root tree) :
    isMigration (root ++ f.path) = isMigration (root' ++ f.path) := by
  rw [isMigration, isMigration, suffixOf_append (ne_nil_of_mem hf),
    suffixOf_append (ne_nil_of_mem hf)]
  rcases named_or_carried hf with ⟨name, hname, hpath⟩ | hcarried
  · rw [hpath]
    simp only [(suffixOf_included name hname).2, and_false]
  · have hdir := hcarried.dropLast_ne_nil
    rw [List.dropLast_append_of_ne_nil hcarried.ne_nil,
      List.dropLast_append_of_ne_nil hcarried.ne_nil, nameOf_append hdir, nameOf_append hdir]

/-- **Programs are executable** by their suffix, or by where they are. -/
theorem isExecutable_append {parts : List String} (h : parts ≠ []) :
    isExecutable (root ++ parts) = true ↔ suffixOf parts = ".sh" ∨
      (suffixOf parts = ".py" ∧ (Scripted root ∨ Scripted parts)) := by
  have hany : ∀ parts : List String,
      (∃ part ∈ parts, part ∈ ["deploy", "scripts"]) ↔ Scripted parts := by
    intro parts
    simp only [Scripted, List.mem_cons, List.not_mem_nil, or_false]
    constructor
    · rintro ⟨part, hpart, rfl | rfl⟩
      · exact Or.inl hpart
      · exact Or.inr hpart
    · rintro (hpart | hpart)
      · exact ⟨_, hpart, Or.inl rfl⟩
      · exact ⟨_, hpart, Or.inr rfl⟩
  have hscripted : Scripted (root ++ parts) ↔ Scripted root ∨ Scripted parts := by
    rw [Scripted, Scripted, Scripted, List.mem_append, List.mem_append]
    tauto
  rw [isExecutable, decide_eq_true_eq, suffixOf_append h, hany, hscripted]

/-- **A file gets one mode in two places**, unless it is a program in no place of scripts and
one of the places is one. -/
theorem addFile_eq_iff {parts : List String} {content : Bytes} {destination : String} {epoch : ℤ}
    (h : parts ≠ []) : addFile (root ++ parts) content destination epoch
        = addFile (root' ++ parts) content destination epoch ↔
      (Scripted root ↔ Scripted root') ∨ (suffixOf parts = ".py" → Scripted parts) := by
  have hmode : addFile (root ++ parts) content destination epoch
        = addFile (root' ++ parts) content destination epoch ↔
      (isExecutable (root ++ parts) = true ↔ isExecutable (root' ++ parts) = true) := by
    rw [addFile, addFile, Entry.mk.injEq]
    by_cases hexec : isExecutable (root ++ parts) = true
    · by_cases hexec' : isExecutable (root' ++ parts) = true
      · simp [hexec, hexec']
      · simp [hexec, hexec']
    · by_cases hexec' : isExecutable (root' ++ parts) = true
      · simp [hexec, hexec']
      · simp [hexec, hexec']
  rw [hmode, isExecutable_append h, isExecutable_append h]
  by_cases hpy : suffixOf parts = ".py"
  · have hsh : ¬suffixOf parts = ".sh" := by
      rw [hpy]
      decide
    rw [or_iff_right hsh, or_iff_right hsh, and_iff_right hpy, and_iff_right hpy]
    by_cases hparts : Scripted parts
    · simp only [hparts, or_true, implies_true]
    · simp only [hparts, or_false, hpy, true_implies]
  · simp only [hpy, false_and, or_false, false_implies, or_true]

/-! ### Which packages are the same -/

/-- The wheels, in the order they are packed. -/
def sortedWheels (wheels : Tree) : List File :=
  (wheels.files.filter fun w => w.path.length = 1).sortBy fun w => nameOf w.path

theorem mem_sortedWheels {w : File} :
    w ∈ sortedWheels wheels ↔ w ∈ wheels.files ∧ ∃ name, w.path = [name] := by
  rw [sortedWheels, List.mem_sortBy, List.mem_filter, decide_eq_true_eq, List.length_eq_one_iff]

theorem ne_nil_of_mem_sortedWheels {w : File} (hw : w ∈ sortedWheels wheels) : w.path ≠ [] := by
  obtain ⟨-, name, hpath⟩ := mem_sortedWheels.mp hw
  rw [hpath]
  exact List.cons_ne_nil _ _

/-- The order in which a file system lists the wheels does not matter. -/
theorem sortedWheels_congr (hwheels : wheels.files.Perm wheels'.files) :
    sortedWheels wheels = sortedWheels wheels' := by
  refine List.sortBy_congr (fun w hw w' hw' hname => ?_) (hwheels.filter _)
  have hsingle : ∀ {w}, w ∈ wheels.files.filter (fun w => w.path.length = 1) →
      w ∈ wheels.files ∧ w.posix = nameOf w.path := by
    intro w hw
    rw [List.mem_filter, decide_eq_true_eq, List.length_eq_one_iff] at hw
    obtain ⟨hmem, name, hpath⟩ := hw
    refine ⟨hmem, ?_⟩
    rw [File.posix, hpath]
    rfl
  refine List.inj_on_of_nodup_map wheels.unique (hsingle hw).1 (hsingle hw').1 ?_
  rw [(hsingle hw).2, (hsingle hw').2]
  exact hname

/-- **Two places are alike** for a tree and the wheels beside it: each of the two decisions
that look beyond the tree comes out the same, or there is nothing it could decide. -/
structure Alike (root root' wheelhouse wheelhouse' : List String) (tree wheels : Tree) : Prop where
  hidden : (Hidden root ↔ Hidden root') ∨ ∀ f, ¬Carried tree f
  scripted : (Scripted root ↔ Scripted root') ∨ Hidden root ∨
    ∀ f, Carried tree f → suffixOf f.path = ".py" → Scripted f.path
  wheels : (Scripted wheelhouse ↔ Scripted wheelhouse') ∨
    ∀ w ∈ wheels.files, w.path.length = 1 → suffixOf w.path ≠ ".py"

theorem build_entries (R : Release) (root : List String) (tree : Tree) (wheelhouse : List String)
    (wheels : Tree) : (build R root tree wheelhouse wheels).entries =
      (includedFiles root tree).map (fileEntry R root) ++
        (sortedWheels wheels).map (wheelEntry R wheelhouse) ++
        [manifestEntry R (build R root tree wheelhouse wheels).manifest] := rfl

/-- Lists of items that a function tells apart are equal when their images are. -/
theorem eq_of_map_eq {α β : Type} {p : α → β} {l l' : List α}
    (hinj : ∀ a ∈ l, ∀ b ∈ l', p a = p b → a = b) (h : l.map p = l'.map p) : l = l' := by
  induction l generalizing l' with
  | nil => exact (List.map_eq_nil_iff.mp h.symm).symm
  | cons a l ih =>
    rcases l' with _ | ⟨b, l'⟩
    · cases h
    · rw [List.map_cons, List.map_cons, List.cons.injEq] at h
      rw [hinj a List.mem_cons_self b List.mem_cons_self h.1,
        ih (fun a ha b hb => hinj a (List.mem_cons_of_mem _ ha) b (List.mem_cons_of_mem _ hb)) h.2]

/-- The entries of the files tell which files they are. -/
theorem includedFiles_eq_of_entries (htrees : tree.files.Perm tree'.files)
    (h : (includedFiles root tree).map (fileEntry R root)
      = (includedFiles root' tree').map (fileEntry R root')) :
    includedFiles root tree = includedFiles root' tree' := by
  have hnames := congrArg (List.map Entry.name) h
  rw [List.map_map, List.map_map] at hnames
  have hin : ∀ {root tree} {f : File}, f ∈ includedFiles root tree → f ∈ tree.files :=
    fun hf => (mem_includedFiles.mp hf).elim And.left fun h => h.1.mem
  refine eq_of_map_eq (fun f hf g hg hname => ?_) hnames
  have hposix : R.packageRoot ++ "/" ++ f.posix = R.packageRoot ++ "/" ++ g.posix := hname
  exact List.inj_on_of_nodup_map tree.unique (hin hf) (htrees.mem_iff.mpr (hin hg))
    ((String.append_right_inj _).mp hposix)

/-- The packages show where the places are not alike. -/
theorem alike_of_build_eq (htrees : tree.files.Perm tree'.files)
    (hwheels : wheels.files.Perm wheels'.files)
    (h : build R root tree wheelhouse wheels = build R root' tree' wheelhouse' wheels') :
    Alike root root' wheelhouse wheelhouse' tree wheels := by
  have hentries := congrArg Built.entries h
  rw [build_entries, build_entries, ← sortedWheels_congr hwheels] at hentries
  have hparts := (List.append_inj' hentries rfl).1
  obtain ⟨hfiles, hwheelEntries⟩ := List.append_inj' hparts (by
    rw [List.length_map, List.length_map])
  have hsame := includedFiles_eq_of_entries htrees hfiles
  rw [← hsame, List.map_inj_left] at hfiles
  rw [List.map_inj_left] at hwheelEntries
  refine ⟨(includedFiles_eq_iff htrees).mp hsame, ?_, ?_⟩
  · by_cases hscripted : Scripted root ↔ Scripted root'
    · exact Or.inl hscripted
    by_cases hhidden : Hidden root
    · exact Or.inr (Or.inl hhidden)
    refine Or.inr (Or.inr fun f hf => ?_)
    have hentry := hfiles f (mem_includedFiles.mpr (Or.inr ⟨hf, hhidden⟩))
    exact ((addFile_eq_iff hf.ne_nil).mp hentry).resolve_left hscripted
  · by_cases hscripted : Scripted wheelhouse ↔ Scripted wheelhouse'
    · exact Or.inl hscripted
    refine Or.inr fun w hw hlength hpy => ?_
    obtain ⟨name, hpath⟩ := List.length_eq_one_iff.mp hlength
    have hmem := mem_sortedWheels.mpr ⟨hw, name, hpath⟩
    have hentry := hwheelEntries w hmem
    -- No name is both that of a place of scripts and that of a program.
    have hnames : ∀ name ∈ ["deploy", "scripts"], suffixOf [name] ≠ ".py" := by decide +kernel
    have hplace := ((addFile_eq_iff (ne_nil_of_mem_sortedWheels hmem)).mp hentry).resolve_left
      hscripted hpy
    rw [hpath] at hplace hpy
    refine hnames name ?_ hpy
    simpa [Scripted, eq_comm] using hplace

/-- The manifest does not say where the tree was. -/
theorem manifest_includedFiles : manifest R root (includedFiles root tree)
    = manifest R root' (includedFiles root tree) := by
  have hfilter : ((includedFiles root tree).filter fun f => isMigration (root ++ f.path))
      = (includedFiles root tree).filter fun f => isMigration (root' ++ f.path) :=
    List.filter_congr fun f hf => isMigration_append hf
  rw [manifest, hfilter, manifest]

namespace Alike

/-- A file that is packed gets one entry. -/
theorem fileEntry_eq (h : Alike root root' wheelhouse wheelhouse' tree wheels)
    (hf : f ∈ includedFiles root tree) : fileEntry R root f = fileEntry R root' f := by
  refine (addFile_eq_iff (ne_nil_of_mem hf)).mpr ?_
  rcases h.scripted with hscripted | hhidden | hprograms
  · exact Or.inl hscripted
  · -- In a hidden place, only files under their own names are packed.
    rcases mem_includedFiles.mp hf with ⟨-, hnamed⟩ | ⟨-, hplace⟩
    · exact Or.inr fun hpy => absurd hpy hnamed.suffixOf_ne
    · exact absurd hhidden hplace
  · rcases named_or_carried hf with hnamed | hcarried
    · exact Or.inr fun hpy => absurd hpy hnamed.suffixOf_ne
    · exact Or.inr (hprograms f hcarried)

/-- A wheel gets one entry. -/
theorem wheelEntry_eq (h : Alike root root' wheelhouse wheelhouse' tree wheels)
    (hf : f ∈ sortedWheels wheels) : wheelEntry R wheelhouse f = wheelEntry R wheelhouse' f := by
  obtain ⟨hmem, name, hpath⟩ := mem_sortedWheels.mp hf
  refine (addFile_eq_iff (ne_nil_of_mem_sortedWheels hf)).mpr
    (h.wheels.imp_right fun hprograms hpy => ?_)
  exact absurd hpy (hprograms f hmem (by rw [hpath]; rfl))

end Alike

/-- In places that are alike, each entry is the same. -/
theorem build_eq_of_alike (htrees : tree.files.Perm tree'.files)
    (hwheels : wheels.files.Perm wheels'.files)
    (h : Alike root root' wheelhouse wheelhouse' tree wheels) :
    build R root tree wheelhouse wheels = build R root' tree' wheelhouse' wheels' := by
  have hsame := (includedFiles_eq_iff htrees).mpr h.hidden
  have hmanifest : (build R root tree wheelhouse wheels).manifest
      = (build R root' tree' wheelhouse' wheels').manifest := by
    change R.dumps (manifest R root (includedFiles root tree)) ++ [10]
      = R.dumps (manifest R root' (includedFiles root' tree')) ++ [10]
    rw [← hsame, manifest_includedFiles]
  have hfiles : (includedFiles root tree).map (fileEntry R root)
      = (includedFiles root tree).map (fileEntry R root') :=
    List.map_congr_left fun f hf => h.fileEntry_eq hf
  have hwheelEntries : (sortedWheels wheels).map (wheelEntry R wheelhouse)
      = (sortedWheels wheels).map (wheelEntry R wheelhouse') :=
    List.map_congr_left fun w hw => h.wheelEntry_eq hw
  refine Built.ext ?_ hmanifest
  rw [build_entries, build_entries, ← hmanifest, ← hsame, ← sortedWheels_congr hwheels, hfiles,
    hwheelEntries]

/-- **The package of a place.** Two places of one tree and one wheelhouse, listed in whatever
order, give the same package exactly when they are alike. -/
theorem build_eq_iff (R : Release) (root root' : List String) (tree tree' : Tree)
    (wheelhouse wheelhouse' : List String) (wheels wheels' : Tree)
    (htrees : tree.files.Perm tree'.files) (hwheels : wheels.files.Perm wheels'.files) :
    build R root tree wheelhouse wheels = build R root' tree' wheelhouse' wheels' ↔
      Alike root root' wheelhouse wheelhouse' tree wheels := by
  constructor
  · exact alike_of_build_eq htrees hwheels
  · exact build_eq_of_alike htrees hwheels

/-! ### A small repository -/

namespace Sample

/-- Some files of the repository, in some order. -/
def repository : Tree where
  files :=
    [⟨["kernel", "canon.py"], encode "import rfc8785"⟩, ⟨["README.md"], encode "# Powerfarm"⟩,
      ⟨["deploy", "macos", "install.sh"], encode "set -euo pipefail"⟩,
      ⟨["supabase", "migrations", "20260815060311_powerfarm_baseline.sql"], encode "begin;"⟩]
  unique := by decide +kernel

/-- The same files, in another order. -/
def relisted : Tree where
  files := repository.files.reverse
  unique := by decide +kernel

/-- One wheel. -/
def wheel : Tree where
  files := [⟨["powerfarm-0.2.0-py3-none-any.whl"], [80, 75]⟩]
  unique := by decide +kernel

/-- A release. -/
def release : Release where
  sha256 := PowerfarmKernel.Sample.digest ""
  dumps := PowerfarmKernel.Sample.text
  version := "0.2.0"
  commit := "0000000"
  epoch := 1786838400

end Sample

/-- Two places with nothing special above them give one package. -/
theorem build_eq_home : build Sample.release ["/", "home", "powerfarm"] Sample.repository
      ["/", "tmp"] Sample.wheel
    = build Sample.release ["/", "srv", "checkout"] Sample.relisted ["/", "tmp"]
      Sample.wheel := by
  refine (build_eq_iff Sample.release _ _ Sample.repository Sample.relisted _ _ Sample.wheel
    Sample.wheel (List.reverse_perm _).symm (List.Perm.refl _)).mpr
    ⟨Or.inl ?_, Or.inl ?_, Or.inl Iff.rfl⟩
  · simp [Hidden]
  · simp [Scripted]

/-- **Below a directory named `deploy`, every program is executable**, so the package is not
the same. -/
theorem build_ne_deploy : build Sample.release ["/", "home", "powerfarm"] Sample.repository
      ["/", "tmp"] Sample.wheel
    ≠ build Sample.release ["/", "srv", "deploy", "powerfarm"] Sample.repository ["/", "tmp"]
      Sample.wheel := by
  intro h
  have hmodes := congrArg (fun built => built.entries.map Entry.mode) h
  revert hmodes
  decide +kernel

end Package

end PowerfarmKernel
