import PowerfarmKernel.Kernel.Canon
import PowerfarmKernel.Lib.Runs
import PowerfarmKernel.Lib.UniqueIndex

/-!
# Applying the migrations

`apply_supabase_migrations` of `deploy/macos/lib/common.sh` brings a database to the schema
of a pack. It looks at the migrations of the pack in the order of their names. One whose
version is recorded is skipped, if the recorded checksum is that of the file. Any other is
run, and then recorded, by a statement of its own. The script can be stopped anywhere, and is
then run again, for the same pack or for a later one.

`scripts/ci/check_migration_history.sh` decides which packs can follow a pack: its migrations
stay as they are, and any others are added (`PowerfarmKernel.Migrations.extends_of_accepted`).

What an installation leaves in a database is stated apart from the script, as a fold over the
migrations of a pack (`PowerfarmKernel.Migrations.installAll`).
-/

namespace PowerfarmKernel

namespace Migrations

/-! ### Packs -/

/-- A file of `supabase/migrations`. -/
structure File where
  name : String
  content : Bytes
deriving DecidableEq

/-- `basename "$migration" .sql`. -/
def File.filename (f : File) : String :=
  if ".sql".toList <:+ f.name.toList ∧ f.name ≠ ".sql" then
    .ofList (f.name.toList.take (f.name.toList.length - 4))
  else f.name

/-- `version="${filename%%_*}"`. -/
def File.version (f : File) : String := .ofList (f.filename.toList.takeWhile (· ≠ '_'))

/-- `name="${filename#*_}"`. -/
def File.title (f : File) : String :=
  match f.filename.toList.dropWhile (· ≠ '_') with
  | [] => f.filename
  | _ :: rest => .ofList rest

/-- The order in which the shell lists files. -/
def File.Before (f g : File) : Prop := f.name < g.name

instance (f g : File) : Decidable (f.Before g) := inferInstanceAs (Decidable (f.name < g.name))

/-- `[0-9a-f]`. -/
def isHexDigit (c : Char) : Bool := c.isDigit || ('a' ≤ c && c ≤ 'f')

/-- A string is so many characters of a class. -/
def isOf (cls : Char → Bool) (n : ℕ) (s : String) : Bool := s.toList.length == n && s.toList.all cls

/-- `^[0-9]{14}$`. -/
def isVersion : String → Bool := isOf Char.isDigit 14

/-- `^[0-9a-f]{64}$`. -/
def isChecksum : String → Bool := isOf isHexDigit 64

/-- `^[0-9a-f]{40}$`. -/
def isCommit : String → Bool := isOf isHexDigit 40

/-- **A pack**, by its migrations and what is recorded of it. -/
structure Pack where
  /-- `supabase/migrations/*.sql`, as the shell lists them. -/
  files : List File
  sorted : files.Pairwise File.Before
  sql : ∀ f ∈ files, ".sql".toList <:+ f.name.toList
  /-- `PF_VERSION`. -/
  version : String
  /-- `git rev-parse HEAD`, if the pack is in a repository. -/
  gitCommit : Option { commit : String // isCommit commit = true }

/-- The migrations of a pack stay as they are in another. -/
def Pack.Extends (q p : Pack) : Prop := p.files ⊆ q.files

instance (q p : Pack) : Decidable (q.Extends p) :=
  inferInstanceAs (Decidable (∀ f, f ∈ p.files → f ∈ q.files))

/-! ### The database -/

/-- A migration as it is recorded: the columns of a row that say which it was. -/
structure Entry where
  version : String
  version_ok : isVersion version = true
  name : String
  checksum : String
  checksum_ok : isChecksum checksum = true
deriving DecidableEq

/-- A row of `public.powerfarm_schema_migrations`. -/
structure Row where
  entry : Entry
  packVersion : String
  gitCommit : Option { commit : String // isCommit commit = true }

/-- **The rows of `public.powerfarm_schema_migrations`.** -/
structure Ledger where
  rows : List Row
  /-- `version` is the primary key. -/
  unique : (rows.map fun r => r.entry.version).Nodup

/-- The empty table. -/
def Ledger.empty : Ledger where
  rows := []
  unique := List.nodup_nil

/-- `insert into … on conflict (version) do nothing`. -/
def Ledger.insert (l : Ledger) (r : Row) : Ledger :=
  if h : r.entry.version ∈ l.rows.map fun r => r.entry.version then l
  else
    { rows := l.rows ++ [r]
      unique := List.nodup_map_concat l.unique fun _ hb heq =>
        h (heq ▸ List.mem_map_of_mem hb) }

/-- **The database**: the table of migrations, which may not exist yet, and all the rest. -/
structure Database (σ : Type) where
  schema : σ
  ledger : Option Ledger

/-- **What a migration does**: one transaction, which can fail, and which changes nothing more
in the state it leaves. The rows of the table of migrations are the installer's, and it leaves
them alone. -/
structure Script (σ : Type) where
  run : σ → Option σ
  /-- Its statements have `create table if not exists public.powerfarm_schema_migrations`. -/
  createsLedger : Bool
  again : ∀ s s', run s = some s' → run s' = some s'

variable {σ : Type}

/-- `psql -v ON_ERROR_STOP=1 -f "$migration"`. -/
def Database.run (db : Database σ) (script : Script σ) : Option (Database σ) := do
  let schema ← script.run db.schema
  some
    { schema := schema
      ledger := if script.createsLedger then some (db.ledger.getD .empty) else db.ledger }

/-- `existing`: the checksum recorded for a version, or nothing. -/
def Database.existing (db : Database σ) (version : String) : String :=
  match db.ledger with
  | none => ""
  | some l =>
      ((l.rows.find? fun r => r.entry.version = version).map fun r => r.entry.checksum).getD ""

/-- What the script and the programs it calls are: `shasum -a 256`, and what `psql` makes of a
file. -/
structure Tools (σ : Type) where
  sha256 : Bytes → String
  script : Bytes → Script σ

variable (T : Tools σ)

/-- The columns recorded for a migration, if they pass the checks of the table. -/
def entryOf (f : File) : Option Entry :=
  if h : isVersion f.version = true ∧ isChecksum (T.sha256 f.content) = true then
    some ⟨f.version, h.1, f.title, T.sha256 f.content, h.2⟩
  else none

/-- The statement that records a migration. -/
def Database.record (p : Pack) (db : Database σ) (f : File) : Option (Database σ) := do
  let l ← db.ledger
  let entry ← entryOf T f
  some { db with ledger := some (l.insert ⟨entry, p.version, p.gitCommit⟩) }

/-! ### The script -/

/-- **Where the script is.** -/
inductive Control where
  /-- At the head of the loop, with these files to go. -/
  | loop (rest : List File) : Control
  /-- After running a file, which is to be recorded. -/
  | record (f : File) (rest : List File) : Control
  /-- Ended by `psql`. -/
  | failed : Control
  /-- Ended by `die`. -/
  | died (message : String) : Control
deriving DecidableEq

/-- **An installation**: the pack the script was last started for, where the script is, the
database, and the files whose transactions were committed, in that order. -/
structure Site (σ : Type) where
  pack : Pack
  control : Control
  db : Database σ
  effects : List File

/-- The script is started for a pack, on a database without a table of migrations. -/
def Site.fresh (p : Pack) (schema : σ) : Site σ where
  pack := p
  control := .loop p.files
  db := ⟨schema, none⟩
  effects := []

/-- A run of the script is complete. -/
def Site.Complete (s : Site σ) : Prop := s.control = .loop []

instance (s : Site σ) : Decidable s.Complete := inferInstanceAs (Decidable (s.control = .loop []))

/-- **`apply_supabase_migrations`**, up to the next commit or the next turn of the loop. -/
def Site.step (s : Site σ) : Site σ :=
  match s.control with
  | .loop [] => s
  | .loop (f :: rest) =>
      if s.db.existing f.version ≠ "" then
        if s.db.existing f.version = T.sha256 f.content then { s with control := .loop rest }
        else { s with control := .died ("migration checksum changed for " ++ f.filename) }
      else
        match s.db.run (T.script f.content) with
        | none => { s with control := .failed }
        | some db => { s with control := .record f rest, db := db, effects := s.effects ++ [f] }
  | .record f rest =>
      match s.db.record T s.pack f with
      | none => { s with control := .failed }
      | some db => { s with control := .loop rest, db := db }
  | .failed => s
  | .died _ => s

/-- **What happens at an installation**: the script goes on, or it is started, wherever it was,
for a pack. -/
inductive Event where
  | go : Event
  | launch (p : Pack) : Event

/-- The pack an event starts the script for. -/
def Event.packs : Event → List Pack
  | .go => []
  | .launch p => [p]

/-- A pack that does not extend the last one is not published. -/
def Site.act (s : Site σ) : Event → Site σ
  | .go => s.step T
  | .launch q => if q.Extends s.pack then { s with pack := q, control := .loop q.files } else s

/-- The installation after some events. -/
abbrev Site.after (s : Site σ) (events : List Event) : Site σ :=
  Runs.exec (fun s e => s.act T e) s events

/-! ### The history check -/

/-- A line of `git diff --name-status`. -/
inductive Change where
  | added (path : String) : Change
  | modified (path : String) : Change
  | deleted (path : String) : Change
  | renamed (path rest : String) : Change
  | copied (path rest : String) : Change
deriving DecidableEq

/-- `[[ "$path" == supabase/migrations/*.sql ]]`. -/
def isMigration (path : String) : Bool :=
  "supabase/migrations/".toList <+: path.toList ∧
    ".sql".toList <:+ path.toList.drop "supabase/migrations/".toList.length

/-- A line is refused. -/
def Change.isRefused : Change → Bool
  | .added _ => false
  | .modified path | .deleted path => isMigration path
  | .renamed path rest | .copied path rest => isMigration path || isMigration rest

/-- **`check_migration_history.sh`**: the exit status is 0, where the base has the seal or not. -/
def checkMigrationHistory (sealed : Bool) (changes : List Change) : Bool :=
  !sealed || changes.all fun c => !c.isRefused

/-- The path of a migration in the repository. -/
def File.path (f : File) : String := "supabase/migrations/" ++ f.name

/-- **`git diff` lists the changes between two packs**: each file of the base that is not in the
head as it was is listed as modified, deleted or renamed. -/
def Lists (changes : List Change) (base head : Pack) : Prop :=
  ∀ f ∈ base.files, f ∉ head.files → Change.modified f.path ∈ changes ∨
    Change.deleted f.path ∈ changes ∨ ∃ rest, Change.renamed f.path rest ∈ changes

variable {base head p q : Pack} {changes : List Change} {f g : File}

theorem isMigration_path (hf : f ∈ base.files) : isMigration f.path = true := by
  have hpath : f.path.toList = "supabase/migrations/".toList ++ f.name.toList :=
    String.toList_append
  rw [isMigration, hpath, List.drop_left]
  exact decide_eq_true ⟨List.prefix_append _ _, base.sql f hf⟩

/-- **A pack whose changes are accepted, on a sealed base, extends the base.** -/
theorem extends_of_accepted (hlists : Lists changes base head)
    (hcheck : checkMigrationHistory true changes = true) : head.Extends base := by
  rw [checkMigrationHistory, Bool.not_true, Bool.false_or, List.all_eq_true] at hcheck
  intro f hf
  by_contra hgone
  have hmigration := isMigration_path hf
  rcases hlists f hf hgone with hchange | hchange | ⟨rest, hchange⟩
  · simpa [Change.isRefused, hmigration] using hcheck _ hchange
  · simpa [Change.isRefused, hmigration] using hcheck _ hchange
  · simpa [Change.isRefused, hmigration] using hcheck _ hchange

/-! ### What an installation leaves -/

/-- **What stands in a database**, whichever packs recorded it. -/
structure Standing (σ : Type) where
  schema : σ
  entries : Option (List Entry)

/-- What stands in a database. -/
def Database.standing (db : Database σ) : Standing σ :=
  ⟨db.schema, db.ledger.map fun l => l.rows.map Row.entry⟩

/-- A migration is run. -/
def Standing.run (st : Standing σ) (script : Script σ) : Option (Standing σ) := do
  let schema ← script.run st.schema
  some ⟨schema, if script.createsLedger then some (st.entries.getD []) else st.entries⟩

/-- An entry is added, unless one has its version. -/
def addEntry (entries : List Entry) (entry : Entry) : List Entry :=
  if entry.version ∈ entries.map Entry.version then entries else entries ++ [entry]

/-- A migration is recorded. -/
def Standing.record (st : Standing σ) (f : File) : Option (Standing σ) := do
  let entries ← st.entries
  let entry ← entryOf T f
  some { st with entries := some (addEntry entries entry) }

/-- A migration is run and recorded. -/
def Standing.install (st : Standing σ) (f : File) : Option (Standing σ) := do
  let st ← st.run (T.script f.content)
  st.record T f

/-- **Migrations are installed**, one after the other. -/
def installAll (files : List File) (st : Standing σ) : Option (Standing σ) :=
  files.foldlM (Standing.install T) st

variable {T} {db : Database σ} {st st' : Standing σ} {script : Script σ} {version : String}
  {files : List File}

theorem Ledger.entries_insert (l : Ledger) (r : Row) :
    (l.insert r).rows.map Row.entry = addEntry (l.rows.map Row.entry) r.entry := by
  have hversions : (l.rows.map Row.entry).map Entry.version =
      l.rows.map fun r => r.entry.version := List.map_map ..
  rw [Ledger.insert, addEntry, hversions]
  split
  · rfl
  · rw [List.map_append, List.map_singleton]

theorem standing_run : (db.run script).map Database.standing = db.standing.run script := by
  rw [Database.run, Standing.run, Database.standing]
  cases script.run db.schema with
  | none => rfl
  | some schema =>
    cases script.createsLedger <;> cases db.ledger <;> rfl

theorem standing_record :
    (db.record T p f).map Database.standing = db.standing.record T f := by
  rw [Database.record, Standing.record, Database.standing]
  cases db.ledger with
  | none => rfl
  | some l =>
    cases entryOf T f with
    | none => rfl
    | some entry => exact congrArg some (congrArg _ (congrArg some (l.entries_insert _)))

/-- A version is recorded. -/
def Database.Recorded (db : Database σ) (version : String) : Prop :=
  ∃ entry ∈ db.standing.entries.getD [], entry.version = version

theorem Entry.checksum_ne (entry : Entry) : entry.checksum ≠ "" := by
  intro heq
  have hok := entry.checksum_ok
  rw [heq] at hok
  exact absurd hok (by decide)

/-- **The script finds a checksum** exactly for the versions that are recorded. -/
theorem existing_ne_iff : db.existing version ≠ "" ↔ db.Recorded version := by
  rw [Database.existing, Database.Recorded, Database.standing]
  cases db.ledger with
  | none => simp
  | some l =>
    simp only [Option.map_some, Option.getD_some, List.mem_map, exists_exists_and_eq_and]
    cases hfind : l.rows.find? fun r => r.entry.version = version with
    | none =>
      rw [List.find?_eq_none] at hfind
      simpa using hfind
    | some r =>
      have hversion : r.entry.version = version := by simpa using List.find?_some hfind
      refine iff_of_true r.entry.checksum_ne ⟨r, List.mem_of_find?_eq_some hfind, hversion⟩

/-- What is recorded of a migration names it. -/
theorem entryOf_eq_some {entry : Entry} (h : entryOf T f = some entry) :
    entry.version = f.version ∧ entry.name = f.title ∧ entry.checksum = T.sha256 f.content := by
  rw [entryOf] at h
  split at h
  · cases h
    exact ⟨rfl, rfl, rfl⟩
  · cases h

/-- A migration that ran can run again, and changes nothing. -/
theorem Standing.run_again (h : st.run script = some st') : st'.run script = some st' := by
  rw [Standing.run, Option.bind_eq_bind, Option.bind_eq_some_iff] at h ⊢
  obtain ⟨schema, hrun, heq⟩ := h
  cases heq
  refine ⟨schema, script.again _ _ hrun, ?_⟩
  split <;> rfl

/-- Running a migration records nothing. -/
theorem Standing.entries_run (h : st.run script = some st') :
    st'.entries.getD [] = st.entries.getD [] := by
  rw [Standing.run, Option.bind_eq_bind, Option.bind_eq_some_iff] at h
  obtain ⟨schema, -, heq⟩ := h
  cases heq
  dsimp only
  split <;> rfl

/-- Recording a migration adds its entry. -/
theorem Standing.entries_record (h : st.record T f = some st') : ∃ entry,
    entryOf T f = some entry ∧ st'.entries.getD [] = addEntry (st.entries.getD []) entry := by
  simp only [Standing.record, Option.bind_eq_bind, Option.bind_eq_some_iff] at h
  obtain ⟨entries, hentries, entry, hentry, heq⟩ := h
  cases heq
  exact ⟨entry, hentry, by rw [hentries]; rfl⟩

theorem mem_addEntry_version {entries : List Entry} {entry : Entry} :
    (∃ e ∈ addEntry entries entry, e.version = version) ↔
      (∃ e ∈ entries, e.version = version) ∨ version = entry.version := by
  rw [addEntry]
  split
  · rename_i hmem
    refine ⟨Or.inl, fun h => h.elim id ?_⟩
    rintro rfl
    exact List.mem_map.mp hmem
  · simp [List.mem_append, or_and_right, exists_or, eq_comm]

theorem recorded_run {db' : Database σ} (h : db.run script = some db') :
    db'.Recorded version ↔ db.Recorded version := by
  have hrun : db.standing.run script = some db'.standing := by rw [← standing_run, h]; rfl
  rw [Database.Recorded, Standing.entries_run hrun, Database.Recorded]

/-- **What is recorded after a migration was**: its version, and those recorded before. -/
theorem recorded_record {db' : Database σ} (h : db.record T p f = some db') :
    db'.Recorded version ↔ db.Recorded version ∨ version = f.version := by
  have hrecord : db.standing.record T f = some db'.standing := by
    rw [← standing_record (p := p), h]
    rfl
  obtain ⟨entry, hentry, hentries⟩ := Standing.entries_record hrecord
  rw [Database.Recorded, hentries, mem_addEntry_version, (entryOf_eq_some hentry).1,
    Database.Recorded]

theorem installAll_concat : installAll T (files ++ [f]) st =
    (installAll T files st).bind fun st => st.install T f := by
  rw [installAll, List.foldlM_append]
  simp only [List.foldlM_cons, List.foldlM_nil, bind_pure]
  rfl

/-- **What is recorded after an installation**: each migration, in order, if no two have one
version. -/
theorem entries_installAll (hempty : st.entries.getD [] = [])
    (hversions : (files.map File.version).Nodup) (h : installAll T files st = some st') :
    files.map (entryOf T) = (st'.entries.getD []).map some := by
  induction files using List.reverseRecOn generalizing st' with
  | nil =>
    cases h
    rw [hempty]
    rfl
  | append_singleton files f ih =>
    rw [List.map_append, List.nodup_append] at hversions
    rw [installAll_concat, Option.bind_eq_some_iff] at h
    obtain ⟨st₁, hfiles, hinstall⟩ := h
    rw [Standing.install, Option.bind_eq_bind, Option.bind_eq_some_iff] at hinstall
    obtain ⟨st₂, hrun, hrecord⟩ := hinstall
    obtain ⟨entry, hentry, hentries⟩ := Standing.entries_record hrecord
    have hbefore := ih hversions.1 hfiles
    rw [← Standing.entries_run hrun] at hbefore
    have hnew : entry.version ∉ (st₂.entries.getD []).map Entry.version := by
      intro hmem
      obtain ⟨e, he, hversion⟩ := List.mem_map.mp hmem
      have hsome : some e ∈ files.map (entryOf T) := hbefore ▸ List.mem_map_of_mem he
      obtain ⟨g, hg, hge⟩ := List.mem_map.mp hsome
      refine hversions.2.2 g.version (List.mem_map_of_mem hg) f.version
        (List.mem_map_of_mem (List.mem_singleton_self f)) ?_
      rw [← (entryOf_eq_some hge).1, hversion, (entryOf_eq_some hentry).1]
    rw [List.map_append, hbefore, hentries, addEntry, if_neg hnew, List.map_append,
      List.map_singleton, List.map_singleton, hentry]

end Migrations

end PowerfarmKernel
