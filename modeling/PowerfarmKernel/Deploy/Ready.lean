import PowerfarmKernel.Deploy.Staged
import PowerfarmKernel.Deploy.Upgrade

/-!
# The database is ready for what is active

Nothing keeps two runs of `install.sh` or `update.sh` from working on one database at a time. Each
of them looks up a version, runs a file, records it, and the others act in between. Whatever they
do, `current` is switched to a release, and `pf-worker` is written for it, only after all its
migrations were recorded with the checksums of its files: this is
`PowerfarmKernel.Updates.schema_ready`. It is assumed that the releases that are used by hand
have one file for a version. Where two disagree, the insertion of one is dropped without a word
if the other comes in between the look-up and the insertion.
-/

namespace PowerfarmKernel

namespace Updates

open Migrations (Pack File Database Entry)

variable {ι σ τ : Type}

/-- What is recorded in a database. -/
def entries (db : Database σ) : List Entry := db.standing.entries.getD []

variable (W : World σ τ) (job : ι → Job τ)

/-- A migration is recorded with the checksum of its file. -/
def Migrated (db : Database σ) (f : File) : Prop :=
  ∃ entry ∈ entries db, entry.version = f.version ∧ entry.checksum = W.sha256 f.content

/-- **All migrations of a release are recorded.** -/
def Ready (db : Database σ) (root : τ) : Prop := ∀ f ∈ (W.pack root).files, Migrated W db f

/-- A script of a release is run by hand. -/
def InUse (root : τ) : Prop := ∃ i script env, job i = .converge script root env

/-- **The releases that are used by hand agree** on the file of a version. -/
def Agree : Prop := ∀ root root', InUse job root → InUse job root' →
  ∀ f ∈ (W.pack root).files, ∀ g ∈ (W.pack root').files, f.version = g.version → f = g

/-- The migrations are still to be applied before anything is switched to the release. -/
def Due : List Step → Prop
  | [] | .applyMigrations :: _ => True
  | .activateRelease :: _ | .writeWorkerRunner :: _ => False
  | _ :: todo => Due todo

/-- The files a turn of the loop has not yet passed. -/
def Turn.files : Turn → List File
  | .loop rest => rest
  | .reading f rest | .running f rest | .recording f rest => f :: rest

/-- What a turn of the loop has found out of the database at the start. -/
def Turn.Found (db : Database σ) : Turn → Prop
  | .running f _ | .recording f _ => ¬db.Recorded f.version
  | _ => True

/-- **Where the loop is**: the files it has passed are recorded. -/
def Passed (start : Database σ) (root : τ) (turn : Turn) (db : Database σ) : Prop :=
  turn.Found start ∧
    ∃ done, (W.pack root).files = done ++ turn.files ∧ ∀ f ∈ done, Migrated W db f

/-- **What holds of a process that was started by hand**: in the loop, the files it has passed
are recorded; and so are all, once nothing is due. -/
def Prepared (start : Database σ) (k : Point τ) (db : Database σ) : Prop :=
  match k with
  | .converging false root _ todo => InUse job root ∧ (Ready W db root ∨ Due todo)
  | .migrating false root _ _ turn => InUse job root ∧ Passed W start root turn db
  | _ => True

/-- **What holds of the host**: what was recorded stays, anything else is of a release that is
used by hand, and what is active was made ready. -/
structure Settled (start s : Host ι σ τ) : Prop where
  kept : entries start.db ⊆ entries s.db
  origin : ∀ entry ∈ entries s.db, entry ∈ entries start.db ∨
    ∃ root, InUse job root ∧ ∃ g ∈ (W.pack root).files, Migrations.entryOf W.toTools g = some entry
  current : ∀ root, s.current = some root → start.current = some root ∨ Ready W s.db root
  runner : ∀ version, s.runner = some version → start.runner = some version ∨
    ∃ root, (W.pack root).version = version ∧ Ready W s.db root

/-- The proof outline of the scripts. -/
def readying (start : Host ι σ τ) : Outline.Assertions ι (Process τ) (Host ι σ τ) where
  inv := Settled W job start
  holds _ p s := Prepared W job start.db p.point s.db

variable {W job} {i : ι} {k k' : Point τ} {s s' start : Host ι σ τ} {db db' : Database σ}
  {p p' : Process τ} {answer : Answer} {alone : Bool} {root : τ} {env : String} {todo : List Step}
  {step : Step} {turn turn' : Turn} {f : File} {rest : List File}

/-! ### What is recorded -/

theorem entries_run {script : Migrations.Script σ} (h : db.run script = some db') :
    entries db' = entries db := by
  have hrun : db.standing.run script = some db'.standing := by
    rw [← Migrations.standing_run, h]
    rfl
  exact Migrations.Standing.entries_run hrun

theorem entries_record {T : Migrations.Tools σ} {p : Pack} (h : db.record T p f = some db') :
    ∃ entry, Migrations.entryOf T f = some entry ∧
      entries db' = Migrations.addEntry (entries db) entry := by
  have hrecord : db.standing.record T f = some db'.standing := by
    rw [← Migrations.standing_record (p := p), h]
    rfl
  exact Migrations.Standing.entries_record hrecord

theorem subset_addEntry {l : List Entry} {entry : Entry} : l ⊆ Migrations.addEntry l entry := by
  rw [Migrations.addEntry]
  split
  · exact List.Subset.refl l
  · exact List.subset_append_left _ _

/-- Without the table, nothing is recorded. -/
theorem entries_of_no_ledger (h : ¬db.ledger.isSome) : entries db = [] := by
  rw [Option.not_isSome_iff_eq_none] at h
  rw [entries, Database.standing, h]
  rfl

/-- **The checksum that is found** is a recorded one. -/
theorem exists_entry_existing (h : db.existing f.version ≠ "") :
    ∃ entry ∈ entries db, entry.version = f.version ∧ entry.checksum = db.existing f.version := by
  rw [Database.existing] at h ⊢
  rw [entries, Database.standing]
  cases hledger : db.ledger with
  | none =>
    rw [hledger] at h
    exact absurd rfl h
  | some l =>
    rw [hledger] at h
    dsimp only at h ⊢
    cases hfind : l.rows.find? fun r => r.entry.version = f.version with
    | none =>
      rw [hfind] at h
      exact absurd rfl h
    | some r =>
      have hversion : r.entry.version = f.version := by simpa using List.find?_some hfind
      exact ⟨r.entry, List.mem_map_of_mem (List.mem_of_find?_eq_some hfind), hversion, rfl⟩

/-! ### What stays -/

theorem Migrated.mono (h : Migrated W db f) (hsub : entries db ⊆ entries db') :
    Migrated W db' f := by
  obtain ⟨entry, hmem, hentry⟩ := h
  exact ⟨entry, hsub hmem, hentry⟩

theorem Ready.mono (h : Ready W db root) (hsub : entries db ⊆ entries db') : Ready W db' root :=
  fun f hf => (h f hf).mono hsub

/-- **What others record does not interfere.** -/
theorem Prepared.mono {start : Database σ} (h : Prepared W job start k db)
    (hsub : entries db ⊆ entries db') : Prepared W job start k db' := by
  cases k with
  | converging checking root env todo =>
    cases checking
    · exact ⟨h.1, h.2.imp_left fun hready => hready.mono hsub⟩
    · trivial
  | migrating checking root env todo turn =>
    cases checking
    · obtain ⟨huse, hfound, done, hfiles, hdone⟩ := h
      exact ⟨huse, hfound, done, hfiles, fun f hf => (hdone f hf).mono hsub⟩
    · trivial
  | _ => trivial

/-- Nothing is said of the points of a check. -/
theorem prepared_of_isCheck {start : Database σ} (h : k.IsCheck W) : Prepared W job start k db := by
  cases k with
  | converging checking root env todo =>
    rw [h.1]
    trivial
  | migrating checking root env todo turn => exact h.elim
  | _ => trivial

/-- A move that changes nothing that is installed. -/
theorem ready_same (hinv : Settled W job start s) (hs : s'.installation = s.installation)
    (h : Prepared W job start.db p'.point s.db) :
    Outline.Sound (readying W job start) i s s' p' := by
  obtain ⟨hcurrent, hrunner, hdb⟩ := Installation.mk.inj hs
  refine ⟨⟨?_, ?_, ?_, ?_⟩, ?_, fun j _ k hk => ?_⟩
  · exact hdb ▸ hinv.kept
  · exact hdb ▸ hinv.origin
  · exact hdb ▸ hcurrent ▸ hinv.current
  · exact hdb ▸ hrunner ▸ hinv.runner
  · change Prepared W job start.db p'.point s'.db
    rwa [hdb]
  · change Prepared W job start.db k.point s'.db
    rwa [hdb]

/-- A move that records something. -/
theorem ready_grown (hinv : Settled W job start s') (hsub : entries s.db ⊆ entries s'.db)
    (h : Prepared W job start.db p'.point s'.db) :
    Outline.Sound (readying W job start) i s s' p' :=
  ⟨hinv, h, fun _ _ _ hk => Prepared.mono hk hsub⟩

/-! ### The loop -/

/-- The loop passes a file that is recorded. -/
theorem Passed.next {start : Database σ} {done : List File}
    (hfiles : (W.pack root).files = done ++ f :: rest) (hdone : ∀ g ∈ done, Migrated W db g)
    (hf : Migrated W db f) : Passed W start root (.loop rest) db := by
  refine ⟨trivial, done ++ [f], by rw [hfiles, List.append_assoc]; rfl, fun g hg => ?_⟩
  rcases List.mem_append.mp hg with hg | hg
  · exact hdone g hg
  · exact List.mem_singleton.mp hg ▸ hf

/-- **A file that is recorded now** is recorded with its own checksum: what was recorded of its
version since it was looked up is of the same file. -/
theorem migrated_record (hagree : Agree W job) (hinv : Settled W job start s)
    (huse : InUse job root) (hf : f ∈ (W.pack root).files) (hfound : ¬start.db.Recorded f.version)
    (hrecord : s.db.record W.toTools (W.pack root) f = some db') :
    Migrated W db' f ∧ ∀ entry ∈ entries db', entry ∈ entries s.db ∨
      Migrations.entryOf W.toTools f = some entry := by
  obtain ⟨entry, hentry, hentries⟩ := entries_record hrecord
  obtain ⟨hversion, -, hchecksum⟩ := Migrations.entryOf_eq_some hentry
  rw [Migrated, hentries, Migrations.addEntry]
  split
  · rename_i hmem
    refine ⟨?_, fun e he => Or.inl he⟩
    obtain ⟨e, he, heversion⟩ := List.mem_map.mp hmem
    rcases hinv.origin e he with hold | ⟨root', huse', g, hg, hge⟩
    · exact absurd ⟨e, hold, heversion.trans hversion⟩ hfound
    · obtain ⟨hgversion, -, hgchecksum⟩ := Migrations.entryOf_eq_some hge
      have hsame : f = g := hagree root root' huse huse' f hf g hg
        (hversion.symm.trans (heversion.symm.trans hgversion))
      exact ⟨e, he, heversion.trans hversion, hsame ▸ hgchecksum⟩
  · refine ⟨⟨entry, List.mem_append_right _ (List.mem_singleton_self entry), hversion, hchecksum⟩,
      fun e he => ?_⟩
    rcases List.mem_append.mp he with he | he
    · exact Or.inl he
    · exact Or.inr (List.mem_singleton.mp he ▸ hentry)

/-- **A turn of the loop.** -/
theorem turn_spec (hagree : Agree W job) (hinv : Settled W job start s) (huse : InUse job root)
    (h : Passed W start.db root turn s.db)
    (hperform : turn.perform W root s.db = some (turn', db')) :
    entries s.db ⊆ entries db' ∧ Passed W start.db root turn' db' ∧
      ∀ entry ∈ entries db', entry ∈ entries s.db ∨
        ∃ f ∈ (W.pack root).files, Migrations.entryOf W.toTools f = some entry := by
  obtain ⟨hfound, done, hfiles, hdone⟩ := h
  -- A statement that changes nothing.
  have hsame : ∀ turn'', turn''.Found start.db → turn''.files = turn.files →
      some (turn'', s.db) = some (turn', db') → entries s.db ⊆ entries db' ∧
        Passed W start.db root turn' db' ∧ ∀ entry ∈ entries db', entry ∈ entries s.db ∨
          ∃ f ∈ (W.pack root).files, Migrations.entryOf W.toTools f = some entry := by
    intro turn'' hfound' hfiles' heq
    cases heq
    exact ⟨List.Subset.refl _, ⟨hfound', done, hfiles.trans (hfiles' ▸ rfl), hdone⟩,
      fun e he => Or.inl he⟩
  cases turn with
  | loop rest =>
    cases rest with
    | nil => exact hsame (.loop []) trivial rfl hperform
    | cons f rest =>
      rw [Turn.perform] at hperform
      split at hperform
      · exact hsame (.reading f rest) trivial rfl hperform
      · rename_i hledger
        refine hsame (.running f rest) ?_ rfl hperform
        rintro ⟨entry, hmem, -⟩
        have hnow := hinv.kept hmem
        rw [entries_of_no_ledger hledger] at hnow
        exact absurd hnow List.not_mem_nil
  | reading f rest =>
    rw [Turn.perform] at hperform
    split at hperform
    · rename_i hexisting
      split at hperform
      · rename_i hchecksum
        cases hperform
        obtain ⟨entry, hmem, hversion, hentry⟩ := exists_entry_existing hexisting
        exact ⟨List.Subset.refl _,
          .next hfiles hdone ⟨entry, hmem, hversion, hentry.trans hchecksum⟩,
          fun e he => Or.inl he⟩
      · cases hperform
    · rename_i hexisting
      refine hsame (.running f rest) ?_ rfl hperform
      rintro ⟨entry, hmem, hversion⟩
      exact hexisting (Migrations.existing_ne_iff.mpr ⟨entry, hinv.kept hmem, hversion⟩)
  | running f rest =>
    rw [Turn.perform, Option.bind_eq_bind, Option.bind_eq_some_iff] at hperform
    obtain ⟨db, hrun, heq⟩ := hperform
    cases heq
    have hentries := entries_run hrun
    refine ⟨hentries ▸ List.Subset.refl _, ⟨hfound, done, hfiles, fun g hg => ?_⟩, fun e he => ?_⟩
    · exact (hdone g hg).mono (hentries ▸ List.Subset.refl _)
    · exact Or.inl (hentries ▸ he)
  | recording f rest =>
    rw [Turn.perform, Option.bind_eq_bind, Option.bind_eq_some_iff] at hperform
    obtain ⟨db, hrecord, heq⟩ := hperform
    cases heq
    have hf : f ∈ (W.pack root).files := hfiles ▸ List.mem_append_right _ List.mem_cons_self
    obtain ⟨hmigrated, horigin⟩ := migrated_record hagree hinv huse hf hfound hrecord
    obtain ⟨entry, -, hentries⟩ := entries_record hrecord
    have hsub : entries s.db ⊆ entries db' := hentries ▸ subset_addEntry
    exact ⟨hsub, .next hfiles (fun g hg => (hdone g hg).mono hsub) hmigrated,
      fun e he => (horigin e he).imp_right fun hentry => ⟨f, hf, hentry⟩⟩

/-! ### Every move -/

theorem due_steps (script : Script) : Due script.steps := by
  cases script <;> trivial

/-- **A step of a script.** -/
theorem script_step (hinv : Settled W job start s) (huse : InUse job root)
    (h : Ready W s.db root ∨ Due (step :: todo)) :
    Outline.Sound (readying W job start) i s (step.perform W false root env todo s).2
      ⟨(step.perform W false root env todo s).1, alone⟩ := by
  cases step with
  | writeInstalledEnv =>
    dsimp only [Step.perform]
    split
    · exact ready_same hinv rfl trivial
    · exact ready_same hinv rfl ⟨huse, h⟩
  | applyMigrations =>
    exact ready_same hinv rfl ⟨huse, trivial, [], rfl, fun f hf => absurd hf List.not_mem_nil⟩
  | activateRelease =>
    have hready : Ready W s.db root := h.resolve_right id
    refine ready_grown ⟨hinv.kept, hinv.origin, fun root' hcurrent => ?_, hinv.runner⟩
      (List.Subset.refl _) ⟨huse, Or.inl hready⟩
    cases hcurrent
    exact Or.inr hready
  | writeWorkerRunner =>
    have hready : Ready W s.db root := h.resolve_right id
    refine ready_grown ⟨hinv.kept, hinv.origin, hinv.current, fun version hrunner => ?_⟩
      (List.Subset.refl _) ⟨huse, Or.inl hready⟩
    cases hrunner
    exact Or.inr ⟨root, rfl, hready⟩
  | other name => exact ready_same hinv rfl ⟨huse, h⟩

/-- **A step of a process that was started by hand.** -/
theorem prepared_step (hagree : Agree W job) (hjob : (job i).IsByHand = true) (hk : k.IsByHand)
    (hinv : Settled W job start s) (h : Prepared W job start.db k s.db) :
    Outline.Sound (readying W job start) i s (k.step W job i alone answer s).2
      ⟨(k.step W job i alone answer s).1, alone⟩ := by
  cases k with
  | idle =>
    refine ready_same hinv rfl ?_
    dsimp only [Point.step]
    cases hi : job i with
    | check =>
      rw [hi] at hjob
      cases hjob
    | converge script root env => exact ⟨⟨i, script, env, hi⟩, Or.inr (due_steps script)⟩
  | ended => exact ready_same hinv rfl trivial
  | converging checking root env todo =>
    cases checking
    · cases todo with
      | nil => exact ready_same hinv rfl trivial
      | cons step todo => exact script_step hinv h.1 h.2
    · exact hk.elim
  | migrating checking root env todo turn =>
    cases checking
    · obtain ⟨huse, hpassed⟩ := h
      by_cases hturn : turn = .loop []
      · subst hturn
        obtain ⟨-, done, hfiles, hdone⟩ := hpassed
        refine ready_same hinv rfl ⟨huse, Or.inl fun f hf => hdone f ?_⟩
        rwa [hfiles, Turn.files, List.append_nil] at hf
      · rw [step_migrating hturn]
        split
        · rename_i turn' db' hperform
          obtain ⟨hsub, hpassed', horigin⟩ := turn_spec hagree hinv huse hpassed hperform
          refine ready_grown ⟨List.Subset.trans hinv.kept hsub, fun entry hentry => ?_,
            fun root' hcurrent => ?_, fun version hrunner => ?_⟩ hsub ⟨huse, hpassed'⟩
          · rcases horigin entry hentry with hold | hnew
            · exact hinv.origin entry hold
            · exact Or.inr ⟨root, huse, hnew⟩
          · exact (hinv.current root' hcurrent).imp_right fun hready => hready.mono hsub
          · exact (hinv.runner version hrunner).imp_right (Exists.imp fun _ =>
              And.imp_right fun hready => hready.mono hsub)
        · exact ready_same hinv rfl trivial
    · exact hk.elim
  | _ => exact hk.elim

/-- **Every move is sound**: only a process that was started by hand works on the database. -/
theorem prepared_move (hagree : Agree W job) (i : ι) (answer : Answer) (p : Process τ)
    (s : Host ι σ τ) (_ : (programs (ι := ι) (σ := σ) W job).inv s)
    (hreaches : (job i).Reaches W p.point) (hinv : Settled W job start s)
    (h : Prepared W job start.db p.point s.db) :
    Outline.Sound (readying W job start) i s (move W job i answer p s).2
      (move W job i answer p s).1 := by
  by_cases hjob : (job i).IsByHand = true
  · have hk := hreaches.isByHand hjob
    rw [move]
    split
    · rw [if_neg (Process.not_holdsLock hk)]
      exact ready_same hinv rfl h
    split
    · rename_i k' hend
      refine ready_same hinv rfl ?_
      rw [hk.interrupted hend]
      trivial
    · exact prepared_step hagree hjob hk hinv h
  · have hcheck := eq_false_of_ne_true hjob
    obtain ⟨hk, hsame⟩ := check_move answer s hcheck (hreaches.isCheck hcheck)
    exact ready_same hinv hsame (prepared_of_isCheck hk)

variable [DecidableEq ι]

/-- **The database is never behind what is active.** Any number of programs run, in any
interleaving, and fail or are killed anywhere. What `current` links to then was active at the
start, or all its migrations are recorded with the checksums of its files; and so are those of a
release of the version the worker is set to. -/
theorem schema_ready (W : World σ τ) (job : ι → Job τ) (hagree : Agree W job)
    (start : Host ι σ τ) (events : List (ι × Answer)) :
    (∀ root, (start.after W job events).current = some root →
      start.current = some root ∨ Ready W (start.after W job events).db root) ∧
    ∀ version, (start.after W job events).runner = some version →
      start.runner = some version ∨ ∃ root, (W.pack root).version = version ∧
        Ready W (start.after W job events).db root := by
  have hstart : Outline.Holds (readying W job start) ⟨start, fun _ => Process.idle⟩ :=
    ⟨⟨List.Subset.refl _, fun _ hentry => Or.inl hentry, fun _ hcurrent => Or.inl hcurrent,
      fun _ hrunner => Or.inl hrunner⟩, fun _ => trivial⟩
  have hholds := programs_start.exec_above programs_move (prepared_move hagree) hstart events
  exact ⟨hholds.inv.current, hholds.inv.runner⟩

/-! Two releases are installed at the same time, and a check goes on meanwhile. -/

namespace Sample

/-- Both releases are installed by hand; the third process is a check. -/
def jobs : Program → Job Root
  | .one => .converge .install .first "powerfarm.env"
  | .two => .converge .update .second "powerfarm.env"
  | .three => .check

/-- Nothing is installed. -/
def bare : Host Program Bytes Root := { host with current := none }

/-- Both installations look up the first migration before one of them runs it. The check finds
the release the first one has switched to, and stages the next. -/
def turns : List (Program × Answer) :=
  steps .one 8 ++ steps .two 12 ++ steps .one 12 ++ checked .three [9] ++ steps .three 9 ++
    steps .two 30

theorem agree_jobs : Agree world jobs := by
  have hall : ∀ root root', ∀ f ∈ (world.pack root).files, ∀ g ∈ (world.pack root').files,
      f.version = g.version → f = g := by
    intro root root'
    cases root <;> cases root' <;> decide +kernel
  exact fun root root' _ _ => hall root root'

end Sample

theorem schema_ready_interleaved :
    (Sample.bare.after Sample.world Sample.jobs Sample.turns).current = some .second ∧
      (Sample.bare.after Sample.world Sample.jobs Sample.turns).releases.keys = ["1.1.0"] ∧
      Ready Sample.world (Sample.bare.after Sample.world Sample.jobs Sample.turns).db .second := by
  have hcurrent : (Sample.bare.after Sample.world Sample.jobs Sample.turns).current =
      some .second := by decide +kernel
  refine ⟨hcurrent, by decide +kernel, ?_⟩
  exact ((schema_ready Sample.world Sample.jobs Sample.agree_jobs Sample.bare Sample.turns).1 _
    hcurrent).resolve_left nofun

end Updates

end PowerfarmKernel
