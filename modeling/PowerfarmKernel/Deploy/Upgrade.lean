import PowerfarmKernel.Deploy.Migrations
import PowerfarmKernel.Kernel.Sample
import PowerfarmKernel.Lib.Stutter

/-!
# Upgrading and installing

A database that went through many packs, with the script stopped and started on the way,
should be what an installation of the last pack makes of an empty one. The script records a
migration only after it ran, so that a stop in between has the migration run twice, once
after the other; that changes nothing (`PowerfarmKernel.Migrations.Tracks`).

A pack can however add a migration whose name comes before that of one which has run. The
history check accepts it, and the script runs it after. Two migrations can also have one
version, and the script takes the second for the first.
`PowerfarmKernel.Migrations.upgrade_exact` says that nothing else can go wrong.
-/

namespace PowerfarmKernel

namespace Migrations

variable {σ : Type} {T : Tools σ} {s : Site σ} {e : Event} {p q : Pack} {f g : File}
  {rest files : List File} {version : String} {schema : σ} {events pre : List Event}

/-! ### What can happen -/

theorem File.Before.asymm (h : f.Before g) : ¬g.Before f := lt_asymm h

/-- The files the script has not gone past. -/
def Control.remaining : Control → Option (List File)
  | .loop rest => some rest
  | .record f rest => some (f :: rest)
  | .failed => none
  | .died _ => none

/-- **What an event does to an installation.** -/
inductive Step (T : Tools σ) (s : Site σ) : Site σ → Prop
  /-- The script does nothing more, or it ends. -/
  | ends (c : Control) (hc : c = s.control ∨ c.remaining = none) : Step T s { s with control := c }
  | skips (f : File) (rest : List File) (hcontrol : s.control = .loop (f :: rest))
      (hrec : s.db.Recorded f.version) : Step T s { s with control := .loop rest }
  | runs (f : File) (rest : List File) (db : Database σ) (hcontrol : s.control = .loop (f :: rest))
      (hnew : ¬s.db.Recorded f.version) (hrun : s.db.run (T.script f.content) = some db) :
      Step T s { s with control := .record f rest, db := db, effects := s.effects ++ [f] }
  | records (f : File) (rest : List File) (db : Database σ) (hcontrol : s.control = .record f rest)
      (hrecord : s.db.record T s.pack f = some db) :
      Step T s { s with control := .loop rest, db := db }
  | launches (q : Pack) (hext : q.Extends s.pack) :
      Step T s { s with pack := q, control := .loop q.files }

theorem Site.step_spec (s : Site σ) : Step T s (s.step T) := by
  rw [Site.step]
  split
  · exact .ends s.control (Or.inl rfl)
  · rename_i f rest hcontrol
    split
    · rename_i hexisting
      split
      · exact .skips f rest hcontrol (existing_ne_iff.mp hexisting)
      · exact .ends _ (Or.inr rfl)
    · rename_i hexisting
      split
      · exact .ends _ (Or.inr rfl)
      · rename_i db hrun
        exact .runs f rest db hcontrol (fun h => hexisting (existing_ne_iff.mpr h)) hrun
  · rename_i f rest hcontrol
    split
    · exact .ends _ (Or.inr rfl)
    · rename_i db hrecord
      exact .records f rest db hcontrol hrecord
  · exact .ends s.control (Or.inl rfl)
  · exact .ends s.control (Or.inl rfl)

/-- The script does not change the pack. -/
theorem Site.step_pack (s : Site σ) : (s.step T).pack = s.pack := by
  rw [Site.step]
  split
  · rfl
  · split
    · split <;> rfl
    · split <;> rfl
  · split <;> rfl
  · rfl
  · rfl

theorem Site.act_spec (s : Site σ) (e : Event) : Step T s (s.act T e) := by
  cases e with
  | go => exact s.step_spec
  | launch q =>
    rw [Site.act.eq_def]
    dsimp only
    split
    · rename_i hext
      exact .launches q hext
    · exact .ends s.control (Or.inl rfl)

/-- The pack only grows, and so does the list of effects. -/
def Grows (s s' : Site σ) : Prop := s'.pack.Extends s.pack ∧ s.effects <+: s'.effects

theorem Step.grows {s' : Site σ} (h : Step T s s') : Grows s s' := by
  have hsame : s.pack.Extends s.pack := List.Subset.refl _
  cases h with
  | ends c hc => exact ⟨hsame, List.prefix_refl _⟩
  | skips f rest hcontrol hrec => exact ⟨hsame, List.prefix_refl _⟩
  | runs f rest db hcontrol hnew hrun => exact ⟨hsame, List.prefix_append _ _⟩
  | records f rest db hcontrol hrecord => exact ⟨hsame, List.prefix_refl _⟩
  | launches q hext => exact ⟨hext, List.prefix_refl _⟩

theorem Site.grows (h : pre <+: events) : Grows (s.after T pre) (s.after T events) := by
  refine Runs.exec_rel (fun s => ⟨List.Subset.refl _, List.prefix_refl _⟩) ?_
    (fun s e => (s.act_spec e).grows) h
  rintro s t u ⟨hst, hst'⟩ ⟨htu, htu'⟩
  exact ⟨List.Subset.trans hst htu, hst'.trans htu'⟩

/-! ### What holds in every installation -/

/-- A list of effects is in order, up to migrations run again after themselves. -/
def InOrder (effects : List File) : Prop := effects.Pairwise fun f g => f = g ∨ f.Before g

/-- No two of some files have one version. -/
def Distinct (files : List File) : Prop :=
  ∀ f ∈ files, ∀ g ∈ files, f.version = g.version → f = g

/-- **What holds in every installation.** -/
structure Sound (s : Site σ) : Prop where
  effects : s.effects ⊆ s.pack.files
  /-- What the script has gone past is recorded. -/
  passed : ∀ rest, s.control.remaining = some rest →
    ∃ done, s.pack.files = done ++ rest ∧ ∀ g ∈ done, s.db.Recorded g.version
  /-- Two migrations with one version do not both take effect in order. -/
  versions : InOrder s.effects → Distinct s.effects

theorem Sound.fresh : Sound (Site.fresh p schema) where
  effects := List.nil_subset _
  passed rest hrest := by
    cases hrest
    exact ⟨[], rfl, fun g hg => absurd hg List.not_mem_nil⟩
  versions _ f hf := absurd hf List.not_mem_nil

theorem Distinct.concat (h : Distinct files) (hf : ∀ g ∈ files, g.version = f.version → g = f) :
    Distinct (files ++ [f]) := by
  intro g hg g' hg' hversion
  rcases List.mem_append.mp hg with hg | hg <;> rcases List.mem_append.mp hg' with hg' | hg'
  · exact h g hg g' hg' hversion
  · rw [List.mem_singleton.mp hg'] at hversion ⊢
    exact hf g hg hversion
  · rw [List.mem_singleton.mp hg] at hversion ⊢
    exact (hf g' hg' hversion.symm).symm
  · rw [List.mem_singleton.mp hg, List.mem_singleton.mp hg']

/-- A file of a pack comes after those before it. -/
theorem Pack.before_of_mem {done : List File} (h : p.files = done ++ f :: rest) (hg : g ∈ done) :
    g.Before f := by
  have hsorted := p.sorted
  rw [h, List.pairwise_append] at hsorted
  exact hsorted.2.2 g hg f List.mem_cons_self

/-- The files of a pack before one of them are among those that come before it. -/
theorem Pack.mem_of_before {done : List File} (h : p.files = done ++ f :: rest) (hg : g ∈ p.files)
    (hlt : g.Before f) : g ∈ done := by
  have hsorted := p.sorted
  rw [h, List.pairwise_append, List.pairwise_cons] at hsorted
  rw [h, List.mem_append, List.mem_cons] at hg
  rcases hg with hg | rfl | hg
  · exact hg
  · exact absurd hlt (hlt.asymm)
  · exact absurd hlt (hsorted.2.1.1 g hg).asymm

/-- The script goes past a file whose version is recorded. -/
theorem Sound.passed_concat (h : Sound s) {db : Database σ}
    (hremaining : s.control.remaining = some (f :: rest))
    (hle : ∀ version, s.db.Recorded version → db.Recorded version)
    (hrec : db.Recorded f.version) :
    ∃ done, s.pack.files = done ++ rest ∧ ∀ g ∈ done, db.Recorded g.version := by
  obtain ⟨done, hfiles, hdone⟩ := h.passed (f :: rest) hremaining
  refine ⟨done ++ [f], by rw [hfiles, List.append_assoc]; rfl, fun g hg => ?_⟩
  rcases List.mem_append.mp hg with hg | hg
  · exact hle _ (hdone g hg)
  · rw [List.mem_singleton.mp hg]
    exact hrec

theorem Sound.step {s' : Site σ} (h : Sound s) (hstep : Step T s s') : Sound s' := by
  cases hstep with
  | ends c hc =>
    refine ⟨h.effects, fun rest hrest => ?_, h.versions⟩
    rcases hc with rfl | hc
    · exact h.passed rest hrest
    · exact absurd (hc.symm.trans hrest) (Option.some_ne_none rest).symm
  | skips f rest hcontrol hrec =>
    refine ⟨h.effects, ?_, h.versions⟩
    rintro _ ⟨⟩
    exact h.passed_concat (by rw [hcontrol]; rfl) (fun _ hold => hold) hrec
  | runs f rest db hcontrol hnew hrun =>
    obtain ⟨done, hfiles, hdone⟩ := h.passed (f :: rest) (by rw [hcontrol]; rfl)
    have hf : f ∈ s.pack.files := hfiles ▸ List.mem_append_right _ List.mem_cons_self
    have hsingle : [f] ⊆ s.pack.files := List.cons_subset.mpr ⟨hf, List.nil_subset _⟩
    refine ⟨List.append_subset.mpr ⟨h.effects, hsingle⟩, ?_, fun horder => ?_⟩
    · rintro _ ⟨⟩
      exact ⟨done, hfiles, fun g hg => (recorded_run hrun).mpr (hdone g hg)⟩
    · -- A file with the version of `f` is not before `f`, or `f` would not be run.
      obtain ⟨hbefore, -, hlast⟩ := List.pairwise_append.mp horder
      have hkey : ∀ g ∈ s.effects, g.version = f.version → g = f := by
        intro g hg hversion
        rcases hlast g hg f (List.mem_singleton_self f) with heq | hlt
        · exact heq
        · have hdoneg := hdone g (Pack.mem_of_before hfiles (h.effects hg) hlt)
          exact absurd (hversion ▸ hdoneg) hnew
      exact (h.versions hbefore).concat hkey
  | records f rest db hcontrol hrecord =>
    refine ⟨h.effects, ?_, h.versions⟩
    rintro _ ⟨⟩
    have hiff : ∀ {version}, db.Recorded version ↔ s.db.Recorded version ∨ version = f.version :=
      recorded_record hrecord
    exact h.passed_concat (by rw [hcontrol]; rfl) (fun _ hold => hiff.mpr (Or.inl hold))
      (hiff.mpr (Or.inr rfl))
  | launches q hext =>
    refine ⟨List.Subset.trans h.effects hext, ?_, h.versions⟩
    rintro _ ⟨⟩
    exact ⟨[], rfl, fun g hg => absurd hg List.not_mem_nil⟩

theorem Site.sound : Sound ((Site.fresh p schema).after T events) :=
  Runs.exec_inv (fun s e h => h.step (s.act_spec e)) Sound.fresh events

/-! ### What holds if migrations are added at the end -/

/-- What a pack adds to an installation comes after all that has taken effect. -/
def AddsAfter (s : Site σ) (q : Pack) : Prop :=
  q.Extends s.pack → ∀ g ∈ q.files, g ∉ s.pack.files → ∀ f ∈ s.effects, f.Before g

instance (s : Site σ) (q : Pack) : Decidable (AddsAfter s q) :=
  inferInstanceAs (Decidable (q.Extends s.pack → ∀ g ∈ q.files, g ∉ s.pack.files →
    ∀ f ∈ s.effects, f.Before g))

/-- **The packs add their migrations at the end**, whenever the script is started for one. -/
def AddsAtEnd (T : Tools σ) (s : Site σ) (events : List Event) : Prop :=
  ∀ pre q, Runs.Made events pre (.launch q) → AddsAfter (s.after T pre) q

/-- Whether packs add at the end is checked along the list of events. -/
theorem addsAtEnd_iff : AddsAtEnd T s events ↔ ∀ i (h : i < events.length), ∀ q ∈ events[i].packs,
    AddsAfter (s.after T (events.take i)) q := by
  rw [← Runs.forall_made_iff (p := fun pre e => ∀ q ∈ e.packs, AddsAfter (s.after T pre) q)]
  constructor
  · rintro h pre (_ | q) hmade q' hq'
    · exact absurd hq' List.not_mem_nil
    · exact List.mem_singleton.mp hq' ▸ h pre q hmade
  · exact fun h pre q hmade => h pre _ hmade q (List.mem_singleton_self q)

instance (T : Tools σ) (s : Site σ) (events : List Event) : Decidable (AddsAtEnd T s events) :=
  decidable_of_iff _ addsAtEnd_iff.symm

instance (files : List File) : Decidable (Distinct files) :=
  inferInstanceAs (Decidable (∀ f ∈ files, ∀ g ∈ files, f.version = g.version → f = g))

/-- Migrations are run, and not recorded. -/
def runAll (T : Tools σ) (files : List File) (st : Standing σ) : Option (Standing σ) :=
  files.foldlM (fun st f => st.run (T.script f.content)) st

/-- **A database is as an installation leaves it** that was stopped after the files `recorded`,
or after running, and before recording, the one of `pending`. -/
structure Tracks (T : Tools σ) (start : Standing σ) (s : Site σ) (recorded pending : List File) :
    Prop where
  initial : recorded ++ pending <+: s.pack.files
  single : pending.length ≤ 1
  standing : (installAll T recorded start).bind (runAll T pending) = some s.db.standing
  effects : ∀ f, f ∈ s.effects ↔ f ∈ recorded ++ pending
  inOrder : InOrder s.effects
  control : ∀ f rest, s.control = .record f rest → pending = [f]

variable {start : Standing σ} {recorded pending : List File}

theorem Tracks.fresh : Tracks T ⟨schema, none⟩ (Site.fresh p schema) [] [] where
  initial := List.nil_prefix
  single := Nat.zero_le 1
  standing := rfl
  effects _ := Iff.rfl
  inOrder := List.Pairwise.nil
  control _ _ := Control.noConfusion

theorem Distinct.subset {files' : List File} (h : Distinct files) (hsub : files' ⊆ files) :
    Distinct files' := fun f hf g hg => h f (hsub hf) g (hsub hg)

theorem Pack.nodup (p : Pack) : p.files.Nodup :=
  List.nodup_of_pairwise (fun _ _ => File.Before.asymm) p.sorted

theorem Distinct.nodup_map (h : Distinct files) (hnodup : files.Nodup) :
    (files.map File.version).Nodup :=
  hnodup.map_on fun f hf g hg => h f hf g hg

theorem runAll_singleton (st : Standing σ) : runAll T [f] st = st.run (T.script f.content) := by
  rw [runAll, List.foldlM_cons]
  exact bind_pure _

/-- Running the pending migrations records nothing. -/
theorem entries_runAll {st st' : Standing σ} (h : runAll T files st = some st') :
    st'.entries.getD [] = st.entries.getD [] := by
  induction files generalizing st with
  | nil =>
    cases h
    rfl
  | cons f files ih =>
    rw [runAll, List.foldlM_cons, Option.bind_eq_bind, Option.bind_eq_some_iff] at h
    obtain ⟨st₁, hrun, hrest⟩ := h
    rw [ih hrest, Standing.entries_run hrun]

/-- The files recorded are the first ones of the pack. -/
theorem Tracks.recorded_prefix (h : Tracks T start s recorded pending) :
    recorded <+: s.pack.files := (List.prefix_append _ _).trans h.initial

/-- The entries of the database are those of the files recorded. -/
theorem Tracks.entries (h : Tracks T start s recorded pending) (hempty : start.entries.getD [] = [])
    (hdistinct : Distinct s.pack.files) :
    recorded.map (entryOf T) = (s.db.standing.entries.getD []).map some := by
  obtain ⟨st, hinstall, hrun⟩ := Option.bind_eq_some_iff.mp h.standing
  have hinit := h.recorded_prefix
  have hversions : (recorded.map File.version).Nodup :=
    (hdistinct.subset hinit.subset).nodup_map (s.pack.nodup.sublist hinit.sublist)
  rw [entries_runAll hrun]
  exact entries_installAll hempty hversions hinstall

/-- **The versions recorded are those of the files recorded.** -/
theorem Tracks.recorded_iff (h : Tracks T start s recorded pending)
    (hempty : start.entries.getD [] = []) (hdistinct : Distinct s.pack.files)
    (hf : f ∈ s.pack.files) : s.db.Recorded f.version ↔ f ∈ recorded := by
  have hentries := h.entries hempty hdistinct
  have hinit := h.recorded_prefix
  constructor
  · rintro ⟨entry, hentry, hversion⟩
    have hmem : some entry ∈ recorded.map (entryOf T) := hentries ▸ List.mem_map_of_mem hentry
    obtain ⟨g, hg, hge⟩ := List.mem_map.mp hmem
    have heq := (entryOf_eq_some hge).1.symm.trans hversion
    rwa [← hdistinct g (hinit.subset hg) f hf heq]
  · intro hrec
    have hmem : entryOf T f ∈ (s.db.standing.entries.getD []).map some :=
      hentries ▸ List.mem_map_of_mem hrec
    obtain ⟨entry, hentry, heq⟩ := List.mem_map.mp hmem
    exact ⟨entry, hentry, (entryOf_eq_some heq.symm).1⟩

/-- **Where the script runs a migration**: what it has gone past is what is recorded, and only
that migration can be pending. -/
theorem Tracks.eq_done (h : Tracks T start s recorded pending) (hempty : start.entries.getD [] = [])
    (hdistinct : Distinct s.pack.files) {done : List File}
    (hfiles : s.pack.files = done ++ f :: rest)
    (hdone : ∀ g ∈ done, s.db.Recorded g.version) (hnew : ¬s.db.Recorded f.version) :
    recorded = done ∧ (pending = [] ∨ pending = [f]) := by
  have hiff : ∀ {g}, g ∈ s.pack.files → (s.db.Recorded g.version ↔ g ∈ recorded) :=
    fun hg => h.recorded_iff hempty hdistinct hg
  have hdonefiles : done <+: s.pack.files := hfiles ▸ List.prefix_append _ _
  have hf : f ∉ recorded := by
    rw [← hiff (hfiles ▸ List.mem_append_right _ List.mem_cons_self)]
    exact hnew
  have hsub : done ⊆ recorded := fun g hg => (hiff (hdonefiles.subset hg)).mp (hdone g hg)
  have hinit : recorded <+: done ++ f :: rest := hfiles ▸ h.recorded_prefix
  have heq : recorded = done := by
    rcases List.prefix_or_prefix_of_prefix hinit (List.prefix_append done _) with hle | ⟨tail, rfl⟩
    · have hnodup : done.Nodup := s.pack.nodup.sublist hdonefiles.sublist
      exact hle.eq_of_length_le (hnodup.subperm hsub).length_le
    · -- Past `done`, the next file would be `f`.
      rw [List.prefix_append_right_inj] at hinit
      cases tail with
      | nil => exact List.append_nil done
      | cons g tail =>
        obtain ⟨rfl, -⟩ := List.cons_prefix_cons.mp hinit
        exact absurd (List.mem_append_right _ List.mem_cons_self) hf
  refine ⟨heq, ?_⟩
  have hinitial := h.initial
  rw [hfiles, heq, List.prefix_append_right_inj] at hinitial
  have hsingle := h.single
  cases pending with
  | nil => exact Or.inl rfl
  | cons g tail =>
    obtain ⟨rfl, -⟩ := List.cons_prefix_cons.mp hinitial
    have htail : tail = [] := List.eq_nil_of_length_eq_zero (by simpa using hsingle)
    exact Or.inr (by rw [htail])

theorem Tracks.runs (h : Tracks T start s recorded pending) (hempty : start.entries.getD [] = [])
    (hdistinct : Distinct s.pack.files) {done : List File} {db : Database σ}
    (hfiles : s.pack.files = done ++ f :: rest) (hdone : ∀ g ∈ done, s.db.Recorded g.version)
    (hnew : ¬s.db.Recorded f.version) (hrun : s.db.run (T.script f.content) = some db) :
    Tracks T start
      { s with control := .record f rest, db := db, effects := s.effects ++ [f] } done [f] := by
  obtain ⟨rfl, hpending⟩ := h.eq_done hempty hdistinct hfiles hdone hnew
  have hrun' : s.db.standing.run (T.script f.content) = some db.standing := by
    rw [← standing_run, hrun]
    rfl
  have hpending' : ∀ g, g ∈ pending → g = f := by
    intro g hg
    rcases hpending with rfl | rfl
    · exact absurd hg List.not_mem_nil
    · exact List.mem_singleton.mp hg
  obtain ⟨st, hinstall, hst⟩ := Option.bind_eq_some_iff.mp h.standing
  refine ⟨?_, le_refl 1, ?_, fun g => ?_, ?_, ?_⟩
  · refine ⟨rest, ?_⟩
    rw [hfiles, List.append_assoc]
    rfl
  · rw [hinstall, Option.bind_some, runAll_singleton]
    rcases hpending with rfl | rfl
    · cases hst
      exact hrun'
    · -- The second time, the migration changes nothing.
      rw [runAll_singleton] at hst
      rw [hst, ← hrun', Standing.run_again hst]
  · rw [List.mem_append, h.effects, List.mem_append, List.mem_append, List.mem_singleton]
    refine ⟨fun hg => ?_, fun hg => hg.imp_left Or.inl⟩
    rcases hg with (hg | hg) | hg
    · exact Or.inl hg
    · exact Or.inr (hpending' g hg)
    · exact Or.inr hg
  · refine List.pairwise_append.mpr ⟨h.inOrder, List.pairwise_singleton _ _, ?_⟩
    intro g hg f' hf'
    rw [List.mem_singleton.mp hf']
    rcases List.mem_append.mp ((h.effects g).mp hg) with hg | hg
    · exact Or.inr (Pack.before_of_mem hfiles hg)
    · exact Or.inl (hpending' g hg)
  · rintro _ _ ⟨⟩
    rfl

theorem Tracks.records (h : Tracks T start s recorded pending) {db : Database σ}
    (hcontrol : s.control = .record f rest) (hrecord : s.db.record T s.pack f = some db) :
    Tracks T start { s with control := .loop rest, db := db } (recorded ++ [f]) [] := by
  obtain rfl : pending = [f] := h.control f rest hcontrol
  have hrecord' : s.db.standing.record T f = some db.standing := by
    rw [← standing_record (p := s.pack), hrecord]
    rfl
  obtain ⟨st, hinstall, hst⟩ := Option.bind_eq_some_iff.mp h.standing
  rw [runAll_singleton] at hst
  refine ⟨?_, Nat.zero_le 1, ?_, ?_, h.inOrder, fun _ _ => Control.noConfusion⟩
  · rw [List.append_nil]
    exact h.initial
  · rw [installAll_concat, hinstall, Option.bind_some, Standing.install, hst]
    dsimp only [Option.bind_eq_bind, Option.bind_some]
    rw [hrecord']
    rfl
  · rw [List.append_nil]
    exact h.effects

/-- The script is started for a pack that adds its migrations at the end. -/
theorem Tracks.launches (h : Tracks T start s recorded pending) (hext : q.Extends s.pack)
    (hadd : ∀ g ∈ q.files, g ∉ s.pack.files → ∀ f ∈ s.effects, f.Before g) :
    Tracks T start { s with pack := q, control := .loop q.files } recorded pending := by
  refine ⟨?_, h.single, h.standing, h.effects, h.inOrder, fun _ _ => Control.noConfusion⟩
  obtain ⟨tail, htail⟩ := h.initial
  have hsorted := s.pack.sorted
  rw [← htail, List.pairwise_append] at hsorted
  refine List.prefix_of_pairwise (fun _ _ => File.Before.asymm) q.sorted hsorted.1
    (List.Subset.trans h.initial.subset hext) (fun g hg hnot f hf => ?_)
  by_cases hold : g ∈ s.pack.files
  · -- A file the last pack had already is among those it has still to run.
    rw [← htail] at hold
    exact hsorted.2.2 f hf g ((List.mem_append.mp hold).resolve_left hnot)
  · exact hadd g hg hold f ((h.effects f).mpr hf)

theorem Tracks.step {s' : Site σ} (h : Tracks T start s recorded pending) (hsound : Sound s)
    (hempty : start.entries.getD [] = []) (hdistinct : Distinct s.pack.files)
    (hadd : ∀ g ∈ s'.pack.files, g ∉ s.pack.files → ∀ f ∈ s.effects, f.Before g)
    (hstep : Step T s s') : ∃ recorded' pending', Tracks T start s' recorded' pending' := by
  cases hstep with
  | ends c hc =>
    refine ⟨recorded, pending, h.initial, h.single, h.standing, h.effects, h.inOrder, ?_⟩
    rintro f rest rfl
    rcases hc with hc | hc
    · exact h.control f rest hc.symm
    · cases hc
  | skips f rest hcontrol hrec =>
    exact ⟨recorded, pending, h.initial, h.single, h.standing, h.effects, h.inOrder,
      fun _ _ => Control.noConfusion⟩
  | runs f rest db hcontrol hnew hrun =>
    obtain ⟨done, hfiles, hdone⟩ := hsound.passed (f :: rest) (by rw [hcontrol]; rfl)
    exact ⟨done, [f], h.runs hempty hdistinct hfiles hdone hnew hrun⟩
  | records f rest db hcontrol hrecord =>
    exact ⟨recorded ++ [f], [], h.records hcontrol hrecord⟩
  | launches q hext => exact ⟨recorded, pending, h.launches hext hadd⟩

/-- The calls of a shorter run add at the end if those of a longer one do. -/
theorem AddsAtEnd.concat (h : AddsAtEnd T s (events ++ [e])) : AddsAtEnd T s events :=
  fun pre q hmade => h pre q (hmade.mono (List.prefix_append _ _))

/-- **In a run whose packs add their migrations at the end**, the database is always as an
installation leaves it. -/
theorem Site.tracks (hadds : AddsAtEnd T (.fresh p schema) events)
    (hdistinct : Distinct ((Site.fresh p schema).after T events).pack.files) :
    ∃ recorded pending,
      Tracks T ⟨schema, none⟩ ((Site.fresh p schema).after T events) recorded pending := by
  induction events using List.reverseRecOn with
  | nil => exact ⟨[], [], .fresh⟩
  | append_singleton events e ih =>
    have hgrows := Site.grows (T := T) (s := .fresh p schema) (List.prefix_append events [e])
    have hdistinct' := hdistinct.subset hgrows.1
    obtain ⟨recorded, pending, h⟩ := ih hadds.concat hdistinct'
    rw [Site.after, Runs.exec_concat]
    refine h.step Site.sound rfl hdistinct' (fun g hg hnot f hf => ?_) (Site.act_spec _ e)
    cases e with
    | go =>
      rw [Site.act, Site.step_pack] at hg
      exact absurd hg hnot
    | launch q =>
      rw [Site.act.eq_def] at hg
      dsimp only at hg
      split at hg
      · rename_i hext
        exact hadds events q (List.prefix_refl _) hext g hg hnot f hf
      · exact absurd hg hnot

/-! ### A fresh installation -/

theorem not_recorded_empty (schema : σ) : ¬(Database.mk schema none).Recorded version := by
  rintro ⟨entry, hentry, -⟩
  exact List.not_mem_nil hentry

/-- **A script that meets no recorded version installs all its files**, if they can be
installed. -/
theorem Site.exists_go {st : Standing σ} (hcontrol : s.control = .loop rest)
    (hinstall : installAll T rest s.db.standing = some st)
    (hnew : ∀ f ∈ rest, ¬s.db.Recorded f.version) (hversions : (rest.map File.version).Nodup) :
    ∃ n, (s.after T (List.replicate n .go)).Complete ∧
      (s.after T (List.replicate n .go)).effects = s.effects ++ rest ∧
      (s.after T (List.replicate n .go)).db.standing = st := by
  induction rest generalizing s with
  | nil =>
    cases hinstall
    exact ⟨0, hcontrol, (List.append_nil _).symm, rfl⟩
  | cons f rest ih =>
    rw [installAll, List.foldlM_cons, Option.bind_eq_bind, Option.bind_eq_some_iff] at hinstall
    obtain ⟨st₁, hf, hrest⟩ := hinstall
    rw [Standing.install, Option.bind_eq_bind, Option.bind_eq_some_iff] at hf
    obtain ⟨st₂, hrun, hrecord⟩ := hf
    rw [← standing_run, Option.map_eq_some_iff] at hrun
    obtain ⟨db₂, hrun, rfl⟩ := hrun
    rw [← standing_record (p := s.pack), Option.map_eq_some_iff] at hrecord
    obtain ⟨db₁, hrecord, rfl⟩ := hrecord
    have hexisting : ¬s.db.existing f.version ≠ "" := by
      rw [existing_ne_iff]
      exact hnew f List.mem_cons_self
    have hstep : s.step T =
        { s with control := .record f rest, db := db₂, effects := s.effects ++ [f] } := by
      rw [Site.step, hcontrol]
      dsimp only
      rw [if_neg hexisting, hrun]
    have hstep' : (s.step T).step T =
        { s with control := .loop rest, db := db₁, effects := s.effects ++ [f] } := by
      rw [hstep, Site.step]
      dsimp only
      rw [hrecord]
    obtain ⟨hnot, hversions⟩ := List.nodup_cons.mp hversions
    have hnew' : ∀ g ∈ rest, ¬db₁.Recorded g.version := by
      intro g hg
      rw [recorded_record hrecord, recorded_run hrun, not_or]
      refine ⟨hnew g (List.mem_cons_of_mem _ hg), fun heq => hnot ?_⟩
      exact heq ▸ List.mem_map_of_mem hg
    obtain ⟨n, hdone, heffects, hstanding⟩ := ih (s := (s.step T).step T) (by rw [hstep'])
      (by rw [hstep']; exact hrest) (by rw [hstep']; exact hnew') hversions
    refine ⟨n + 2, hdone, heffects.trans ?_, hstanding⟩
    rw [hstep', List.append_assoc]
    rfl

/-- **An installation is as good as a fresh one**: each migration of its pack is recorded once
and with its checksum, the migrations took effect in the order of the pack, up to migrations
run again after themselves, and there is a run of the script on an empty database in which they
took effect in this order too, and which leaves the same. -/
structure AsFresh (T : Tools σ) (schema : σ) (s : Site σ) : Prop where
  recorded : ∀ f ∈ s.pack.files, ∃ l r, s.db.ledger = some l ∧
    (l.rows.filter fun r => r.entry.version = f.version) = [r] ∧ entryOf T f = some r.entry
  inOrder : s.effects.destutter (· ≠ ·) = s.pack.files
  fresh : ∃ n, ((Site.fresh s.pack schema).after T (List.replicate n .go)).Complete ∧
    ((Site.fresh s.pack schema).after T (List.replicate n .go)).effects = s.pack.files ∧
    ((Site.fresh s.pack schema).after T (List.replicate n .go)).db.standing = s.db.standing

/-- Where the script is complete, all of the pack is recorded, and nothing is pending. -/
theorem Tracks.eq_files (h : Tracks T start s recorded pending) (hsound : Sound s)
    (hempty : start.entries.getD [] = []) (hdistinct : Distinct s.pack.files)
    (hdone : s.Complete) : recorded = s.pack.files ∧ pending = [] := by
  obtain ⟨done, hfiles, hall⟩ := hsound.passed [] (by rw [hdone]; rfl)
  rw [List.append_nil] at hfiles
  have hsub : s.pack.files ⊆ recorded := fun f hf =>
    (h.recorded_iff hempty hdistinct hf).mp (hall f (hfiles ▸ hf))
  have hle := (s.pack.nodup.subperm hsub).length_le
  have hlength := h.initial.length_le
  rw [List.length_append] at hlength
  have hpending : pending = [] := List.eq_nil_of_length_eq_zero (by omega)
  have hinitial := h.initial
  rw [hpending, List.append_nil] at hinitial
  exact ⟨hinitial.eq_of_length_le hle, hpending⟩

/-- An entry that stands in the database has one row. -/
theorem exists_row {db : Database σ} {entry : Entry} (h : entry ∈ db.standing.entries.getD []) :
    ∃ l r, db.ledger = some l ∧
      (l.rows.filter fun r => r.entry.version = entry.version) = [r] ∧ r.entry = entry := by
  cases hledger : db.ledger with
  | none =>
    rw [Database.standing, hledger] at h
    exact absurd h List.not_mem_nil
  | some l =>
    rw [Database.standing, hledger] at h
    obtain ⟨r, hr, rfl⟩ := List.mem_map.mp h
    refine ⟨l, r, rfl, List.perm_singleton.mp ?_, rfl⟩
    refine (List.perm_ext_iff_of_nodup (l.unique.of_map.filter _) (List.nodup_singleton r)).mpr ?_
    intro r'
    rw [List.mem_filter, List.mem_singleton, decide_eq_true_eq]
    refine ⟨fun h => List.inj_on_of_nodup_map l.unique h.1 hr h.2, ?_⟩
    rintro rfl
    exact ⟨hr, rfl⟩

theorem inOrder_iff : s.effects.destutter (· ≠ ·) = p.files ↔
    InOrder s.effects ∧ ∀ f, f ∈ s.effects ↔ f ∈ p.files :=
  List.destutter_eq_iff (fun _ _ => File.Before.asymm) p.sorted

/-- An installation in which all took effect in order had no migration added before one that
had taken effect. -/
theorem addsAtEnd_of_inOrder (horder : InOrder ((Site.fresh p schema).after T events).effects)
    (hall : ∀ f, f ∈ ((Site.fresh p schema).after T events).effects ↔
      f ∈ ((Site.fresh p schema).after T events).pack.files) :
    AddsAtEnd T (.fresh p schema) events := by
  intro pre q hmade hext g hg hnot f hf
  have hgrows := Site.grows (T := T) (s := .fresh p schema) hmade.earlier
  obtain ⟨later, hlater⟩ := hgrows.2
  -- The added file took effect, but not before the script was started for the pack.
  have hlaunch : ((Site.fresh p schema).after T (pre ++ [.launch q])).pack = q := by
    rw [Site.after, Runs.exec_concat, Site.act, if_pos hext]
  have hpack : g ∈ ((Site.fresh p schema).after T events).pack.files :=
    (Site.grows (T := T) (s := .fresh p schema) hmade).1 (by rw [hlaunch]; exact hg)
  have hglater : g ∈ later := by
    have hgeffects := (hall g).mpr hpack
    rw [← hlater, List.mem_append] at hgeffects
    exact hgeffects.resolve_left fun h => hnot (Site.sound.effects h)
  rw [InOrder, ← hlater, List.pairwise_append] at horder
  refine (horder.2.2 f hf g hglater).resolve_left ?_
  rintro rfl
  exact hnot (Site.sound.effects hf)

variable (T p schema events)

/-- **Upgrading is as good as installing fresh** exactly when every pack adds its migrations at
the end, after all that has taken effect, and no two migrations of the last pack have one
version. -/
theorem upgrade_exact (hdone : ((Site.fresh p schema).after T events).Complete) :
    AsFresh T schema ((Site.fresh p schema).after T events) ↔
      AddsAtEnd T (.fresh p schema) events ∧
        Distinct ((Site.fresh p schema).after T events).pack.files := by
  constructor
  · intro h
    obtain ⟨horder, hall⟩ := inOrder_iff.mp h.inOrder
    refine ⟨addsAtEnd_of_inOrder horder hall, ?_⟩
    exact (Site.sound.versions horder).subset fun f hf => (hall f).mpr hf
  · rintro ⟨hadds, hdistinct⟩
    obtain ⟨recorded, pending, h⟩ := Site.tracks hadds hdistinct
    obtain ⟨hrecorded, rfl⟩ := h.eq_files Site.sound rfl hdistinct hdone
    have hentries := h.entries rfl hdistinct
    obtain ⟨st, hinstall, hst⟩ := Option.bind_eq_some_iff.mp h.standing
    cases hst
    refine ⟨fun f hf => ?_, inOrder_iff.mpr ⟨h.inOrder, fun f => ?_⟩, ?_⟩
    · have hmem : entryOf T f ∈ recorded.map (entryOf T) :=
        List.mem_map_of_mem (hrecorded ▸ hf)
      rw [hentries] at hmem
      obtain ⟨entry, hentry, heq⟩ := List.mem_map.mp hmem
      obtain ⟨l, r, hl, hfilter, rfl⟩ := exists_row hentry
      rw [(entryOf_eq_some heq.symm).1] at hfilter
      exact ⟨l, r, hl, hfilter, heq.symm⟩
    · rw [h.effects, List.append_nil, hrecorded]
    · rw [hrecorded] at hinstall
      obtain ⟨n, hcomplete, heffects, hstanding⟩ := Site.exists_go
        (s := .fresh ((Site.fresh p schema).after T events).pack schema) rfl hinstall
        (fun _ _ => not_recorded_empty schema) (hdistinct.nodup_map (Pack.nodup _))
      exact ⟨n, hcomplete, heffects, hstanding⟩

namespace Sample

def baseline : File := ⟨"20260815060311_powerfarm_baseline.sql", [1]⟩

def storage : File := ⟨"20260815123244_storage_artifacts.sql", [2]⟩

def receipts : File := ⟨"20260815123246_migration_receipts.sql", [3]⟩

/-- A migration whose name comes between those of the first two. -/
def late : File := ⟨"20260815123242_late.sql", [4]⟩

/-- A pack with some migrations. -/
def pack (files : List File) (sorted : files.Pairwise File.Before)
    (sql : ∀ f ∈ files, ".sql".toList <:+ f.name.toList) (version : String) : Pack where
  files := files
  sorted := sorted
  sql := sql
  version := version
  gitCommit := none

def first : Pack := pack [baseline, storage] (by decide) (by decide) "1.0.0"

def second : Pack := pack [baseline, storage, receipts] (by decide) (by decide) "1.1.0"

/-- A pack that adds a migration in between. -/
def third : Pack := pack [baseline, late, storage] (by decide) (by decide) "1.1.0"

/-- Migrations that leave their content as the schema; the first creates the table. -/
def tools : Tools Bytes where
  sha256 := PowerfarmKernel.Sample.digest
    "000000000000000000000000000000000000000000000000000000000000"
  script content :=
    { run := fun _ => some content
      createsLedger := content = [1]
      again := fun _ _ h => h }

/-- The script is stopped after running the second migration of the first pack, and started
again, for this pack and then for the next. -/
def stopped : List Event :=
  [.go, .go, .go, .launch first, .go, .go, .go, .launch second, .go, .go, .go, .go]

/-- The script is run for the first pack, and then for the one that adds in between. -/
def reordered : List Event := [.go, .go, .go, .go, .launch third, .go, .go, .go, .go]

end Sample

theorem upgrade_exact_stopped :
    AsFresh Sample.tools [] ((Site.fresh Sample.first []).after Sample.tools Sample.stopped) :=
  (upgrade_exact Sample.tools Sample.first [] Sample.stopped (by decide +kernel)).mpr
    ⟨by decide +kernel, by decide +kernel⟩

/-- **A pack can add a migration before one that has taken effect**: the history check accepts
it, the script completes, and the migrations took effect in another order than in a fresh
installation. -/
theorem upgrade_reordered :
    checkMigrationHistory true [.added Sample.late.path] = true ∧
      ((Site.fresh Sample.first []).after Sample.tools Sample.reordered).Complete ∧
      ¬AsFresh Sample.tools []
        ((Site.fresh Sample.first []).after Sample.tools Sample.reordered) := by
  refine ⟨rfl, by decide +kernel, fun h => ?_⟩
  have horder := h.inOrder
  revert horder
  decide +kernel

end Migrations

end PowerfarmKernel
