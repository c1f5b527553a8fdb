import PowerfarmKernel.Deploy.Updates
import PowerfarmKernel.Deploy.Upgrade

/-!
# What update checks achieve

A check of `deploy/macos` puts below `releases/` only what was attested: between the attestation
and the extraction nobody else writes to the cache, since a check that does has the lock. That is
so as long as no trap removes the lock while something of its check goes on. After that another
check may download something else under the name of the archive the first one has verified, and
before it extracts it (`PowerfarmKernel.Updates.Sample.orphaned`).

A check achieves nothing else, alone or not. It hands the installed environment file to
`update.sh`, which first copies the file it is given over the installed one, and `cp` does not copy
a file over itself. `PowerfarmKernel.Updates.staged_attested` is the statement.
-/

namespace PowerfarmKernel

namespace Updates

variable {ι σ τ : Type} (W : World σ τ) (job : ι → Job τ)

/-- **What stands below `releases/` under its name**: a release was extracted from an attested
archive of its version, and a temporary directory has one of the names for them, and nothing in it
but from an attested archive. -/
def Vouched (name : String) : Below τ → Prop
  | .release root =>
      ∃ archive, W.attested archive = true ∧ W.extract archive (packageRoot name) = some root
  | .temporary archive =>
      isTemporaryName name = true ∧ ∀ content, archive = some content → W.attested content = true

/-- Steps that lead to the copy of the environment file, and change nothing before it. -/
def Stuck : List Step → Prop
  | .writeInstalledEnv :: _ => True
  | .other _ :: todo => Stuck todo
  | _ => False

theorem stuck_update : Stuck update := trivial

/-- The points of a process that was started by hand. -/
def Point.IsByHand : Point τ → Prop
  | .idle | .ended | .converging false _ _ _ | .migrating false _ _ _ _ => True
  | _ => False

/-- The points of a check. -/
def Point.IsCheck : Point τ → Prop
  | .converging checking _ env todo => checking = true ∧ env = W.envInstalled ∧ Stuck todo
  | .migrating _ _ _ _ _ => False
  | _ => True

/-- The points of a process, by what it was started for. -/
def Job.Reaches (J : Job τ) (k : Point τ) : Prop := if J.IsByHand then k.IsByHand else k.IsCheck W

/-- What a check has found out. -/
def Point.Found (cache : Dict String Bytes) : Point τ → Prop
  | .staging version | .extracting version =>
      ∃ archive, cache.get? (archiveName version) = some archive ∧ W.attested archive = true
  | .unpacking version temporary => isTemporaryName temporary = true ∧
      ∃ archive, cache.get? (archiveName version) = some archive ∧ W.attested archive = true
  | .placing version _ extracted => Vouched W version (.release extracted)
  | _ => True

/-- The proof outline of all programs: a process is at a point of its job. -/
def programs : Outline.Assertions ι (Process τ) (Host ι σ τ) where
  inv _ := True
  holds i p _ := (job i).Reaches W p.point

/-- **What holds of a process** where no check has lost its lock: it has the lock, if it is past
`mkdir`, and nobody else writes to the cache; and it is at a point of its job. -/
structure Owned (i : ι) (k : Point τ) (s : Host ι σ τ) : Prop where
  lock : k.holdsLock = true → s.lock = some i
  found : k.Found W s.cache
  reaches : (job i).Reaches W k

/-- The proof outline of the checks. -/
def staging (start : Host ι σ τ) : Outline.Assertions ι (Process τ) (Host ι σ τ) where
  inv s := ∀ name entry, s.releases.get? name = some entry →
    start.releases.get? name = some entry ∨ Vouched W name entry
  holds i p := Owned W job i p.point

variable {W job} {i j : ι} {k k' : Point τ} {p p' : Process τ} {s s' start : Host ι σ τ}
  {answer : Answer} {alone : Bool}

/-! ### Points -/

theorem Point.IsByHand.not_holdsLock (h : k.IsByHand) : k.holdsLock = false := by
  cases k with
  | idle | ended => rfl
  | converging checking root env todo => cases checking <;> trivial
  | migrating checking root env todo turn => cases checking <;> trivial
  | _ => exact h.elim

theorem Process.not_holdsLock (hk : p.point.IsByHand) : ¬p.holdsLock = true := by
  rw [Process.holdsLock, hk.not_holdsLock, Bool.and_false]
  exact Bool.false_ne_true

theorem Point.found_of_not_holdsLock {cache : Dict String Bytes} (h : k.holdsLock = false) :
    k.Found W cache := by
  cases k with
  | staging version | extracting version | unpacking version temporary
  | placing version temporary extracted => cases h
  | _ => trivial

theorem Job.reaches_of_isByHand (hjob : (job i).IsByHand = true) (hk : k.IsByHand) :
    (job i).Reaches W k := by
  rwa [Job.Reaches, if_pos hjob]

theorem Job.reaches_of_isCheck (hjob : (job i).IsByHand = false) (hk : k.IsCheck W) :
    (job i).Reaches W k := by
  rwa [Job.Reaches, if_neg (Bool.eq_false_iff.mp hjob)]

theorem Job.Reaches.isByHand (h : (job i).Reaches W k) (hjob : (job i).IsByHand = true) :
    k.IsByHand := by
  rwa [Job.Reaches, if_pos hjob] at h

theorem Job.Reaches.isCheck (h : (job i).Reaches W k) (hjob : (job i).IsByHand = false) :
    k.IsCheck W := by
  rwa [Job.Reaches, if_neg (Bool.eq_false_iff.mp hjob)] at h

theorem Job.reaches_ended : (job i).Reaches W .ended := by
  rw [Job.Reaches]
  split <;> trivial

/-- What is left of a check that was interrupted is a point of a check. -/
theorem Point.isCheck_of_interrupted (h : k.interrupted answer = some k') : k'.IsCheck W := by
  have hfinish : ∀ checking, (finish checking : Point τ).IsCheck W := by
    intro checking
    rw [finish]
    split <;> trivial
  have habort : k.abort.IsCheck W := by
    cases k with
    | unlocking => trivial
    | _ => exact hfinish _
  cases answer with
  | killed =>
    cases h
    trivial
  | terminated =>
    cases h
    exact habort
  | fails =>
    cases h
    cases k with
    | unpacking version temporary | placing version temporary extracted => trivial
    | _ => exact habort
  | _ => cases h

/-- A program that was started by hand has no trap. -/
theorem Point.IsByHand.interrupted (hk : k.IsByHand) (h : k.interrupted answer = some k') :
    k' = .ended := by
  have habort : k.abort = .ended := by
    have hfinish : k.abort = finish k.holdsLock := by
      cases k with
      | unlocking => exact hk.elim
      | _ => rfl
    rw [hfinish, hk.not_holdsLock]
    rfl
  cases answer with
  | killed =>
    cases h
    rfl
  | terminated =>
    cases h
    exact habort
  | fails =>
    cases h
    have hfail : k.fail = k.abort := by
      cases k with
      | unpacking version temporary | placing version temporary extracted => exact hk.elim
      | _ => rfl
    rw [hfail, habort]
  | _ => cases h

/-! ### Programs that are started by hand, and checks -/

/-- A statement of `apply_supabase_migrations`. -/
theorem step_migrating {checking : Bool} {root : τ} {env : String} {todo : List Step} {turn : Turn}
    (hturn : turn ≠ .loop []) :
    (Point.migrating checking root env todo turn).step W job i alone answer s =
      match turn.perform W root s.db with
      | some (turn, db) => (.migrating checking root env todo turn, { s with db := db })
      | none => (finish checking, s) := by
  cases turn with
  | loop rest =>
    cases rest with
    | nil => exact absurd rfl hturn
    | cons f rest => rfl
  | _ => rfl

/-- **A process that was started by hand** works on what is installed, and on nothing else. -/
theorem byHand_step (W : World σ τ) (alone : Bool) (answer : Answer)
    (hjob : (job i).IsByHand = true) (hk : k.IsByHand) (I : Installation σ τ) :
    ∃ k' I', Point.IsByHand k' ∧ ∀ s : Host ι σ τ, s.installation = I →
      k.step W job i alone answer s = (k', s.install I') := by
  cases k with
  | idle =>
    cases hi : job i with
    | check =>
      rw [hi] at hjob
      cases hjob
    | converge script root env =>
      refine ⟨.converging false root env script.steps, I, trivial, fun s hs => ?_⟩
      rw [Point.step, hi, ← hs]
      rfl
  | ended => exact ⟨.ended, I, trivial, fun s hs => hs ▸ rfl⟩
  | converging checking root env todo =>
    cases checking
    · cases todo with
      | nil => exact ⟨.ended, I, trivial, fun s hs => hs ▸ rfl⟩
      | cons step todo =>
        cases step with
        | writeInstalledEnv =>
          by_cases henv : env = W.envInstalled
          · exact ⟨.ended, I, trivial, fun s hs => hs ▸ if_pos henv⟩
          · exact ⟨.converging false root env todo, I, trivial, fun s hs => hs ▸ if_neg henv⟩
        | applyMigrations =>
          exact ⟨.migrating false root env todo (.loop (W.pack root).files), I, trivial,
            fun s hs => hs ▸ rfl⟩
        | activateRelease =>
          exact ⟨.converging false root env todo, { I with current := some root }, trivial,
            fun s hs => hs ▸ rfl⟩
        | writeWorkerRunner =>
          exact ⟨.converging false root env todo, { I with runner := some (W.pack root).version },
            trivial, fun s hs => hs ▸ rfl⟩
        | other name =>
          exact ⟨.converging false root env todo, I, trivial, fun s hs => hs ▸ rfl⟩
    · exact hk.elim
  | migrating checking root env todo turn =>
    cases checking
    · by_cases hturn : turn = .loop []
      · subst hturn
        exact ⟨.converging false root env todo, I, trivial, fun s hs => hs ▸ rfl⟩
      · cases hperform : turn.perform W root I.db with
        | none =>
          refine ⟨.ended, I, trivial, fun s hs => ?_⟩
          obtain rfl := hs
          have hdb : turn.perform W root s.db = none := hperform
          rw [step_migrating hturn, hdb]
          rfl
        | some next =>
          refine ⟨.migrating false root env todo next.1, { I with db := next.2 }, trivial,
            fun s hs => ?_⟩
          obtain rfl := hs
          have hdb : turn.perform W root s.db = some next := hperform
          rw [step_migrating hturn, hdb]
          rfl
    · exact hk.elim
  | _ => exact hk.elim

/-- **A check installs nothing.** -/
theorem check_step (hjob : (job i).IsByHand = false) (hk : k.IsCheck W) :
    (k.step W job i alone answer s).1.IsCheck W ∧
      (k.step W job i alone answer s).2.installation = s.installation := by
  cases k with
  | idle =>
    cases hi : job i with
    | check =>
      dsimp only [Point.step]
      rw [hi, Job.start.eq_def]
      dsimp only
      split <;> exact ⟨trivial, rfl⟩
    | converge script root env =>
      rw [hi] at hjob
      cases hjob
  | fetching current =>
    dsimp only [Point.step]
    repeat' split
    all_goals exact ⟨trivial, rfl⟩
  | downloading version =>
    dsimp only [Point.step]
    split
    · split <;> exact ⟨trivial, rfl⟩
    · exact ⟨trivial, rfl⟩
  | hashing version expected | attesting version =>
    dsimp only [Point.step]
    split
    · split <;> exact ⟨trivial, rfl⟩
    · exact ⟨trivial, rfl⟩
  | extracting version =>
    dsimp only [Point.step]
    split
    · split <;> exact ⟨trivial, rfl⟩
    · exact ⟨trivial, rfl⟩
  | unpacking version temporary =>
    dsimp only [Point.step]
    split
    · refine ⟨?_, rfl⟩
      split <;> trivial
    · exact ⟨trivial, rfl⟩
  | locking current | expecting version | staging version | placing version temporary extracted =>
    dsimp only [Point.step]
    split <;> exact ⟨trivial, rfl⟩
  | cleaning temporary next => cases next <;> exact ⟨trivial, rfl⟩
  | updating version =>
    dsimp only [Point.step]
    split
    · exact ⟨⟨rfl, rfl, stuck_update⟩, rfl⟩
    · exact ⟨trivial, rfl⟩
  | converging checking root env todo =>
    obtain ⟨rfl, rfl, hstuck⟩ := hk
    cases todo with
    | nil => exact hstuck.elim
    | cons step todo =>
      cases step with
      | writeInstalledEnv =>
        dsimp only [Point.step, Step.perform]
        rw [if_pos rfl]
        exact ⟨trivial, rfl⟩
      | other name => exact ⟨⟨rfl, rfl, hstuck⟩, rfl⟩
      | _ => exact hstuck.elim
  | migrating checking root env todo turn => exact hk.elim
  | unlocking =>
    dsimp only [Point.step]
    split <;> exact ⟨trivial, rfl⟩
  | ended => exact ⟨trivial, rfl⟩

/-- **A move of a process that was started by hand.** -/
theorem byHand_move (W : World σ τ) (answer : Answer) (hjob : (job i).IsByHand = true)
    (hk : p.point.IsByHand) (I : Installation σ τ) :
    ∃ p' I', Point.IsByHand (Process.point p') ∧
      ∀ s : Host ι σ τ, s.installation = I → move W job i answer p s = (p', s.install I') := by
  by_cases hleft : answer = .abandoned ∨ answer = .detached
  · refine ⟨p, I, hk, fun s hs => ?_⟩
    rw [move, if_pos hleft, if_neg (Process.not_holdsLock hk), ← hs]
    rfl
  cases hend : p.point.interrupted answer with
  | some k' =>
    refine ⟨⟨.ended, p.alone⟩, I, trivial, fun s hs => ?_⟩
    rw [move, if_neg hleft, hend, hk.interrupted hend, ← hs]
    rfl
  | none =>
    obtain ⟨k', I', hk', hstep⟩ := byHand_step W p.alone answer hjob hk I
    refine ⟨⟨k', p.alone⟩, I', hk', fun s hs => ?_⟩
    rw [move, if_neg hleft, hend]
    dsimp only
    rw [hstep s hs]

/-- **A move of a check**, alone or not. -/
theorem check_move (answer : Answer) (s : Host ι σ τ) (hjob : (job i).IsByHand = false)
    (hk : p.point.IsCheck W) : (move W job i answer p s).1.point.IsCheck W ∧
      (move W job i answer p s).2.installation = s.installation := by
  rw [move]
  split
  · split
    · refine ⟨hk, ?_⟩
      dsimp only
      split <;> rfl
    · exact ⟨hk, rfl⟩
  · split
    · rename_i k' hend
      exact ⟨Point.isCheck_of_interrupted hend, rfl⟩
    · exact check_step hjob hk

/-- **Every move is sound**: whoever moves stays at a point of its job. -/
theorem programs_move (i : ι) (answer : Answer) (p : Process τ) (s : Host ι σ τ)
    (_ : (programs (ι := ι) (σ := σ) W job).inv s) (h : (job i).Reaches W p.point) :
    Outline.Sound (programs W job) i s (move W job i answer p s).2
      (move W job i answer p s).1 := by
  refine ⟨trivial, ?_, fun _ _ _ hj => hj⟩
  by_cases hjob : (job i).IsByHand = true
  · obtain ⟨p', I, hp', hmove⟩ := byHand_move W answer hjob (h.isByHand hjob) s.installation
    rw [hmove s rfl]
    exact Job.reaches_of_isByHand hjob hp'
  · have hcheck := eq_false_of_ne_true hjob
    exact Job.reaches_of_isCheck hcheck (check_move answer s hcheck (h.isCheck hcheck)).1

/-- Where nothing was started, every process is at a point of its job. -/
theorem programs_start : Outline.Holds (programs W job) ⟨start, fun _ => Process.idle⟩ :=
  ⟨trivial, fun i => by
    change (job i).Reaches W .idle
    rw [Job.Reaches]
    split <;> trivial⟩

/-! ### What checks own -/

/-- **What others do does not interfere**, if they leave the lock and the cache alone, or nobody
else has the lock. -/
theorem Owned.others (h : Owned W job j k s) (hj : j ≠ i)
    (hfree : (s'.lock = s.lock ∧ s'.cache = s.cache) ∨ ∀ j, j ≠ i → s.lock ≠ some j) :
    Owned W job j k s' := by
  rcases hfree with ⟨hlock, hcache⟩ | hnone
  · exact ⟨fun hk => hlock.trans (h.lock hk), hcache ▸ h.found, h.reaches⟩
  · have hk : k.holdsLock = false := by
      by_contra hholds
      exact hnone j hj (h.lock (eq_true_of_ne_false hholds))
    exact ⟨fun hk' => absurd (hk.symm.trans hk') Bool.false_ne_true,
      Point.found_of_not_holdsLock hk, h.reaches⟩

theorem Owned.of_isCheck (hjob : (job i).IsByHand = false) (hlock : s.lock = some i)
    (hfound : k.Found W s.cache) (hk : k.IsCheck W) : Owned W job i k s :=
  ⟨fun _ => hlock, hfound, Job.reaches_of_isCheck hjob hk⟩

theorem Owned.ended : Owned W job i .ended s :=
  ⟨nofun, trivial, Job.reaches_ended⟩

/-- Only a check has the lock. -/
theorem Owned.not_isByHand (h : Owned W job i k s) (hk : k.holdsLock = true) :
    (job i).IsByHand = false := by
  refine eq_false_of_ne_true fun hjob => ?_
  have hfree := (h.reaches.isByHand hjob).not_holdsLock
  exact absurd (hfree.symm.trans hk) Bool.false_ne_true

/-- A check goes on with the trap. -/
theorem Owned.unlocking (h : Owned W job i k s) (hk : k.holdsLock = true)
    (hlock : s'.lock = s.lock) : Owned W job i .unlocking s' :=
  .of_isCheck (h.not_isByHand hk) (hlock.trans (h.lock hk)) trivial trivial

theorem Owned.abort (h : Owned W job i k s) : Owned W job i k.abort s := by
  have hfinish : Owned W job i (Updates.finish k.holdsLock) s := by
    rw [Updates.finish]
    split
    · rename_i hk
      exact h.unlocking hk rfl
    · exact .ended
  cases k with
  | unlocking => exact .ended
  | _ => exact hfinish

/-- A process whose command fails, or that is ended, goes on with what it has set up for this. -/
theorem Owned.interrupted (h : Owned W job i k s) (hk : k.interrupted answer = some k') :
    Owned W job i k' s := by
  cases answer with
  | killed =>
    cases hk
    exact .ended
  | terminated =>
    cases hk
    exact h.abort
  | fails =>
    cases hk
    cases k with
    | unpacking version temporary | placing version temporary extracted =>
      exact .of_isCheck (h.not_isByHand rfl) (h.lock rfl) trivial trivial
    | _ => exact h.abort
  | _ => cases hk

variable [DecidableEq ι]

namespace Sample

/-- Three programs. -/
inductive Program where
  | one : Program
  | two : Program
  | three : Program
deriving DecidableEq

/-- The directories that hold a release. -/
inductive Root where
  | first : Root
  | second : Root
deriving DecidableEq

/-- Two archives, each with a release. The one with the second is attested. -/
def world : World Bytes Root where
  sha256 := Migrations.Sample.tools.sha256
  script := Migrations.Sample.tools.script
  attested archive := archive = [9]
  extract archive directory :=
    if directory ≠ packageRoot "1.1.0" then none
    else if archive = [9] then some .second
    else if archive = [8] then some .first
    else none
  pack
    | .first => Migrations.Sample.first
    | .second => Migrations.Sample.second
  envInstalled := "/Volumes/LAB-8/powerfarm/powerfarm.env"

/-- The first release is active. -/
def host : Host Program Bytes Root where
  lock := none
  cache := .empty
  releases := .empty
  current := some .first
  runner := none
  db := ⟨[], none⟩

/-- A process takes some steps. -/
def steps (i : Program) (n : ℕ) : List (Program × Answer) := List.replicate n (i, .done)

/-- A check up to its temporary directory, given the archive it downloads. -/
def checked (i : Program) (archive : Bytes) : List (Program × Answer) :=
  steps i 2 ++ [(i, .release "v1.1.0" [archiveName "1.1.0", checksumName "1.1.0"]),
    (i, .bytes archive true), (i, .expected (world.sha256 archive))] ++ steps i 3 ++
      [(i, .named "tmp01234567")]

/-- A check goes on after its trap to extract what it has verified, and another one downloads. -/
def orphaned : List (Program × Answer) :=
  checked .one [9] ++ (.one, .abandoned) :: (checked .two [8]).take 4 ++ steps .one 3

end Sample

-- Where a check goes on after its trap, what is staged need not be attested.
example : (Sample.host.after Sample.world (fun _ => .check) Sample.orphaned).releases.get? "1.1.0"
    = some (.release .first) ∧ Sample.world.attested [8] = false := by
  decide +kernel

end Updates

end PowerfarmKernel
