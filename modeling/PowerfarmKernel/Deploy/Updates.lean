import PowerfarmKernel.Deploy.Migrations
import PowerfarmKernel.Lib.Dict
import PowerfarmKernel.Lib.Outline

/-!
# Updates

An installation is brought up to date in two ways. Somebody runs `install.sh` or `update.sh` of
`deploy/macos` by hand, from a directory that holds a release. Or `check-update.sh` is started,
every few minutes and from the release that is active: it takes a lock, and
`update_from_github.py` asks for the latest release, downloads its archive, verifies the
checksum and the attestation, extracts it into a temporary directory below `releases/`, moves the
content to its place there, and runs the `update.sh` it finds in it. Any of this can fail, and be
killed, anywhere, and nothing but the lock of the checks keeps two of these programs from running
at a time.

A check is several processes, one below the other. Where one above is ended alone, the trap of the
shell removes the lock, and what is below goes on without it. Where the shell itself is killed,
what is below goes on as well, and nobody removes the lock (`PowerfarmKernel.Updates.Process`).

What the outside world does is left to the answers a process gets. A run is a list of moves, each
of one process. A move reads or writes a file as a whole.
-/

namespace PowerfarmKernel

namespace Updates

open Migrations (Pack File Database)

/-! ### Versions -/

/-- The digits of `int(part)`: groups of digits, with single underscores in between. -/
def digits (text : List Char) : Option ℕ :=
  let groups := text.splitOn '_'
  if groups.all fun g => g ≠ [] ∧ g.all Char.isDigit then
    some (groups.flatten.foldl (fun n c => 10 * n + (c.toNat - '0'.toNat)) 0)
  else none

/-- `int(part)`, of a text of ASCII characters. -/
def intOf (text : List Char) : Option ℤ :=
  match ((text.dropWhile Char.isWhitespace).reverse.dropWhile Char.isWhitespace).reverse with
  | '-' :: rest => (digits rest).map fun n => -(n : ℤ)
  | '+' :: rest => (digits rest).map fun n => (n : ℤ)
  | text => (digits text).map fun n => (n : ℤ)

/-- `value.removeprefix("v")`. -/
def removeV (value : String) : String :=
  match value.toList with
  | 'v' :: rest => .ofList rest
  | _ => value

/-- `version_tuple`, where `int` raises nothing. -/
def versionTuple (value : String) : Option (List ℤ) :=
  ((removeV value).toList.splitOn '.').mapM intOf

/-- `archive_name`. -/
def archiveName (version : String) : String := "powerfarm-" ++ version ++ "-macos-arm64.tar.gz"

/-- `checksum_name`. -/
def checksumName (version : String) : String := archiveName version ++ ".sha256"

/-- The root directory of an archive. -/
def packageRoot (version : String) : String := "powerfarm-" ++ version

/-- A name `tempfile.mkdtemp` tries. -/
def isTemporaryName (name : String) : Bool :=
  match name.toList with
  | 't' :: 'm' :: 'p' :: rest =>
      rest.length = 8 ∧ rest.all fun c => c.isLower ∨ c.isDigit ∨ c = '_'
  | _ => false

/-! ### Programs -/

/-- A step of `install.sh` or of `update.sh`, by the function it calls. -/
inductive Step where
  | writeInstalledEnv : Step
  | applyMigrations : Step
  | activateRelease : Step
  | writeWorkerRunner : Step
  /-- A function that changes nothing that is modelled here. It can fail. -/
  | other (name : String) : Step
deriving DecidableEq

/-- What both scripts do first. -/
def prepare : List Step :=
  [.other "require_macos", .other "load_env", .other "ensure_dirs", .writeInstalledEnv,
    .other "install_python_env", .applyMigrations, .other "ensure_supabase_storage",
    .other "configure_identity_services"]

/-- What both scripts do with the release that is active now. -/
def launch : List Step :=
  [.activateRelease, .writeWorkerRunner, .other "write_worker_plist",
    .other "launchd_load_worker", .other "ensure_cloudflare_tunnel",
    .other "write_cloudflared_config", .other "write_tunnel_plist", .other "launchd_load_tunnel",
    .other "write_updater_runner", .other "write_updater_plist", .other "launchd_load_updater"]

/-- `install.sh`. -/
def install : List Step := prepare ++ launch ++ [.other "write_receipt install"]

/-- `update.sh`. -/
def update : List Step :=
  prepare ++ .other "mirror_update_package" :: launch ++ [.other "write_receipt update"]

/-- The scripts that are run by hand. -/
inductive Script where
  | install : Script
  | update : Script
deriving DecidableEq

/-- The steps of a script. -/
def Script.steps : Script → List Step
  | .install => Updates.install
  | .update => Updates.update

/-- **What a process is started for**: `check-update.sh`, or a script of a directory that holds
a release, with an environment file. -/
inductive Job (τ : Type) where
  | check : Job τ
  | converge (script : Script) (root : τ) (env : String) : Job τ

/-- A process is started by hand. -/
def Job.IsByHand {τ : Type} : Job τ → Bool
  | .check => false
  | .converge _ _ _ => true

/-- Where `apply_supabase_migrations` is. -/
inductive Turn where
  /-- At the head of the loop, with these files to go. -/
  | loop (rest : List File) : Turn
  /-- The table of migrations exists. -/
  | reading (f : File) (rest : List File) : Turn
  /-- The version of the file is not recorded. -/
  | running (f : File) (rest : List File) : Turn
  /-- The file was run. -/
  | recording (f : File) (rest : List File) : Turn
deriving DecidableEq

/-- **Where a process is.** -/
inductive Point (τ : Type) where
  | idle : Point τ
  /-- `check-update.sh` of a version, before `mkdir`. -/
  | locking (current : String) : Point τ
  | fetching (current : String) : Point τ
  | downloading (version : String) : Point τ
  | expecting (version : String) : Point τ
  | hashing (version expected : String) : Point τ
  | attesting (version : String) : Point τ
  | staging (version : String) : Point τ
  /-- Before the temporary directory is made. -/
  | extracting (version : String) : Point τ
  | unpacking (version temporary : String) : Point τ
  | placing (version temporary : String) (extracted : τ) : Point τ
  /-- The temporary directory is removed, and then the release of a version is updated to. -/
  | cleaning (temporary : String) (next : Option String) : Point τ
  | updating (version : String) : Point τ
  /-- A script goes on with these steps, below a check or by hand. -/
  | converging (checking : Bool) (root : τ) (env : String) (todo : List Step) : Point τ
  | migrating (checking : Bool) (root : τ) (env : String) (todo : List Step) (turn : Turn) : Point τ
  /-- The trap of `check-update.sh`. -/
  | unlocking : Point τ
  | ended : Point τ

/-- **What the outside world answers** when a process takes a step: that a command succeeds or
fails, what the API of GitHub and a download return, and what becomes of the process. -/
inductive Answer where
  | done : Answer
  | fails : Answer
  /-- The tag of the latest release, and the names of its assets. -/
  | release (tagName : String) (assets : List String) : Answer
  /-- What was downloaded, to the end or not. -/
  | bytes (content : Bytes) (complete : Bool) : Answer
  /-- The first word of the file with the checksum. -/
  | expected (checksum : String) : Answer
  /-- A name for a temporary directory. -/
  | named (name : String) : Answer
  /-- All processes of a check are ended, or a script is, and the trap runs. -/
  | terminated : Answer
  /-- The processes are ended, and nothing of them runs any more. -/
  | killed : Answer
  /-- A process of a check is ended that has others below it, and the trap runs. -/
  | abandoned : Answer
  /-- The shell of a check is killed, without its trap, and what is below goes on. -/
  | detached : Answer
deriving DecidableEq

/-! ### The host -/

/-- **What is below `releases/`**: a release, or a temporary directory, which holds all or a part
of the content of an archive, or nothing yet. -/
inductive Below (τ : Type) where
  | release (root : τ) : Below τ
  | temporary (archive : Option Bytes) : Below τ
deriving DecidableEq

/-- **What the programs share.** -/
structure Host (ι σ τ : Type) where
  /-- `update.lock`, by the process that made it. -/
  lock : Option ι
  cache : Dict String Bytes
  releases : Dict String (Below τ)
  /-- What `current` links to. -/
  current : Option τ
  /-- The version `pf-worker` runs. -/
  runner : Option String
  db : Database σ

/-- What is installed. -/
structure Installation (σ τ : Type) where
  current : Option τ
  runner : Option String
  db : Database σ

variable {ι σ τ : Type}

/-- What is installed on a host. -/
def Host.installation (s : Host ι σ τ) : Installation σ τ := ⟨s.current, s.runner, s.db⟩

/-- The host, with something else installed. -/
def Host.install (s : Host ι σ τ) (I : Installation σ τ) : Host ι σ τ :=
  { s with current := I.current, runner := I.runner, db := I.db }

/-- **What the programs are built on**: `gh`, `tarfile`, the directories that hold releases,
and the file `check-update.sh` is told of. -/
structure World (σ τ : Type) extends Migrations.Tools σ where
  /-- `gh attestation verify`. -/
  attested : Bytes → Bool
  /-- A directory that an archive is extracted to. -/
  extract : Bytes → String → Option τ
  /-- What the scripts of a release read of the directory they are in. -/
  pack : τ → Pack
  /-- `PF_ENV_INSTALLED`. -/
  envInstalled : String

variable (W : World σ τ)

/-- How a process ends: the trap of `check-update.sh` is still to run. -/
def finish (checking : Bool) : Point τ := if checking then .unlocking else .ended

/-- A step of a script. -/
def Step.perform (checking : Bool) (root : τ) (env : String) (todo : List Step)
    (s : Host ι σ τ) : Step → Point τ × Host ι σ τ
  | .writeInstalledEnv =>
      -- `cp` fails for a file and itself.
      if env = W.envInstalled then (finish checking, s) else (.converging checking root env todo, s)
  | .applyMigrations => (.migrating checking root env todo (.loop (W.pack root).files), s)
  | .activateRelease => (.converging checking root env todo, { s with current := some root })
  | .writeWorkerRunner =>
      (.converging checking root env todo, { s with runner := some (W.pack root).version })
  | .other _ => (.converging checking root env todo, s)

/-- A statement of `apply_supabase_migrations`: what it goes on with, or nothing if it ends the
script. -/
def Turn.perform (root : τ) (db : Database σ) : Turn → Option (Turn × Database σ)
  | .loop [] => some (.loop [], db)
  | .loop (f :: rest) =>
      if db.ledger.isSome then some (.reading f rest, db) else some (.running f rest, db)
  | .reading f rest =>
      if db.existing f.version ≠ "" then
        if db.existing f.version = W.sha256 f.content then some (.loop rest, db) else none
      else some (.running f rest, db)
  | .running f rest => do
      let db ← db.run (W.script f.content)
      some (.recording f rest, db)
  | .recording f rest => do
      let db ← db.record W.toTools (W.pack root) f
      some (.loop rest, db)

/-- A process is started. The runner of the checks looks for the script below `current`. -/
def Job.start (s : Host ι σ τ) : Job τ → Point τ
  | .check =>
      match s.current with
      | some root => .locking (W.pack root).version
      | none => .ended
  | .converge script root env => .converging false root env script.steps

variable (job : ι → Job τ)

/-- **The next step of a process**, where its commands do not fail and it is not ended. Where it
was left alone, there is no trap to run any more. -/
def Point.step (i : ι) (alone : Bool) (answer : Answer) (s : Host ι σ τ) :
    Point τ → Point τ × Host ι σ τ
  | .idle => ((job i).start W s, s)
  | .locking current =>
      if s.lock.isSome then (.ended, s) else (.fetching current, { s with lock := some i })
  | .fetching current =>
      match answer with
      | .release tagName assets =>
          let version := removeV tagName
          match versionTuple version, versionTuple current with
          | some latest, some active =>
              if latest ≤ active then (.unlocking, s)
              else if archiveName version ∈ assets ∧ checksumName version ∈ assets then
                (.downloading version, s)
              else (.unlocking, s)
          | _, _ => (.unlocking, s)
      | _ => (.unlocking, s)
  | .downloading version =>
      match answer with
      | .bytes content complete =>
          (if complete then .expecting version else .unlocking,
            { s with cache := s.cache.set (archiveName version) content })
      | _ => (.unlocking, s)
  | .expecting version =>
      match answer with
      | .expected checksum => (.hashing version checksum, s)
      | _ => (.unlocking, s)
  | .hashing version expected =>
      match s.cache.get? (archiveName version) with
      | some archive =>
          if W.sha256 archive = expected then (.attesting version, s) else (.unlocking, s)
      | none => (.unlocking, s)
  | .attesting version =>
      match s.cache.get? (archiveName version) with
      | some archive => if W.attested archive then (.staging version, s) else (.unlocking, s)
      | none => (.unlocking, s)
  | .staging version =>
      if (s.releases.get? version).isSome then (.updating version, s) else (.extracting version, s)
  | .extracting version =>
      match answer with
      | .named name =>
          -- `mkdtemp` goes on to the next name where one is taken.
          if isTemporaryName name ∧ s.releases.get? name = none then
            (.unpacking version name, { s with releases := s.releases.set name (.temporary none) })
          else (.extracting version, s)
      | _ => (.unlocking, s)
  | .unpacking version temporary =>
      match s.cache.get? (archiveName version) with
      | some archive =>
          (match W.extract archive (packageRoot version) with
            | some extracted => .placing version temporary extracted
            | none => .cleaning temporary none,
            { s with releases := s.releases.set temporary (.temporary (some archive)) })
      | none => (.cleaning temporary none, s)
  | .placing version temporary extracted =>
      -- `os.replace` fails for a directory that is not empty.
      if (s.releases.get? version).isSome then (.cleaning temporary none, s)
      else (.cleaning temporary (some version),
        { s with releases := s.releases.set version (.release extracted) })
  | .cleaning temporary next =>
      (next.elim .unlocking .updating, { s with releases := s.releases.pop temporary })
  | .updating version =>
      match s.releases.get? version with
      | some (.release root) => (.converging true root W.envInstalled update, s)
      | _ => (.unlocking, s)
  | .converging checking _ _ [] => (finish checking, s)
  | .converging checking root env (step :: todo) => step.perform W checking root env todo s
  | .migrating checking root env todo (.loop []) => (.converging checking root env todo, s)
  | .migrating checking root env todo turn =>
      match turn.perform W root s.db with
      | some (turn, db) => (.migrating checking root env todo turn, { s with db := db })
      | none => (finish checking, s)
  | .unlocking => (.ended, if alone then s else { s with lock := none })
  | .ended => (.ended, s)

/-- A process is at a point between `mkdir` and `rmdir`. -/
def Point.holdsLock : Point τ → Bool
  | .idle | .locking _ | .ended => false
  | .converging checking _ _ _ | .migrating checking _ _ _ _ => checking
  | _ => true

/-- A process is ended: the trap runs, if it is set. -/
def Point.abort : Point τ → Point τ
  | .unlocking => .ended
  | k => finish k.holdsLock

/-- A command of a process fails: the temporary directory is removed first. -/
def Point.fail : Point τ → Point τ
  | .unpacking _ temporary | .placing _ temporary _ => .cleaning temporary none
  | k => k.abort

/-- Where an answer ends a process, or fails its command, what is left of it. -/
def Point.interrupted (k : Point τ) : Answer → Option (Point τ)
  | .killed => some .ended
  | .terminated => some k.abort
  | .fails => some k.fail
  | _ => none

/-- **A process**, with those above it: where it is, and whether it was left alone. -/
structure Process (τ : Type) where
  point : Point τ
  alone : Bool

/-- Nothing was started yet. -/
def Process.idle : Process τ := ⟨.idle, false⟩

/-- A process, or one above it, has made the lock, and its trap is set. -/
def Process.holdsLock (p : Process τ) : Bool := !p.alone && p.point.holdsLock

/-- **A move of a process.** It is left alone by a trap that runs, or without one. -/
def move (i : ι) (answer : Answer) (p : Process τ) (s : Host ι σ τ) :
    Process τ × Host ι σ τ :=
  if answer = .abandoned ∨ answer = .detached then
    if p.holdsLock then
      (⟨p.point, true⟩, if answer = .abandoned then { s with lock := none } else s)
    else (p, s)
  else
    match p.point.interrupted answer with
    | some k => (⟨k, p.alone⟩, s)
    | none =>
        let next := p.point.step W job i p.alone answer s
        (⟨next.1, p.alone⟩, next.2)

/-- **The host after some moves**, where nothing was started at first. -/
def Host.after [DecidableEq ι] (start : Host ι σ τ) (events : List (ι × Answer)) : Host ι σ τ :=
  (Outline.exec (move W job) ⟨start, fun _ => .idle⟩ events).shared

end Updates

end PowerfarmKernel
