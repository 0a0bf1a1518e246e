import Mathlib.Data.List.Sort
import ReleaseValidation.Foundations.Parties
import ReleaseValidation.Foundations.Runs
import ReleaseValidation.Foundations.Tables
import ReleaseValidation.SandboxManager.GarbageCollector

/-! # The build cache of the applications

Each provisioning fills its own snapshot volume, from a cache volume or by a build, and
saves what it has built. A cache volume counts as a build because it exists: it is
created first and filled afterwards, by a container that copies into it. Only the
provisionings of one key wait for each other; the fallback waits for nobody.
-/
namespace ReleaseValidation.SandboxManager.BuildCache
open Parties Runs Store Tables

/-- What a build is made from. -/
structure Build where
  url : String
  cli : String
  commit : String
  deriving DecidableEq, Repr

inductive VolumeName
  /-- `rvp-cache-{key}` -/
  | cache (key : String)
  /-- `rvp-snapshot-{short}` -/
  | snapshot (short : String)
  deriving DecidableEq, Repr

/-- The labels of a cache volume that its readers filter by, sort by or report. -/
structure CacheLabels where
  appUrlHash : String
  cliVersion : String
  commitSha : String
  builtAt : ℕ
  deriving DecidableEq, Repr

/-- The files in a volume. -/
inductive Contents
  | empty
  /-- Some of the files that the task at position `i` copies, over what was there before. -/
  | unfinished (i : ℕ)
  /-- The snapshot of a successful build, and nothing else. -/
  | whole (b : Build)
  | other
  deriving DecidableEq, Repr

/-- What `before` becomes when all of `src` has been copied over it. -/
def Contents.overlay (before src : Contents) : Contents :=
  match before, src with
  | before, .empty => before
  | .empty, .whole b => .whole b
  | .whole b, .whole c => if b = c then .whole b else .other
  | _, _ => .other

structure Volume where
  /-- None when the volume was not created by a save. -/
  labels : Option CacheLabels
  contents : Contents
  deriving DecidableEq, Repr

/-- A clone of the repository, with the machine image under `.cartesi/image` once it is built. -/
structure BuildDir where
  url : String
  commit : String
  image : Option Build
  deriving DecidableEq, Repr

structure Request where
  sandboxId : Uuid
  url : String
  cli : String
  deriving DecidableEq, Repr

/-- A volume that is created and then filled by a copy. -/
inductive Job
  /-- `_create_volume_from_cache_sync` -/
  | restore (key : String)
  /-- The last part of `_build_app_sync` -/
  | load
  /-- `_save_snapshot_to_cache_sync` -/
  | save
  deriving DecidableEq, Repr

inductive FillStep
  /-- A volume of the name is about to be removed. -/
  | clearing
  | creating
  | starting
  /-- The copy runs; `before` was in the volume, and `seen` in the source, when it started. -/
  | copying (before seen : Contents)
  deriving DecidableEq, Repr

/-- How far a call of `_get_or_build_app_sync` has come. -/
inductive Phase
  | resolving
  /-- The commit could not be resolved. -/
  | fallback
  | locking
  | lookup
  | cloning
  | compiling
  | filling (job : Job) (st : FillStep)
  /-- The first step of `_evict_old_build_cache_sync`. -/
  | listing
  | evicting (victims : List VolumeName)
  /-- It has returned or raised, or its process has ended. -/
  | ended
  deriving DecidableEq, Repr

/-- Past the acquisition of the lock, if it is to be held at all. -/
def Phase.isLocked : Phase → Bool
  | .resolving | .fallback | .locking | .ended => false
  | _ => true

structure Task where
  request : Request
  /-- The resolved commit. -/
  sha : Option String
  phase : Phase
  deriving DecidableEq, Repr

namespace Task

def short (t : Task) : String := GarbageCollector.short t.request.sandboxId

def build (t : Task) : Option Build := t.sha.map fun commit => ⟨t.request.url, t.request.cli, commit⟩

def inProgress (t : Task) : Bool := decide (t.phase ≠ .ended)

def locked (t : Task) : Bool := t.phase.isLocked && t.sha.isSome

/-- It is saving a build, and the cache volume is created but not filled. -/
def saving (t : Task) : Bool :=
  match t.phase with
  | .filling .save .starting | .filling .save (.copying ..) => true
  | _ => false

end Task

structure State where
  volumes : Table VolumeName Volume
  dirs : Table String BuildDir
  tasks : List Task

def initial : State := ⟨∅, ∅, []⟩

inductive Event
  | resolve (sha : Option String)
  /-- The volume that `_find_latest_cache_volume_sync` returns, if any. -/
  | fallback (choice : Option String)
  | lock
  | lookup
  /-- `head` is what the remote `HEAD` is by now. -/
  | clone (head : String)
  | compile
  | clear (removed : Bool)
  | create (now : ℕ)
  /-- The container of the copy starts. -/
  | start
  /-- It exits with status 0. -/
  | finish
  | list (listed : Bool)
  | evict (removed : Bool)
  /-- An exception, or the end of the process. The container of a copy is gone with it. -/
  | fail (notFound : Bool)
  deriving DecidableEq, Repr

inductive Act
  | begin (r : Request)
  | at (i : ℕ) (e : Event)
  /-- A volume is removed from outside, as by the garbage collector. -/
  | drop (name : VolumeName)
  | dropDir (short : String)
  deriving DecidableEq, Repr

-- `hash` stands for the first 16 hexadecimal digits of the SHA-256 digest
variable (hash : String → String)

def cacheKey (b : Build) : String := hash (b.url ++ ":" ++ b.cli ++ ":" ++ b.commit)

namespace Task

def key (t : Task) : Option String := t.build.map (cacheKey hash)

/-- It holds the lock of `key`. -/
def holds (key : String) (t : Task) : Bool := t.locked && t.key hash == some key

/-- The volume that the job fills. -/
def target (t : Task) : Job → Option VolumeName
  | .restore _ | .load => some (.snapshot t.short)
  | .save => (t.key hash).map .cache

/-- The volume that the job copies from; a build is loaded from its directory. -/
def sourceVolume (t : Task) : Job → Option VolumeName
  | .restore key => some (.cache key)
  | .load => none
  | .save => some (.snapshot t.short)

def labels (t : Task) (now : ℕ) : Job → Option CacheLabels
  | .save => t.build.map fun b => ⟨hash b.url, b.cli, b.commit, now⟩
  | _ => none

/-- Its copy has the volume mounted. -/
def uses (t : Task) (name : VolumeName) : Bool :=
  match t.phase with
  | .filling job (.copying ..) => t.target hash job == some name || t.sourceVolume job == some name
  | _ => false

/-- What follows once the job's volume is filled. -/
def afterFill (t : Task) : Job → Phase
  | .restore _ => .ended
  | .load => if t.sha.isSome then .filling .save .clearing else .ended
  | .save => .listing

/-- Where an exception leads: `NotFound` from a restore under the lock counts as a miss. -/
def afterFail (t : Task) (notFound : Bool) : Phase :=
  match t.phase with
  | .filling (.restore _) _ => if notFound && t.sha.isSome then .cloning else .ended
  | _ => .ended

end Task

/-- `git ls-remote` has printed a commit. -/
def isCommitSha (c : String) : Bool := c.length == 40 && c.toList.all (· ∈ "0123456789abcdef".toList)

namespace State

/-- The files that the job copies, if its source is there. -/
def source (s : State) (t : Task) : Job → Option Contents
  | .load => ((s.dirs.lookup t.short).bind BuildDir.image).map .whole
  | .restore key => (s.volumes.lookup (.cache key)).map Volume.contents
  | .save => (s.volumes.lookup (.snapshot t.short)).map Volume.contents

def inUse (s : State) (name : VolumeName) : Bool := s.tasks.any (·.uses hash name)

/-- Docker refuses to remove a volume that a container has mounted. -/
def remove (s : State) (name : VolumeName) (removed : Bool) : Table VolumeName Volume :=
  if removed && !s.inUse hash name then s.volumes.erase name else s.volumes

/-- The volumes with the labels of an application, in the order in which Docker lists them. -/
def labelled (s : State) (url : String) : List (VolumeName × CacheLabels) :=
  s.volumes.entries.filterMap fun e =>
    e.2.labels.bind fun l => if l.appUrlHash = hash url then some (e.1, l) else none

/-- The volume may be the one that `_find_latest_cache_volume_sync` returns. -/
def isLatest (s : State) (t : Task) (key : String) : Bool :=
  let found := (s.labelled hash t.request.url).filter (·.2.cliVersion = t.request.cli)
  found.any fun x => x.1 = .cache key && found.all (·.2.builtAt ≤ x.2.builtAt)

/-- The oldest volumes of the application, all but `keep` of them. -/
def victims (s : State) (url : String) (keep : ℕ) : List VolumeName :=
  let found := (s.labelled hash url).insertionSort (·.2.builtAt ≤ ·.2.builtAt)
  (found.take (found.length - keep)).map Prod.fst

/-- The container mounts its volumes: one that is missing is created, without labels. -/
def mount (s : State) (t : Task) (job : Job) (dst : VolumeName) : Table VolumeName Volume :=
  claimAll s.volumes (((t.sourceVolume job).toList ++ [dst]).map fun name => (name, ⟨none, .empty⟩))

/-- The copy of the task at position `i` writes to the volume; of two copies at a time
neither leaves a whole snapshot. -/
def beginCopy (i : ℕ) (v : Volume) : Volume :=
  { v with contents := match v.contents with | .unfinished _ => .other | _ => .unfinished i }

/-- The copy is over. The source has to be what it was when the copy started. -/
def endCopy (s : State) (i : ℕ) (t : Task) (job : Job) (before seen : Contents) (v : Volume) : Volume :=
  { v with contents :=
      if v.contents = .unfinished i ∧ s.source t job = some seen then before.overlay seen else .other }

/-- The task at position `i` goes on as `t`. -/
def put (s : State) (i : ℕ) (t : Task) : State := { s with tasks := s.tasks.set i t }

/-- `keep` is `APP_CACHE_MAX_PER_APP`. -/
def stepAt (keep : ℕ) (s : State) (i : ℕ) (t : Task) : Event → Option State
  | .resolve sha =>
    match t.phase, sha with
    | .resolving, some c => if isCommitSha c then some (s.put i { t with sha := some c, phase := .locking }) else none
    | .resolving, none => some (s.put i { t with phase := .fallback })
    | _, _ => none
  | .fallback choice =>
    match t.phase, choice with
    -- the listing has failed, or has found nothing
    | .fallback, none => some (s.put i { t with phase := .cloning })
    | .fallback, some key =>
      if s.isLatest hash t key then some (s.put i { t with phase := .filling (.restore key) .clearing }) else none
    | _, _ => none
  | .lock =>
    match t.phase, t.key hash with
    | .locking, some key =>
      if s.tasks.any (·.holds hash key) then none else some (s.put i { t with phase := .lookup })
    | _, _ => none
  | .lookup =>
    match t.phase, t.key hash with
    | .lookup, some key =>
      if VolumeName.cache key ∈ s.volumes then some (s.put i { t with phase := .filling (.restore key) .clearing })
      else some (s.put i { t with phase := .cloning })
    | _, _ => none
  | .clone head =>
    match t.phase with
    | .cloning =>
      some { s.put i { t with phase := .compiling } with dirs := s.dirs.insert t.short ⟨t.request.url, head, none⟩ }
    | _ => none
  | .compile =>
    match t.phase, s.dirs.lookup t.short with
    | .compiling, some d =>
      some { s.put i { t with phase := .filling .load .clearing } with
        dirs := s.dirs.insert t.short { d with image := some ⟨d.url, t.request.cli, d.commit⟩ } }
    | _, _ => none
  | .clear removed =>
    match t.phase with
    | .filling job .clearing =>
      (t.target hash job).map fun dst =>
        { s.put i { t with phase := .filling job .creating } with volumes := s.remove hash dst removed }
    | _ => none
  | .create now =>
    match t.phase with
    | .filling job .creating =>
      -- Docker returns a volume of the name as it is, with the labels that it has
      (t.target hash job).map fun dst =>
        { s.put i { t with phase := .filling job .starting } with
          volumes := claim s.volumes (dst, ⟨t.labels hash now job, .empty⟩) }
    | _ => none
  | .start =>
    match t.phase with
    | .filling job .starting =>
      (t.target hash job).bind fun dst => ((s.mount t job dst).lookup dst).map fun v =>
        { s.put i { t with phase := .filling job (.copying v.contents ((s.source t job).getD .empty)) } with
          volumes := (s.mount t job dst).insert dst (beginCopy i v) }
    | _ => none
  | .finish =>
    match t.phase with
    | .filling job (.copying before seen) =>
      (t.target hash job).bind fun dst => (s.volumes.lookup dst).map fun v =>
        { s.put i { t with phase := t.afterFill job } with
          volumes := s.volumes.insert dst (s.endCopy i t job before seen v) }
    | _ => none
  | .list listed =>
    match t.phase with
    | .listing =>
      some (s.put i { t with phase := if listed then .evicting (s.victims hash t.request.url keep) else .ended })
    | _ => none
  | .evict removed =>
    match t.phase with
    | .evicting [] => some (s.put i { t with phase := .ended })
    | .evicting (name :: names) =>
      some { s.put i { t with phase := .evicting names } with volumes := s.remove hash name removed }
    | _ => none
  | .fail notFound => if t.inProgress then some (s.put i { t with phase := t.afterFail notFound }) else none

end State

def step (keep : ℕ) (s : State) : Act → Option State
  | .begin r => some { s with tasks := s.tasks ++ [⟨r, none, .resolving⟩] }
  | .at i e => s.tasks[i]?.bind fun t => s.stepAt hash keep i t e
  | .drop name => some { s with volumes := s.remove hash name true }
  | .dropDir short => some { s with dirs := s.dirs.erase short }

/-- A cache volume that the lookup takes for a hit holds a whole build of its key, and one
that the fallback selects a whole build of the same application with the same CLI. -/
def HitsValid (s : State) : Act → State → Prop
  | .at i .lookup, _ => ∀ t ∈ s.tasks[i]?, ∀ b ∈ t.build, ∀ v ∈ s.volumes.lookup (.cache (cacheKey hash b)),
      v.contents = .whole b
  | .at i (.fallback (some key)), _ => ∀ t ∈ s.tasks[i]?, ∀ v ∈ s.volumes.lookup (.cache key),
      ∃ commit, v.contents = .whole ⟨t.request.url, t.request.cli, commit⟩
  | _, _ => True

end ReleaseValidation.SandboxManager.BuildCache
