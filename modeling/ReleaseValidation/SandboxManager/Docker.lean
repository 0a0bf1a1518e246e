import Mathlib.Data.Finset.Basic
import ReleaseValidation.Foundations.Ledgers
import ReleaseValidation.SandboxManager.SandboxTask

/-! # What one provisioning makes in Docker

The containers, the network and the snapshot volume of one sandbox, and the operations
of the provisioner on them. `containers.run` creates a container and then starts it: an
error of the start leaves the container behind. Every operation is a site of the
environment; the world holds what exists, and the container ids that have been recorded
for the teardown.
-/
namespace ReleaseValidation.SandboxManager.Provisioner
open Store Programs Programs.Program Programs.Ledger

inductive Container
  | anvil
  | node
  | database
  | evmReader
  | advancer
  | validator
  | claimer
  | jsonrpcApi
  | cliTools
  | cannonDeployer
  | tokenDeployer
  | appBuilder
  | snapshotLoader
  | restoreCopy
  | cacheCopy
  | hashReader
  | castPredict
  | castDeploy
  deriving DecidableEq, Repr

inductive Resource
  | container (c : Container)
  | network
  | snapshotVolume
  deriving DecidableEq, Repr

inductive DockerError
  | notFound (text : String)
  | other (text : String)
  deriving DecidableEq, Repr

namespace DockerError

def isNotFound : DockerError → Bool
  | notFound _ => true
  | other _ => false

def text : DockerError → String
  | notFound t | other t => t

end DockerError

/-- The operations that may raise, in the order of the source. -/
inductive Site
  | resolveCommit
  | cacheLookup
  | restoreVolume
  | clone
  | buildImage
  | imageDir
  | loadVolume
  | cacheVolume
  | evictCache
  | network
  | cannonImage
  | cachedAddresses
  | anvilCacheSave
  | cliImage
  | anvilLookup
  | factoryAddress
  | compose
  /-- The two halves of `containers.run`. -/
  | create (c : Container)
  | start (c : Container)
  /-- What is done with a temporary container before it is removed. -/
  | use (c : Container)
  /-- The look-up of a leftover of the same name. -/
  | stale (r : Resource)
  /-- The look-up in the teardown. -/
  | lookup (r : Resource)
  | stop (c : Container)
  | reload
  | remove (r : Resource)
  deriving DecidableEq, Repr

structure Env where
  fault : Site → Option (Fault DockerError)
  /-- The worker thread is not stopped. -/
  running : ∀ site, fault site ≠ some .stop
  anvilHealthy : Bool
  databaseHealthy : Bool
  /-- Some cached build of the application exists. -/
  cachedBuild : Bool
  /-- The anvil state cache has an entry. -/
  anvilCached : Bool
  /-- `DEPLOY_DEFAULT_APP`. -/
  deployDefaultApp : Bool
  /-- `SANDBOX_HEALTH_TIMEOUT`. -/
  healthTimeout : ℕ

/-- What the call has created and what still exists of it, and its list `container_ids`. -/
structure World where
  existing : Finset Resource
  containerIds : List Container

abbrev Task (α : Type) := Program World DockerError α

/-- What a state is looked at for. -/
inductive Fact
  | present (r : Resource)
  | recorded (c : Container)
  deriving DecidableEq, Repr

namespace World

def Holds (w : World) : Fact → Prop
  | .present r => r ∈ w.existing
  | .recorded c => c ∈ w.containerIds

def nothing : World := ⟨∅, []⟩

def add (r : Resource) (w : World) : World := { w with existing := insert r w.existing }
def del (r : Resource) (w : World) : World := { w with existing := w.existing.erase r }

/-- `container_ids.extend(cids)`. -/
def record (cs : List Container) (w : World) : World := { w with containerIds := w.containerIds ++ cs }

theorem not_holds_nothing (f : Fact) : ¬ nothing.Holds f := by
  cases f <;> simp [Holds, nothing]

theorem holds_add (r : Resource) (w : World) (f : Fact) :
    (w.add r).Holds f ↔ w.Holds f ∨ f = .present r := by
  cases f with
  | present r' => simp [Holds, add, or_comm]
  | recorded c => simp [Holds, add]

theorem holds_del (r : Resource) (w : World) (f : Fact) :
    (w.del r).Holds f ↔ w.Holds f ∧ f ≠ .present r := by
  cases f with
  | present r' => simp [Holds, del, and_comm]
  | recorded c => simp [Holds, del]

theorem holds_record (cs : List Container) (w : World) (f : Fact) :
    (w.record cs).Holds f ↔ w.Holds f ∨ ∃ c ∈ cs, f = .recorded c := by
  cases f with
  | present r => simp [Holds, record]
  | recorded c => simp [Holds, record]

end World

variable (env : Env)

def check (site : Site) : Task Unit := await (env.fault site) (pure ())

def create (site : Site) (r : Resource) : Task Unit := await (env.fault site) (write (World.add r))

/-- `containers.run(…, detach=True)`. -/
def runContainer (c : Container) : Task Unit := do
  create env (.create c) (.container c)
  check env (.start c)

def remove (r : Resource) : Task Unit := await (env.fault (.remove r)) (write (World.del r))

def checkAll : List Site → Task Unit
  | [] => pure ()
  | site :: sites => do
    check env site
    checkAll sites

/-- `try: …; ….remove(force=True)  except Exception: …`. -/
def removeAfter (sites : List Site) (r : Resource) : Task Unit :=
  tryExcept (checkAll env sites >>= fun _ => remove env r) (fun _ => true) (fun _ => pure ())

def discard (r : Resource) : Task Unit := removeAfter env [] r

/-- The removal of a leftover, with the look-up by name before it. -/
def discardStale (r : Resource) : Task Unit := removeAfter env [.stale r] r

/-- A container that is run, used and removed in a `finally` block. -/
def withTemporary (c : Container) : Task Unit := do
  runContainer env c
  tryFinally (check env (.use c)) (discard env (.container c))

/-- The same, after a leftover of the same name has been removed. -/
def replaceTemporary (c : Container) : Task Unit := do
  discardStale env (.container c)
  withTemporary env c

/-- `raise e`, unless the wait before it answered yes. -/
def require (b : Bool) (e : DockerError) : Task Unit := if b then pure () else raise e

/-- `except Exception as exc: raise RuntimeError(wrap(exc))`. -/
def wrapped (wrap : String → String) (m : Task Unit) : Task Unit :=
  tryExcept m (fun _ => true) (fun e => raise (.other (wrap e.text)))

/-! ### The ledgers of the operations -/

abbrev Account := Ledger DockerError Fact

/-- The error that a site raises. -/
def errorAt (site : Site) : Option DockerError := (env.fault site).bind Fault.error

/-- The error of the first of the sites, in program order, that raises one. -/
def firstError (sites : List Site) : Option DockerError := sites.findSome? (errorAt env)

def checkAccount (site : Site) : Account := idle (errorAt env site)

def createAccount (site : Site) (r : Resource) : Account :=
  ⟨errorAt env site, fun _ => False, fun f => f = .present r ∧ Effective (env.fault site)⟩

def runAccount (c : Container) : Account :=
  (createAccount env (.create c) (.container c)).seq (checkAccount env (.start c))

def removeAccount (r : Resource) : Account :=
  ⟨errorAt env (.remove r), fun f => f = .present r ∧ Effective (env.fault (.remove r)), fun _ => False⟩

def removeAfterAccount (sites : List Site) (r : Resource) : Account where
  failure := none
  removes f := f = .present r ∧ firstError env sites = none ∧ Effective (env.fault (.remove r))
  makes _ := False

def withTemporaryAccount (c : Container) : Account :=
  (runAccount env c).seq ((checkAccount env (.use c)).cleanedBy (removeAfterAccount env [] (.container c)))

def replaceTemporaryAccount (c : Container) : Account :=
  (removeAfterAccount env [.stale (.container c)] (.container c)).seq (withTemporaryAccount env c)

def wrappedAccount (wrap : String → String) (x : Account) : Account := x.rethrow (fun e => .other (wrap e.text))

def requireAccount (b : Bool) (e : DockerError) : Account := idle (if b then none else some e)

def recordAccount (cs : List Container) : Account := ⟨none, fun _ => False, fun f => ∃ c ∈ cs, f = .recorded c⟩

theorem firstError_cons (site : Site) (sites : List Site) :
    firstError env (site :: sites) = (errorAt env site).or (firstError env sites) := by
  unfold firstError
  cases h : errorAt env site <;> simp [h]

theorem firstError_append (xs ys : List Site) :
    firstError env (xs ++ ys) = (firstError env xs).or (firstError env ys) := List.findSome?_append

@[simp] theorem firstError_nil : firstError env [] = none := rfl

theorem check_follows (site : Site) : Follows World.Holds (check env site) () (checkAccount env site) := by
  have hpure : Follows World.Holds (Pure.pure () : Task Unit) () (idle none) := Follows.pure ()
  have h := hpure.await (env.running site) rfl
  exact h.congr rfl (fun f => by simp [checkAccount]) (fun f => by simp [checkAccount])

theorem create_follows (site : Site) (r : Resource) :
    Follows World.Holds (create env site r) () (createAccount env site r) := by
  have hadd : Follows World.Holds (write (World.add r) : Task Unit) () _ := Follows.write_make (World.holds_add r)
  have h := hadd.await (env.running site) rfl
  exact h.congr rfl (fun f => by simp [createAccount]) (fun f => .rfl)

theorem remove_follows (r : Resource) : Follows World.Holds (remove env r) () (removeAccount env r) := by
  have hdel : Follows World.Holds (write (World.del r) : Task Unit) () _ := Follows.write_remove (World.holds_del r)
  have h := hdel.await (env.running (.remove r)) rfl
  exact h.congr rfl (fun f => .rfl) (fun f => by simp [removeAccount])

theorem record_follows (cs : List Container) :
    Follows World.Holds (write (World.record cs) : Task Unit) () (recordAccount cs) :=
  Follows.write_make (World.holds_record cs)

theorem require_follows (b : Bool) (e : DockerError) :
    Follows World.Holds (require b e) () (requireAccount b e) := by
  cases b with
  | true => exact Follows.pure ()
  | false => exact Follows.raise e ()

theorem wrapped_follows {m : Task Unit} {x : Account} (hm : Follows World.Holds m () x) (wrap : String → String) :
    Follows World.Holds (wrapped wrap m) () (wrappedAccount wrap x) :=
  hm.rethrow (fun e => .other (wrap e.text))

@[simp] theorem require_failure (b : Bool) (e : DockerError) : (requireAccount b e).failure = none ↔ b = true := by
  cases b <;> simp [requireAccount]

@[simp] theorem require_removes (b : Bool) (e : DockerError) (f : Fact) : ¬ (requireAccount b e).removes f := id
@[simp] theorem require_makes (b : Bool) (e : DockerError) (f : Fact) : ¬ (requireAccount b e).makes f := id

theorem runContainer_follows (c : Container) : Follows World.Holds (runContainer env c) () (runAccount env c) :=
  (create_follows env (.create c) (.container c)).seq (check_follows env (.start c))

theorem checkAll_follows (sites : List Site) :
    Follows World.Holds (checkAll env sites) () (idle (firstError env sites)) := by
  induction sites with
  | nil => exact Follows.pure ()
  | cons site sites ih =>
    have h := (check_follows env site).seq ih
    rw [firstError_cons]
    exact h.congr rfl (fun f => by simp [seq_removes, checkAccount]) (fun f => by simp [seq_makes, checkAccount])

theorem removeAfter_follows (sites : List Site) (r : Resource) :
    Follows World.Holds (removeAfter env sites r) () (removeAfterAccount env sites r) := by
  have h := ((checkAll_follows env sites).seq (remove_follows env r)).recover (fun _ => true) ()
  refine h.congr (by simp [recover, removeAfterAccount]) (fun f => ?_) (fun f => ?_)
  · simp [seq_removes, removeAccount, removeAfterAccount, and_left_comm]
  · simp [seq_makes, removeAccount, removeAfterAccount]

theorem withTemporary_follows (c : Container) :
    Follows World.Holds (withTemporary env c) () (withTemporaryAccount env c) :=
  (runContainer_follows env c).seq ((check_follows env (.use c)).tryFinally (removeAfter_follows env [] (.container c)))

theorem replaceTemporary_follows (c : Container) :
    Follows World.Holds (replaceTemporary env c) () (replaceTemporaryAccount env c) :=
  (removeAfter_follows env [.stale (.container c)] (.container c)).seq (withTemporary_follows env c)

/-! ### What the operations leave -/

/-- The removals that are attempted succeed. -/
def RemovalsSucceed (env : Env) : Prop := ∀ r, env.fault (.remove r) = none

/-- The sites of `containers.run`, and of a container that is run and used. -/
def runs (c : Container) : List Site := [.create c, .start c]
def uses (c : Container) : List Site := [.create c, .start c, .use c]

/-- `containers.run` creates the container and raises. -/
def Spills (c : Container) : Prop := Effective (env.fault (.create c)) ∧ firstError env (runs c) ≠ none

theorem run_failure (c : Container) : (runAccount env c).failure = firstError env (runs c) := by
  simp [runs, firstError_cons, runAccount, seq, createAccount, checkAccount]

@[simp] theorem run_removes (c : Container) (f : Fact) : ¬ (runAccount env c).removes f := by
  simp [runAccount, seq_removes, createAccount, checkAccount]

@[simp] theorem run_makes (c : Container) (f : Fact) :
    (runAccount env c).makes f ↔ f = .present (.container c) ∧ Effective (env.fault (.create c)) := by
  simp [runAccount, seq_makes, createAccount, checkAccount]

variable {env}

@[simp] theorem removeAfter_failure (sites : List Site) (r : Resource) :
    (removeAfterAccount env sites r).failure = none := rfl

@[simp] theorem removeAfter_makes (sites : List Site) (r : Resource) (f : Fact) :
    ¬ (removeAfterAccount env sites r).makes f := id

theorem removeAfter_removes (h : RemovalsSucceed env) (sites : List Site) (r : Resource) (f : Fact) :
    (removeAfterAccount env sites r).removes f ↔ f = .present r ∧ firstError env sites = none := by
  simp [removeAfterAccount, h r]

theorem withTemporary_failure (c : Container) :
    (withTemporaryAccount env c).failure = firstError env (uses c) := by
  simp only [withTemporaryAccount, seq, cleanedBy, run_failure, removeAfter_failure, Option.none_or]
  simp [uses, runs, firstError_cons, checkAccount, Option.or_assoc]

theorem withTemporary_removes (h : RemovalsSucceed env) (c : Container) (f : Fact) :
    (withTemporaryAccount env c).removes f ↔ f = .present (.container c) ∧ firstError env (runs c) = none := by
  simp [withTemporaryAccount, seq_removes, cleanedBy, checkAccount, removeAfter_removes h, run_failure, and_comm]

theorem withTemporary_makes (h : RemovalsSucceed env) (c : Container) (f : Fact) :
    (withTemporaryAccount env c).makes f ↔ f = .present (.container c) ∧ Spills env c := by
  simp only [withTemporaryAccount, seq_makes, cleanedBy, run_makes, run_failure, removeAfter_removes h,
    removeAfter_makes, checkAccount, idle_makes, idle_removes, firstError_nil, Spills]
  grind

theorem replaceTemporary_failure (c : Container) :
    (replaceTemporaryAccount env c).failure = firstError env (uses c) := by
  simp [replaceTemporaryAccount, seq, withTemporary_failure]

theorem replaceTemporary_removes (h : RemovalsSucceed env) (c : Container) (f : Fact) :
    (replaceTemporaryAccount env c).removes f ↔ f = .present (.container c) ∧
      (firstError env [.stale (.container c)] = none ∨ firstError env (runs c) = none) := by
  simp only [replaceTemporaryAccount, seq_removes, removeAfter_removes h, removeAfter_failure,
    withTemporary_removes h, true_and, and_or_left]

theorem replaceTemporary_makes (h : RemovalsSucceed env) (c : Container) (f : Fact) :
    (replaceTemporaryAccount env c).makes f ↔ f = .present (.container c) ∧ Spills env c := by
  simp [replaceTemporaryAccount, seq_makes, withTemporary_makes h]

theorem withTemporary_within (h : RemovalsSucceed env) (c : Container) :
    (withTemporaryAccount env c).Within (· = .present (.container c)) := by
  rintro f (hf | hf)
  · exact ((withTemporary_removes h c f).mp hf).1
  · exact ((withTemporary_makes h c f).mp hf).1

theorem replaceTemporary_within (h : RemovalsSucceed env) (c : Container) :
    (replaceTemporaryAccount env c).Within (· = .present (.container c)) := by
  rintro f (hf | hf)
  · exact ((replaceTemporary_removes h c f).mp hf).1
  · exact ((replaceTemporary_makes h c f).mp hf).1

end ReleaseValidation.SandboxManager.Provisioner
