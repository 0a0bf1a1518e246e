import ReleaseValidation.SandboxManager.Docker

/-! # The application build phase

The snapshot volume of the sandbox is restored from the build cache or freshly built.
The build runs in temporary containers, and so do the copies of a volume.
-/
namespace ReleaseValidation.SandboxManager.Provisioner
open Programs Programs.Program Programs.Ledger

variable (env : Env)

/-- A fresh snapshot volume, filled through the container `c`. -/
def fillVolume (site : Site) (c : Container) : Task Unit := do
  discardStale env .snapshotVolume
  create env site .snapshotVolume
  replaceTemporary env c

/-- `_create_volume_from_cache_sync`. -/
def createVolumeFromCache : Task Unit := fillVolume env .restoreVolume .restoreCopy

/-- `_build_app_sync`. -/
def buildApp : Task Unit := do
  check env .clone
  check env .buildImage
  replaceTemporary env .appBuilder
  check env .imageDir
  fillVolume env .loadVolume .snapshotLoader

/-- `_save_snapshot_to_cache_sync`. The cache volume does not belong to the sandbox. -/
def saveSnapshotToCache : Task Unit := do
  check env .cacheVolume
  replaceTemporary env .cacheCopy

def resolveCommit : Task Bool :=
  tryExcept (check env .resolveCommit >>= fun _ => pure true) (fun _ => true) (fun _ => pure false)

/-- The cached build is there and has been restored. -/
def restoreCached : Task Bool :=
  tryExcept (check env .cacheLookup >>= fun _ => createVolumeFromCache env >>= fun _ => pure true)
    DockerError.isNotFound (fun _ => pure false)

/-- `_get_or_build_app_sync`. -/
def getOrBuildApp : Task Unit := do
  if ← resolveCommit env then
    unless ← restoreCached env do
      buildApp env
      tryExcept (saveSnapshotToCache env >>= fun _ => check env .evictCache) (fun _ => true) (fun _ => pure ())
  else if env.cachedBuild then createVolumeFromCache env
  else buildApp env

/-! ### Accounts -/

def fillAccount (site : Site) (c : Container) : Account :=
  (removeAfterAccount env [.stale .snapshotVolume] .snapshotVolume).seq
    ((createAccount env site .snapshotVolume).seq (replaceTemporaryAccount env c))

def buildAccount : Account :=
  (checkAccount env .clone).seq ((checkAccount env .buildImage).seq ((replaceTemporaryAccount env .appBuilder).seq
    ((checkAccount env .imageDir).seq (fillAccount env .loadVolume .snapshotLoader))))

def saveAccount : Account :=
  (((checkAccount env .cacheVolume).seq (replaceTemporaryAccount env .cacheCopy)).seq
    (checkAccount env .evictCache)).recover (fun _ => true)

def lookupAccount : Account :=
  (checkAccount env .cacheLookup).seq ((fillAccount env .restoreVolume .restoreCopy).seq (idle none))

def getOrBuildAccount : Account :=
  (((checkAccount env .resolveCommit).seq (idle none)).recover (fun _ => true)).seq <|
    if errorAt env .resolveCommit = none then
      ((lookupAccount env).recover DockerError.isNotFound).seq <|
        if (lookupAccount env).failure = none then idle none else (buildAccount env).seq (saveAccount env)
    else if env.cachedBuild then fillAccount env .restoreVolume .restoreCopy
    else buildAccount env

theorem fillVolume_follows (site : Site) (c : Container) :
    Follows World.Holds (fillVolume env site c) () (fillAccount env site c) :=
  (removeAfter_follows env [.stale .snapshotVolume] .snapshotVolume).seq
    ((create_follows env site .snapshotVolume).seq (replaceTemporary_follows env c))

theorem buildApp_follows : Follows World.Holds (buildApp env) () (buildAccount env) :=
  (check_follows env .clone).seq ((check_follows env .buildImage).seq
    ((replaceTemporary_follows env .appBuilder).seq ((check_follows env .imageDir).seq
      (fillVolume_follows env .loadVolume .snapshotLoader))))

theorem save_follows :
    Follows World.Holds
      (tryExcept (saveSnapshotToCache env >>= fun _ => check env .evictCache) (fun _ => true) (fun _ => pure ()))
      () (saveAccount env) := by
  have hsave : Follows World.Holds (saveSnapshotToCache env) () _ :=
    (check_follows env .cacheVolume).seq (replaceTemporary_follows env .cacheCopy)
  exact (hsave.seq (check_follows env .evictCache)).recover (fun _ => true) ()

theorem resolveCommit_follows :
    Follows World.Holds (resolveCommit env) (decide (errorAt env .resolveCommit = none))
      (((checkAccount env .resolveCommit).seq (idle none)).recover (fun _ => true)) := by
  have hcheck : Follows World.Holds (check env .resolveCommit >>= fun _ => (pure true : Task Bool)) true _ :=
    (check_follows env .resolveCommit).seq (Follows.pure true)
  have h := hcheck.recover (fun _ => true) false
  simpa [resolveCommit, checkAccount] using h

theorem restoreCached_follows :
    Follows World.Holds (restoreCached env) (decide ((lookupAccount env).failure = none))
      ((lookupAccount env).recover DockerError.isNotFound) := by
  have hlookup : Follows World.Holds
      (check env .cacheLookup >>= fun _ => createVolumeFromCache env >>= fun _ => (pure true : Task Bool))
      true (lookupAccount env) :=
    (check_follows env .cacheLookup).seq
      ((fillVolume_follows env .restoreVolume .restoreCopy).seq (Follows.pure true))
  have h := hlookup.recover DockerError.isNotFound false
  simpa [restoreCached] using h

theorem getOrBuildApp_follows : Follows World.Holds (getOrBuildApp env) () (getOrBuildAccount env) := by
  apply (resolveCommit_follows env).bind
  by_cases hresolved : errorAt env .resolveCommit = none
  · simp only [hresolved, decide_true, ↓reduceIte]
    apply (restoreCached_follows env).bind
    by_cases hhit : (lookupAccount env).failure = none
    · simp only [hhit, decide_true, ↓reduceIte]
      exact Follows.pure ()
    · simp only [hhit, decide_false, ↓reduceIte]
      exact (buildApp_follows env).seq (save_follows env)
  · simp only [hresolved, decide_false, ↓reduceIte]
    by_cases hcached : env.cachedBuild = true
    · simp only [hcached, ↓reduceIte]
      exact fillVolume_follows env .restoreVolume .restoreCopy
    · simp only [hcached]
      exact buildApp_follows env

/-! ### Which way the build phase goes -/

def fills (site : Site) (c : Container) : List Site := site :: uses c

/-- The sites of the build, up to the snapshot on disk. -/
def compiles : List Site := [.clone, .buildImage] ++ uses .appBuilder ++ [.imageDir]

/-- The snapshot is restored from the cache. -/
def Restores : Prop :=
  (errorAt env .resolveCommit ≠ none ∧ env.cachedBuild = true) ∨
    (errorAt env .resolveCommit = none ∧ errorAt env .cacheLookup = none)

/-- The look-up or the restoring ends with `NotFound`. -/
def Misses : Prop :=
  errorAt env .resolveCommit = none ∧
    ∃ e, firstError env (.cacheLookup :: fills .restoreVolume .restoreCopy) = some e ∧ e.isNotFound = true

def Builds : Prop := (errorAt env .resolveCommit ≠ none ∧ env.cachedBuild = false) ∨ Misses env

/-- The snapshot volume is ready: restored, or built. -/
def AppBuilt : Prop :=
  (Restores env ∧ firstError env (fills .restoreVolume .restoreCopy) = none) ∨
    (Builds env ∧ firstError env (compiles ++ fills .loadVolume .snapshotLoader) = none)

/-- A snapshot volume is created and not removed again as a leftover. -/
def VolumeCreated : Prop :=
  (Restores env ∧ Effective (env.fault .restoreVolume) ∧
      ¬ (Misses env ∧ firstError env compiles = none ∧ firstError env [.stale .snapshotVolume] = none)) ∨
    (Builds env ∧ firstError env compiles = none ∧ Effective (env.fault .loadVolume))

theorem fill_failure (site : Site) (c : Container) : (fillAccount env site c).failure = firstError env (fills site c) := by
  simp [fillAccount, seq, replaceTemporary_failure, createAccount, fills, firstError_cons]

theorem build_failure :
    (buildAccount env).failure = firstError env (compiles ++ fills .loadVolume .snapshotLoader) := by
  simp [buildAccount, seq, checkAccount, replaceTemporary_failure, fill_failure, compiles, firstError_cons,
    firstError_append]

theorem lookup_failure :
    (lookupAccount env).failure = firstError env (.cacheLookup :: fills .restoreVolume .restoreCopy) := by
  simp [lookupAccount, seq, checkAccount, fill_failure, firstError_cons]

theorem lookup_passes_iff : (lookupAccount env).failure = none ↔
    errorAt env .cacheLookup = none ∧ firstError env (fills .restoreVolume .restoreCopy) = none := by
  rw [lookup_failure, firstError_cons, Option.or_eq_none_iff]

theorem misses_iff : Misses env ↔
    errorAt env .resolveCommit = none ∧ ∃ e, (lookupAccount env).failure = some e ∧ e.isNotFound = true := by
  rw [lookup_failure, Misses]

theorem build_removes (f : Fact) :
    (buildAccount env).removes f ↔
      (firstError env [.clone, .buildImage] = none ∧ (replaceTemporaryAccount env .appBuilder).removes f) ∨
        (firstError env compiles = none ∧ (fillAccount env .loadVolume .snapshotLoader).removes f) := by
  simp only [buildAccount, seq_removes, checkAccount, idle_failure, idle_removes, replaceTemporary_failure, compiles,
    firstError_cons, firstError_append, firstError_nil, Option.or_eq_none_iff]
  grind

theorem lookup_makes (f : Fact) : (lookupAccount env).makes f ↔
    errorAt env .cacheLookup = none ∧ (fillAccount env .restoreVolume .restoreCopy).makes f := by
  simp [lookupAccount, seq_makes, checkAccount]

theorem getOrBuild_failure : (getOrBuildAccount env).failure = none ↔ AppBuilt env := by
  have hpass := lookup_passes_iff env
  have hmiss := misses_iff env
  by_cases hr : errorAt env .resolveCommit = none
  · cases hl : (lookupAccount env).failure with
    | none =>
      simp only [hl, true_iff] at hpass
      simp [getOrBuildAccount, AppBuilt, Restores, hr, hl, hpass]
    | some e =>
      simp only [hl, reduceCtorEq, false_iff, not_and] at hpass
      simp only [hl, hr, Option.some.injEq, exists_eq_left', true_and] at hmiss
      simp [getOrBuildAccount, saveAccount, AppBuilt, Restores, Builds, hr, hl, hmiss, build_failure]
      grind
  · simp only [hr, false_and, iff_false] at hmiss
    cases hc : env.cachedBuild with
    | true => simp [getOrBuildAccount, AppBuilt, Restores, Builds, hr, hc, hmiss, fill_failure]
    | false => simp [getOrBuildAccount, AppBuilt, Restores, Builds, hr, hc, hmiss, build_failure]

variable {env}

variable (h : RemovalsSucceed env)
include h

theorem fill_removes (site : Site) (c : Container) (f : Fact) :
    (fillAccount env site c).removes f ↔
      (f = .present .snapshotVolume ∧ firstError env [.stale .snapshotVolume] = none) ∨
        (errorAt env site = none ∧ (replaceTemporaryAccount env c).removes f) := by
  simp [fillAccount, seq_removes, removeAfter_removes h, createAccount]

theorem fill_makes (site : Site) (c : Container) (f : Fact) :
    (fillAccount env site c).makes f ↔ (f = .present .snapshotVolume ∧ Effective (env.fault site)) ∨
      (errorAt env site = none ∧ f = .present (.container c) ∧ Spills env c) := by
  simp only [fillAccount, seq_makes, removeAfter_failure, removeAfter_makes, replaceTemporary_makes h,
    replaceTemporary_removes h, createAccount]
  grind

theorem build_makes (f : Fact) :
    (buildAccount env).makes f ↔
      (firstError env [.clone, .buildImage] = none ∧ f = .present (.container .appBuilder) ∧ Spills env .appBuilder) ∨
        (firstError env compiles = none ∧ (fillAccount env .loadVolume .snapshotLoader).makes f) := by
  simp only [buildAccount, seq_makes, seq_removes, checkAccount, idle_failure, idle_makes, idle_removes,
    replaceTemporary_failure,
    replaceTemporary_makes h, fill_removes h, replaceTemporary_removes h, compiles,
    firstError_cons, firstError_append, firstError_nil, Option.or_eq_none_iff]
  grind

theorem save_makes (f : Fact) :
    (saveAccount env).makes f ↔
      errorAt env .cacheVolume = none ∧ f = .present (.container .cacheCopy) ∧ Spills env .cacheCopy := by
  simp [saveAccount, seq_makes, checkAccount, replaceTemporary_makes h]

theorem save_removes {f : Fact} (hf : (saveAccount env).removes f) : f = .present (.container .cacheCopy) := by
  have hr : errorAt env .cacheVolume = none ∧ (replaceTemporaryAccount env .cacheCopy).removes f := by
    simpa [saveAccount, seq_removes, checkAccount] using hf
  exact ((replaceTemporary_removes h .cacheCopy f).mp hr.2).1

theorem getOrBuild_makes (f : Fact) : (getOrBuildAccount env).makes f ↔
    (Restores env ∧ (fillAccount env .restoreVolume .restoreCopy).makes f ∧
        ¬ (Misses env ∧ (buildAccount env).removes f)) ∨
      (Builds env ∧ (buildAccount env).makes f) ∨
      (Misses env ∧ (buildAccount env).failure = none ∧ (saveAccount env).makes f) := by
  have hpass := lookup_passes_iff env
  have hmiss := misses_iff env
  have hsave : (saveAccount env).removes f →
      ¬ (fillAccount env .restoreVolume .restoreCopy).makes f ∧ ¬ (buildAccount env).makes f := by
    intro hs
    rw [save_removes h hs]
    simp [build_makes h, fill_makes h]
  by_cases hr : errorAt env .resolveCommit = none
  · cases hl : (lookupAccount env).failure with
    | none =>
      simp only [hl, true_iff] at hpass
      simp only [hl, reduceCtorEq, false_and, exists_false, and_false, iff_false] at hmiss
      simp [getOrBuildAccount, seq_makes, Restores, Builds, checkAccount, hr, hl, hmiss, hpass, lookup_makes]
    | some e =>
      simp only [hl, hr, Option.some.injEq, exists_eq_left', true_and] at hmiss
      simp [getOrBuildAccount, seq_makes, seq_removes, Restores, Builds, checkAccount, hr, hl, hmiss, lookup_makes]
      grind
  · simp only [hr, false_and, iff_false] at hmiss
    cases hc : env.cachedBuild with
    | true => simp [getOrBuildAccount, seq_makes, Restores, Builds, checkAccount, hr, hc, hmiss]
    | false => simp [getOrBuildAccount, seq_makes, Restores, Builds, checkAccount, hr, hc, hmiss]

theorem built_restoreCopy : (getOrBuildAccount env).makes (.present (.container .restoreCopy)) ↔
    Restores env ∧ errorAt env .restoreVolume = none ∧ Spills env .restoreCopy := by
  simp [getOrBuild_makes h, fill_makes h, build_makes h, build_removes, fill_removes h, save_makes h,
    replaceTemporary_removes h]

theorem built_appBuilder : (getOrBuildAccount env).makes (.present (.container .appBuilder)) ↔
    Builds env ∧ firstError env [.clone, .buildImage] = none ∧ Spills env .appBuilder := by
  simp [getOrBuild_makes h, fill_makes h, build_makes h, save_makes h]

theorem built_snapshotLoader : (getOrBuildAccount env).makes (.present (.container .snapshotLoader)) ↔
    Builds env ∧ firstError env compiles = none ∧ errorAt env .loadVolume = none ∧ Spills env .snapshotLoader := by
  simp [getOrBuild_makes h, fill_makes h, build_makes h, save_makes h]

theorem built_cacheCopy : (getOrBuildAccount env).makes (.present (.container .cacheCopy)) ↔
    Misses env ∧ firstError env (compiles ++ fills .loadVolume .snapshotLoader) = none ∧
      errorAt env .cacheVolume = none ∧ Spills env .cacheCopy := by
  simp [getOrBuild_makes h, fill_makes h, build_makes h, save_makes h, build_failure]

theorem built_volume : (getOrBuildAccount env).makes (.present .snapshotVolume) ↔ VolumeCreated env := by
  simp [getOrBuild_makes h, fill_makes h, build_makes h, build_removes, fill_removes h, save_makes h,
    replaceTemporary_removes h, VolumeCreated]

end ReleaseValidation.SandboxManager.Provisioner
