import Mathlib.Data.List.Basic
import ReleaseValidation.Store.Records

/-! # The garbage collection of Docker resources

A pass of `gc_orphaned_resources` looks for containers and networks by the label
`rvp.sandbox_id`. The snapshot volumes and build directories it removes are those named
after the sandboxes whose containers it found, so that a volume is found only through
a container.
-/
namespace ReleaseValidation.SandboxManager.GarbageCollector
open Store

abbrev Labels := List (String × String)

/-- `labels.get("rvp.sandbox_id", "")`. -/
def Labels.sandboxId (labels : Labels) : Uuid := (labels.lookup "rvp.sandbox_id").getD ""

/-- The filter of the two listings. -/
def Labels.isLabelled (labels : Labels) : Bool := (labels.lookup "rvp.sandbox_id").isSome

/-- Labelled by a sandbox outside the active ones, as the loops of the pass test it. -/
def Labels.isOrphaned (active : List Uuid) (labels : Labels) : Bool :=
  labels.sandboxId != "" && !active.contains labels.sandboxId

structure Container where
  id : String
  labels : Labels
  deriving DecidableEq, Repr

structure Network where
  name : String
  labels : Labels
  deriving DecidableEq, Repr

structure Volume where
  name : String
  labels : Labels
  deriving DecidableEq, Repr

/-- The volume holds the machine snapshot of one sandbox. -/
def Volume.isSnapshot (v : Volume) : Bool := v.labels.lookup "rvp.component" == some "snapshot"

/-- What exists in Docker, and the directories under `APP_BUILD_DIR`. -/
structure Docker where
  containers : List Container
  networks : List Network
  volumes : List Volume
  buildDirs : List String
  deriving DecidableEq, Repr

/-- `sid[:8]`. -/
def short (sid : Uuid) : String := String.ofList (sid.toList.take 8)

def snapshotVolume (sid : Uuid) : String := "rvp-snapshot-" ++ short sid

namespace Docker

def labelledContainers (d : Docker) : List Container := d.containers.filter (·.labels.isLabelled)

def labelledNetworks (d : Docker) : List Network := d.networks.filter (·.labels.isLabelled)

def removeContainer (d : Docker) (c : Container) : Docker :=
  { d with containers := d.containers.filter (· ≠ c) }

/-- `net.remove` after all endpoints have been disconnected. -/
def removeNetwork (d : Docker) (n : Network) : Docker :=
  { d with networks := d.networks.filter (· ≠ n) }

def removeVolume (d : Docker) (name : String) : Docker :=
  { d with volumes := d.volumes.filter (·.name ≠ name) }

def removeBuildDir (d : Docker) (name : String) : Docker :=
  { d with buildDirs := d.buildDirs.filter (· ≠ name) }

end Docker

/-- The calls of a pass that may fail. -/
inductive Call
  | listContainers
  | removeContainer (c : Container)
  | listNetworks
  | removeNetwork (n : Network)
  | removeVolume (name : String)
  | removeBuildDir (name : String)
  deriving DecidableEq, Repr

/-- The body of the loop over the containers; `removed` when the removal succeeds. -/
def collectContainer (active : List Uuid) (removed : Bool) (c : Container) (d : Docker)
    (orphans : List Uuid) : Docker × List Uuid :=
  if c.labels.isOrphaned active then
    (if removed then d.removeContainer c else d, orphans.insert c.labels.sandboxId)
  else (d, orphans)

/-- The body of the loop over the networks. -/
def collectNetwork (active : List Uuid) (removed : Bool) (n : Network) (d : Docker) : Docker :=
  if n.labels.isOrphaned active && removed then d.removeNetwork n else d

def collectVolume (removed : Bool) (sid : Uuid) (d : Docker) : Docker :=
  if removed then d.removeVolume (snapshotVolume sid) else d

def collectBuildDir (removed : Bool) (sid : Uuid) (d : Docker) : Docker :=
  if removed then d.removeBuildDir (short sid) else d

section Pass
variable (ok : Call → Bool) (active : List Uuid)

def sweepContainers (listed : List Container) (d : Docker) (orphans : List Uuid) : Docker × List Uuid :=
  listed.foldl (fun p c => collectContainer active (ok (.removeContainer c)) c p.1 p.2) (d, orphans)

def sweepNetworks (listed : List Network) (d : Docker) : Docker :=
  listed.foldl (fun d n => collectNetwork active (ok (.removeNetwork n)) n d) d

def sweepOrphans (orphans : List Uuid) (d : Docker) : Docker :=
  orphans.foldl (fun d sid =>
    collectBuildDir (ok (.removeBuildDir (short sid))) sid
      (collectVolume (ok (.removeVolume (snapshotVolume sid))) sid d)) d

/-- `gc_orphaned_resources`: what is left, and the number of orphaned sandboxes found. -/
def gcOrphanedResources (d : Docker) : Docker × ℕ :=
  let (swept, orphans) :=
    sweepContainers ok active (if ok .listContainers then d.labelledContainers else []) d []
  let swept := sweepNetworks ok active (if ok .listNetworks then swept.labelledNetworks else []) swept
  (sweepOrphans ok orphans swept, orphans.length)

end Pass

/-! ### What is left after a pass -/

section Swept
variable {ok : Call → Bool} {active : List Uuid}

theorem mem_sweepContainers {listed : List Container} {d : Docker} {orphans : List Uuid} {x : Container}
    (hok : ∀ c, ok (.removeContainer c) = true) :
    x ∈ (sweepContainers ok active listed d orphans).1.containers ↔
      x ∈ d.containers ∧ ∀ c ∈ listed, c.labels.isOrphaned active = true → x ≠ c := by
  induction listed generalizing d orphans with
  | nil => simp [sweepContainers]
  | cons c listed ih =>
    rw [sweepContainers, List.foldl_cons, ← sweepContainers, ih, collectContainer, hok]
    cases hc : c.labels.isOrphaned active with
    | false => simp [hc]
    | true =>
      simp only [↓reduceIte, Docker.removeContainer, List.mem_filter, decide_eq_true_eq,
        List.forall_mem_cons, hc, forall_const, and_assoc]

theorem mem_sweepContainers_orphans {listed : List Container} {d : Docker} {orphans : List Uuid} {sid : Uuid} :
    sid ∈ (sweepContainers ok active listed d orphans).2 ↔
      sid ∈ orphans ∨ ∃ c ∈ listed, c.labels.isOrphaned active = true ∧ c.labels.sandboxId = sid := by
  induction listed generalizing d orphans with
  | nil => simp [sweepContainers]
  | cons c listed ih =>
    rw [sweepContainers, List.foldl_cons, ← sweepContainers, ih, collectContainer]
    cases hc : c.labels.isOrphaned active with
    | false => simp [hc]
    | true =>
      simp only [↓reduceIte, List.mem_insert_iff, List.exists_mem_cons_iff, hc, true_and, or_assoc]
      rw [or_left_comm, eq_comm]

/-- The loop over the containers touches nothing else. -/
theorem sweepContainers_rest {listed : List Container} {d : Docker} {orphans : List Uuid} :
    (sweepContainers ok active listed d orphans).1.networks = d.networks ∧
      (sweepContainers ok active listed d orphans).1.volumes = d.volumes := by
  induction listed generalizing d orphans with
  | nil => exact ⟨rfl, rfl⟩
  | cons c listed ih =>
    rw [sweepContainers, List.foldl_cons, ← sweepContainers, ih.1, ih.2, collectContainer]
    split
    · dsimp only
      split <;> exact ⟨rfl, rfl⟩
    · exact ⟨rfl, rfl⟩

theorem mem_sweepNetworks {listed : List Network} {d : Docker} {x : Network}
    (hok : ∀ n, ok (.removeNetwork n) = true) :
    x ∈ (sweepNetworks ok active listed d).networks ↔
      x ∈ d.networks ∧ ∀ n ∈ listed, n.labels.isOrphaned active = true → x ≠ n := by
  induction listed generalizing d with
  | nil => simp [sweepNetworks]
  | cons n listed ih =>
    rw [sweepNetworks, List.foldl_cons, ← sweepNetworks, ih, collectNetwork, hok]
    cases hn : n.labels.isOrphaned active with
    | false => simp [hn]
    | true => simp [hn, Docker.removeNetwork, and_assoc]

theorem sweepNetworks_rest {listed : List Network} {d : Docker} :
    (sweepNetworks ok active listed d).containers = d.containers ∧
      (sweepNetworks ok active listed d).volumes = d.volumes := by
  induction listed generalizing d with
  | nil => exact ⟨rfl, rfl⟩
  | cons n listed ih =>
    rw [sweepNetworks, List.foldl_cons, ← sweepNetworks, ih.1, ih.2, collectNetwork]
    split <;> exact ⟨rfl, rfl⟩

theorem mem_sweepOrphans {orphans : List Uuid} {d : Docker} {x : Volume}
    (hok : ∀ name, ok (.removeVolume name) = true) :
    x ∈ (sweepOrphans ok orphans d).volumes ↔
      x ∈ d.volumes ∧ ∀ sid ∈ orphans, x.name ≠ snapshotVolume sid := by
  induction orphans generalizing d with
  | nil => simp [sweepOrphans]
  | cons sid orphans ih =>
    rw [sweepOrphans, List.foldl_cons, ← sweepOrphans, ih, collectVolume, hok, collectBuildDir]
    split <;> simp [Docker.removeVolume, Docker.removeBuildDir, and_assoc]

theorem sweepOrphans_rest {orphans : List Uuid} {d : Docker} :
    (sweepOrphans ok orphans d).containers = d.containers ∧
      (sweepOrphans ok orphans d).networks = d.networks := by
  induction orphans generalizing d with
  | nil => exact ⟨rfl, rfl⟩
  | cons sid orphans ih =>
    rw [sweepOrphans, List.foldl_cons, ← sweepOrphans, ih.1, ih.2, collectVolume, collectBuildDir]
    split <;> split <;> exact ⟨rfl, rfl⟩

end Swept

/-- Labelled by an id outside the active set. -/
def Labels.OutsideOf (active : List Uuid) (labels : Labels) : Prop :=
  ∃ sid, labels.lookup "rvp.sandbox_id" = some sid ∧ sid ∉ active

/-- No container, network or snapshot volume is labelled by an id outside the active set. -/
structure Docker.Clean (active : List Uuid) (d : Docker) : Prop where
  containers : ∀ c ∈ d.containers, ¬ c.labels.OutsideOf active
  networks : ∀ n ∈ d.networks, ¬ n.labels.OutsideOf active
  volumes : ∀ v ∈ d.volumes, v.isSnapshot = true → ¬ v.labels.OutsideOf active

/-- Every snapshot volume to be collected is named after a sandbox of which a container
is left to be collected too; and no container or network carries an empty id. -/
structure Docker.Discoverable (active : List Uuid) (d : Docker) : Prop where
  volumes : ∀ v ∈ d.volumes, v.isSnapshot = true → v.labels.OutsideOf active →
    ∃ c ∈ d.containers, c.labels.isOrphaned active = true ∧ v.name = snapshotVolume c.labels.sandboxId
  containers : ∀ c ∈ d.containers, c.labels.OutsideOf active → c.labels.sandboxId ≠ ""
  networks : ∀ n ∈ d.networks, n.labels.OutsideOf active → n.labels.sandboxId ≠ ""

section Complete
variable {active : List Uuid} {d : Docker}

theorem Labels.OutsideOf.isLabelled {labels : Labels} (h : labels.OutsideOf active) :
    labels.isLabelled = true := by
  obtain ⟨sid, hsid, -⟩ := h
  rw [Labels.isLabelled, hsid]
  rfl

theorem Labels.OutsideOf.isOrphaned_iff {labels : Labels} (h : labels.OutsideOf active) :
    labels.isOrphaned active = true ↔ labels.sandboxId ≠ "" := by
  obtain ⟨sid, hsid, hnot⟩ := h
  have hid : labels.sandboxId = sid := by rw [Labels.sandboxId, hsid]; rfl
  simp [Labels.isOrphaned, hid, hnot]

theorem Labels.isLabelled_of_isOrphaned {labels : Labels} (h : labels.isOrphaned active = true) :
    labels.isLabelled = true := by
  cases hl : labels.lookup "rvp.sandbox_id" with
  | none => simp [Labels.isOrphaned, Labels.sandboxId, hl] at h
  | some sid => rw [Labels.isLabelled, hl]; rfl

/-- What is left after a pass in which every listing and every removal succeeds. -/
theorem gc_leaves (active : List Uuid) (d : Docker) :
    let left := (gcOrphanedResources (fun _ => true) active d).1
    (∀ c, c ∈ left.containers ↔ c ∈ d.containers ∧ ¬ c.labels.isOrphaned active = true) ∧
    (∀ n, n ∈ left.networks ↔ n ∈ d.networks ∧ ¬ n.labels.isOrphaned active = true) ∧
    (∀ v, v ∈ left.volumes ↔ v ∈ d.volumes ∧
      ∀ c ∈ d.containers, c.labels.isOrphaned active = true → v.name ≠ snapshotVolume c.labels.sandboxId) := by
  simp only [gcOrphanedResources, ↓reduceIte]
  refine ⟨?_, ?_, ?_⟩
  · intro c
    rw [sweepOrphans_rest.1, sweepNetworks_rest.1, mem_sweepContainers fun _ => rfl]
    refine and_congr_right fun hc => ⟨fun h ho => ?_, fun h x _ hx => ?_⟩
    · exact h c (List.mem_filter.mpr ⟨hc, Labels.isLabelled_of_isOrphaned ho⟩) ho rfl
    · rintro rfl
      exact h hx
  · intro n
    rw [sweepOrphans_rest.2, mem_sweepNetworks fun _ => rfl, sweepContainers_rest.1]
    refine and_congr_right fun hn => ⟨fun h ho => ?_, fun h x _ hx => ?_⟩
    · refine h n (List.mem_filter.mpr ⟨?_, Labels.isLabelled_of_isOrphaned ho⟩) ho rfl
      rwa [sweepContainers_rest.1]
    · rintro rfl
      exact h hx
  · intro v
    rw [mem_sweepOrphans fun _ => rfl, sweepNetworks_rest.2, sweepContainers_rest.2]
    refine and_congr_right fun _ => ⟨fun h c hc ho => ?_, fun h sid hsid => ?_⟩
    · refine h _ (mem_sweepContainers_orphans.mpr (.inr ⟨c, ?_, ho, rfl⟩))
      exact List.mem_filter.mpr ⟨hc, Labels.isLabelled_of_isOrphaned ho⟩
    · rcases mem_sweepContainers_orphans.mp hsid with hnil | ⟨c, hc, ho, rfl⟩
      · cases hnil
      · exact h c (List.mem_filter.mp hc).1 ho

/-- A pass without failures leaves nothing to collect exactly when everything there was to
collect could be discovered. -/
theorem gc_complete_iff (active : List Uuid) (d : Docker) :
    (gcOrphanedResources (fun _ => true) active d).1.Clean active ↔ d.Discoverable active := by
  obtain ⟨hcontainers, hnetworks, hvolumes⟩ := gc_leaves active d
  constructor
  · intro h
    refine ⟨?_, ?_, ?_⟩
    · intro v hv hsnap hout
      by_contra hno
      push Not at hno
      exact h.volumes v ((hvolumes v).mpr ⟨hv, hno⟩) hsnap hout
    · intro c hc hout hempty
      refine h.containers c ((hcontainers c).mpr ⟨hc, ?_⟩) hout
      rw [hout.isOrphaned_iff]
      exact fun hne => hne hempty
    · intro n hn hout hempty
      refine h.networks n ((hnetworks n).mpr ⟨hn, ?_⟩) hout
      rw [hout.isOrphaned_iff]
      exact fun hne => hne hempty
  · intro h
    refine ⟨?_, ?_, ?_⟩
    · intro c hc hout
      obtain ⟨hmem, hno⟩ := (hcontainers c).mp hc
      exact hno (hout.isOrphaned_iff.mpr (h.containers c hmem hout))
    · intro n hn hout
      obtain ⟨hmem, hno⟩ := (hnetworks n).mp hn
      exact hno (hout.isOrphaned_iff.mpr (h.networks n hmem hout))
    · intro v hv hsnap hout
      obtain ⟨hmem, hno⟩ := (hvolumes v).mp hv
      obtain ⟨c, hc, ho, hname⟩ := h.volumes v hmem hsnap hout
      exact hno c hc ho hname

end Complete

/-- The snapshot volume of a sandbox whose containers are gone. -/
def volumeOnly : Docker :=
  ⟨[], [], [⟨snapshotVolume "0a1b2c3d-sbx", [("rvp.sandbox_id", "0a1b2c3d-sbx"), ("rvp.component", "snapshot")]⟩], []⟩

theorem lone_volume_left :
    (gcOrphanedResources (fun _ => true) [] volumeOnly).1 = volumeOnly ∧ ¬ volumeOnly.Clean [] := by
  refine ⟨by decide, fun h => ?_⟩
  exact h.volumes _ (.head _) (by decide) ⟨"0a1b2c3d-sbx", by decide, by decide⟩

end ReleaseValidation.SandboxManager.GarbageCollector
