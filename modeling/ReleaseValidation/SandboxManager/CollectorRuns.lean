import Mathlib.Data.List.AList
import ReleaseValidation.Foundations.Runs
import ReleaseValidation.SandboxManager.GarbageCollector

/-! # Collecting while sandboxes start and end

A pass of the collector reads the ids of the active sandboxes first and then works
through Docker, one call after another, while sandboxes are inserted, provisioned and
torn down beside it. The names of volumes and build directories keep only the first
eight characters of an id, and ids may agree in these.
-/
namespace ReleaseValidation.SandboxManager.CollectorRuns
open Store Runs GarbageCollector

/-- The row of a sandbox, and whether a snapshot volume or a build directory has been
made under its name. -/
structure Row where
  status : SandboxStatus
  volume : Bool
  buildDir : Bool
  deriving DecidableEq, Repr

/-- `status IN ('provisioning', 'ready')`. -/
def isLive : SandboxStatus → Bool
  | .provisioning | .ready => true
  | _ => false

/-- What a pass has still to do. -/
inductive Pass
  | idle
  /-- `_run_gc` has read the active ids. -/
  | started (active : List Uuid)
  | containers (active : List Uuid) (listed : List Container) (orphans : List Uuid)
  | networks (active : List Uuid) (listed : List Network) (orphans : List Uuid)
  /-- The set of orphaned ids, in whatever order it is gone through. -/
  | orphans (ids : List Uuid)
  | volume (sid : Uuid) (rest : List Uuid)
  | buildDir (sid : Uuid) (rest : List Uuid)
  deriving DecidableEq, Repr

structure State where
  docker : Docker
  rows : AList (fun _ : Uuid => Row)
  pass : Pass

def initial : State := ⟨⟨[], [], [], []⟩, ∅, .idle⟩

inductive Act
  | insertRow (sid : Uuid)
  | makeContainer (sid : Uuid) (id : String)
  | makeNetwork (sid : Uuid) (name : String)
  | makeVolume (sid : Uuid)
  | makeBuildDir (sid : Uuid)
  | setStatus (sid : Uuid) (status : SandboxStatus)
  /-- A removal by a teardown, or by the clean-up of a failed provisioning. -/
  | dropContainer (c : Container)
  | dropNetwork (n : Network)
  | dropVolume (name : String)
  | dropBuildDir (name : String)
  /-- The next orphaned id of the pass is taken. -/
  | pick (i : ℕ)
  /-- The next call of the collector; `ok` when it succeeds. -/
  | gc (ok : Bool)
  deriving DecidableEq, Repr

namespace State

def labelsOf (sid : Uuid) : Labels := [("rvp.sandbox_id", sid)]

/-- The ids that the SELECT of `_run_gc` returns. -/
def activeIds (s : State) : List Uuid := s.rows.keys.filter fun sid =>
  match s.rows.lookup sid with
  | some row => isLive row.status
  | none => false

/-- The sandbox is provisioning or ready. -/
def Live (s : State) (sid : Uuid) : Prop := sid ∈ s.activeIds

/-- The provisioning of the sandbox changes Docker and its own row. -/
def provision (s : State) (sid : Uuid) (set : Row → Row) (docker : Docker) : Option State :=
  match s.rows.lookup sid with
  | some row =>
    if row.status = .provisioning then some { s with rows := s.rows.insert sid (set row), docker := docker }
    else none
  | none => none

def makeVolume (d : Docker) (sid : Uuid) : Docker :=
  let labels := labelsOf sid ++ [("rvp.component", "snapshot")]
  { d with volumes := d.volumes.filter (·.name ≠ snapshotVolume sid) ++ [⟨snapshotVolume sid, labels⟩] }

/-- The next call of the collector. -/
def collect (s : State) (ok : Bool) : Option State :=
  match s.pass with
  | .idle => some { s with pass := if ok then .started s.activeIds else .idle }
  | .started active => some { s with pass := .containers active (if ok then s.docker.labelledContainers else []) [] }
  | .containers active (c :: listed) orphans =>
    let (docker, orphans) := collectContainer active ok c s.docker orphans
    some { s with docker := docker, pass := .containers active listed orphans }
  | .containers active [] orphans =>
    some { s with pass := .networks active (if ok then s.docker.labelledNetworks else []) orphans }
  | .networks active (n :: listed) orphans =>
    some { s with docker := collectNetwork active ok n s.docker, pass := .networks active listed orphans }
  | .networks _ [] orphans => some { s with pass := .orphans orphans }
  | .orphans [] => some { s with pass := .idle }
  | .orphans (_ :: _) => none
  | .volume sid rest => some { s with docker := collectVolume ok sid s.docker, pass := .buildDir sid rest }
  | .buildDir sid rest => some { s with docker := collectBuildDir ok sid s.docker, pass := .orphans rest }

end State

/-- A row is inserted before anything is made for its sandbox, under a new id; a
sandbox that is neither provisioning nor ready does not become so again. -/
def step (s : State) : Act → Option State
  | .insertRow sid =>
    if sid ∈ s.rows then none else some { s with rows := s.rows.insert sid ⟨.provisioning, false, false⟩ }
  | .makeContainer sid id =>
    s.provision sid (fun row => row)
      { s.docker with containers := s.docker.containers ++ [⟨id, State.labelsOf sid⟩] }
  | .makeNetwork sid name =>
    s.provision sid (fun row => row)
      { s.docker with networks := s.docker.networks ++ [⟨name, State.labelsOf sid⟩] }
  | .makeVolume sid => s.provision sid (fun row => { row with volume := true }) (State.makeVolume s.docker sid)
  | .makeBuildDir sid =>
    s.provision sid (fun row => { row with buildDir := true })
      { s.docker with buildDirs := s.docker.buildDirs.insert (short sid) }
  | .setStatus sid status =>
    match s.rows.lookup sid with
    | some row =>
      if isLive status && !isLive row.status then none
      else some { s with rows := s.rows.insert sid { row with status := status } }
    | none => none
  | .dropContainer c => some { s with docker := s.docker.removeContainer c }
  | .dropNetwork n => some { s with docker := s.docker.removeNetwork n }
  | .dropVolume name => some { s with docker := s.docker.removeVolume name }
  | .dropBuildDir name => some { s with docker := s.docker.removeBuildDir name }
  | .pick i =>
    match s.pass with
    | .orphans ids =>
      match ids[i]? with
      | some sid => some { s with pass := .volume sid (ids.eraseIdx i) }
      | none => none
    | _ => none
  | .gc ok => s.collect ok

/-- What the collector can remove. -/
inductive Resource
  | container (c : Container)
  | network (n : Network)
  | volume (name : String)
  | buildDir (name : String)
  deriving DecidableEq, Repr

namespace State

/-- The resource exists and belongs to the sandbox. -/
def Belongs (s : State) (sid : Uuid) : Resource → Prop
  | .container c => c ∈ s.docker.containers ∧ c.labels.sandboxId = sid
  | .network n => n ∈ s.docker.networks ∧ n.labels.sandboxId = sid
  | .volume name =>
    name ∈ s.docker.volumes.map (·.name) ∧ name = snapshotVolume sid ∧
      ∃ row, s.rows.lookup sid = some row ∧ row.volume = true
  | .buildDir name =>
    name ∈ s.docker.buildDirs ∧ name = short sid ∧ ∃ row, s.rows.lookup sid = some row ∧ row.buildDir = true

/-- The next call of the collector, if it succeeds, removes the resource. -/
def Removes (s : State) (r : Resource) : Prop :=
  match s.pass with
  | .containers active (c :: _) _ => c.labels.isOrphaned active = true ∧ r = .container c
  | .networks active (n :: _) _ => n.labels.isOrphaned active = true ∧ r = .network n
  | .volume sid _ => r = .volume (snapshotVolume sid)
  | .buildDir sid _ => r = .buildDir (short sid)
  | _ => False

end State

/-- A removal of the collector takes nothing from a sandbox that is provisioning or ready. -/
def Spares (s : State) (a : Act) (_ : State) : Prop :=
  a = .gc true → ∀ r sid, s.Removes r → s.Belongs sid r → ¬ s.Live sid

/-- The ids under whose names the pass will still look for volumes and build directories. -/
def Pass.orphanIds : Pass → List Uuid
  | .containers active listed found =>
    (listed.filter (·.labels.isOrphaned active)).map (·.labels.sandboxId) ++ found
  | .networks _ _ found | .orphans found => found
  | .volume sid rest | .buildDir sid rest => sid :: rest
  | .idle | .started _ => []

/-- When a listing is read, nothing on it that counts as orphaned belongs to a sandbox
that has become active since the active ids were read, and no active sandbox shares the
first eight characters of an orphaned id; nor is one with such an id inserted later in
the pass. -/
def ListsInTime (s : State) (a : Act) (_ : State) : Prop :=
  match a, s.pass with
  | .gc true, .started active =>
    ∀ c ∈ s.docker.labelledContainers, c.labels.isOrphaned active = true →
      ∀ sid ∈ s.activeIds, short sid ≠ short c.labels.sandboxId
  | .gc true, .containers active [] _ =>
    ∀ n ∈ s.docker.labelledNetworks, n.labels.isOrphaned active = true → n.labels.sandboxId ∉ s.activeIds
  | .insertRow sid, pass => ∀ orphan ∈ pass.orphanIds, short sid ≠ short orphan
  | _, _ => True

instance (s : State) (a : Act) (t : State) : Decidable (ListsInTime s a t) := by
  unfold ListsInTime
  split <;> infer_instance

/-! ### A pass that nothing interrupts -/

section Alone
variable (ok : Call → Bool) (active : List Uuid) (rows : AList (fun _ : Uuid => Row))

theorem exec_containers (listed : List Container) (d : Docker) (found : List Uuid) :
    exec step ⟨d, rows, .containers active listed found⟩
        (listed.map fun c => .gc (ok (.removeContainer c))) =
      some ⟨(sweepContainers ok active listed d found).1, rows,
        .containers active [] (sweepContainers ok active listed d found).2⟩ := by
  induction listed generalizing d found with
  | nil => rfl
  | cons c listed ih =>
    rw [sweepContainers, List.foldl_cons, ← sweepContainers]
    exact ih _ _

theorem exec_networks (listed : List Network) (d : Docker) (found : List Uuid) :
    exec step ⟨d, rows, .networks active listed found⟩ (listed.map fun n => .gc (ok (.removeNetwork n))) =
      some ⟨sweepNetworks ok active listed d, rows, .networks active [] found⟩ := by
  induction listed generalizing d with
  | nil => rfl
  | cons n listed ih =>
    rw [sweepNetworks, List.foldl_cons, ← sweepNetworks]
    exact ih _

theorem exec_orphans (ids : List Uuid) (d : Docker) :
    exec step ⟨d, rows, .orphans ids⟩ (ids.flatMap fun sid =>
        [.pick 0, .gc (ok (.removeVolume (snapshotVolume sid))), .gc (ok (.removeBuildDir (short sid)))]) =
      some ⟨sweepOrphans ok ids d, rows, .orphans []⟩ := by
  induction ids generalizing d with
  | nil => rfl
  | cons sid ids ih =>
    rw [sweepOrphans, List.foldl_cons, ← sweepOrphans]
    exact ih _

/-- The calls of a pass, one after the other, are `gc_orphaned_resources`. -/
theorem exec_pass (d : Docker) :
    ∃ as : List Act, exec step ⟨d, rows, .idle⟩ (.gc true :: as) =
      some ⟨(gcOrphanedResources ok (State.activeIds ⟨d, rows, .idle⟩) d).1, rows, .idle⟩ := by
  let active := State.activeIds ⟨d, rows, .idle⟩
  let listed := if ok .listContainers then d.labelledContainers else []
  let swept := sweepContainers ok active listed d []
  let networks := if ok .listNetworks then swept.1.labelledNetworks else []
  let left := sweepNetworks ok active networks swept.1
  refine ⟨.gc (ok .listContainers) :: (listed.map fun c => .gc (ok (.removeContainer c))) ++
    (.gc (ok .listNetworks) :: (networks.map fun n => .gc (ok (.removeNetwork n))) ++
      (.gc true :: (swept.2.flatMap fun sid =>
        [.pick 0, .gc (ok (.removeVolume (snapshotVolume sid))), .gc (ok (.removeBuildDir (short sid)))]) ++
          [.gc true])), ?_⟩
  have hcontainers := exec_containers ok active rows listed d []
  have hnetworks := exec_networks ok active rows networks swept.1 swept.2
  have horphans := exec_orphans ok rows swept.2 left
  rw [exec_cons]
  change exec step ⟨d, rows, .started active⟩ _ = _
  rw [List.cons_append, exec_cons]
  change exec step ⟨d, rows, .containers active listed []⟩ _ = _
  rw [exec_append, hcontainers, Option.bind_some, List.cons_append, exec_cons]
  change exec step ⟨swept.1, rows, .networks active networks swept.2⟩ _ = _
  rw [exec_append, hnetworks, Option.bind_some, List.cons_append, exec_cons]
  change exec step ⟨left, rows, .orphans swept.2⟩ _ = _
  rw [exec_append, horphans]
  rfl

end Alone

variable {s t : State} {a : Act} {sid : Uuid}

theorem live_iff : s.Live sid ↔ ∃ row, s.rows.lookup sid = some row ∧ isLive row.status = true := by
  unfold State.Live State.activeIds
  rw [List.mem_filter]
  cases h : s.rows.lookup sid with
  | none => simp
  | some row =>
    have hmem : sid ∈ s.rows.keys := AList.mem_keys.mpr (AList.lookup_isSome.mp (by rw [h]; rfl))
    simp [hmem]

theorem live_congr (h : t.rows = s.rows) : t.Live sid ↔ s.Live sid := by
  rw [live_iff, live_iff, h]

theorem live_insert {x : Uuid} {row : Row} {d : Docker} (h : State.Live ⟨d, s.rows.insert x row, s.pass⟩ sid) :
    s.Live sid ∨ sid = x ∧ isLive row.status = true := by
  obtain ⟨row', hrow, hlive⟩ := live_iff.mp h
  by_cases hx : sid = x
  · subst hx
    rw [AList.lookup_insert] at hrow
    cases hrow
    exact .inr ⟨rfl, hlive⟩
  · rw [AList.lookup_insert_ne hx] at hrow
    exact .inl (live_iff.mpr ⟨row', hrow, hlive⟩)

theorem provision_spec {set : Row → Row} {d : Docker} (h : s.provision sid set d = some t) :
    sid ∈ s.rows ∧ t.docker = d ∧ t.pass = s.pass ∧ (∀ x, x ∈ t.rows ↔ x ∈ s.rows) ∧
      ∀ x, t.Live x → s.Live x := by
  unfold State.provision at h
  split at h
  next row hrow =>
    split at h
    next hstatus =>
      cases h
      have hmem : sid ∈ s.rows := AList.lookup_isSome.mp (by rw [hrow]; rfl)
      refine ⟨hmem, rfl, rfl, ?_, ?_⟩
      · intro x
        rw [AList.mem_insert]
        exact ⟨fun h => h.elim (fun h => h ▸ hmem) id, .inr⟩
      · intro x hx
        rcases live_insert hx with hlive | ⟨rfl, -⟩
        · exact hlive
        · exact live_iff.mpr ⟨row, hrow, by rw [hstatus]; rfl⟩
    · cases h
  · cases h

theorem collect_rows {ok : Bool} (h : s.collect ok = some t) : t.rows = s.rows := by
  unfold State.collect at h
  split at h <;> cases h <;> rfl

/-- No step but its own insertion makes a sandbox active. -/
theorem step_live (h : step s a = some t) (hlive : t.Live sid) : s.Live sid ∨ a = .insertRow sid := by
  cases a with
  | insertRow x =>
    simp only [step] at h
    split at h
    · cases h
    · cases h
      rcases live_insert hlive with hlive | ⟨rfl, -⟩
      · exact .inl hlive
      · exact .inr rfl
  | makeContainer x id => exact .inl ((provision_spec h).2.2.2.2 sid hlive)
  | makeNetwork x name => exact .inl ((provision_spec h).2.2.2.2 sid hlive)
  | makeVolume x => exact .inl ((provision_spec h).2.2.2.2 sid hlive)
  | makeBuildDir x => exact .inl ((provision_spec h).2.2.2.2 sid hlive)
  | setStatus x status =>
    simp only [step] at h
    split at h
    next row hrow =>
      split at h
      · cases h
      next hguard =>
        cases h
        rcases live_insert hlive with hlive | ⟨rfl, hstatus⟩
        · exact .inl hlive
        · refine .inl (live_iff.mpr ⟨row, hrow, ?_⟩)
          simpa [hstatus] using hguard
    · cases h
  | dropContainer c => cases h; exact .inl hlive
  | dropNetwork n => cases h; exact .inl hlive
  | dropVolume name => cases h; exact .inl hlive
  | dropBuildDir name => cases h; exact .inl hlive
  | pick i =>
    simp only [step] at h
    split at h
    · split at h
      · cases h; exact .inl hlive
      · cases h
    · cases h
  | gc ok => exact .inl ((live_congr (collect_rows h)).mp hlive)

/-- The networks that the pass has still to look at. -/
def Pass.listedNetworks : Pass → List Network
  | .networks _ listed _ => listed
  | _ => []

/-- No active sandbox is in the way of the pass, nor has the name of one that is. -/
structure Careful (s : State) : Prop where
  orphans : ∀ orphan ∈ s.pass.orphanIds, ∀ sid, s.Live sid → short sid ≠ short orphan
  networks : ∀ active listed found, s.pass = .networks active listed found →
    ∀ n ∈ listed, n.labels.isOrphaned active = true → ¬ s.Live n.labels.sandboxId
  /-- Every network was made for a sandbox that has a row. -/
  known : ∀ n, n ∈ s.docker.networks ∨ n ∈ s.pass.listedNetworks → n.labels.sandboxId ∈ s.rows

theorem careful_initial : Careful initial := ⟨nofun, nofun, nofun⟩

/-- What the collector removes next is no active sandbox's. -/
theorem Careful.spares (hs : Careful s) : Spares s a t := by
  rintro - r sid hr hb hlive
  unfold State.Removes at hr
  split at hr
  next active c listed found hp =>
    obtain ⟨ho, rfl⟩ := hr
    refine hs.orphans c.labels.sandboxId ?_ sid hlive (by rw [hb.2])
    rw [hp]
    exact List.mem_append_left _ (List.mem_map.mpr ⟨c, List.mem_filter.mpr ⟨.head _, ho⟩, rfl⟩)
  next active n listed found hp =>
    obtain ⟨ho, rfl⟩ := hr
    exact hs.networks active _ found hp n (.head _) ho (by rw [hb.2]; exact hlive)
  next orphan rest hp =>
    cases hr
    obtain ⟨-, hname, -⟩ := hb
    have hshort := (String.append_right_inj "rvp-snapshot-").mp hname
    refine hs.orphans orphan ?_ sid hlive hshort.symm
    rw [hp]
    exact .head _
  next orphan rest hp =>
    cases hr
    obtain ⟨-, hname, -⟩ := hb
    refine hs.orphans orphan ?_ sid hlive hname.symm
    rw [hp]
    exact .head _
  · exact hr

/-- A step that leaves the pass alone, makes no sandbox active and makes networks only for
sandboxes with a row. -/
theorem Careful.frame (hs : Careful s) (hpass : t.pass = s.pass) (hlive : ∀ x, t.Live x → s.Live x)
    (hrows : ∀ x ∈ s.rows, x ∈ t.rows)
    (hnetworks : ∀ n ∈ t.docker.networks, n ∈ s.docker.networks ∨ n.labels.sandboxId ∈ t.rows) :
    Careful t := by
  refine ⟨?_, ?_, ?_⟩
  · intro orphan ho sid hl
    rw [hpass] at ho
    exact hs.orphans orphan ho sid (hlive sid hl)
  · intro active listed found hp n hn ho hl
    exact hs.networks active listed found (hpass ▸ hp) n hn ho (hlive _ hl)
  · rintro n (hn | hn)
    · rcases hnetworks n hn with hn | hn
      · exact hrows _ (hs.known n (.inl hn))
      · exact hn
    · rw [hpass] at hn
      exact hrows _ (hs.known n (.inr hn))

theorem Careful.provision (hs : Careful s) {set : Row → Row} {d : Docker} (h : s.provision sid set d = some t)
    (hd : ∀ n ∈ d.networks, n ∈ s.docker.networks ∨ n.labels.sandboxId = sid) : Careful t := by
  obtain ⟨hmem, hdocker, hpass, hrows, hlive⟩ := provision_spec h
  refine hs.frame hpass hlive (fun x hx => (hrows x).mpr hx) ?_
  intro n hn
  rw [hdocker] at hn
  rcases hd n hn with hn | hn
  · exact .inl hn
  · exact .inr ((hrows _).mpr (hn ▸ hmem))

theorem Careful.insertRow (hs : Careful s) (hnew : sid ∉ s.rows)
    (hshort : ∀ orphan ∈ s.pass.orphanIds, short sid ≠ short orphan) {row : Row} :
    Careful { s with rows := s.rows.insert sid row } := by
  have hlive : ∀ x, State.Live { s with rows := s.rows.insert sid row } x → s.Live x ∨ x = sid :=
    fun x hx => (live_insert hx).imp_right And.left
  refine ⟨?_, ?_, ?_⟩
  · intro orphan ho x hx
    rcases hlive x hx with hx | rfl
    · exact hs.orphans orphan ho x hx
    · exact hshort orphan ho
  · intro active listed found hp n hn ho hx
    rcases hlive _ hx with hx | hsame
    · exact hs.networks active listed found hp n hn ho hx
    · refine hnew (hsame ▸ hs.known n (.inr ?_))
      have hp' : s.pass = .networks active listed found := hp
      rw [hp']
      exact hn
  · intro n hn
    exact AList.mem_insert s.rows |>.mpr (.inr (hs.known n hn))

/-! ### One call of the collector -/

theorem collectContainer_rest {active : List Uuid} {ok : Bool} {c : Container} {d : Docker} {found : List Uuid} :
    (collectContainer active ok c d found).1.networks = d.networks := by
  unfold collectContainer
  split
  · dsimp only
    split <;> rfl
  · rfl

theorem mem_collectContainer {active : List Uuid} {ok : Bool} {c : Container} {d : Docker} {found : List Uuid}
    {x : Uuid} (hx : x ∈ (collectContainer active ok c d found).2) :
    x ∈ found ∨ c.labels.isOrphaned active = true ∧ x = c.labels.sandboxId := by
  unfold collectContainer at hx
  split at hx
  next ho =>
    rcases List.mem_insert_iff.mp hx with rfl | hx
    · exact .inr ⟨ho, rfl⟩
    · exact .inl hx
  · exact .inl hx

theorem mem_collectNetwork {active : List Uuid} {ok : Bool} {n x : Network} {d : Docker}
    (hx : x ∈ (collectNetwork active ok n d).networks) : x ∈ d.networks := by
  unfold collectNetwork at hx
  split at hx
  · exact (List.mem_filter.mp hx).1
  · exact hx

/-- An orphaned id was one before the call, or the call lists an orphaned container of it. -/
theorem collect_orphanIds {ok : Bool} (h : s.collect ok = some t) {orphan : Uuid} (ho : orphan ∈ t.pass.orphanIds) :
    orphan ∈ s.pass.orphanIds ∨ ok = true ∧ ∃ active, s.pass = .started active ∧
      ∃ c ∈ s.docker.labelledContainers, c.labels.isOrphaned active = true ∧ c.labels.sandboxId = orphan := by
  unfold State.collect at h
  split at h
  next hp =>
    cases h
    cases ok <;> cases ho
  next active hp =>
    cases h
    cases ok with
    | false => cases ho
    | true =>
      simp only [↓reduceIte, Pass.orphanIds, List.append_nil] at ho
      obtain ⟨c, hc, hid⟩ := List.mem_map.mp ho
      obtain ⟨hmem, hor⟩ := List.mem_filter.mp hc
      exact .inr ⟨rfl, active, hp, c, hmem, hor, hid⟩
  next active c listed found hp =>
    cases h
    refine .inl ?_
    rw [hp]
    rcases List.mem_append.mp ho with ho | ho
    · obtain ⟨x, hx, rfl⟩ := List.mem_map.mp ho
      obtain ⟨hmem, hor⟩ := List.mem_filter.mp hx
      refine List.mem_append_left _ (List.mem_map.mpr ⟨x, ?_, rfl⟩)
      exact List.mem_filter.mpr ⟨.tail _ hmem, hor⟩
    · rcases mem_collectContainer ho with ho | ⟨hor, rfl⟩
      · exact List.mem_append_right _ ho
      · refine List.mem_append_left _ (List.mem_map.mpr ⟨c, ?_, rfl⟩)
        exact List.mem_filter.mpr ⟨.head _, hor⟩
  next active found hp =>
    cases h
    exact .inl (hp ▸ ho)
  next active n listed found hp =>
    cases h
    exact .inl (hp ▸ ho)
  next active found hp =>
    cases h
    exact .inl (hp ▸ ho)
  next hp =>
    cases h
    cases ho
  · cases h
  next orphan rest hp =>
    cases h
    exact .inl (hp ▸ ho)
  next orphan rest hp =>
    cases h
    exact .inl (hp ▸ .tail _ ho)

theorem collect_networks {ok : Bool} (h : s.collect ok = some t) {n : Network}
    (hn : n ∈ t.docker.networks ∨ n ∈ t.pass.listedNetworks) :
    n ∈ s.docker.networks ∨ n ∈ s.pass.listedNetworks := by
  unfold State.collect at h
  split at h
  next hp =>
    cases h
    cases ok <;> exact .inl (hn.resolve_right List.not_mem_nil)
  next active hp =>
    cases h
    exact .inl (hn.resolve_right List.not_mem_nil)
  next active c listed found hp =>
    cases h
    exact .inl (collectContainer_rest ▸ hn.resolve_right List.not_mem_nil)
  next active found hp =>
    cases h
    rcases hn with hn | hn
    · exact .inl hn
    · cases ok with
      | false => cases hn
      | true => exact .inl (List.mem_filter.mp hn).1
  next active m listed found hp =>
    cases h
    rcases hn with hn | hn
    · exact .inl (mem_collectNetwork hn)
    · refine .inr ?_
      rw [hp]
      exact .tail _ hn
  next active found hp =>
    cases h
    exact .inl (hn.resolve_right List.not_mem_nil)
  next hp =>
    cases h
    exact .inl (hn.resolve_right List.not_mem_nil)
  · cases h
  next orphan rest hp =>
    cases h
    have hn' := hn.resolve_right List.not_mem_nil
    unfold collectVolume at hn'
    split at hn' <;> exact .inl hn'
  next orphan rest hp =>
    cases h
    have hn' := hn.resolve_right List.not_mem_nil
    unfold collectBuildDir at hn'
    split at hn' <;> exact .inl hn'

/-- A listed network is listed by the call or was on the list before. -/
theorem collect_listed {ok : Bool} (h : s.collect ok = some t) {active : List Uuid} {listed : List Network}
    {found : List Uuid} (ht : t.pass = .networks active listed found) {n : Network} (hn : n ∈ listed) :
    (ok = true ∧ s.pass = .containers active [] found ∧ n ∈ s.docker.labelledNetworks) ∨
      ∃ m, s.pass = .networks active (m :: listed) found := by
  unfold State.collect at h
  split at h
  next hp =>
    cases h
    cases ok <;> cases ht
  next hp =>
    cases h
    cases ht
  next hp =>
    cases h
    cases ht
  next hp =>
    cases h
    cases ht
    cases ok with
    | false => cases hn
    | true => exact .inl ⟨rfl, hp, hn⟩
  next m _ _ hp =>
    cases h
    cases ht
    exact .inr ⟨m, hp⟩
  next hp =>
    cases h
    cases ht
  next hp =>
    cases h
    cases ht
  · cases h
  next hp =>
    cases h
    cases ht
  next hp =>
    cases h
    cases ht

theorem Careful.collect (hs : Careful s) {ok : Bool} (h : s.collect ok = some t)
    (hq : ListsInTime s (.gc ok) t) : Careful t := by
  have hrows := collect_rows h
  have hlive : ∀ x, t.Live x → s.Live x := fun x => (live_congr hrows).mp
  refine ⟨?_, ?_, ?_⟩
  · intro orphan ho sid hl
    rcases collect_orphanIds h ho with ho | ⟨rfl, active, hp, c, hc, hor, rfl⟩
    · exact hs.orphans orphan ho sid (hlive sid hl)
    · simp only [ListsInTime, hp] at hq
      exact hq c hc hor sid (hlive sid hl)
  · intro active listed found ht n hn hor hl
    rcases collect_listed h ht hn with ⟨rfl, hp, hmem⟩ | ⟨m, hp⟩
    · simp only [ListsInTime, hp] at hq
      exact hq n hmem hor (hlive _ hl)
    · exact hs.networks active (m :: listed) found hp n (.tail _ hn) hor (hlive _ hl)
  · intro n hn
    have hknown := hs.known n (collect_networks h hn)
    rwa [hrows]

theorem step_careful (h : step s a = some t) (hq : ListsInTime s a t) (hs : Careful s) : Careful t := by
  cases a with
  | insertRow sid =>
    simp only [step] at h
    split at h
    · cases h
    next hnew =>
      cases h
      exact hs.insertRow hnew hq
  | makeContainer sid id => exact hs.provision h fun _ hn => .inl hn
  | makeNetwork sid name =>
    refine hs.provision h fun n hn => ?_
    rcases List.mem_append.mp hn with hn | hn
    · exact .inl hn
    · rw [List.mem_singleton.mp hn]
      exact .inr rfl
  | makeVolume sid => exact hs.provision h fun _ hn => .inl hn
  | makeBuildDir sid => exact hs.provision h fun _ hn => .inl hn
  | setStatus sid status =>
    have hlive : ∀ x, t.Live x → s.Live x := fun x hx => (step_live h hx).resolve_right nofun
    simp only [step] at h
    split at h
    next row hrow =>
      split at h
      · cases h
      · cases h
        exact hs.frame rfl hlive (fun x hx => (AList.mem_insert s.rows).mpr (.inr hx)) fun _ => .inl
    · cases h
  | dropContainer c => cases h; exact hs.frame rfl (fun _ => id) (fun _ => id) fun _ => .inl
  | dropNetwork n =>
    cases h
    exact hs.frame rfl (fun _ => id) (fun _ => id) fun _ hn => .inl (List.mem_filter.mp hn).1
  | dropVolume name => cases h; exact hs.frame rfl (fun _ => id) (fun _ => id) fun _ => .inl
  | dropBuildDir name => cases h; exact hs.frame rfl (fun _ => id) (fun _ => id) fun _ => .inl
  | pick i =>
    simp only [step] at h
    split at h
    next ids hp =>
      split at h
      next orphan hi =>
        cases h
        refine ⟨?_, nofun, fun n hn => hn.elim (fun hn => hs.known n (.inl hn)) nofun⟩
        intro x hx sid hl
        refine hs.orphans x ?_ sid hl
        rw [hp]
        rcases List.mem_cons.mp hx with rfl | hx
        · exact List.mem_of_getElem? hi
        · exact List.mem_of_mem_eraseIdx hx
      · cases h
    · cases h
  | gc ok => exact hs.collect h hq

/-- In every run whose listings are read in time, the collector takes nothing from a sandbox
that is provisioning or ready. -/
theorem collector_spares_active {as : List Act} (h : Always step ListsInTime initial as) :
    Always step Spares initial as :=
  always_of_invariant (fun _ _ _ hs ht hq => ⟨hs.spares, step_careful ht hq hs⟩) careful_initial h

/-- What a failed sandbox left is collected beside one that is ready. -/
def leftoverCollected : List Act :=
  [.insertRow "0a1b2c3d-sbx", .makeContainer "0a1b2c3d-sbx" "node-id", .setStatus "0a1b2c3d-sbx" .failed,
   .insertRow "5b0c1d2e-sbx", .makeContainer "5b0c1d2e-sbx" "anvil-id", .setStatus "5b0c1d2e-sbx" .ready,
   .gc true, .gc true, .gc true, .gc true, .gc true, .gc true, .pick 0, .gc true, .gc true, .gc true]

theorem collector_spares_active_leftover :
    (∃ t, exec step initial leftoverCollected = some t) ∧ Always step Spares initial leftoverCollected :=
  ⟨Option.isSome_iff_exists.mp (by decide +kernel), collector_spares_active (by decide +kernel)⟩

/-- The active ids are read before the sandbox has its row, the containers after it has its
first one. -/
def insertedInBetween : List Act :=
  [.gc true, .insertRow "5b0c1d2e-sbx", .makeNetwork "5b0c1d2e-sbx" "rvp-sbx-5b0c1d2e",
   .makeContainer "5b0c1d2e-sbx" "anvil-id", .gc true, .gc true]

theorem active_container_removed : ¬ Always step Spares initial insertedInBetween := by
  intro h
  let c : Container := ⟨"anvil-id", State.labelsOf "5b0c1d2e-sbx"⟩
  have hsplit : Always step Spares initial (insertedInBetween.take 5 ++ .gc true :: []) := h
  obtain ⟨u, hu⟩ := Option.isSome_iff_exists.mp
    (show (exec step initial (insertedInBetween.take 5)).isSome = true by decide +kernel)
  obtain ⟨t, ht⟩ := Option.isSome_iff_exists.mp
    (show ((exec step initial (insertedInBetween.take 5)).bind (step · (.gc true))).isSome = true by decide +kernel)
  rw [hu, Option.bind_some] at ht
  have hstate : (exec step initial (insertedInBetween.take 5)).map
      (fun u => (u.pass, u.docker.containers, u.rows.lookup "5b0c1d2e-sbx")) =
        some (.containers [] [c] [], [c], some ⟨.provisioning, false, false⟩) := by decide +kernel
  rw [hu, Option.map_some, Option.some_inj, Prod.mk.injEq, Prod.mk.injEq] at hstate
  obtain ⟨hpass, hcontainers, hrow⟩ := hstate
  refine hsplit.at hu ht rfl (.container c) "5b0c1d2e-sbx" ?_ ?_ (live_iff.mpr ⟨_, hrow, rfl⟩)
  · rw [State.Removes, hpass]
    exact ⟨by decide, rfl⟩
  · rw [State.Belongs, hcontainers]
    exact ⟨.head _, rfl⟩

end ReleaseValidation.SandboxManager.CollectorRuns
