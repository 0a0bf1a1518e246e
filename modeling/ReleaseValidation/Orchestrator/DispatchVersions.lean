import ReleaseValidation.Orchestrator.RunRequests
import ReleaseValidation.Orchestrator.TestDispatch

/-! # The node version of a run's tests

The version of a run is settled twice: for its sandbox when the run is created, from the
call, the catalog or the tag, and for its tests when the sandbox is ready, from the catalog
alone. A run is known by the position of the handler that created it.
-/
namespace ReleaseValidation.Orchestrator.TestDispatch
open Store Catalog Parties Runs RunTriggers

/-- What creates a run: a release event, or a call with the application it has found. -/
inductive Creation
  | event (e : ReleaseEvent)
  | trigger (body : TriggerRunRequest) (target : Option Target)
  deriving DecidableEq, Repr

namespace Creation

def tag : Creation → String
  | event e => e.tag
  | trigger body _ => body.releaseTag

/-- The handler that is about to look the release up. -/
def lookingUp : Creation → Handler
  | event e => .event e .lookup
  | trigger body target => .trigger body (.lookup target)

/-- The version that the call insists on. -/
def override : Creation → Option ℤ
  | event _ => none
  | trigger body _ => body.nodeMajorVersion.filter (· ≠ 0)

/-- The version that the release's row has for the request. -/
def known : Creation → Option ReleaseRow → Option ℤ
  | event _, release => (release.bind ReleaseRow.nodeMajorVersion).filter (· ≠ 0)
  | trigger _ _, release => release.bind ReleaseRow.nodeMajorVersion

end Creation

/-- The row has this version; a missing row or version stands for 1. -/
def Records (release : Option ReleaseRow) (major : ℤ) : Prop :=
  release.bind ReleaseRow.nodeMajorVersion = some major ∨ release.bind ReleaseRow.nodeMajorVersion = none ∧ major = 1

section Requests
variable (ch : Characters) (uuid : String → Option Uuid)

def Creation.request (c : Creation) (i : ℕ) (found : Option Toolchain) : SandboxRequest :=
  match c with
  | .event e => e.request ch i found
  | .trigger body target => body.request ch i target found

/-- The row at the dispatch has the version that the call insists on; else the version of the row at
the request; and else the number that the tag starts with. -/
def Creation.Recorded (c : Creation) (before now : Option ReleaseRow) : Prop :=
  match c.override, c.known before with
  | some major, _ => Records now major
  | none, some major => Records now major
  | none, none => Records now (Catalog.nodeMajorVersion ch c.tag)

/-- In the course of the run the handler at position `i` looks the release up in the tables. -/
def LooksUp (as : List RunTriggers.Act) (i : ℕ) (c : Creation) (tables : Tables) : Prop :=
  ∃ pre post u, as = pre ++ .advance i tables :: post ∧ exec (step ch uuid) initial pre = some u ∧
    u.handlers[i]? = some c.lookingUp

/-- Where a handler can be after its lookup. -/
def Creation.After (c : Creation) (i : ℕ) (found : Option Toolchain) (h : Handler) : Prop :=
  (∃ e, c = .event e ∧ h = .event e (.insert found)) ∨
  (∃ e, c = .event e ∧ h = .event e (.publish (e.request ch i found))) ∨
  (∃ body target, c = .trigger body target ∧ h = .trigger body (.publish (body.request ch i target found))) ∨
  h.phase = .ended

/-- The handler at position `i` requests with what it has found. -/
def Answered (c : Creation) (i : ℕ) (found : Option Toolchain) (s : State) : Prop :=
  (∃ h : Handler, s.handlers[i]? = some h ∧ c.After ch i found h) ∧
    ∀ q ∈ s.requests, q.runId = i → q = c.request ch i found

variable {ch uuid} {c : Creation} {i : ℕ} {found : Option Toolchain} {s t : State} {h h' : Handler}

theorem after_next {tables : Tables} {runs : List Run} {effect : Effect} (hafter : c.After ch i found h)
    (hnext : h.next ch uuid tables runs i = some (h', effect)) :
    c.After ch i found h' ∧ ∀ q, effect = .publish q → q = c.request ch i found := by
  rcases hafter with ⟨e, rfl, rfl⟩ | ⟨e, rfl, rfl⟩ | ⟨body, target, rfl, rfl⟩ | hended
  · cases hnext
    exact ⟨Or.inr (Or.inl ⟨e, rfl, rfl⟩), fun q hq => by cases hq⟩
  · cases hnext
    refine ⟨Or.inr (Or.inr (Or.inr rfl)), ?_⟩
    rintro q ⟨⟩
    rfl
  · cases hnext
    refine ⟨Or.inr (Or.inr (Or.inr rfl)), ?_⟩
    rintro q ⟨⟩
    rfl
  · exact absurd hended (phase_of_next hnext)

theorem answered_step {a : RunTriggers.Act} (hs : Tracked ch s) (ha : Answered ch c i found s)
    (hstep : step ch uuid s a = some t) : Answered ch c i found t := by
  obtain ⟨⟨k, hk, hafter⟩, hrequests⟩ := ha
  rcases step_cases hstep with ⟨e, rfl, -, rfl⟩ | ⟨body, rfl, rfl⟩ | ⟨j, tables, h, h', effect, rfl, hj, hnext, rfl⟩ |
    ⟨j, h, rfl, hj, hphase, rfl⟩
  · exact ⟨⟨k, getElem?_append_of_some hk, hafter⟩, hrequests⟩
  · exact ⟨⟨k, getElem?_append_of_some hk, hafter⟩, hrequests⟩
  · unfold Answered
    rw [handlers_apply]
    by_cases hij : j = i
    · subst hij
      cases hj.symm.trans hk
      obtain ⟨hafter', heffect⟩ := after_next hafter hnext
      refine ⟨⟨h', getElem?_set_of_some hj, hafter'⟩, fun q hq hid => ?_⟩
      rcases mem_requests_apply.mp hq with hold | hnew
      · exact hrequests q hold hid
      · exact heffect q hnew
    · have hother : (s.handlers.set j h')[i]? = some k := by rw [List.getElem?_set_ne hij, hk]
      refine ⟨⟨k, hother, hafter⟩, fun q hq hid => ?_⟩
      rcases mem_requests_apply.mp hq with hold | hnew
      · exact hrequests q hold hid
      · rw [hnew] at hnext
        exact absurd ((requestId_of_next hs hj hnext).symm.trans hid) hij
  · by_cases hij : j = i
    · subst hij
      exact ⟨⟨h.stop, getElem?_set_of_some hj, Or.inr (Or.inr (Or.inr (stop_ended h)))⟩, hrequests⟩
    · have hother : (s.handlers.set j h.stop)[i]? = some k := by rw [List.getElem?_set_ne hij, hk]
      exact ⟨⟨k, hother, hafter⟩, hrequests⟩

/-- At its lookup a handler has requested nothing, and from there on it keeps the row it finds. -/
theorem answered_lookup {tables : Tables} (hs : Tracked ch s) (hi : s.handlers[i]? = some c.lookingUp)
    (hstep : step ch uuid s (.advance i tables) = some t) :
    Answered ch c i (Catalog.lookup tables.catalog c.tag) t := by
  have hnone : ∀ q ∈ s.requests, q.runId ≠ i := by
    cases c with
    | event e => exact ((hs.each i _ hi).before rfl).2
    | trigger body target => exact ((hs.each i _ hi).committed rfl).2.1
  rw [RunTriggers.step, hi, Option.bind_some] at hstep
  cases c with
  | event e =>
    cases hstep
    refine ⟨⟨_, getElem?_set_of_some hi, Or.inl ⟨e, rfl, rfl⟩⟩, fun q hq hid => ?_⟩
    exact absurd hid (hnone q hq)
  | trigger body target =>
    cases hstep
    refine ⟨⟨_, getElem?_set_of_some hi, Or.inr (Or.inr (Or.inl ⟨body, target, rfl, rfl⟩))⟩, fun q hq hid => ?_⟩
    exact absurd hid (hnone q hq)

/-- The request of a run is made of the row that its handler has looked up. -/
theorem request_of_lookup {as : List RunTriggers.Act} {tables : Tables} {q : SandboxRequest}
    (hrun : exec (step ch uuid) initial as = some s) (hlookup : LooksUp ch uuid as i c tables)
    (hq : q ∈ s.requests) (hid : q.runId = i) : q = c.request ch i (Catalog.lookup tables.catalog c.tag) := by
  obtain ⟨pre, post, u, rfl, hpre, hi⟩ := hlookup
  obtain ⟨u', hu', hpost⟩ := exec_append_iff.mp hrun
  cases hpre.symm.trans hu'
  obtain ⟨v, hv, hpost⟩ := Option.bind_eq_some_iff.mp hpost
  have hu : Tracked ch u := exec_invariant (fun _ _ _ hs ht => tracked_step hs ht) (tracked_initial ch) hpre
  have hs : Tracked ch s ∧ Answered ch c i (Catalog.lookup tables.catalog c.tag) s := by
    refine exec_invariant (I := fun s => Tracked ch s ∧ Answered ch c i _ s) ?_
      ⟨tracked_step hu hv, answered_lookup hu hi hv⟩ hpost
    exact fun w a x hw hx => ⟨tracked_step hw.1 hx, answered_step hw.1 hw.2 hx⟩
  exact hs.2.2 q hq hid

/-- What the dispatch does with a stored run that carries the request's version throughout. -/
def Dispatch.Follows (d : Dispatch) (major : ℤ) : Prop :=
  (∀ n, d.selectedBy = some n → n = major) ∧ ∀ command ∈ d.commands, command.nodeMajorVersion = major

/-- The row of a run at the dispatch; the application's address and the metadata have been filled in meanwhile. -/
def storedRun (r : Run) (appAddress : Option String) (metadata : Option RunMetadata) : StoredRun :=
  ⟨r.releaseTag, r.suiteIds, appAddress, metadata⟩

theorem records_iff {release : Option ReleaseRow} {major : ℤ} :
    Records release major ↔ recordedMajor release = major := by
  unfold Records recordedMajor
  cases release.bind ReleaseRow.nodeMajorVersion with
  | none => simp [eq_comm]
  | some n => simp

theorem follows_iff {db : Db} {definitions : List Definition} {run : StoredRun} {runId : ℕ} {sandboxId : Uuid}
    {msg : SandboxMessage} {major : ℤ} :
    (dispatchTests db definitions (some run) runId sandboxId msg).Follows major ↔
      run.meta.aiSession = true ∨ Records (db .release run.releaseTag) major := by
  rw [records_iff]
  cases hai : run.meta.aiSession with
  | true =>
    rw [dispatch_skipped db definitions runId sandboxId msg hai]
    refine iff_of_true ⟨?_, ?_⟩ (Or.inl rfl)
    · intro n hn
      cases hn
    · intro command hc
      cases hc
  | false =>
    obtain ⟨appAddress, hpublished⟩ := dispatch_published db definitions runId sandboxId msg hai
    constructor
    · rintro ⟨hselected, -⟩
      rw [hpublished] at hselected
      exact Or.inr (hselected _ rfl)
    · rintro (h | rfl)
      · cases h
      · refine ⟨fun n hn => ?_, fun command hc => (command_of_dispatch hc).2.1⟩
        rw [hpublished] at hn
        exact (Option.some.inj hn).symm

theorem lookup_major (db : Db) (tag : String) :
    (Catalog.lookup db tag).bind Toolchain.nodeMajorVersion = (db .release tag).bind ReleaseRow.nodeMajorVersion := by
  unfold Catalog.lookup
  cases db .release tag <;> rfl

theorem event_major (e : ReleaseEvent) (found : Option Toolchain) :
    (e.request ch i found).nodeMajorVersion =
      some (((found.bind Toolchain.nodeMajorVersion).filter (· ≠ 0)).getD (Catalog.nodeMajorVersion ch e.tag)) := by
  simp only [ReleaseEvent.request, orNumber]
  cases (found.bind Toolchain.nodeMajorVersion).filter (· ≠ 0) with
  | none => rw [Option.none_or, Option.getD_none]
  | some n => rw [Option.some_or, Option.getD_some]

theorem trigger_major {body : TriggerRunRequest} {target : Option Target} {db : Db} {major : ℤ}
    (h : (body.request ch i target (Catalog.lookup db body.releaseTag)).nodeMajorVersion = some major) :
    major = ((body.nodeMajorVersion.filter (· ≠ 0)).or ((db .release body.releaseTag).bind ReleaseRow.nodeMajorVersion)).getD
      (Catalog.nodeMajorVersion ch body.releaseTag) := by
  simp only [TriggerRunRequest.request, orNumber] at h
  cases ho : body.nodeMajorVersion.filter (· ≠ 0) with
  | some n =>
    rw [ho] at h
    exact (Option.some.inj h).symm
  | none =>
    rw [ho, Option.none_or] at h
    rw [Option.none_or, ← lookup_major]
    cases hrow : Catalog.lookup db body.releaseTag with
    | none =>
      simp only [hrow, Option.some.injEq] at h
      rw [Option.bind_none, Option.getD_none, h]
    | some row =>
      simp only [hrow] at h
      rw [Option.bind_some, h, Option.getD_some]

/-- The version in a request, in terms of what the call and the catalog say. -/
theorem request_major {c : Creation} {db : Db} {major : ℤ}
    (h : (c.request ch i (Catalog.lookup db c.tag)).nodeMajorVersion = some major) :
    major = (c.override.or (c.known (db .release c.tag))).getD (Catalog.nodeMajorVersion ch c.tag) := by
  cases c with
  | event e =>
    simp only [Creation.request, Creation.tag] at h
    rw [event_major, lookup_major] at h
    simp only [Creation.override, Creation.known, Creation.tag, Option.none_or]
    exact (Option.some.inj h).symm
  | trigger body target =>
    simp only [Creation.request, Creation.tag] at h
    simp only [Creation.override, Creation.known, Creation.tag]
    exact trigger_major h

theorem recorded_iff {c : Creation} {before now : Option ReleaseRow} :
    c.Recorded ch before now ↔
      Records now ((c.override.or (c.known before)).getD (Catalog.nodeMajorVersion ch c.tag)) := by
  unfold Creation.Recorded
  cases c.override with
  | some major => simp
  | none => cases c.known before <;> simp

end Requests

section Versions
variable {ch : Characters} {uuid : String → Option Uuid}

/-- The tests of a run are those for the node of its sandbox exactly when the catalog has, at the
dispatch, the version that the call, the catalog or the tag gave at the request. -/
theorem tests_follow_request_iff {as : List RunTriggers.Act} {s : State} {i : ℕ} {c : Creation} {tables : Tables}
    {q : SandboxRequest} {r : Run} {major : ℤ} (hrun : exec (step ch uuid) initial as = some s)
    (hlookup : LooksUp ch uuid as i c tables) (hr : r ∈ s.runs) (hri : r.id = i) (hq : q ∈ s.requests)
    (hqi : q.runId = i) (hmajor : q.nodeMajorVersion = some major) (db : Db) (definitions : List Definition)
    (appAddress : Option String) (metadata : Option RunMetadata) (sandboxId : Uuid) (msg : SandboxMessage) :
    (dispatchTests db definitions (some (storedRun r appAddress metadata)) i sandboxId msg).Follows major ↔
      (storedRun r appAddress metadata).meta.aiSession = true ∨
        c.Recorded ch (tables.catalog .release c.tag) (db .release c.tag) := by
  have hmade := request_of_lookup hrun hlookup hq hqi
  have htracked : Tracked ch s := exec_invariant (fun _ _ _ hs ht => tracked_step hs ht) (tracked_initial ch) hrun
  have htag : r.releaseTag = c.tag := by
    have hmatches := (htracked.matching r hr q hq (hqi.trans hri.symm)).releaseTag
    rw [← hmatches, hmade]
    cases c <;> rfl
  rw [hmade] at hmajor
  rw [follows_iff, recorded_iff, ← request_major hmajor, ← htag]
  rfl

end Versions

/-- A call for a release that the catalog does not have. -/
def alphaCall : TriggerRunRequest :=
  ⟨"v2.0.0-alpha.12", "cartesi/rollups-runtime:0.12.0", none, 5, "user", none, none, none, none, none⟩

def alphaRun : Run :=
  ⟨0, "v2.0.0-alpha.12", "cartesi/rollups-runtime:0.12.0", [], .queued, 5, .user, none, none⟩

def alphaRequest : SandboxRequest := alphaCall.request .ascii 0 none none

/-- The call up to its lookup, and from there to the published request. -/
def untilLookup : List RunTriggers.Act := [.trigger alphaCall, .advance 0 noTables, .advance 0 noTables, .advance 0 noTables]

def alphaActs : List RunTriggers.Act := untilLookup ++ [.advance 0 noTables, .advance 0 noTables]

theorem alphaActs_run : exec (step .ascii some) initial alphaActs =
    some ⟨[alphaRun], [alphaRequest], [.trigger alphaCall .ended]⟩ := by decide +kernel

theorem alphaActs_lookup : LooksUp .ascii some alphaActs 0 (.trigger alphaCall none) noTables :=
  ⟨untilLookup, [.advance 0 noTables], ⟨[alphaRun], [], [.trigger alphaCall (.lookup none)]⟩, rfl,
    by decide +kernel, rfl⟩

/-- By the time its sandbox is ready the release has been added, with its version. -/
def addedRelease : Db
  | .release, "v2.0.0-alpha.12" => some ⟨none, some 2⟩
  | _, _ => none

theorem tests_follow_request_added :
    (dispatchTests addedRelease [] (some (storedRun alphaRun none none)) 0 "sandbox" []).Follows 2 :=
  (tests_follow_request_iff alphaActs_run alphaActs_lookup List.mem_cons_self rfl List.mem_cons_self rfl
    (by decide +kernel) addedRelease [] none none "sandbox" []).mpr (Or.inr (Or.inl (by decide +kernel)))

def advanceV1 : Definition := ⟨"1", "advance-state-basic", 1, some ["smoke"], none, true, 1⟩

/-- The sandbox runs a node of version 2 and receives the tests of version 1. -/
theorem absent_release_gets_v1_tests : ∃ s, exec (step .ascii some) initial alphaActs = some s ∧
    alphaRun ∈ s.runs ∧ alphaRequest ∈ s.requests ∧ alphaRequest.runId = alphaRun.id ∧
    alphaRequest.nodeMajorVersion = some 2 ∧
    let d := dispatchTests noTables.catalog [advanceV1] (some (storedRun alphaRun none none)) 0 "sandbox" []
    d.selectedBy = some 1 ∧ d.commands.map (fun c => (c.definitionSlug, c.nodeMajorVersion)) = [("advance-state-basic", 1)] ∧
      ¬ d.Follows 2 := by
  refine ⟨_, alphaActs_run, List.mem_cons_self, List.mem_cons_self, rfl, by decide +kernel, rfl, rfl, ?_⟩
  intro hfollows
  have hone : (1 : ℤ) = 2 := hfollows.1 1 rfl
  cases hone

end ReleaseValidation.Orchestrator.TestDispatch
