import ReleaseValidation.Orchestrator.RunTriggers

/-! # Every run has its sandbox request

The run is committed before its request is published, so an error between the two leaves a
run that nobody requests; a further delivery of its event finds the run and skips. The
idempotency check keeps the events of a tag from having two runs. The endpoint makes no
such check when a call names a release as its trigger.
-/
namespace ReleaseValidation.Orchestrator.RunTriggers
open Store Catalog Parties Runs

/-- The values of the call are those of their columns. -/
def TriggerRunRequest.Storable (uuid : String → Option Uuid) (body : TriggerRunRequest) : Prop :=
  (∀ s ∈ body.suiteIds.getD [], (uuid s).isSome = true) ∧ -32768 ≤ body.priority ∧ body.priority ≤ 32767

/-- A handler about to insert a run of a release finds none that its own check cannot have seen: an
event finds none of the trigger endpoint, a call finds none at all. -/
def Handler.Clear (uuid : String → Option Uuid) (s : State) : Handler → Prop
  | .event e (.insert _) => ∀ r ∈ s.runs, r.ofRelease e.tag = true → ¬ s.ByTrigger r
  | .trigger body (.insert _) => body.triggeredBy = "github_release" → body.Storable uuid →
      ∀ r ∈ s.runs, r.ofRelease body.releaseTag = false
  | _ => True

/-- Nothing fails between a commit and its publish, and no second run of a release is inserted past
the idempotency check. -/
def Clean (uuid : String → Option Uuid) (s : State) : Act → Prop
  | .advance i _ => ∀ h : Handler, s.handlers[i]? = some h → h.Clear uuid s
  | .fail i => ∀ h : Handler, s.handlers[i]? = some h → h.phase ≠ .committed
  | _ => True

section Handlers
variable (ch : Characters) (uuid : String → Option Uuid)

/-- The request that a handler past its commit publishes next describes the run. -/
def Handler.Describes (i : ℕ) : Handler → Run → Prop
  | .event _ (.publish q), r => q.runId = i ∧ q.Matches r
  | .trigger body (.refresh target), r => (body.request ch i target none).Matches r
  | .trigger body (.lookup target), r => (body.request ch i target none).Matches r
  | .trigger _ (.publish q), r => q.runId = i ∧ q.Matches r
  | _, _ => True

/-- The tag of an event that has passed the idempotency check. -/
def Handler.checkedTag : Handler → Option String
  | .event e .lookup => some e.tag
  | .event e (.insert _) => some e.tag
  | _ => none

/-- What the database and the broker hold of the handler at position `i`. -/
structure Handler.Tracked (s : State) (i : ℕ) (h : Handler) : Prop where
  before : h.phase = .beforeCommit → (∀ r ∈ s.runs, r.id ≠ i) ∧ ∀ q ∈ s.requests, q.runId ≠ i
  committed : h.phase = .committed →
    s.HasRun i ∧ (∀ q ∈ s.requests, q.runId ≠ i) ∧ ∀ r ∈ s.runs, r.id = i → h.Describes ch i r
  checked : ∀ tag, h.checkedTag = some tag → ∀ r ∈ s.runs, r.ofRelease tag = true → s.ByTrigger r

structure Tracked (s : State) : Prop where
  runIds : ∀ r ∈ s.runs, r.id < s.handlers.length
  requestIds : ∀ q ∈ s.requests, q.runId < s.handlers.length
  matching : ∀ r ∈ s.runs, ∀ q ∈ s.requests, q.runId = r.id → q.Matches r
  each : Each (Handler.Tracked ch s) s.handlers
  oneEvent : AtMostOne (fun h : Handler => h.handlesEvent = true) s.handlers

theorem ofRelease_iff {r : Run} {tag : String} :
    r.ofRelease tag = true ↔ r.releaseTag = tag ∧ r.triggeredBy = .githubRelease := by
  simp [Run.ofRelease]

theorem parse_eq_githubRelease_iff {s : String} :
    TriggeredBy.parse s = some .githubRelease ↔ s = "github_release" := by
  unfold TriggeredBy.parse
  split
  next h => simp [h]
  next h =>
    split
    next => simp [h]
    next =>
      split
      next => simp [h]
      next => simp [h]

theorem mapM_isSome {α β : Type} {f : α → Option β} {xs : List α} :
    (xs.mapM f).isSome = true ↔ ∀ x ∈ xs, (f x).isSome = true := by
  induction xs with
  | nil => simp
  | cons x xs ih =>
    rw [List.mapM_cons, List.forall_mem_cons, ← ih]
    cases f x with
    | none => simp
    | some y => cases xs.mapM f <;> simp

/-- What a call inserts. -/
theorem run_spec {body : TriggerRunRequest} {i : ℕ} {target : Option Target} {r : Run}
    (h : body.run uuid i target = some r) :
    body.Storable uuid ∧ r.id = i ∧ r.status = .queued ∧ r.releaseTag = body.releaseTag ∧
      (r.triggeredBy = .githubRelease ↔ body.triggeredBy = "github_release") ∧
      (body.request ch i target none).Matches r := by
  obtain ⟨suiteIds, hids, h⟩ := Option.bind_eq_some_iff.mp h
  obtain ⟨triggeredBy, hby, h⟩ := Option.bind_eq_some_iff.mp h
  split at h
  next hpriority =>
    cases h
    refine ⟨⟨mapM_isSome.mp (by rw [hids]; rfl), hpriority⟩, rfl, rfl, rfl, ?_, ⟨rfl, rfl, rfl, rfl⟩⟩
    rw [← parse_eq_githubRelease_iff, hby, Option.some.injEq]
  next => cases h

theorem application_phase (body : TriggerRunRequest) (tables : Tables) :
    (body.application uuid tables).phase = .beforeCommit ∨ (body.application uuid tables).phase = .ended := by
  unfold TriggerRunRequest.application
  split
  next => exact Or.inl rfl
  next =>
    split
    next => exact Or.inr rfl
    next =>
      split
      next => exact Or.inr rfl
      next =>
        split
        next => exact Or.inl rfl
        next => exact Or.inr rfl

variable {ch uuid}

/-- What an operation of a handler does. -/
theorem next_cases {tables : Tables} {runs : List Run} {i : ℕ} {h h' : Handler} {effect : Effect}
    (hnext : h.next ch uuid tables runs i = some (h', effect)) :
    h'.isTrigger = h.isTrigger ∧ (h'.handlesEvent = true → h.handlesEvent = true) ∧
    (∀ tag, h'.checkedTag = some tag → h.checkedTag = some tag ∨ ∀ r ∈ runs, r.ofRelease tag = false) ∧
    (effect = .nothing ∧ h.phase = .beforeCommit ∧ (h'.phase = .beforeCommit ∨ h'.phase = .ended) ∨
      effect = .nothing ∧ h.phase = .committed ∧ h'.phase = .committed ∧
        (∀ r, h.Describes ch i r → h'.Describes ch i r) ∨
      (∃ r, effect = .commit r ∧ h.phase = .beforeCommit ∧ h'.phase = .committed ∧ r.id = i ∧ r.status = .queued ∧
        h'.Describes ch i r) ∨
      ∃ q, effect = .publish q ∧ h.phase = .committed ∧ h'.phase = .ended ∧
        ∀ r, h.Describes ch i r → q.runId = i ∧ q.Matches r) := by
  have hnone : ∀ tag, (none : Option String) = some tag → False := fun tag htag => by cases htag
  cases h with
  | event e stage =>
    cases stage with
    | check =>
      cases hnext
      split
      next => exact ⟨rfl, fun hactive => rfl, fun tag htag => (hnone tag htag).elim, Or.inl ⟨rfl, rfl, Or.inr rfl⟩⟩
      next hfresh =>
        refine ⟨rfl, fun hactive => rfl, ?_, Or.inl ⟨rfl, rfl, Or.inl rfl⟩⟩
        rintro tag ⟨⟩
        right
        intro r hr
        rw [← Bool.not_eq_true]
        exact fun hrelease => hfresh (List.any_eq_true.mpr ⟨r, hr, hrelease⟩)
    | lookup =>
      cases hnext
      exact ⟨rfl, fun hactive => rfl, fun tag htag => Or.inl htag, Or.inl ⟨rfl, rfl, Or.inl rfl⟩⟩
    | insert found =>
      cases hnext
      refine ⟨rfl, fun hactive => rfl, fun tag htag => (hnone tag htag).elim, Or.inr (Or.inr (Or.inl ?_))⟩
      exact ⟨_, rfl, rfl, rfl, rfl, rfl, rfl, ⟨rfl, rfl, rfl, rfl⟩⟩
    | publish q =>
      cases hnext
      refine ⟨rfl, fun hactive => rfl, fun tag htag => (hnone tag htag).elim, Or.inr (Or.inr (Or.inr ?_))⟩
      exact ⟨q, rfl, rfl, rfl, fun r hr => hr⟩
    | ended => cases hnext
  | trigger body stage =>
    cases stage with
    | application =>
      cases hnext
      refine ⟨rfl, fun hactive => hactive, fun tag htag => (hnone tag htag).elim, Or.inl ⟨rfl, rfl, ?_⟩⟩
      exact application_phase uuid body tables
    | insert target =>
      simp only [Handler.next] at hnext
      split at hnext
      next r hrun =>
        cases hnext
        obtain ⟨-, hid, hstatus, -, -, hmatches⟩ := run_spec ch uuid hrun
        refine ⟨rfl, fun hactive => hactive, fun tag htag => (hnone tag htag).elim, Or.inr (Or.inr (Or.inl ?_))⟩
        exact ⟨r, rfl, rfl, rfl, hid, hstatus, hmatches⟩
      next =>
        cases hnext
        exact ⟨rfl, fun hactive => hactive, fun tag htag => (hnone tag htag).elim, Or.inl ⟨rfl, rfl, Or.inr rfl⟩⟩
    | refresh target =>
      cases hnext
      refine ⟨rfl, fun hactive => hactive, fun tag htag => (hnone tag htag).elim, Or.inr (Or.inl ?_)⟩
      exact ⟨rfl, rfl, rfl, fun r hr => hr⟩
    | lookup target =>
      cases hnext
      refine ⟨rfl, fun hactive => hactive, fun tag htag => (hnone tag htag).elim, Or.inr (Or.inl ?_)⟩
      exact ⟨rfl, rfl, rfl, fun r hr => ⟨rfl, hr.releaseTag, hr.imageTag, hr.priority, hr.appId⟩⟩
    | publish q =>
      cases hnext
      refine ⟨rfl, fun hactive => hactive, fun tag htag => (hnone tag htag).elim, Or.inr (Or.inr (Or.inr ?_))⟩
      exact ⟨q, rfl, rfl, rfl, fun r hr => hr⟩
    | ended => cases hnext

end Handlers

section States
variable {ch : Characters} {uuid : String → Option Uuid} {s t : State} {i : ℕ} {h h' : Handler} {effect : Effect}

theorem mem_runs_apply {r : Run} : r ∈ (s.apply effect).runs ↔ r ∈ s.runs ∨ effect = .commit r := by
  cases effect with
  | commit run => simp [State.apply, eq_comm]
  | _ => simp [State.apply]

theorem mem_requests_apply {q : SandboxRequest} : q ∈ (s.apply effect).requests ↔ q ∈ s.requests ∨ effect = .publish q := by
  cases effect with
  | publish request => simp [State.apply, eq_comm]
  | _ => simp [State.apply]

theorem handlers_apply : (s.apply effect).handlers = s.handlers := by
  cases effect <;> rfl

theorem byTrigger_set {r : Run} (hhandlers : t.handlers = s.handlers.set i h') (hi : s.handlers[i]? = some h)
    (htrigger : h'.isTrigger = h.isTrigger) (hr : s.ByTrigger r) : t.ByTrigger r := by
  obtain ⟨k, hk, hby⟩ := hr
  by_cases hid : r.id = i
  · rw [hid, hi] at hk
    cases hk
    refine ⟨h', ?_, htrigger.trans hby⟩
    rw [hhandlers, hid]
    exact getElem?_set_of_some hi
  · refine ⟨k, ?_, hby⟩
    rw [hhandlers, List.getElem?_set_ne (Ne.symm hid)]
    exact hk

theorem byTrigger_append {r : Run} (hhandlers : t.handlers = s.handlers ++ [h']) (hr : s.ByTrigger r) :
    t.ByTrigger r := by
  obtain ⟨k, hk, hby⟩ := hr
  refine ⟨k, ?_, hby⟩
  rw [hhandlers]
  exact getElem?_append_of_some hk

/-- What a handler relies on survives the operations of the others. -/
theorem Handler.Tracked.other (hh : h.Tracked ch s i) (hkeep : ∀ r ∈ s.runs, r ∈ t.runs)
    (hby : ∀ r, s.ByTrigger r → t.ByTrigger r)
    (hruns : ∀ r ∈ t.runs, r ∈ s.runs ∨ r.id ≠ i ∧ (h.checkedTag = none ∨ t.ByTrigger r))
    (hrequests : ∀ q ∈ t.requests, q ∈ s.requests ∨ q.runId ≠ i) : h.Tracked ch t i where
  before hphase := by
    obtain ⟨hrun, hrequest⟩ := hh.before hphase
    exact ⟨fun r hr => (hruns r hr).elim (hrun r) And.left, fun q hq => (hrequests q hq).elim (hrequest q) id⟩
  committed hphase := by
    obtain ⟨⟨r, hr, hid⟩, hrequest, hdescribes⟩ := hh.committed hphase
    refine ⟨⟨r, hkeep r hr, hid⟩, fun q hq => (hrequests q hq).elim (hrequest q) id, ?_⟩
    intro r hr hid
    rcases hruns r hr with hold | ⟨hne, -⟩
    · exact hdescribes r hold hid
    · exact absurd hid hne
  checked tag htag r hr hrelease := by
    rcases hruns r hr with hold | ⟨-, hnone | hnew⟩
    · exact hby r (hh.checked tag htag r hold hrelease)
    · rw [htag] at hnone
      cases hnone
    · exact hnew

theorem tracked_arrive {new : Handler} (hs : Tracked ch s) (hphase : new.phase = .beforeCommit)
    (htag : new.checkedTag = none) (hone : new.handlesEvent = true → ∀ h ∈ s.handlers, ¬ h.handlesEvent = true) :
    Tracked ch { s with handlers := s.handlers ++ [new] } where
  runIds r hr := by
    have hlt := hs.runIds r hr
    simp only [List.length_append, List.length_singleton]
    omega
  requestIds q hq := by
    have hlt := hs.requestIds q hq
    simp only [List.length_append, List.length_singleton]
    omega
  matching := hs.matching
  each := by
    refine hs.each.append ?_ ?_
    · refine ⟨fun _ => ⟨fun r hr => (hs.runIds r hr).ne, fun q hq => (hs.requestIds q hq).ne⟩, ?_, ?_⟩
      · intro hcommitted
        rw [hphase] at hcommitted
        cases hcommitted
      · intro tag hchecked
        rw [htag] at hchecked
        cases hchecked
    · exact fun j k _ hk => hk.other (fun r hr => hr) (fun r hr => byTrigger_append rfl hr) (fun r hr => Or.inl hr)
        fun q hq => Or.inl hq
  oneEvent := atMostOne_append_iff.mpr ⟨hs.oneEvent, hone⟩

theorem isTrigger_of_idle (hphase : h.phase ≠ .ended) (hidle : ¬ h.handlesEvent = true) : h.isTrigger = true := by
  cases h with
  | event e stage =>
    cases stage with
    | ended => exact absurd rfl hphase
    | _ => exact absurd rfl hidle
  | trigger body stage => rfl

theorem handlesEvent_of_checked {tag : String} (htag : h.checkedTag = some tag) : h.handlesEvent = true := by
  cases h with
  | event e stage =>
    cases stage with
    | ended => cases htag
    | _ => rfl
  | trigger body stage => cases htag

theorem beforeCommit_of_checked {tag : String} (htag : h.checkedTag = some tag) : h.phase = .beforeCommit := by
  cases h with
  | event e stage =>
    cases stage with
    | lookup => rfl
    | insert found => rfl
    | _ => cases htag
  | trigger body stage => cases htag

/-- A handler moves on, with an effect of its own. -/
theorem tracked_move (hs : Tracked ch s) (hi : s.handlers[i]? = some h) (htrigger : h'.isTrigger = h.isTrigger)
    (hactive : h'.handlesEvent = true → h.handlesEvent = true)
    (hcommit : ∀ r, effect = .commit r → r.id = i ∧ h.phase = .beforeCommit)
    (hpublish : ∀ q, effect = .publish q → q.runId = i ∧ ∀ r ∈ s.runs, r.id = i → q.Matches r)
    (hown : h'.Tracked ch ((s.put i h').apply effect) i) : Tracked ch ((s.put i h').apply effect) := by
  have hlt : i < s.handlers.length := (List.getElem?_eq_some_iff.mp hi).1
  have hhandlers : ((s.put i h').apply effect).handlers = s.handlers.set i h' := handlers_apply
  have hlength : ((s.put i h').apply effect).handlers.length = s.handlers.length := by
    rw [hhandlers, List.length_set]
  refine ⟨?_, ?_, ?_, ?_, ?_⟩
  · intro r hr
    rw [hlength]
    rcases mem_runs_apply.mp hr with hold | hnew
    · exact hs.runIds r hold
    · rw [(hcommit r hnew).1]
      exact hlt
  · intro q hq
    rw [hlength]
    rcases mem_requests_apply.mp hq with hold | hnew
    · exact hs.requestIds q hold
    · rw [(hpublish q hnew).1]
      exact hlt
  · intro r hr q hq hid
    rcases mem_runs_apply.mp hr with hrold | hrnew
    · rcases mem_requests_apply.mp hq with hqold | hqnew
      · exact hs.matching r hrold q hqold hid
      · obtain ⟨hqi, hmatches⟩ := hpublish q hqnew
        exact hmatches r hrold (hid.symm.trans hqi)
    · obtain ⟨hri, hphase⟩ := hcommit r hrnew
      rcases mem_requests_apply.mp hq with hqold | hqnew
      · exact absurd (hid.trans hri) (((hs.each i h hi).before hphase).2 q hqold)
      · rw [hrnew] at hqnew
        cases hqnew
  · rw [hhandlers]
    refine hs.each.set hown ?_
    intro j k hji hj hk
    refine hk.other (fun r hr => mem_runs_apply.mpr (Or.inl hr))
      (fun r hr => byTrigger_set hhandlers hi htrigger hr) ?_ ?_
    · intro r hr
      refine (mem_runs_apply.mp hr).imp_right fun hnew => ?_
      obtain ⟨hri, hphase⟩ := hcommit r hnew
      refine ⟨fun hrj => hji (hrj.symm.trans hri), ?_⟩
      cases htag : k.checkedTag with
      | none => exact Or.inl rfl
      | some tag =>
        have hidle : ¬ h.handlesEvent = true :=
          hs.oneEvent.other hj (handlesEvent_of_checked htag) hi (Ne.symm hji)
        have hby : h.isTrigger = true := isTrigger_of_idle (by rw [hphase]; decide) hidle
        refine Or.inr ⟨h', ?_, htrigger.trans hby⟩
        rw [hri, hhandlers]
        exact getElem?_set_of_some hi
    · intro q hq
      refine (mem_requests_apply.mp hq).imp_right fun hnew => ?_
      rw [(hpublish q hnew).1]
      exact Ne.symm hji
  · rw [hhandlers]
    refine hs.oneEvent.set fun hnew j k hji hj => ?_
    exact hs.oneEvent.other hi (hactive hnew) hj hji

theorem tracked_next {tables : Tables} (hs : Tracked ch s) (hi : s.handlers[i]? = some h)
    (hnext : h.next ch uuid tables s.runs i = some (h', effect)) : Tracked ch ((s.put i h').apply effect) := by
  have hh := hs.each i h hi
  obtain ⟨htrigger, hactive, htag, heffect⟩ := next_cases hnext
  have hhandlers : ((s.put i h').apply effect).handlers = s.handlers.set i h' := handlers_apply
  have hby : ∀ r, s.ByTrigger r → ((s.put i h').apply effect).ByTrigger r :=
    fun r hr => byTrigger_set hhandlers hi htrigger hr
  have hchecked : effect = .nothing → ∀ tag, h'.checkedTag = some tag → ∀ r ∈ s.runs, r.ofRelease tag = true →
      ((s.put i h').apply effect).ByTrigger r := by
    intro _ tag htag' r hr hrelease
    rcases htag tag htag' with hold | hfresh
    · exact hby r (hh.checked tag hold r hr hrelease)
    · rw [hfresh r hr] at hrelease
      cases hrelease
  rcases heffect with ⟨rfl, hphase, hphase'⟩ | ⟨rfl, hphase, hphase', hdescribes⟩ |
    ⟨r, rfl, hphase, hphase', hid, hstatus, hdescribes⟩ | ⟨q, rfl, hphase, hphase', hmatches⟩
  · refine tracked_move hs hi htrigger hactive (fun r hr => by cases hr) (fun q hq => by cases hq) ?_
    refine ⟨fun _ => hh.before hphase, fun hc => ?_, hchecked rfl⟩
    rcases hphase' with h1 | h1 <;> rw [h1] at hc <;> cases hc
  · refine tracked_move hs hi htrigger hactive (fun r hr => by cases hr) (fun q hq => by cases hq) ?_
    obtain ⟨hrun, hrequest, hold⟩ := hh.committed hphase
    refine ⟨fun hb => ?_, fun _ => ⟨hrun, hrequest, fun r hr hid => hdescribes r (hold r hr hid)⟩, hchecked rfl⟩
    rw [hphase'] at hb
    cases hb
  · obtain ⟨hrun, hrequest⟩ := hh.before hphase
    have hcommit : ∀ r', Effect.commit r = .commit r' → r'.id = i ∧ h.phase = .beforeCommit := by
      rintro r' ⟨⟩
      exact ⟨hid, hphase⟩
    refine tracked_move hs hi htrigger hactive hcommit (fun q hq => by cases hq) ⟨?_, ?_, ?_⟩
    · intro hb
      rw [hphase'] at hb
      cases hb
    · intro _
      refine ⟨⟨r, mem_runs_apply.mpr (Or.inr rfl), hid, hstatus⟩, hrequest, ?_⟩
      intro r' hr' hid'
      rcases mem_runs_apply.mp hr' with hold | hnew
      · exact absurd hid' (hrun r' hold)
      · cases hnew
        exact hdescribes
    · intro tag htag'
      rw [beforeCommit_of_checked htag'] at hphase'
      cases hphase'
  · obtain ⟨⟨r, hr, hid, -⟩, -, hold⟩ := hh.committed hphase
    have hpublish : ∀ q', Effect.publish q = .publish q' → q'.runId = i ∧ ∀ r ∈ s.runs, r.id = i → q'.Matches r := by
      rintro q' ⟨⟩
      exact ⟨(hmatches r (hold r hr hid)).1, fun r' hr' hid' => (hmatches r' (hold r' hr' hid')).2⟩
    refine tracked_move hs hi htrigger hactive (fun r hr => by cases hr) hpublish ⟨?_, ?_, ?_⟩
    · intro hb
      rw [hphase'] at hb
      cases hb
    · intro hc
      rw [hphase'] at hc
      cases hc
    · intro tag htag'
      rw [beforeCommit_of_checked htag'] at hphase'
      cases hphase'

theorem stop_ended (h : Handler) : h.stop.phase = .ended := by
  cases h <;> rfl

theorem tracked_stop (hs : Tracked ch s) (hi : s.handlers[i]? = some h) : Tracked ch (s.put i h.stop) := by
  have htrigger : h.stop.isTrigger = h.isTrigger := by cases h <;> rfl
  have hactive : h.stop.handlesEvent = true → h.handlesEvent = true := by
    intro hstop
    cases h <;> cases hstop
  have hended := stop_ended h
  have hown : h.stop.Tracked ch ((s.put i h.stop).apply .nothing) i := by
    refine ⟨fun hb => ?_, fun hc => ?_, fun tag htag => ?_⟩
    · rw [hended] at hb
      cases hb
    · rw [hended] at hc
      cases hc
    · rw [beforeCommit_of_checked htag] at hended
      cases hended
  exact tracked_move hs hi htrigger hactive (fun r hr => by cases hr) (fun q hq => by cases hq) hown

/-- The cases of a step. -/
theorem step_cases {a : Act} (hstep : step ch uuid s a = some t) :
    (∃ e, a = .deliver e ∧ s.handlers.any Handler.handlesEvent = false ∧
      t = { s with handlers := s.handlers ++ [.event e .check] }) ∨
    (∃ body, a = .trigger body ∧ t = { s with handlers := s.handlers ++ [.trigger body .application] }) ∨
    (∃ (i : ℕ) (tables : Tables) (h h' : Handler) (effect : Effect), a = .advance i tables ∧
      s.handlers[i]? = some h ∧ h.next ch uuid tables s.runs i = some (h', effect) ∧
      t = (s.put i h').apply effect) ∨
    ∃ (i : ℕ) (h : Handler), a = .fail i ∧ s.handlers[i]? = some h ∧ h.phase ≠ .ended ∧ t = s.put i h.stop := by
  cases a with
  | deliver e =>
    simp only [step] at hstep
    split at hstep
    next => cases hstep
    next hidle =>
      refine Or.inl ⟨e, rfl, ?_, (Option.some.inj hstep).symm⟩
      rw [← Bool.not_eq_true]
      exact hidle
  | trigger body => exact Or.inr (Or.inl ⟨body, rfl, (Option.some.inj hstep).symm⟩)
  | advance i tables =>
    obtain ⟨h, hi, hstep⟩ := Option.bind_eq_some_iff.mp hstep
    obtain ⟨⟨h', effect⟩, hnext, rfl⟩ := Option.map_eq_some_iff.mp hstep
    exact Or.inr (Or.inr (Or.inl ⟨i, tables, h, h', effect, rfl, hi, hnext, rfl⟩))
  | fail i =>
    obtain ⟨h, hi, hstep⟩ := Option.bind_eq_some_iff.mp hstep
    split at hstep
    next => cases hstep
    next hphase => exact Or.inr (Or.inr (Or.inr ⟨i, h, rfl, hi, hphase, (Option.some.inj hstep).symm⟩))

theorem tracked_step {a : Act} (hs : Tracked ch s) (hstep : step ch uuid s a = some t) : Tracked ch t := by
  rcases step_cases hstep with ⟨e, rfl, hidle, rfl⟩ | ⟨body, rfl, rfl⟩ | ⟨i, tables, h, h', effect, rfl, hi, hnext, rfl⟩ |
    ⟨i, h, rfl, hi, -, rfl⟩
  · refine tracked_arrive hs rfl rfl fun _ h hh hactive => ?_
    have hany : s.handlers.any Handler.handlesEvent = true := List.any_eq_true.mpr ⟨h, hh, hactive⟩
    rw [hidle] at hany
    cases hany
  · exact tracked_arrive hs rfl rfl fun hactive => by cases hactive
  · exact tracked_next hs hi hnext
  · exact tracked_stop hs hi

theorem hasRun_apply {j : ℕ} : (s.apply effect).HasRun j ↔
    s.HasRun j ∨ ∃ r, effect = .commit r ∧ r.id = j ∧ r.status = .queued := by
  constructor
  · rintro ⟨r, hr, hid⟩
    rcases mem_runs_apply.mp hr with hold | hnew
    · exact Or.inl ⟨r, hold, hid⟩
    · exact Or.inr ⟨r, hnew, hid⟩
  · rintro (⟨r, hr, hid⟩ | ⟨r, hnew, hid⟩)
    · exact ⟨r, mem_runs_apply.mpr (Or.inl hr), hid⟩
    · exact ⟨r, mem_runs_apply.mpr (Or.inr hnew), hid⟩

theorem requested_apply {j : ℕ} : (s.apply effect).Requested j ↔
    s.Requested j ∨ ∃ q, effect = .publish q ∧ q.runId = j := by
  constructor
  · rintro ⟨q, hq, hid⟩
    rcases mem_requests_apply.mp hq with hold | hnew
    · exact Or.inl ⟨q, hold, hid⟩
    · exact Or.inr ⟨q, hnew, hid⟩
  · rintro (⟨q, hq, hid⟩ | ⟨q, hnew, hid⟩)
    · exact ⟨q, mem_requests_apply.mpr (Or.inl hq), hid⟩
    · exact ⟨q, mem_requests_apply.mpr (Or.inr hnew), hid⟩

theorem single_apply (hs : ∀ tag, AtMostOne (fun r : Run => r.ofRelease tag = true) s.runs) :
    (∀ tag, AtMostOne (fun r : Run => r.ofRelease tag = true) (s.apply effect).runs) ↔
      ∀ r, effect = .commit r → ∀ tag, r.ofRelease tag = true → ∀ r' ∈ s.runs, ¬ r'.ofRelease tag = true := by
  cases effect with
  | commit run =>
    constructor
    · rintro h r ⟨⟩ tag
      exact (atMostOne_append_iff.mp (h tag)).2
    · exact fun h tag => atMostOne_append_iff.mpr ⟨hs tag, h run rfl tag⟩
  | _ => exact ⟨fun _ r hr => (by cases hr), fun _ => hs⟩

/-- A move of one handler keeps the agreement if that handler keeps its part of it. -/
theorem agrees_move_iff (ha : Agrees s) (hi : s.handlers[i]? = some h) (hcommit : ∀ r, effect = .commit r → r.id = i)
    (hpublish : ∀ q, effect = .publish q → q.runId = i) (ht : Tracked ch ((s.put i h').apply effect)) :
    Agrees ((s.put i h').apply effect) ↔
      (h'.phase = .ended → (((s.put i h').apply effect).HasRun i ↔ ((s.put i h').apply effect).Requested i)) ∧
      ∀ r, effect = .commit r → ∀ tag, r.ofRelease tag = true → ∀ r' ∈ s.runs, ¬ r'.ofRelease tag = true := by
  have hhandlers : ((s.put i h').apply effect).handlers = s.handlers.set i h' := handlers_apply
  have hsingle : (∀ tag, AtMostOne (fun r : Run => r.ofRelease tag = true) ((s.put i h').apply effect).runs) ↔ _ :=
    single_apply ha.single
  constructor
  · intro h
    refine ⟨fun hended => h.published i h' ?_ hended, hsingle.mp h.single⟩
    rw [hhandlers]
    exact getElem?_set_of_some hi
  · rintro ⟨hown, honce⟩
    refine ⟨?_, ht.matching, hsingle.mpr honce⟩
    intro j k hj hended
    rw [hhandlers] at hj
    rcases getElem?_set_cases hj with ⟨rfl, rfl⟩ | ⟨hji, hj⟩
    · exact hown hended
    · have hrun : ¬ ∃ r, effect = .commit r ∧ r.id = j ∧ r.status = .queued := by
        rintro ⟨r, hr, hid, -⟩
        exact hji (hid.symm.trans (hcommit r hr))
      have hrequest : ¬ ∃ q, effect = .publish q ∧ q.runId = j := by
        rintro ⟨q, hq, hid⟩
        exact hji (hid.symm.trans (hpublish q hq))
      rw [hasRun_apply, requested_apply, or_iff_left hrun, or_iff_left hrequest]
      exact ha.published j k hj hended

theorem agrees_arrive {new : Handler} (ha : Agrees s) (hphase : new.phase = .beforeCommit) :
    Agrees { s with handlers := s.handlers ++ [new] } where
  published j k hj hended := by
    rcases getElem?_append_cases hj with ⟨-, rfl⟩ | hj
    · rw [hphase] at hended
      cases hended
    · exact ha.published j k hj hended
  matching := ha.matching
  single := ha.single

/-- A call with values of its columns has its run inserted. -/
theorem run_of_storable {body : TriggerRunRequest} (i : ℕ) (target : Option Target) (hbody : body.Storable uuid)
    (hby : body.triggeredBy = "github_release") : ∃ r, body.run uuid i target = some r := by
  obtain ⟨suiteIds, hids⟩ := Option.isSome_iff_exists.mp (mapM_isSome.mpr hbody.1)
  have hparse := parse_eq_githubRelease_iff.mpr hby
  simp only [TriggerRunRequest.run, hids, hparse, Option.bind_eq_bind, Option.bind_some, if_pos hbody.2]
  exact ⟨_, rfl⟩

theorem clear_of_uncommitted {tables : Tables} {runs : List Run}
    (hnext : h.next ch uuid tables runs i = some (h', effect)) (heffect : ∀ r, effect ≠ .commit r) :
    h.Clear uuid s := by
  cases h with
  | event e stage =>
    cases stage with
    | insert found =>
      cases hnext
      exact absurd rfl (heffect _)
    | _ => trivial
  | trigger body stage =>
    cases stage with
    | insert target =>
      intro hby hbody
      obtain ⟨r, hrun⟩ := run_of_storable i target hbody hby
      simp only [Handler.next, hrun] at hnext
      cases hnext
      exact absurd rfl (heffect _)
    | _ => trivial

/-- The idempotency check has seen all runs of the tag but those of the trigger endpoint. -/
theorem clear_iff_of_commit {tables : Tables} {r : Run} (hh : h.Tracked ch s i)
    (hnext : h.next ch uuid tables s.runs i = some (h', .commit r)) :
    h.Clear uuid s ↔ ∀ tag, r.ofRelease tag = true → ∀ r' ∈ s.runs, ¬ r'.ofRelease tag = true := by
  cases h with
  | event e stage =>
    cases stage with
    | insert found =>
      cases hnext
      have hown : ∀ tag, (e.run ch i found).ofRelease tag = true ↔ e.tag = tag := by
        intro tag
        rw [ofRelease_iff]
        exact and_iff_left rfl
      constructor
      · intro hclear tag htag r' hr' hrelease
        rw [hown] at htag
        subst htag
        exact hclear r' hr' hrelease (hh.checked e.tag rfl r' hr' hrelease)
      · exact fun hnone r' hr' hrelease => absurd hrelease (hnone e.tag ((hown e.tag).mpr rfl) r' hr')
    | _ => cases hnext
  | trigger body stage =>
    cases stage with
    | insert target =>
      simp only [Handler.next] at hnext
      split at hnext
      next run hrun =>
        cases hnext
        obtain ⟨hbody, -, -, htag, hby, -⟩ := run_spec ch uuid hrun
        have hown : ∀ tag, r.ofRelease tag = true ↔ body.releaseTag = tag ∧ body.triggeredBy = "github_release" := by
          intro tag
          rw [ofRelease_iff, htag, hby]
        constructor
        · intro hclear tag hrelease r' hr'
          obtain ⟨rfl, hgithub⟩ := (hown tag).mp hrelease
          rw [hclear hgithub hbody r' hr']
          exact Bool.false_ne_true
        · intro hnone hgithub _ r' hr'
          rw [← Bool.not_eq_true]
          exact hnone body.releaseTag ((hown body.releaseTag).mpr ⟨rfl, hgithub⟩) r' hr'
      next => cases hnext
    | _ => cases hnext

theorem not_hasRun_of_before (hh : h.Tracked ch s i) (hphase : h.phase = .beforeCommit) :
    ¬ s.HasRun i ∧ ¬ s.Requested i := by
  obtain ⟨hrun, hrequest⟩ := hh.before hphase
  exact ⟨fun ⟨r, hr, hid, _⟩ => hrun r hr hid, fun ⟨q, hq, hid⟩ => hrequest q hq hid⟩

theorem agrees_next_iff {tables : Tables} (hs : Tracked ch s) (ha : Agrees s) (hi : s.handlers[i]? = some h)
    (hnext : h.next ch uuid tables s.runs i = some (h', effect)) :
    h.Clear uuid s ↔ Agrees ((s.put i h').apply effect) := by
  have hh := hs.each i h hi
  have ht := tracked_next hs hi hnext
  obtain ⟨-, -, -, heffect⟩ := next_cases hnext
  rcases heffect with ⟨rfl, hphase, -⟩ | ⟨rfl, hphase, hphase', -⟩ | ⟨r, rfl, hphase, hphase', hid, -, -⟩ |
    ⟨q, rfl, hphase, hphase', hmatches⟩
  · refine iff_of_true (clear_of_uncommitted hnext fun r hr => by cases hr) ?_
    refine (agrees_move_iff ha hi (fun r hr => by cases hr) (fun q hq => by cases hq) ht).mpr ⟨?_, fun r hr => by cases hr⟩
    obtain ⟨hrun, hrequest⟩ := not_hasRun_of_before hh hphase
    exact fun _ => iff_of_false hrun hrequest
  · refine iff_of_true (clear_of_uncommitted hnext fun r hr => by cases hr) ?_
    refine (agrees_move_iff ha hi (fun r hr => by cases hr) (fun q hq => by cases hq) ht).mpr ⟨?_, fun r hr => by cases hr⟩
    intro hended
    rw [hphase'] at hended
    cases hended
  · have hcommit : ∀ r', Effect.commit r = .commit r' → r'.id = i := by
      rintro r' ⟨⟩
      exact hid
    rw [clear_iff_of_commit hh hnext, agrees_move_iff ha hi hcommit (fun q hq => by cases hq) ht]
    constructor
    · intro honce
      refine ⟨fun hended => ?_, ?_⟩
      · rw [hphase'] at hended
        cases hended
      · rintro r' ⟨⟩
        exact honce
    · exact fun h => h.2 r rfl
  · obtain ⟨⟨r, hr, hid, hstatus⟩, -, hold⟩ := hh.committed hphase
    have hqi : q.runId = i := (hmatches r (hold r hr hid)).1
    have hpublish : ∀ q', Effect.publish q = .publish q' → q'.runId = i := by
      rintro q' ⟨⟩
      exact hqi
    refine iff_of_true (clear_of_uncommitted hnext fun r hr => by cases hr) ?_
    refine (agrees_move_iff ha hi (fun r hr => by cases hr) hpublish ht).mpr ⟨fun _ => ?_, fun r hr => by cases hr⟩
    exact iff_of_true (hasRun_apply.mpr (Or.inl ⟨r, hr, hid, hstatus⟩)) (requested_apply.mpr (Or.inr ⟨q, rfl, hqi⟩))

theorem agrees_stop_iff (hs : Tracked ch s) (ha : Agrees s) (hi : s.handlers[i]? = some h) (hphase : h.phase ≠ .ended) :
    h.phase ≠ .committed ↔ Agrees (s.put i h.stop) := by
  have hh := hs.each i h hi
  have ht : Tracked ch ((s.put i h.stop).apply .nothing) := tracked_stop hs hi
  have hmove : Agrees (s.put i h.stop) ↔ _ :=
    agrees_move_iff ha hi (fun r hr => by cases hr) (fun q hq => by cases hq) ht
  rw [hmove]
  cases hp : h.phase with
  | ended => exact absurd hp hphase
  | beforeCommit =>
    obtain ⟨hrun, hrequest⟩ := not_hasRun_of_before hh hp
    refine iff_of_true (by decide) ⟨fun _ => iff_of_false hrun hrequest, fun r hr => by cases hr⟩
  | committed =>
    obtain ⟨hrun, hrequest, -⟩ := hh.committed hp
    refine iff_of_false (fun h => h rfl) ?_
    rintro ⟨hown, -⟩
    obtain ⟨q, hq, hid⟩ := (hown (stop_ended h)).mp hrun
    exact hrequest q hq hid

theorem agrees_step_iff {a : Act} (hs : Tracked ch s) (ha : Agrees s) (hstep : step ch uuid s a = some t) :
    Clean uuid s a ↔ Agrees t := by
  rcases step_cases hstep with ⟨e, rfl, -, rfl⟩ | ⟨body, rfl, rfl⟩ | ⟨i, tables, h, h', effect, rfl, hi, hnext, rfl⟩ |
    ⟨i, h, rfl, hi, hphase, rfl⟩
  · exact iff_of_true trivial (agrees_arrive ha rfl)
  · exact iff_of_true trivial (agrees_arrive ha rfl)
  · rw [← agrees_next_iff hs ha hi hnext]
    refine ⟨fun hclean => hclean h hi, fun hclear k hk => ?_⟩
    cases hi.symm.trans hk
    exact hclear
  · rw [← agrees_stop_iff hs ha hi hphase]
    refine ⟨fun hclean => hclean h hi, fun hfail k hk => ?_⟩
    cases hi.symm.trans hk
    exact hfail

/-- The handler has ended with a run that was not requested. -/
def Stranded (i : ℕ) (s : State) : Prop :=
  (∃ h : Handler, s.handlers[i]? = some h ∧ h.phase = .ended) ∧ s.HasRun i ∧ ¬ s.Requested i

theorem phase_of_next {tables : Tables} {runs : List Run} (hnext : h.next ch uuid tables runs i = some (h', effect)) :
    h.phase ≠ .ended := by
  obtain ⟨-, -, -, heffect⟩ := next_cases hnext
  rcases heffect with ⟨-, hphase, -⟩ | ⟨-, hphase, -⟩ | ⟨r, -, hphase, -⟩ | ⟨q, -, hphase, -⟩ <;> rw [hphase] <;> decide

theorem requestId_of_next {tables : Tables} {runs : List Run} {q : SandboxRequest} (hs : Tracked ch s)
    (hi : s.handlers[i]? = some h) (hnext : h.next ch uuid tables runs i = some (h', .publish q)) : q.runId = i := by
  obtain ⟨-, -, -, heffect⟩ := next_cases hnext
  rcases heffect with ⟨heq, -⟩ | ⟨heq, -⟩ | ⟨r, heq, -⟩ | ⟨q', heq, hphase, -, hmatches⟩ <;> cases heq
  obtain ⟨⟨r, hr, hid, -⟩, -, hold⟩ := (hs.each i h hi).committed hphase
  exact (hmatches r (hold r hr hid)).1

/-- No later delivery and no other handler requests a stranded run. -/
theorem stranded_step {a : Act} {j : ℕ} (hs : Tracked ch s) (hj : Stranded j s) (hstep : step ch uuid s a = some t) :
    Stranded j t := by
  obtain ⟨⟨k, hk, hended⟩, hrun, hrequest⟩ := hj
  rcases step_cases hstep with ⟨e, rfl, -, rfl⟩ | ⟨body, rfl, rfl⟩ | ⟨i, tables, h, h', effect, rfl, hi, hnext, rfl⟩ |
    ⟨i, h, rfl, hi, hphase, rfl⟩
  · exact ⟨⟨k, getElem?_append_of_some hk, hended⟩, hrun, hrequest⟩
  · exact ⟨⟨k, getElem?_append_of_some hk, hended⟩, hrun, hrequest⟩
  · have hij : i ≠ j := by
      rintro rfl
      cases hi.symm.trans hk
      exact phase_of_next hnext hended
    refine ⟨⟨k, ?_, hended⟩, hasRun_apply.mpr (Or.inl hrun), ?_⟩
    · have hother : (s.handlers.set i h')[j]? = some k := by rw [List.getElem?_set_ne hij, hk]
      rw [handlers_apply]
      exact hother
    · rw [requested_apply]
      rintro (hold | ⟨q, rfl, hid⟩)
      · exact hrequest hold
      · exact hij ((requestId_of_next hs hi hnext).symm.trans hid)
  · have hij : i ≠ j := by
      rintro rfl
      cases hi.symm.trans hk
      exact hphase hended
    have hother : (s.handlers.set i h.stop)[j]? = some k := by rw [List.getElem?_set_ne hij, hk]
    exact ⟨⟨k, hother, hended⟩, hrun, hrequest⟩

theorem stranded_stays {as : List Act} {j : ℕ} (hs : Tracked ch s) (hj : Stranded j s)
    (h : exec (step ch uuid) s as = some t) : ¬ t.Requested j := by
  have hstays : Tracked ch t ∧ Stranded j t := by
    refine exec_invariant (I := fun s => Tracked ch s ∧ Stranded j s) ?_ ⟨hs, hj⟩ h
    exact fun u a v hu hv => ⟨tracked_step hu.1 hv, stranded_step hu.1 hu.2 hv⟩
  exact hstays.2.2.2

end States

section Runs
variable (ch : Characters) (uuid : String → Option Uuid)

theorem tracked_initial : Tracked ch initial :=
  ⟨by simp [initial], by simp [initial], by simp [initial], by simp [initial, Each], by simp [initial, AtMostOne]⟩

theorem agrees_initial : Agrees initial :=
  ⟨by simp [initial], by simp [initial], by simp [initial, AtMostOne]⟩

/-- Runs and requests agree throughout exactly when nothing fails between a commit and its publish
and no call adds a run to a release that has one, or will have by an event past its check. -/
theorem runs_and_requests_agree_iff (as : List Act) :
    Always (step ch uuid) (fun s a _ => Clean uuid s a) initial as ↔
      Always (step ch uuid) (fun _ _ t => Agrees t) initial as := by
  refine always_iff_of_invariant (I := fun s => Tracked ch s ∧ Agrees s) ?_ ⟨tracked_initial ch, agrees_initial⟩
  rintro s a t ⟨hs, ha⟩ hstep
  have hiff := agrees_step_iff hs ha hstep
  exact ⟨hiff, fun hclean => ⟨tracked_step hs hstep, hiff.mp hclean⟩⟩

end Runs

/-- Tables without a row. -/
def noTables : Tables := ⟨fun _ _ => none, fun _ => none⟩

def alpha12 : ReleaseEvent := ⟨some "v2.0.0-alpha.12"⟩

/-- The run of an event is committed, its publish fails, and the event is delivered again. -/
def publishFails : List Act :=
  [.deliver alpha12, .advance 0 noTables, .advance 0 noTables, .advance 0 noTables, .fail 0,
    .deliver alpha12, .advance 1 noTables]

/-- The redelivered event finds the queued run and is skipped, and nothing ever requests the run. -/
theorem publish_failure_strands_run : ∃ s, exec (step .ascii some) initial publishFails = some s ∧
    s.handlers.all (fun h => h.phase == .ended) = true ∧ s.runs = [alpha12.run .ascii 0 none] ∧ s.requests = [] ∧
    (∀ as t, exec (step .ascii some) s as = some t → ¬ t.Requested 0) ∧
    ¬ Always (step .ascii some) (fun _ _ t => Agrees t) initial publishFails := by
  let s : State := ⟨[alpha12.run .ascii 0 none], [], [.event alpha12 .ended, .event alpha12 .ended]⟩
  have hrun : exec (step .ascii some) initial publishFails = some s := by decide +kernel
  have htracked : Tracked .ascii s :=
    exec_invariant (fun _ _ _ hu hv => tracked_step hu hv) (tracked_initial .ascii) hrun
  have hstranded : Stranded 0 s :=
    ⟨⟨.event alpha12 .ended, rfl, rfl⟩, ⟨_, List.mem_cons_self, rfl, rfl⟩, fun ⟨q, hq, _⟩ => List.not_mem_nil hq⟩
  refine ⟨s, hrun, rfl, rfl, rfl, fun as t h => stranded_stays htracked hstranded h, ?_⟩
  intro h
  have hsplit : publishFails = publishFails.dropLast ++ [.advance 1 noTables] := rfl
  rw [hsplit] at h hrun
  obtain ⟨u, hu, hstep⟩ := exec_snoc_iff.mp hrun
  exact hstranded.2.2 (((h.at hu hstep).published 0 _ rfl rfl).mp hstranded.2.1)

end ReleaseValidation.Orchestrator.RunTriggers
