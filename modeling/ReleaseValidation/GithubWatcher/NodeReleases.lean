import ReleaseValidation.Foundations.Parties
import ReleaseValidation.Foundations.Runs

/-! # Node releases from their detection to their event

The poller checks whether a release is stored and otherwise hands it to `process_release`;
a webhook hands over its release without the check. Each of the two is a handler here that
moves from one awaited operation to the next, and every operation of it may fail. A failed
handler ends: the poller logs the error and waits for its next cycle, the webhook answers
with an error.
-/
namespace ReleaseValidation.GithubWatcher.NodeReleases
open Runs Parties

inductive Origin
  | poll | webhook
  deriving DecidableEq, Repr

/-- The operation a handler takes next. -/
inductive Stage
  | check | channel | previousTag | pullRequests | insert | upsert | publish | ended
  deriving DecidableEq, Repr

/-- `process_release` has been called and has not come to its end. -/
def Stage.processing : Stage → Bool
  | .check | .ended => false
  | .channel | .previousTag | .pullRequests | .insert | .upsert | .publish => true

structure Handler where
  origin : Origin
  tag : String
  stage : Stage
  deriving DecidableEq, Repr

inductive Event
  | newRelease (tag : String)
  | toolchain (nodeTag : String)
  deriving DecidableEq, Repr

/-- The stored release tags, the tags in the release catalog, the published release events, and
the handlers in the order they started. -/
structure State where
  releases : List String
  catalog : List String
  events : List Event
  handlers : List Handler
  deriving DecidableEq, Repr

def initial : State := ⟨[], [], [], []⟩

inductive Act
  | poll (tag : String)
  | webhook (tag : String)
  | advance (i : ℕ)
  | fail (i : ℕ)
  | toolchain (nodeTag : String)
  deriving DecidableEq, Repr

/-- `INSERT … ON CONFLICT DO NOTHING`. -/
def insertTag (tag : String) (tags : List String) : List String := if tag ∈ tags then tags else tags ++ [tag]

def State.move (s : State) (i : ℕ) (h : Handler) (stage : Stage) : State :=
  { s with handlers := s.handlers.set i { h with stage := stage } }

/-- The next operation of the handler succeeds. -/
def advance (s : State) (i : ℕ) (h : Handler) : Option State :=
  match h.stage with
  | .check => some (s.move i h (if h.tag ∈ s.releases then .ended else .channel))
  | .channel => some (s.move i h .previousTag)
  | .previousTag => some (s.move i h .pullRequests)
  | .pullRequests => some (s.move i h .insert)
  | .insert => some { s.move i h .upsert with releases := insertTag h.tag s.releases }
  | .upsert => some { s.move i h .publish with catalog := insertTag h.tag s.catalog }
  | .publish => some { s.move i h .ended with events := s.events ++ [.newRelease h.tag] }
  | .ended => none

/-- The next operation of the handler fails. Errors of `_get_prs_for_tag` are caught in it. -/
def fail (s : State) (i : ℕ) (h : Handler) : Option State :=
  match h.stage with
  | .pullRequests => some (s.move i h .insert)
  | .ended => none
  | _ => some (s.move i h .ended)

/-- The poller handles one release at a time. The event of a filled-in toolchain follows an
update of the node's catalog row. -/
def step (s : State) : Act → Option State
  | .poll tag =>
    if s.handlers.any (fun h => h.origin == .poll && h.stage != .ended) then none
    else some { s with handlers := s.handlers ++ [⟨.poll, tag, .check⟩] }
  | .webhook tag => some { s with handlers := s.handlers ++ [⟨.webhook, tag, .channel⟩] }
  | .advance i => s.handlers[i]?.bind (advance s i)
  | .fail i => s.handlers[i]?.bind (fail s i)
  | .toolchain tag => if tag ∈ s.catalog then some { s with events := s.events ++ [.toolchain tag] } else none

def State.Published (s : State) (tag : String) : Prop := .newRelease tag ∈ s.events

def State.Polled (s : State) (tag : String) : Prop := ∃ h ∈ s.handlers, h.origin = .poll ∧ h.tag = tag

/-- A handler other than the one at `i` is in `process_release` for the tag. -/
def State.OtherAtWork (s : State) (i : ℕ) (tag : String) : Prop :=
  ∃ (j : ℕ) (h : Handler), j ≠ i ∧ s.handlers[j]? = some h ∧ h.tag = tag ∧ h.stage.processing = true

def State.AtWork (s : State) (tag : String) : Prop :=
  ∃ (j : ℕ) (h : Handler), s.handlers[j]? = some h ∧ h.tag = tag ∧ h.stage.processing = true

def Act.delivers : Act → Bool
  | .webhook _ => true
  | _ => false

/-- Some continuation without a further webhook publishes the event of the release: cycles of the
poller over any pages, whose operations succeed or fail, next to the handlers already started. -/
def State.LaterPoll (s : State) (tag : String) : Prop :=
  ∃ as t, (∀ a ∈ as, a.delivers = false) ∧ exec step s as = some t ∧ t.Published tag

/-- No polled release is lost: unless its processing is under way, a stored one has its event
published or gets it published by a later poll. -/
def NoneLost (s : State) : Prop :=
  ∀ tag, s.Polled tag → tag ∈ s.releases → ¬ s.AtWork tag → s.Published tag ∨ s.LaterPoll tag

/-- No `process_release` of a polled release ends in a failure while the release is stored, its
event unpublished and no other one of it under way, and no release is polled after that. -/
def Keeps (s : State) : Act → Prop
  | .fail i => ∀ h, s.handlers[i]? = some h → h.stage.processing = true → h.stage ≠ .pullRequests →
      s.Polled h.tag → h.tag ∈ s.releases → s.Published h.tag ∨ s.OtherAtWork i h.tag
  | .poll tag => tag ∈ s.releases → s.Published tag ∨ s.AtWork tag
  | _ => True

/-- What `NoneLost` comes to, as the checks before processing skip every stored release. -/
def Covered (s : State) : Prop := ∀ tag, s.Polled tag → tag ∈ s.releases → s.Published tag ∨ s.AtWork tag

theorem mem_insertTag {tag other : String} {tags : List String} :
    other ∈ insertTag tag tags ↔ other = tag ∨ other ∈ tags := by
  unfold insertTag
  split
  next h =>
    constructor
    · exact Or.inr
    · rintro (rfl | hmem)
      · exact h
      · exact hmem
  next => rw [List.mem_append, List.mem_singleton, or_comm]

section Moves
variable {s : State} {i : ℕ} {h : Handler} {stage : Stage} {tag : String}

theorem atWork_iff (hi : s.handlers[i]? = some h) :
    s.AtWork tag ↔ h.tag = tag ∧ h.stage.processing = true ∨ s.OtherAtWork i tag := by
  constructor
  · rintro ⟨j, k, hj, htag, hwork⟩
    by_cases hij : j = i
    · subst hij
      cases hi.symm.trans hj
      exact Or.inl ⟨htag, hwork⟩
    · exact Or.inr ⟨j, k, hij, hj, htag, hwork⟩
  · rintro (⟨htag, hwork⟩ | ⟨j, k, -, hj, htag, hwork⟩)
    · exact ⟨i, h, hi, htag, hwork⟩
    · exact ⟨j, k, hj, htag, hwork⟩

theorem otherAtWork_move : (s.move i h stage).OtherAtWork i tag ↔ s.OtherAtWork i tag := by
  constructor
  · rintro ⟨j, k, hij, hj, hk⟩
    rcases getElem?_set_cases hj with ⟨rfl, -⟩ | ⟨-, hj⟩
    · exact absurd rfl hij
    · exact ⟨j, k, hij, hj, hk⟩
  · rintro ⟨j, k, hij, hj, hk⟩
    refine ⟨j, k, hij, ?_, hk⟩
    change (s.handlers.set i _)[j]? = some k
    rw [List.getElem?_set_ne (Ne.symm hij)]
    exact hj

theorem atWork_move (hi : s.handlers[i]? = some h) :
    (s.move i h stage).AtWork tag ↔ h.tag = tag ∧ stage.processing = true ∨ s.OtherAtWork i tag := by
  have hmoved : (s.move i h stage).handlers[i]? = some { h with stage := stage } := getElem?_set_of_some hi
  rw [atWork_iff hmoved, otherAtWork_move]

theorem polled_move (hi : s.handlers[i]? = some h) : (s.move i h stage).Polled tag ↔ s.Polled tag := by
  constructor
  · rintro ⟨k, hk, horigin, htag⟩
    obtain ⟨j, hj⟩ := List.mem_iff_getElem?.mp hk
    rcases getElem?_set_cases hj with ⟨rfl, rfl⟩ | ⟨-, hj⟩
    · exact ⟨h, List.mem_of_getElem? hi, horigin, htag⟩
    · exact ⟨k, List.mem_of_getElem? hj, horigin, htag⟩
  · rintro ⟨k, hk, horigin, htag⟩
    obtain ⟨j, hj⟩ := List.mem_iff_getElem?.mp hk
    by_cases hij : j = i
    · subst hij
      cases hi.symm.trans hj
      exact ⟨{ h with stage := stage }, List.mem_of_getElem? (getElem?_set_of_some hi), horigin, htag⟩
    · have hj' : (s.handlers.set i { h with stage := stage })[j]? = some k := by
        rw [List.getElem?_set_ne (Ne.symm hij)]
        exact hj
      exact ⟨k, List.mem_of_getElem? hj', horigin, htag⟩

/-- What one operation of a handler does to a tag. -/
theorem advance_spec {t : State} (tag : String) (hi : s.handlers[i]? = some h) (hstep : advance s i h = some t) :
    (t.Polled tag ↔ s.Polled tag) ∧
    (tag ∈ t.releases ↔ tag ∈ s.releases ∨ h.stage = .insert ∧ h.tag = tag) ∧
    (t.Published tag ↔ s.Published tag ∨ h.stage = .publish ∧ h.tag = tag) ∧
    (t.AtWork tag ↔ h.tag = tag ∧ (h.stage.processing = true ∧ h.stage ≠ .publish ∨
      h.stage = .check ∧ h.tag ∉ s.releases) ∨ s.OtherAtWork i tag) := by
  obtain ⟨origin, tag', stage⟩ := h
  cases stage with
  | ended => cases hstep
  | check =>
    cases hstep
    refine ⟨polled_move hi, by simp [State.move], by simp [State.move, State.Published], ?_⟩
    rw [atWork_move hi]
    split
    next hstored => simp [Stage.processing, hstored]
    next hnew => simp [Stage.processing, hnew]
  | insert =>
    cases hstep
    refine ⟨polled_move hi, ?_, by simp [State.move, State.Published], ?_⟩
    · rw [mem_insertTag, or_comm]
      simp [eq_comm]
    · refine (atWork_move hi).trans ?_
      simp [Stage.processing]
  | upsert =>
    cases hstep
    refine ⟨polled_move hi, by simp [State.move], by simp [State.move, State.Published], ?_⟩
    refine (atWork_move hi).trans ?_
    simp [Stage.processing]
  | publish =>
    cases hstep
    refine ⟨polled_move hi, by simp [State.move], ?_, ?_⟩
    · simp [State.Published, eq_comm]
    · refine (atWork_move hi).trans ?_
      simp [Stage.processing]
  | _ =>
    cases hstep
    refine ⟨polled_move hi, by simp [State.move], by simp [State.move, State.Published], ?_⟩
    rw [atWork_move hi]
    simp [Stage.processing]

/-- What a failed operation does to a tag. -/
theorem fail_spec {t : State} (tag : String) (hi : s.handlers[i]? = some h) (hstep : fail s i h = some t) :
    (t.Polled tag ↔ s.Polled tag) ∧ t.releases = s.releases ∧ (t.Published tag ↔ s.Published tag) ∧
    (t.AtWork tag ↔ h.tag = tag ∧ h.stage = .pullRequests ∨ s.OtherAtWork i tag) := by
  obtain ⟨origin, tag', stage⟩ := h
  cases stage with
  | ended => cases hstep
  | _ =>
    cases hstep
    refine ⟨polled_move hi, rfl, Iff.rfl, ?_⟩
    rw [atWork_move hi]
    simp [Stage.processing]

end Moves

section Arrivals
variable {s t : State} {new : Handler} {tag : String}

theorem eq_of_poll (h : step s (.poll tag) = some t) : t = { s with handlers := s.handlers ++ [⟨.poll, tag, .check⟩] } := by
  simp only [step] at h
  split at h
  · cases h
  · exact (Option.some.inj h).symm

theorem eq_of_toolchain (h : step s (.toolchain tag) = some t) : t = { s with events := s.events ++ [.toolchain tag] } := by
  simp only [step] at h
  split at h
  · exact (Option.some.inj h).symm
  · cases h

theorem published_toolchain {nodeTag : String} :
    State.Published { s with events := s.events ++ [.toolchain nodeTag] } tag ↔ s.Published tag := by
  simp [State.Published]

theorem atWork_arrive :
    State.AtWork { s with handlers := s.handlers ++ [new] } tag ↔
      s.AtWork tag ∨ new.tag = tag ∧ new.stage.processing = true := by
  constructor
  · rintro ⟨j, k, hj, hk⟩
    rcases getElem?_append_cases hj with ⟨-, rfl⟩ | hj
    · exact Or.inr hk
    · exact Or.inl ⟨j, k, hj, hk⟩
  · rintro (⟨j, k, hj, hk⟩ | hnew)
    · exact ⟨j, k, getElem?_append_of_some hj, hk⟩
    · exact ⟨s.handlers.length, new, by simp, hnew⟩

theorem polled_arrive :
    State.Polled { s with handlers := s.handlers ++ [new] } tag ↔
      s.Polled tag ∨ new.origin = .poll ∧ new.tag = tag := by
  simp only [State.Polled, List.mem_append, List.mem_singleton]
  constructor
  · rintro ⟨k, hk | rfl, hrest⟩
    · exact Or.inl ⟨k, hk, hrest⟩
    · exact Or.inr hrest
  · rintro (⟨k, hk, hrest⟩ | hrest)
    · exact ⟨k, Or.inl hk, hrest⟩
    · exact ⟨new, Or.inr rfl, hrest⟩

end Arrivals

/-- A stored release that nobody processes. -/
def Abandoned (tag : String) (s : State) : Prop := tag ∈ s.releases ∧ ¬ s.Published tag ∧ ¬ s.AtWork tag

/-- Only a further webhook takes up an abandoned release again. -/
theorem abandoned_step {tag : String} {s t : State} {a : Act} (h : Abandoned tag s) (hstep : step s a = some t)
    (ha : a.delivers = false) : Abandoned tag t := by
  obtain ⟨hstored, hunpublished, hidle⟩ := h
  cases a with
  | poll tag' =>
    rw [eq_of_poll hstep]
    refine ⟨hstored, hunpublished, ?_⟩
    rw [atWork_arrive]
    rintro (hwork | ⟨-, hnew⟩)
    · exact hidle hwork
    · cases hnew
  | webhook tag' => cases ha
  | advance i =>
    obtain ⟨h, hi, hstep⟩ := Option.bind_eq_some_iff.mp hstep
    obtain ⟨-, hreleases, hevents, hwork⟩ := advance_spec tag hi hstep
    rw [atWork_iff hi] at hidle
    refine ⟨hreleases.mpr (Or.inl hstored), ?_, ?_⟩
    · rw [hevents]
      rintro (hpub | ⟨hstage, htag⟩)
      · exact hunpublished hpub
      · exact hidle (Or.inl ⟨htag, by rw [hstage]; rfl⟩)
    · rw [hwork]
      rintro (⟨rfl, ⟨hproc, -⟩ | ⟨-, hnew⟩⟩ | hother)
      · exact hidle (Or.inl ⟨rfl, hproc⟩)
      · exact hnew hstored
      · exact hidle (Or.inr hother)
  | fail i =>
    obtain ⟨h, hi, hstep⟩ := Option.bind_eq_some_iff.mp hstep
    obtain ⟨-, hreleases, hevents, hwork⟩ := fail_spec tag hi hstep
    rw [atWork_iff hi] at hidle
    refine ⟨by rw [hreleases]; exact hstored, fun hpub => hunpublished (hevents.mp hpub), ?_⟩
    rw [hwork]
    rintro (⟨rfl, hstage⟩ | hother)
    · exact hidle (Or.inl ⟨rfl, by rw [hstage]; rfl⟩)
    · exact hidle (Or.inr hother)
  | toolchain tag' =>
    rw [eq_of_toolchain hstep]
    exact ⟨hstored, fun hpub => hunpublished (published_toolchain.mp hpub), hidle⟩

/-- No later cycle of the poller publishes an abandoned release. -/
theorem not_laterPoll_of_abandoned {tag : String} {s : State} (h : Abandoned tag s) : ¬ s.LaterPoll tag := by
  rintro ⟨as, t, hpolls, hrun, hpub⟩
  have hkept : Abandoned tag t :=
    exec_invariant_always (fun u a v hu hv ha => abandoned_step hu hv ha) h
      (always_of_mem (P := fun a : Act => a.delivers = false) hpolls) hrun
  exact hkept.2.1 hpub

theorem noneLost_iff_covered {s : State} : NoneLost s ↔ Covered s := by
  constructor
  · intro h tag hpolled hstored
    by_cases hwork : s.AtWork tag
    · exact Or.inr hwork
    · left
      by_contra hunpublished
      rcases h tag hpolled hstored hwork with hpub | hlater
      · exact hunpublished hpub
      · exact not_laterPoll_of_abandoned ⟨hstored, hunpublished, hwork⟩ hlater
  · intro h tag hpolled hstored hidle
    exact Or.inl ((h tag hpolled hstored).resolve_right hidle)

/-- A step keeps every stored release covered exactly when it keeps the one it concerns. -/
theorem covered_step_iff {s t : State} {a : Act} (h : Covered s) (hstep : step s a = some t) :
    Covered t ↔ Keeps s a := by
  cases a with
  | poll tag =>
    rw [eq_of_poll hstep]
    constructor
    · intro hcov hstored
      rcases hcov tag (polled_arrive.mpr (Or.inr ⟨rfl, rfl⟩)) hstored with hpub | hwork
      · exact Or.inl hpub
      · refine Or.inr ((atWork_arrive.mp hwork).resolve_right ?_)
        rintro ⟨-, hnew⟩
        cases hnew
    · intro hkeeps tag' hpolled hstored
      have hold : s.Published tag' ∨ s.AtWork tag' := by
        rcases polled_arrive.mp hpolled with hpolled | ⟨-, rfl⟩
        · exact h tag' hpolled hstored
        · exact hkeeps hstored
      exact hold.imp_right fun hwork => atWork_arrive.mpr (Or.inl hwork)
  | webhook tag =>
    cases hstep
    refine iff_of_true ?_ trivial
    intro tag' hpolled hstored
    have hpolled : s.Polled tag' := by
      refine (polled_arrive.mp hpolled).resolve_right ?_
      rintro ⟨hnew, -⟩
      cases hnew
    exact (h tag' hpolled hstored).imp_right fun hwork => atWork_arrive.mpr (Or.inl hwork)
  | advance i =>
    obtain ⟨x, hi, hstep⟩ := Option.bind_eq_some_iff.mp hstep
    refine iff_of_true ?_ trivial
    intro tag hpolled hstored
    obtain ⟨hp, hreleases, hevents, hwork⟩ := advance_spec tag hi hstep
    rw [hevents, hwork]
    rcases hreleases.mp hstored with hold | ⟨hstage, htag⟩
    · rcases h tag (hp.mp hpolled) hold with hpub | hatWork
      · exact Or.inl (Or.inl hpub)
      · rcases (atWork_iff hi).mp hatWork with ⟨htag, hproc⟩ | hother
        · by_cases hstage : x.stage = .publish
          · exact Or.inl (Or.inr ⟨hstage, htag⟩)
          · exact Or.inr (Or.inl ⟨htag, Or.inl ⟨hproc, hstage⟩⟩)
        · exact Or.inr (Or.inr hother)
    -- a release stored just now is still with the handler that stored it
    · refine Or.inr (Or.inl ⟨htag, Or.inl ?_⟩)
      rw [hstage]
      exact ⟨rfl, by decide⟩
  | fail i =>
    obtain ⟨x, hi, hstep⟩ := Option.bind_eq_some_iff.mp hstep
    constructor
    · intro hcov y hy hproc hstage hpolled hstored
      cases hi.symm.trans hy
      obtain ⟨hp, hreleases, hevents, hwork⟩ := fail_spec x.tag hi hstep
      rcases hcov x.tag (hp.mpr hpolled) (by rw [hreleases]; exact hstored) with hpub | hatWork
      · exact Or.inl (hevents.mp hpub)
      · rcases hwork.mp hatWork with ⟨-, hcaught⟩ | hother
        · exact absurd hcaught hstage
        · exact Or.inr hother
    · intro hkeeps tag hpolled hstored
      obtain ⟨hp, hreleases, hevents, hwork⟩ := fail_spec tag hi hstep
      rw [hreleases] at hstored
      rw [hevents, hwork]
      rcases h tag (hp.mp hpolled) hstored with hpub | hatWork
      · exact Or.inl hpub
      · rcases (atWork_iff hi).mp hatWork with ⟨rfl, hproc⟩ | hother
        · by_cases hstage : x.stage = .pullRequests
          · exact Or.inr (Or.inl ⟨rfl, hstage⟩)
          · exact (hkeeps x hi hproc hstage (hp.mp hpolled) hstored).imp_right Or.inr
        · exact Or.inr (Or.inr hother)
  | toolchain tag =>
    rw [eq_of_toolchain hstep]
    refine iff_of_true ?_ trivial
    intro tag' hpolled hstored
    exact (h tag' hpolled hstored).imp_left published_toolchain.mpr

theorem covered_initial : Covered initial := by
  rintro tag ⟨h, hmem, -⟩
  cases hmem

/-- No release is lost in any state of a run exactly when no `process_release` fails between storing
its release and publishing the event with nobody else left to publish it. -/
theorem no_release_lost_iff (as : List Act) :
    Always step (fun _ _ t => NoneLost t) initial as ↔ Always step (fun s a _ => Keeps s a) initial as := by
  refine always_iff_of_invariant (I := Covered) ?_ covered_initial
  intro s a t hs hstep
  rw [noneLost_iff_covered]
  exact ⟨covered_step_iff hs hstep, id⟩

/-- The publish of a polled release fails, and the next cycle finds the release stored. -/
def publishFails : List Act :=
  .poll "v2.0.0-alpha.12" :: List.replicate 6 (.advance 0) ++ [.fail 0, .poll "v2.0.0-alpha.12", .advance 1]

theorem publish_failure_loses_release :
    (exec step initial publishFails).map (fun s => (s.releases, s.events, s.handlers.map Handler.stage)) =
        some (["v2.0.0-alpha.12"], [], [.ended, .ended]) ∧
      ¬ Always step (fun _ _ t => NoneLost t) initial publishFails := by
  have hrun : exec step initial publishFails =
      some ⟨["v2.0.0-alpha.12"], ["v2.0.0-alpha.12"], [], [⟨.poll, "v2.0.0-alpha.12", .ended⟩,
        ⟨.poll, "v2.0.0-alpha.12", .ended⟩]⟩ := by decide +kernel
  refine ⟨by rw [hrun]; rfl, ?_⟩
  intro h
  have hsplit : publishFails = publishFails.dropLast ++ [.advance 1] := by decide
  rw [hsplit] at h hrun
  obtain ⟨u, hu, hstep⟩ := exec_snoc_iff.mp hrun
  have hlost := noneLost_iff_covered.mp (h.at hu hstep) "v2.0.0-alpha.12"
    ⟨_, List.mem_cons_self, rfl, rfl⟩ List.mem_cons_self
  rcases hlost with hpub | ⟨j, k, hj, -, hproc⟩
  · cases hpub
  · rcases j with _ | _ | j <;> cases hj <;> cases hproc

end ReleaseValidation.GithubWatcher.NodeReleases
