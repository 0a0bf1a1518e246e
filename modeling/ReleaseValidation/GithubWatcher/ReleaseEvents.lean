import ReleaseValidation.Store.Json

/-! # The release event and its two readers

The watcher publishes one event for a release on a fanout exchange. The orchestrator and
the analysis consumer of the AI agent each read it with their own keys and their own
default values, so a key that is not there is read as the default without an error.
-/
namespace ReleaseValidation.GithubWatcher
open Programs Store

/-- What the watcher puts into the event about a release. -/
structure Announcement where
  releaseTag : Json
  prs : Json
  changelog : Json

def announcement (release : Json) (prs : List Json) : Except Err Announcement := do
  let tag ← release.item "tag_name"
  let body ← ((← release.get "body" .null).orElse (.str "")).upTo 2000
  return ⟨tag, .arr prs, body⟩

/-- The message body of `_publish_release_event`. -/
def releaseEvent (eventId ts : String) (release : Json) (prs : List Json) : Except Err Json := do
  let tag ← release.item "tag_name"
  let name ← release.get "name" tag
  let body ← ((← release.get "body" .null).orElse (.str "")).upTo 2000
  let author ← (← release.get "author" (.obj [])).get "login" (.str "unknown")
  let url ← release.get "html_url" (.str "")
  return .obj [("event_id", .str eventId), ("service", .str "github-watcher"), ("ts", .str ts),
    ("tag_name", tag), ("release_name", name), ("body", body), ("author", author),
    ("prs", .arr prs), ("html_url", url)]

/-- The release that `process_cli_release` announces for a node whose toolchain it filled in. -/
def syntheticRelease (nodeTag cliTag : String) (htmlUrl : Json) : Json :=
  .obj [("tag_name", .str nodeTag), ("name", .str nodeTag),
    ("body", .str ("Toolchain resolved via CLI release " ++ cliTag)), ("html_url", htmlUrl),
    ("author", .obj [])]

/-- What `ReleasesConsumer._handle` reads of the event. -/
structure RunSource where
  tagName : Json
  htmlUrl : Json

def releasesConsumer (msg : Json) : Except Err RunSource := do
  let tagName ← msg.get "tag_name" (.str "unknown")
  let htmlUrl ← msg.get "html_url" (.str "")
  return ⟨tagName, htmlUrl⟩

/-- What `PRAnalysisConsumer._handle` reads of the event. -/
structure AnalysisSource where
  releaseTag : Json
  prSummaries : Json
  changelog : Json
  prNumbers : Json

def prAnalysisConsumer (msg : Json) : Except Err AnalysisSource := do
  let releaseTag ← msg.get "release_tag" (.str "unknown")
  let prSummaries ← msg.get "pr_summaries" (.arr [])
  let changelog ← msg.get "changelog" (.str "")
  let prNumbers ← msg.get "pr_numbers" (.arr [])
  return ⟨releaseTag, prSummaries, changelog, prNumbers⟩

/-- Both consumers extract from the event what the watcher put in. -/
def EventAgrees (release : Json) (prs : List Json) (event : Json) : Prop :=
  ∃ put run analysis, announcement release prs = .ok put ∧
    releasesConsumer event = .ok run ∧ prAnalysisConsumer event = .ok analysis ∧
    run.tagName = put.releaseTag ∧ analysis.releaseTag = put.releaseTag ∧
    analysis.prSummaries = put.prs ∧ analysis.changelog = put.changelog

theorem announcement_eq_ok_iff {release : Json} {prs : List Json} {put : Announcement} :
    announcement release prs = .ok put ↔
      release.item "tag_name" = .ok put.releaseTag ∧ put.prs = .arr prs ∧
        ∃ body, release.get "body" .null = .ok body ∧ (body.orElse (.str "")).upTo 2000 = .ok put.changelog := by
  constructor
  · intro h
    obtain ⟨tag, htag, h⟩ := except_bind_ok h
    obtain ⟨raw, hraw, h⟩ := except_bind_ok h
    obtain ⟨body, hbody, h⟩ := except_bind_ok h
    cases Except.ok.inj h
    exact ⟨htag, rfl, raw, hraw, hbody⟩
  · obtain ⟨tag, list, body⟩ := put
    rintro ⟨htag, rfl, raw, hraw, hbody⟩
    simp only [announcement, htag, hraw, hbody, bind, Except.bind]
    rfl

/-- The event carries the announcement under the watcher's own keys. -/
theorem releaseEvent_announcement {eventId ts : String} {release event : Json} {prs : List Json}
    (h : releaseEvent eventId ts release prs = .ok event) :
    ∃ put name author url, announcement release prs = .ok put ∧
      event = .obj [("event_id", .str eventId), ("service", .str "github-watcher"), ("ts", .str ts),
        ("tag_name", put.releaseTag), ("release_name", name), ("body", put.changelog),
        ("author", author), ("prs", put.prs), ("html_url", url)] := by
  obtain ⟨tag, htag, h⟩ := except_bind_ok h
  obtain ⟨name, -, h⟩ := except_bind_ok h
  obtain ⟨raw, hraw, h⟩ := except_bind_ok h
  obtain ⟨body, hbody, h⟩ := except_bind_ok h
  obtain ⟨object, -, h⟩ := except_bind_ok h
  obtain ⟨author, -, h⟩ := except_bind_ok h
  obtain ⟨url, -, h⟩ := except_bind_ok h
  have hput : announcement release prs = .ok ⟨tag, .arr prs, body⟩ :=
    announcement_eq_ok_iff.mpr ⟨htag, rfl, raw, hraw, hbody⟩
  exact ⟨⟨tag, .arr prs, body⟩, name, author, url, hput, (Except.ok.inj h).symm⟩

/-- Cutting a text to a positive length leaves nothing only of nothing. -/
theorem orElse_upTo_eq_empty_iff {body out : Json} {n : ℕ} (hn : n ≠ 0)
    (h : (body.orElse (.str "")).upTo n = .ok out) : out = .str "" ↔ body.truthy = false := by
  unfold Json.orElse at h
  cases hb : body.truthy with
  | false =>
    rw [hb, if_neg Bool.false_ne_true] at h
    have hout : Json.str (String.ofList (("" : String).toList.take n)) = out := Except.ok.inj h
    rw [← hout]
    simp
  | true =>
    rw [hb, if_pos rfl] at h
    have hne : out ≠ .str "" := by
      rintro rfl
      cases body with
      | str s =>
        have hs : s ≠ "" := by simpa [Json.truthy] using hb
        have hout : String.ofList (s.toList.take n) = "" := Json.str.inj (Except.ok.inj h)
        have hnil : s.toList.take n = [] := by simpa using congrArg String.toList hout
        rcases List.take_eq_nil_iff.mp hnil with h0 | h0
        · exact hn h0
        · exact hs (String.toList_eq_nil_iff.mp h0)
      | _ => cases h
    simp [hne]

/-- The analysis consumer finds none of its keys, so the readers agree with the watcher on its
default values only. -/
theorem eventAgrees_iff_defaults {eventId ts : String} {release event : Json} {prs : List Json}
    (h : releaseEvent eventId ts release prs = .ok event) :
    EventAgrees release prs event ↔ announcement release prs = .ok ⟨.str "unknown", .arr [], .str ""⟩ := by
  obtain ⟨put, name, author, url, hput, rfl⟩ := releaseEvent_announcement h
  constructor
  · rintro ⟨put', run, analysis, hput', -, hread, -, htag, hprs, hlog⟩
    cases Except.ok.inj hread
    obtain ⟨tag, list, log⟩ := put'
    cases htag
    cases hprs
    cases hlog
    exact hput'
  · intro hdefault
    have hsame : put = ⟨.str "unknown", .arr [], .str ""⟩ := Except.ok.inj (hput.symm.trans hdefault)
    refine ⟨put, ⟨put.releaseTag, url⟩, ⟨.str "unknown", .arr [], .str "", .arr []⟩, hput, rfl, rfl, rfl, ?_⟩
    rw [hsame]
    exact ⟨rfl, rfl, rfl⟩

/-- Both consumers read what the watcher put in for no release but one tagged like the
default, with no text and no pull requests. -/
theorem release_event_agrees_iff {eventId ts : String} {release event : Json} {prs : List Json}
    (h : releaseEvent eventId ts release prs = .ok event) :
    EventAgrees release prs event ↔
      release.item "tag_name" = .ok (.str "unknown") ∧ prs = [] ∧
        ∃ body, release.get "body" .null = .ok body ∧ body.truthy = false := by
  rw [eventAgrees_iff_defaults h, announcement_eq_ok_iff]
  constructor
  · rintro ⟨htag, hprs, body, hbody, hcut⟩
    have hfalsy : body.truthy = false := (orElse_upTo_eq_empty_iff (by decide) hcut).mp rfl
    exact ⟨htag, (Json.arr.inj hprs).symm, body, hbody, hfalsy⟩
  · rintro ⟨htag, rfl, body, hbody, hfalsy⟩
    have hcut : (body.orElse (.str "")).upTo 2000 = .ok (.str "") := by
      rw [Json.orElse, hfalsy]
      rfl
    exact ⟨htag, rfl, body, hbody, hcut⟩

/-- The event that follows a filled-in toolchain names the CLI release in its text, so the
analysis consumer misreads every one of them. -/
theorem synthetic_release_disagrees (eventId ts nodeTag cliTag : String) (htmlUrl : Json) :
    ∃ event, releaseEvent eventId ts (syntheticRelease nodeTag cliTag htmlUrl) [] = .ok event ∧
      ¬ EventAgrees (syntheticRelease nodeTag cliTag htmlUrl) [] event := by
  have htext : (Json.str ("Toolchain resolved via CLI release " ++ cliTag)).truthy = true := by
    simp [Json.truthy]
  have hevent : ∃ event, releaseEvent eventId ts (syntheticRelease nodeTag cliTag htmlUrl) [] = .ok event := by
    have hraw : (syntheticRelease nodeTag cliTag htmlUrl).get "body" .null =
        .ok (.str ("Toolchain resolved via CLI release " ++ cliTag)) := rfl
    simp only [releaseEvent, hraw, Json.orElse, htext, if_pos, bind, Except.bind]
    exact ⟨_, rfl⟩
  obtain ⟨event, hevent⟩ := hevent
  refine ⟨event, hevent, fun hagrees => ?_⟩
  obtain ⟨-, -, body, hbody, hcut⟩ := announcement_eq_ok_iff.mp ((eventAgrees_iff_defaults hevent).mp hagrees)
  cases Except.ok.inj hbody
  have hfalsy := (orElse_upTo_eq_empty_iff (by decide) hcut).mp rfl
  exact absurd (htext.symm.trans hfalsy) Bool.true_eq_false.mp

/-- A release of the node with a text and one merged pull request. -/
def nodeRelease : Json :=
  .obj [("tag_name", .str "v2.0.0-alpha.12"), ("name", .str "Rollups Node 2.0.0 alpha 12"),
    ("body", .str "Fix epoch closing"), ("author", .obj [("login", .str "maintainer")]),
    ("html_url", .str "https://github.com/cartesi/rollups-node/releases/tag/v2.0.0-alpha.12")]

def mergedPullRequest : Json :=
  .obj [("number", .int 712), ("title", .str "Close epochs once"), ("body", .str ""),
    ("author", .str "maintainer"), ("labels", .arr [])]

/-- The release with no text and no pull requests whose tag is the default of both readers. -/
def unknownRelease : Json := .obj [("tag_name", .str "unknown"), ("author", .obj [])]

theorem release_event_agrees_iff_unknown :
    ∃ event, releaseEvent "e" "t" unknownRelease [] = .ok event ∧
      (EventAgrees unknownRelease [] event ↔
        unknownRelease.item "tag_name" = .ok (.str "unknown") ∧ ([] : List Json) = [] ∧
          ∃ body, unknownRelease.get "body" .null = .ok body ∧ body.truthy = false) := by
  have hevent : ∃ event, releaseEvent "e" "t" unknownRelease [] = .ok event := ⟨_, rfl⟩
  obtain ⟨event, hevent⟩ := hevent
  exact ⟨event, hevent, release_event_agrees_iff hevent⟩

/-- The analysis consumer reads an ordinary release as an unknown one. -/
theorem analysis_reads_defaults :
    ∃ event, releaseEvent "e" "t" nodeRelease [mergedPullRequest] = .ok event ∧
      prAnalysisConsumer event = .ok ⟨.str "unknown", .arr [], .str "", .arr []⟩ ∧
      ¬ EventAgrees nodeRelease [mergedPullRequest] event := by
  refine ⟨_, rfl, rfl, ?_⟩
  rintro ⟨put, run, analysis, hput, -, hread, -, htag, -, -⟩
  cases Except.ok.inj hread
  cases Except.ok.inj hput
  exact absurd (Json.str.inj htag) (by decide)

end ReleaseValidation.GithubWatcher
