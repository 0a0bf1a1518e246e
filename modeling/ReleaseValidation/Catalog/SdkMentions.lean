import Mathlib.Tactic.IntervalCases
import ReleaseValidation.Catalog.ReleaseBodies

/-! # Mentions of the SDK in a release text

A text mentions a version of the SDK at a place where the name of the package or of one of
the two images is followed by a version, with a `v` or without. The expressions of the three
services each select one of the mentions: the watcher the first, the orchestrator the first
that is not of the database image, the resolver the first without a `v`, of the package
before the images.
-/
namespace ReleaseValidation.Catalog
open Regexes

inductive SdkSource
  | sdk
  | runtime
  | database
  deriving DecidableEq, Repr

structure Mention where
  source : SdkSource
  prefixed : Bool
  version : String
  deriving DecidableEq, Repr

def isSeparator (c : Char) : Bool := c == '@' || c == ':' || c == ' '

def hasV : List Char → Bool
  | [] => false
  | c :: _ => sameLetter 'v' c

def dropV : List Char → List Char
  | [] => []
  | c :: s => if sameLetter 'v' c then s else c :: s

/-- At least one separator, and all that follow. -/
def dropSeparators : List Char → Option (List Char)
  | [] => none
  | c :: s => if isSeparator c then some (s.dropWhile isSeparator) else none

namespace SdkSource

def all : List SdkSource := [sdk, runtime, database]

/-- What follows the name at the start of the text. -/
def after : SdkSource → List Char → Option (List Char)
  | sdk, s => (stripLiteral sameLetter "@cartesi/sdk".toList s).bind dropSeparators
  | runtime, s => stripLiteral sameLetter "cartesi/rollups-runtime:".toList s
  | database, s => stripLiteral sameLetter "cartesi/rollups-database:".toList s

def lead : SdkSource → Regex Char
  | sdk => Regex.chain [lit "@cartesi/sdk", separators]
  | runtime => lit "cartesi/rollups-runtime:"
  | database => lit "cartesi/rollups-database:"

end SdkSource

section Mentions
variable (ch : Characters)

/-- The version at the start of the text. -/
def versionAt (s : List Char) : Option String := ((version ch).splits s).head?.map fun m => String.ofList m.1

def mentionOf (source : SdkSource) (s : List Char) : Option Mention :=
  (source.after s).bind fun r => (versionAt ch (dropV r)).map fun v => ⟨source, hasV r, v⟩

def mentionsAt (s : List Char) : List Mention := SdkSource.all.filterMap fun source => mentionOf ch source s

/-- The mentions in a text, from left to right. -/
def mentions (body : String) : List Mention := body.toList.tails.flatMap (mentionsAt ch)

/-- The SDK version that the watcher reads in the text of a CLI release. -/
def watcherSdk (body : String) : Option String := searchBody (sdkInBodyRe ch) (clip5000 body)

/-- The SDK version that the orchestrator reads in the text of a CLI release. -/
def orchestratorSdk (body : String) : Option String := searchBody (orchestratorSdkInBodyRe ch) (clip5000 body)

/-- Digits are neither a `v` nor separators. -/
def Characters.DigitsApart : Prop := ∀ c, digit ch c = true → sameLetter 'v' c = false ∧ isSeparator c = false

end Mentions

/-- The first mention without a `v`, of the package if there is one, else of the runtime image. -/
def preferred (ms : List Mention) : Option Mention :=
  SdkSource.all.findSome? fun source => ms.find? fun m => m.source == source && !m.prefixed

/-- The first mention, the first that is not of the database image and the preferred one name one version. -/
def OneVersion (ms : List Mention) : Prop :=
  ∀ m, ms.head? = some m →
    (∃ n, ms.find? (fun n => n.source != .database) = some n ∧ n.version = m.version) ∧
    ∃ n, preferred ms = some n ∧ n.version = m.version

section Captures
variable {ch : Characters}

theorem version_splits_cons {c : Char} (h : digit ch c = false) (s : List Char) : (version ch).splits (c :: s) = [] := by
  have hone : (Regex.one (digit ch)).splits (c :: s) = [] := if_neg (by rw [h]; nofun)
  have hplus : (Regex.plus (digit ch)).splits (c :: s) = [] := by
    rw [Regex.plus, Regex.splits, hone]
    rfl
  rw [version, Regex.chain, Regex.splits, hplus]
  rfl

theorem Characters.DigitsApart.not_digit (hch : ch.DigitsApart) {c : Char}
    (h : sameLetter 'v' c = true ∨ isSeparator c = true) : digit ch c = false := by
  by_contra hd
  obtain ⟨hv, hs⟩ := hch c (Bool.not_eq_false _ ▸ hd)
  rcases h with h | h
  · rw [hv] at h
    cases h
  · rw [hs] at h
    cases h

/-- What the context of a source leaves: first the text after the name, then texts that begin with
a separator. -/
theorem SdkSource.lead_rests (source : SdkSource) (s : List Char) :
    ∃ l, source.lead.rests s = (source.after s).toList ++ l ∧ ∀ r ∈ l, ∃ c r', r = c :: r' ∧ isSeparator c = true := by
  cases source with
  | sdk =>
    change ∃ l, (Regex.chain [lit "@cartesi/sdk", separators]).rests s = _ ∧ _
    rw [Regex.rests_chain_pair, lit, Regex.rests_literal, after]
    cases stripLiteral sameLetter "@cartesi/sdk".toList s with
    | none => exact ⟨[], rfl, nofun⟩
    | some t =>
      rw [Option.toList_some, List.flatMap_singleton, Option.bind_some]
      cases t with
      | nil => exact ⟨[], rfl, nofun⟩
      | cons c t =>
        obtain ⟨l, hl, hmem⟩ := Regex.rests_many isSeparator t
        change ∃ l, (Regex.seq (.one isSeparator) (.many isSeparator)).rests (c :: t) = _ ∧ _
        rw [Regex.rests_seq, Regex.rests_one_cons, dropSeparators]
        by_cases hc : isSeparator c = true
        · rw [if_pos hc, if_pos hc, List.flatMap_singleton, hl]
          exact ⟨l, rfl, hmem⟩
        · rw [if_neg hc, if_neg hc]
          exact ⟨[], rfl, nofun⟩
  | runtime =>
    exact ⟨[], (Regex.rests_literal _ _ _).trans (List.append_nil _).symm, nofun⟩
  | database =>
    exact ⟨[], (Regex.rests_literal _ _ _).trans (List.append_nil _).symm, nofun⟩

/-- The version of a mention, as the group of a pattern captures it. -/
def captured (e : Pattern Char) (s : List Char) : Option String := (e.captureAt s).map String.ofList

theorem flatMap_eq_nil_of_rests {f : List Char → List (List Char × List Char)} {l : List (List Char)}
    (hl : ∀ r ∈ l, ∃ c r', r = c :: r' ∧ isSeparator c = true) (hf : ∀ c r', isSeparator c = true → f (c :: r') = []) :
    l.flatMap f = [] := by
  rw [List.flatMap_eq_nil_iff]
  intro r hr
  obtain ⟨c, r', rfl, hc⟩ := hl r hr
  exact hf c r' hc

/-- Without the optional `v`, the pattern captures a version right after the name. -/
theorem captured_plain (hch : ch.DigitsApart) (source : SdkSource) (s : List Char) :
    captured ⟨source.lead, version ch⟩ s = (source.after s).bind (versionAt ch) := by
  obtain ⟨l, hl, hsep⟩ := source.lead_rests s
  have hnil : l.flatMap (version ch).splits = [] :=
    flatMap_eq_nil_of_rests hsep fun c r' hc => version_splits_cons (hch.not_digit (.inr hc)) r'
  rw [captured, Pattern.captureAt_eq, hl, List.flatMap_append, hnil, List.append_nil]
  cases source.after s with
  | none => rfl
  | some r =>
    rw [Option.toList_some, List.flatMap_singleton, Option.map_map]
    rfl

/-- The versions that the group can capture with the optional `v` before it. -/
theorem optV_splits (hch : ch.DigitsApart) (r : List Char) :
    (optV.rests r).flatMap (version ch).splits = (version ch).splits (dropV r) := by
  cases r with
  | nil => rfl
  | cons c r =>
    have hrests : optV.rests (c :: r) = (if sameLetter 'v' c = true then [r] else []) ++ [c :: r] := by
      rw [optV, Regex.opt, Regex.rests_alt, lit, Regex.rests_literal, Regex.rests_empty]
      change (if sameLetter 'v' c = true then some r else none).toList ++ _ = _
      split <;> rfl
    rw [hrests, List.flatMap_append, List.flatMap_singleton, dropV]
    by_cases hc : sameLetter 'v' c = true
    · rw [if_pos hc, if_pos hc, version_splits_cons (hch.not_digit (.inl hc)), List.flatMap_singleton, List.append_nil]
    · rw [if_neg hc, if_neg hc]
      rfl

theorem separator_not_v {c : Char} (h : isSeparator c = true) : sameLetter 'v' c = false := by
  simp only [isSeparator, Bool.or_eq_true, beq_iff_eq] at h
  rcases h with (rfl | rfl) | rfl <;> decide

theorem captured_loose (hch : ch.DigitsApart) (source : SdkSource) (s : List Char) :
    captured ⟨Regex.chain [source.lead, optV], version ch⟩ s = (mentionOf ch source s).map Mention.version := by
  obtain ⟨l, hl, hsep⟩ := source.lead_rests s
  have hnil : (l.flatMap fun r => (optV.rests r).flatMap (version ch).splits) = [] := by
    refine flatMap_eq_nil_of_rests hsep fun c r' hc => ?_
    rw [optV_splits hch, dropV, if_neg (by rw [separator_not_v hc]; nofun)]
    exact version_splits_cons (hch.not_digit (.inr hc)) r'
  rw [captured, Pattern.captureAt_eq, Regex.rests_chain_pair, List.flatMap_assoc, hl, List.flatMap_append, hnil,
    List.append_nil, mentionOf]
  cases source.after s with
  | none => rfl
  | some r =>
    rw [Option.toList_some, List.flatMap_singleton, optV_splits hch, Option.map_map, Option.bind_some, Option.map_map,
      versionAt, Option.map_map]
    rfl

/-- Without the optional `v`, only a mention without a `v` is captured. -/
theorem captured_unprefixed (hch : ch.DigitsApart) (source : SdkSource) (s : List Char) :
    captured ⟨source.lead, version ch⟩ s =
      ((mentionOf ch source s).filter fun m => !m.prefixed).map Mention.version := by
  rw [captured_plain hch, mentionOf]
  cases source.after s with
  | none => rfl
  | some r =>
    rw [Option.bind_some, Option.bind_some]
    cases hv : hasV r with
    | true =>
      cases r with
      | nil => cases hv
      | cons c r =>
        have hnone : versionAt ch (c :: r) = none := by
          rw [versionAt, version_splits_cons (hch.not_digit (.inl hv))]
          rfl
        rw [hnone]
        cases versionAt ch (dropV (c :: r)) <;> rfl
    | false =>
      have hdrop : dropV r = r := by
        cases r with
        | nil => rfl
        | cons c r => exact if_neg (by rw [show sameLetter 'v' c = false from hv]; nofun)
      rw [hdrop]
      cases versionAt ch r <;> rfl

end Captures

/-! ### The mentions that the expressions select -/

section Selections
variable {ch : Characters}

theorem mentionOf_source {source : SdkSource} {s : List Char} {m : Mention} (h : mentionOf ch source s = some m) :
    m.source = source := by
  obtain ⟨r, -, h⟩ := Option.bind_eq_some_iff.mp h
  obtain ⟨v, -, rfl⟩ := Option.map_eq_some_iff.mp h
  rfl

theorem mentionsAt_eq (s : List Char) : mentionsAt ch s =
    (mentionOf ch .sdk s).toList ++ ((mentionOf ch .runtime s).toList ++ (mentionOf ch .database s).toList) := by
  unfold mentionsAt SdkSource.all
  simp only [List.filterMap_cons, List.filterMap_nil]
  cases mentionOf ch .sdk s <;> cases mentionOf ch .runtime s <;> cases mentionOf ch .database s <;> rfl

/-- A pattern that captures at each place the first mention there with a property captures in a text
the first of all mentions with it. -/
theorem searchBody_eq {e : Pattern Char} {p : Mention → Bool}
    (h : ∀ s, captured e s = ((mentionsAt ch s).find? p).map Mention.version) (body : String) :
    searchBody e body = ((mentions ch body).find? p).map Mention.version := by
  have hcap : (fun s => captured e s) = fun s => ((mentionsAt ch s).find? p).map Mention.version := funext h
  rw [searchBody, Pattern.search, List.map_findSome?, mentions, List.find?_flatMap, List.map_findSome?]
  exact congrArg (fun f => List.findSome? f body.toList.tails) hcap

theorem watcher_captures (hch : ch.DigitsApart) (s : List Char) :
    captured (sdkInBodyRe ch) s = ((mentionsAt ch s).find? fun _ => true).map Mention.version := by
  have hleads : captured (sdkInBodyRe ch) s =
      (captured ⟨Regex.chain [SdkSource.sdk.lead, optV], version ch⟩ s).or
        ((captured ⟨Regex.chain [SdkSource.runtime.lead, optV], version ch⟩ s).or
          (captured ⟨Regex.chain [SdkSource.database.lead, optV], version ch⟩ s)) := by
    simp only [captured, ← Option.map_or, ← Pattern.captureAt_alt]
    rfl
  rw [hleads, captured_loose hch, captured_loose hch, captured_loose hch, mentionsAt_eq]
  cases mentionOf ch .sdk s <;> cases mentionOf ch .runtime s <;> cases mentionOf ch .database s <;> rfl

theorem orchestrator_captures (hch : ch.DigitsApart) (s : List Char) :
    captured (orchestratorSdkInBodyRe ch) s =
      ((mentionsAt ch s).find? fun m => m.source != .database).map Mention.version := by
  have hleads : captured (orchestratorSdkInBodyRe ch) s =
      (captured ⟨Regex.chain [SdkSource.sdk.lead, optV], version ch⟩ s).or
        (captured ⟨Regex.chain [SdkSource.runtime.lead, optV], version ch⟩ s) := by
    simp only [captured, ← Option.map_or, ← Pattern.captureAt_alt]
    rfl
  rw [hleads, captured_loose hch, captured_loose hch, mentionsAt_eq, List.find?_append, List.find?_append]
  have hfind : ∀ source, (mentionOf ch source s).toList.find? (fun m => m.source != .database) =
      if source = .database then none else mentionOf ch source s := by
    intro source
    cases hm : mentionOf ch source s with
    | none => split <;> rfl
    | some m =>
      have hsource := mentionOf_source hm
      rw [Option.toList_some, List.find?_singleton, hsource]
      cases source <;> rfl
  rw [hfind, hfind, hfind]
  cases mentionOf ch .sdk s <;> cases mentionOf ch .runtime s <;> rfl

theorem resolver_captures (hch : ch.DigitsApart) (source : SdkSource) (s : List Char) :
    captured ⟨source.lead, version ch⟩ s =
      ((mentionsAt ch s).find? fun m => m.source == source && !m.prefixed).map Mention.version := by
  have hfind : ∀ other, (mentionOf ch other s).toList.find? (fun m => m.source == source && !m.prefixed) =
      if other = source then (mentionOf ch other s).filter fun m => !m.prefixed else none := by
    intro other
    cases hm : mentionOf ch other s with
    | none => split <;> rfl
    | some m =>
      have hsource := mentionOf_source hm
      rw [Option.toList_some, List.find?_singleton, hsource]
      by_cases heq : other = source
      · rw [if_pos heq, heq, beq_self_eq_true, Bool.true_and]
        rfl
      · rw [if_neg heq, beq_eq_false_iff_ne.mpr heq, Bool.false_and]
        rfl
  rw [captured_unprefixed hch, mentionsAt_eq, List.find?_append, List.find?_append, hfind, hfind, hfind]
  cases source with
  | sdk => simp
  | runtime => simp
  | database => simp

theorem clip5000_of_length {body : String} (h : body.length ≤ 5000) : clip5000 body = body := by
  have hlen : body.toList.length ≤ 5000 := h
  rw [clip5000, List.take_of_length_le hlen, String.ofList_toList]

theorem watcherSdk_eq (hch : ch.DigitsApart) {body : String} (h : body.length ≤ 5000) :
    watcherSdk ch body = (mentions ch body).head?.map Mention.version := by
  rw [watcherSdk, clip5000_of_length h, searchBody_eq (watcher_captures hch)]
  cases mentions ch body <;> rfl

theorem orchestratorSdk_eq (hch : ch.DigitsApart) {body : String} (h : body.length ≤ 5000) :
    orchestratorSdk ch body = ((mentions ch body).find? fun m => m.source != .database).map Mention.version := by
  rw [orchestratorSdk, clip5000_of_length h, searchBody_eq (orchestrator_captures hch)]

theorem extractSdkFromBody_eq (hch : ch.DigitsApart) (body : String) :
    extractSdkFromBody ch body = (preferred (mentions ch body)).map Mention.version := by
  have hpatterns : sdkPatterns ch = SdkSource.all.map fun source => ⟨source.lead, version ch⟩ := rfl
  rw [extractSdkFromBody, hpatterns, List.findSome?_map, preferred, List.map_findSome?]
  refine congrArg (fun f => List.findSome? f SdkSource.all) (funext fun source => ?_)
  exact searchBody_eq (resolver_captures hch source) body

/-- The three services read the same version, or none, off a text that none of them cuts short exactly
when the mentions they select name one version. -/
theorem sdk_versions_agree_iff (hch : ch.DigitsApart) {body : String} (h : body.length ≤ 5000) :
    (extractSdkFromBody ch body = watcherSdk ch body ∧ orchestratorSdk ch body = watcherSdk ch body) ↔
      OneVersion (mentions ch body) := by
  rw [watcherSdk_eq hch h, orchestratorSdk_eq hch h, extractSdkFromBody_eq hch]
  cases hms : mentions ch body with
  | nil => exact iff_of_true ⟨rfl, rfl⟩ nofun
  | cons m ms =>
    rw [List.head?_cons, Option.map_some, Option.map_eq_some_iff, Option.map_eq_some_iff]
    constructor
    · rintro ⟨hpreferred, hfirst⟩ n hn
      cases hn
      exact ⟨hfirst, hpreferred⟩
    · intro hone
      obtain ⟨hfirst, hpreferred⟩ := hone m rfl
      exact ⟨hpreferred, hfirst⟩

theorem digitsApart_ascii : Characters.ascii.DigitsApart := by
  intro c hc
  have hdigit : c.isDigit = true := by
    by_contra hno
    have hnone : Characters.ascii.decimal c = none := if_neg hno
    rw [digit, hnone] at hc
    cases hc
  simp only [Char.isDigit, Bool.and_eq_true, decide_eq_true_eq, ge_iff_le, UInt32.le_iff_toNat_le] at hdigit
  have hlow : 48 ≤ c.toNat := hdigit.1
  have hhigh : c.toNat ≤ 57 := hdigit.2
  rw [← Char.ofNat_toNat c]
  interval_cases c.toNat <;> decide

/-- A text whose mentions agree. -/
def bumpText : String := "Bump @cartesi/sdk@0.12.0-alpha.40 (cartesi/rollups-runtime:0.12.0-alpha.40)"

theorem sdk_versions_agree_bump :
    extractSdkFromBody .ascii bumpText = watcherSdk .ascii bumpText ∧
      orchestratorSdk .ascii bumpText = watcherSdk .ascii bumpText := by
  have hms : mentions .ascii bumpText = [⟨.sdk, false, "0.12.0-alpha.40"⟩, ⟨.runtime, false, "0.12.0-alpha.40"⟩] := by
    rw [mentions, bumpText, String.toList_ofList]
    rfl
  have hlength : bumpText.length ≤ 5000 := by
    rw [bumpText, ← String.length_toList, String.toList_ofList]
    decide
  refine (sdk_versions_agree_iff digitsApart_ascii hlength).mpr ?_
  rw [hms]
  intro m hm
  cases hm
  exact ⟨⟨_, rfl, rfl⟩, ⟨_, rfl, rfl⟩⟩

/-- The database image is named before the package. -/
def databaseFirst : String := "Update cartesi/rollups-database:0.11.0 and @cartesi/sdk@0.12.0"

theorem sdk_versions_differ :
    databaseFirst.length ≤ 5000 ∧ extractSdkFromBody .ascii databaseFirst = some "0.12.0" ∧
      watcherSdk .ascii databaseFirst = some "0.11.0" ∧ orchestratorSdk .ascii databaseFirst = some "0.12.0" := by
  have hlength : databaseFirst.length ≤ 5000 := by
    rw [databaseFirst, ← String.length_toList, String.toList_ofList]
    decide
  refine ⟨hlength, ?_⟩
  -- the literals become lists of characters, which evaluate fast
  simp only [databaseFirst, extractSdkFromBody, watcherSdk, orchestratorSdk, searchBody, clip5000, sdkPatterns,
    sdkInBodyRe, orchestratorSdkInBodyRe, lit]
  repeat rw [String.toList_ofList]
  exact ⟨rfl, rfl, rfl⟩

end Selections

end ReleaseValidation.Catalog
