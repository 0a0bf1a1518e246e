import ReleaseValidation.Foundations.Places
import ReleaseValidation.Catalog.SdkMentions
import ReleaseValidation.Catalog.Resolver

/-! # Whole versions in release texts

The resolver takes from a text what its expression for a version matches at the first place where it
matches. The version that stands there may go on behind the match: only pre-releases of the form
`-word.number` are taken with it.
-/
namespace ReleaseValidation.Catalog.VersionTokens
open Regexes

def isJoiner (c : Char) : Bool := c == '.' || c == '-' || c == '+'

section Tokens
variable (ch : Characters)

/-- A word follows, behind dashes or not. -/
def wordFollows (s : List Char) : Bool :=
  match s.dropWhile (· == '-') with
  | [] => false
  | c :: _ => ch.word c

/-- The version that starts at the start of the text, all of it: words, and the joiners between them. -/
def token : List Char → List Char
  | [] => []
  | c :: s => if ch.word c || (isJoiner c && wordFollows ch s) then c :: token s else []

/-- The text ends in a number, or in a number and a dot. -/
def endsInNumber (s : List Char) : Bool :=
  match s.reverse with
  | [] => false
  | '.' :: c :: _ => digit ch c
  | c :: _ => digit ch c

def startsVersion (s : List Char) : Bool := !((version ch).splits s).isEmpty

/-- The first place behind the name of the node where a version starts: the text before and after it. -/
def nodePlace (body : String) : Option (List Char × List Char) :=
  place (nodeBumpRe ch).lead (startsVersion ch) body.toList

/-- The first place behind a name of the SDK where a version starts, of the package before the images. -/
def sdkPlace (body : String) : Option (List Char × List Char) :=
  (sdkPatterns ch).findSome? fun e => place e.lead (startsVersion ch) body.toList

/-- What stands at the place in the text is the version `v`, neither more nor less. -/
def Names (body : String) (p : List Char × List Char) (v : String) : Prop :=
  body.toList = p.1 ++ p.2 ∧ token ch p.2 = v.toList ∧ endsInNumber ch p.1 = false

instance (body : String) (p : List Char × List Char) (v : String) : Decidable (Names ch body p v) :=
  inferInstanceAs (Decidable (_ ∧ _))

/-- The text of the release names the node version itself. -/
def namesNode (nodeVer : String) (rel : Release) : Bool :=
  (nodePlace ch rel.text).any fun p => decide (Names ch rel.text p nodeVer)

/-- The version that stands at the place has a form that the expression knows. -/
def KnownForm (p : List Char × List Char) : Prop :=
  (version ch).Matches (token ch p.2) ∧ endsInNumber ch p.1 = false

/-- Digits are word characters, dots and dashes are not. -/
structure Characters.Lexical : Prop where
  word_of_digit : ∀ c, digit ch c = true → ch.word c = true
  dot : ch.word '.' = false
  dash : ch.word '-' = false

end Tokens

section Versions
variable {ch : Characters}

/-- A sequence does not start with a character that its first part does not take. -/
theorem splits_one_seq {q : Char → Bool} {b : Regex Char} {c : Char} (h : q c = false) (r : List Char) :
    (Regex.seq (.one q) b).splits (c :: r) = [] := by
  rw [Regex.splits, Regex.splits, if_neg (by rw [h]; exact Bool.false_ne_true), List.flatMap_nil]

theorem Characters.Lexical.digit_dot (hch : Characters.Lexical ch) : digit ch '.' = false := by
  by_contra h
  have hword := hch.word_of_digit '.' (Bool.not_eq_false _ ▸ h)
  rw [hch.dot] at hword
  cases hword

theorem Characters.Lexical.digit_dash (hch : Characters.Lexical ch) : digit ch '-' = false := by
  by_contra h
  have hword := hch.word_of_digit '-' (Bool.not_eq_false _ ▸ h)
  rw [hch.dash] at hword
  cases hword

/-- Elements up to a dot, and what follows the dot. -/
def dotted (p : Char → Bool) (b : Regex Char) : Regex Char := .seq (.plus p) (.seq (.one (· == '.')) b)

theorem greedy_dotted {p : Char → Bool} (hp : p '.' = false) {b : Regex Char} (hb : b.Greedy) : (dotted p b).Greedy := by
  refine (Regex.leading_plus p).greedy_seq (fun c r hc => splits_one_seq ?_ r) ?_
  · rw [beq_eq_false_iff_ne]
    rintro rfl
    rw [hp] at hc
    cases hc
  · exact (Regex.leading_one (fun _ => false) _).greedy_seq (fun c r hc => by cases hc) hb

/-- The form of a version: three numbers, and a pre-release of a word and a number or none. -/
theorem version_eq : version ch = dotted (digit ch) (dotted (digit ch) (.seq (.plus (digit ch))
    (.seq (Regex.opt (.seq (.one (· == '-')) (dotted ch.word (.seq (.plus (digit ch)) .empty)))) .empty))) := rfl

theorem greedy_version (hch : Characters.Lexical ch) : (version ch).Greedy := by
  rw [version_eq]
  refine greedy_dotted hch.digit_dot (greedy_dotted hch.digit_dot ?_)
  have hnumber : (Regex.seq (.plus (digit ch)) .empty).Greedy :=
    (Regex.leading_plus (digit ch)).greedy.congr (Regex.splits_seq_empty _)
  have hpre : (Regex.seq (.one (· == '-')) (dotted ch.word (.seq (.plus (digit ch)) .empty))).Greedy :=
    (Regex.leading_one (fun _ => false) _).greedy_seq (fun c r hc => by cases hc) (greedy_dotted hch.dot hnumber)
  have hfirst : ∀ c r, digit ch c = true →
      (Regex.seq (.one (· == '-')) (dotted ch.word (.seq (.plus (digit ch)) .empty))).splits (c :: r) = [] := by
    intro c r hc
    refine splits_one_seq ?_ r
    rw [beq_eq_false_iff_ne]
    rintro rfl
    rw [hch.digit_dash] at hc
    cases hc
  refine ((Regex.leading_plus (digit ch)).greedy_opt hfirst hpre).congr fun s => ?_
  rw [Regex.splits, Regex.splits]
  simp only [Regex.splits_seq_empty]

/-! ### The token holds what the expression takes -/

theorem matches_plus {p : Char → Bool} {m : List Char} (h : (Regex.plus p).Matches m) :
    (∃ c r, m = c :: r) ∧ ∀ c ∈ m, p c = true := by
  obtain ⟨x, y, ⟨c, hc, rfl⟩, hy, rfl⟩ := h
  refine ⟨⟨c, y, rfl⟩, fun d hd => ?_⟩
  rcases List.mem_cons.mp hd with rfl | hd
  · exact hc
  · exact hy d hd

theorem token_prefix (s : List Char) : ∃ r, s = token ch s ++ r := by
  induction s with
  | nil => exact ⟨[], rfl⟩
  | cons c s ih =>
    rw [token]
    split
    next =>
      obtain ⟨r, hr⟩ := ih
      exact ⟨r, congrArg (c :: ·) hr⟩
    next => exact ⟨c :: s, rfl⟩

theorem token_word {w : List Char} (h : ∀ c ∈ w, ch.word c = true) (s : List Char) :
    token ch (w ++ s) = w ++ token ch s := by
  induction w with
  | nil => rfl
  | cons c w ih =>
    obtain ⟨hc, hw⟩ := List.forall_mem_cons.mp h
    rw [List.cons_append, token, hc, Bool.true_or, if_pos rfl, ih hw]
    rfl

/-- A joiner before a word is part of the token. -/
theorem token_joiner (hch : Characters.Lexical ch) {j c : Char} (hj : isJoiner j = true) (hc : ch.word c = true)
    (s : List Char) : token ch (j :: c :: s) = j :: token ch (c :: s) := by
  have hdash : (c == '-') = false := by
    rw [beq_eq_false_iff_ne]
    rintro rfl
    rw [hch.dash] at hc
    cases hc
  have hfollows : wordFollows ch (c :: s) = true := by
    rw [wordFollows, List.dropWhile_cons_of_neg (by rw [hdash]; exact Bool.false_ne_true)]
    exact hc
  rw [token, hj, hfollows, Bool.true_and, Bool.or_true, if_pos rfl]

/-- The expression takes the text into the token, up to what follows. -/
def Joined (ch : Characters) (e : Regex Char) : Prop :=
  ∀ x, e.Matches x → (∃ c r, x = c :: r ∧ ch.word c = true) ∧ ∀ s, token ch (x ++ s) = x ++ token ch s

theorem joined_plus {p : Char → Bool} (hp : ∀ c, p c = true → ch.word c = true) : Joined ch (.plus p) := by
  intro x hx
  obtain ⟨⟨c, r, rfl⟩, hall⟩ := matches_plus hx
  exact ⟨⟨c, r, rfl, hp c (hall c List.mem_cons_self)⟩, token_word fun d hd => hp d (hall d hd)⟩

theorem joined_dotted (hch : Characters.Lexical ch) {p : Char → Bool} (hp : ∀ c, p c = true → ch.word c = true)
    {b : Regex Char} (hb : Joined ch b) : Joined ch (dotted p b) := by
  rintro x ⟨w, y, hw, ⟨d, z, ⟨j, hj, rfl⟩, hz, rfl⟩, rfl⟩
  obtain ⟨⟨c, r, rfl, hc⟩, hword⟩ := joined_plus hp w hw
  obtain ⟨⟨c', r', rfl, hc'⟩, hrest⟩ := hb z hz
  have hdot : j = '.' := beq_iff_eq.mp hj
  refine ⟨⟨c, _, rfl, hc⟩, fun s => ?_⟩
  have hjoin : token ch ([j] ++ (c' :: r') ++ s) = [j] ++ (c' :: r') ++ token ch s := by
    rw [hdot]
    change token ch ('.' :: c' :: (r' ++ s)) = '.' :: (c' :: r' ++ token ch s)
    rw [token_joiner hch rfl hc']
    exact congrArg _ (hrest s)
  rw [List.append_assoc, hword, hjoin]
  simp only [List.append_assoc]

theorem joined_number (hch : Characters.Lexical ch) : Joined ch (.seq (.plus (digit ch)) .empty) := by
  rintro x ⟨w, y, hw, rfl, rfl⟩
  rw [List.append_nil]
  exact joined_plus hch.word_of_digit w hw

theorem joined_version (hch : Characters.Lexical ch) : Joined ch (version ch) := by
  rw [version_eq]
  refine joined_dotted hch hch.word_of_digit (joined_dotted hch hch.word_of_digit ?_)
  rintro x ⟨w, y, hw, ⟨z, e, hz, rfl, rfl⟩, rfl⟩
  obtain ⟨hstart, hword⟩ := joined_plus hch.word_of_digit w hw
  rw [List.append_nil]
  obtain ⟨c, r, rfl, hc⟩ := hstart
  refine ⟨⟨c, r ++ z, rfl, hc⟩, fun s => ?_⟩
  rw [List.append_assoc, List.append_assoc, hword]
  refine congrArg _ ?_
  rcases hz with ⟨d, t, ⟨j, hj, rfl⟩, ht, rfl⟩ | rfl
  · obtain ⟨⟨c', r', rfl, hc'⟩, hrest⟩ := joined_dotted hch (fun _ => id) (joined_number hch) t ht
    have hdash : j = '-' := beq_iff_eq.mp hj
    rw [hdash]
    change token ch ('-' :: c' :: (r' ++ s)) = '-' :: (c' :: r' ++ token ch s)
    rw [token_joiner hch rfl hc']
    exact congrArg _ (hrest s)
  · rfl

/-- What the expression takes first at a place is the token there, if and only if it knows the token's form. -/
theorem first_eq_token_iff (hch : Characters.Lexical ch) {s : List Char} {m : List Char × List Char}
    (hm : ((version ch).splits s).head? = some m) : token ch s = m.1 ↔ (version ch).Matches (token ch s) := by
  obtain ⟨hmatches, hs⟩ := Regex.mem_splits_iff.mp (List.mem_of_mem_head? hm)
  have htoken : token ch s = m.1 ++ token ch m.2 := by
    rw [hs]
    exact (joined_version hch m.1 hmatches).2 m.2
  constructor
  · intro h
    rw [h]
    exact hmatches
  · intro hknown
    obtain ⟨r, hr⟩ : ∃ r, s = token ch s ++ r := token_prefix s
    have hlong := greedy_version hch s m hm (token ch s, r) (Regex.mem_splits_iff.mpr ⟨hknown, hr⟩)
    rw [htoken, List.length_append] at hlong
    have hnil : token ch m.2 = [] := List.length_eq_zero_iff.mp (by omega)
    rw [htoken, hnil, List.append_nil]

end Versions

section Texts
variable {ch : Characters}

/-- A search for a version is a search for the place where one starts. -/
theorem searchBody_eq_place {e : Pattern Char} (he : e.group = version ch) (body : String) :
    searchBody e body = (place e.lead (startsVersion ch) body.toList).bind fun p => versionAt ch p.2 := by
  rw [searchBody, Pattern.search_eq_place, he, Option.map_bind]
  refine congrArg _ (funext fun p => ?_)
  change Option.map String.ofList (Option.map Prod.fst _) = _
  rw [Option.map_map]
  rfl

theorem versionAt_isSome {s : List Char} (h : startsVersion ch s = true) : ∃ v, versionAt ch s = some v := by
  unfold startsVersion at h
  unfold versionAt
  cases hsplits : (version ch).splits s with
  | nil =>
    rw [hsplits] at h
    cases h
  | cons m l => exact ⟨_, rfl⟩

theorem node_eq_place (body : String) :
    (extractVersionsFromCliBody ch body).node = (nodePlace ch body).bind fun p => versionAt ch p.2 :=
  searchBody_eq_place rfl body

theorem findSome_bind {β γ δ : Type*} {f : β → Option γ} {g : γ → Option δ} {h : β → Option δ} {l : List β}
    (hl : ∀ b ∈ l, h b = (f b).bind g) (hg : ∀ b c, f b = some c → ∃ d, g c = some d) :
    l.findSome? h = (l.findSome? f).bind g := by
  induction l with
  | nil => rfl
  | cons b l ih =>
    obtain ⟨hfirst, hrest⟩ := List.forall_mem_cons.mp hl
    rw [List.findSome?_cons, List.findSome?_cons, hfirst]
    cases hb : f b with
    | none => exact ih hrest
    | some c =>
      obtain ⟨d, hd⟩ := hg b c hb
      rw [Option.bind_some, hd]

theorem sdk_eq_place (body : String) :
    (extractVersionsFromCliBody ch body).sdk = (sdkPlace ch body).bind fun p => versionAt ch p.2 := by
  refine findSome_bind (fun e he => ?_) fun e p hp => versionAt_isSome (place_spec hp).2
  have hgroup : e.group = version ch := by
    simp only [sdkPatterns, List.mem_cons, List.not_mem_nil, or_false] at he
    rcases he with rfl | rfl | rfl <;> rfl
  exact searchBody_eq_place hgroup body

/-- At a place where a version starts, the text names what is taken if and only if its form is known. -/
theorem names_iff (hch : Characters.Lexical ch) {body : String} {p : List Char × List Char} {v : String}
    (hbody : body.toList = p.1 ++ p.2) (hv : versionAt ch p.2 = some v) : Names ch body p v ↔ KnownForm ch p := by
  obtain ⟨m, hm, rfl⟩ := Option.map_eq_some_iff.mp hv
  rw [Names, KnownForm, and_iff_right hbody, String.toList_ofList, first_eq_token_iff hch hm]

/-- The versions read at an optional place are those that the text names there, if their form is known. -/
theorem named_at_iff (hch : Characters.Lexical ch) {body : String} {o : Option (List Char × List Char)}
    (ho : ∀ p, o = some p → body.toList = p.1 ++ p.2 ∧ startsVersion ch p.2 = true) :
    (∀ v, (o.bind fun p => versionAt ch p.2) = some v → ∃ p, o = some p ∧ Names ch body p v) ↔
      ∀ p, o = some p → KnownForm ch p := by
  constructor
  · intro h p hp
    obtain ⟨hbody, hstarts⟩ := ho p hp
    obtain ⟨v, hv⟩ := versionAt_isSome hstarts
    obtain ⟨q, hq, hnames⟩ := h v (by rw [hp]; exact hv)
    cases Option.some.inj (hp.symm.trans hq)
    exact (names_iff hch hbody hv).mp hnames
  · intro h v hv
    obtain ⟨p, hp, hv⟩ := Option.bind_eq_some_iff.mp hv
    exact ⟨p, hp, (names_iff hch (ho p hp).1 hv).mpr (h p hp)⟩

/-- A scan uses only the releases that name the node version as the resolver reads it. -/
theorem scan_filter {nodeVer : String} {q : Release → Bool} {rels : List Release}
    (h : ∀ rel ∈ rels, rel.Targets ch nodeVer → q rel = true) (found : Versions) :
    scan ch nodeVer found rels = scan ch nodeVer found (rels.filter q) := by
  induction rels generalizing found with
  | nil => rfl
  | cons rel rels ih =>
    obtain ⟨hrel, hrels⟩ := List.forall_mem_cons.mp h
    by_cases htargets : rel.Targets ch nodeVer
    · rw [List.filter_cons_of_pos (hrel htargets)]
      simp only [scan, if_pos htargets]
      rw [ih hrels]
    · have hskip : scan ch nodeVer found (rel :: rels) = scan ch nodeVer found rels := by
        simp only [scan, if_neg htargets]
      rw [hskip, ih hrels, List.filter_cons]
      split
      next => simp only [scan, if_neg htargets]
      next => rfl

/-- The versions that are taken from the texts of a page are whole, and a scan for a node version uses
only releases whose text names it, if and only if each version taken stands in a form that is known. -/
theorem versions_whole_iff (hch : Characters.Lexical ch) (page : List Release) :
    ((∀ rel ∈ page,
        (∀ v, (extractVersionsFromCliBody ch rel.text).node = some v →
          ∃ p, nodePlace ch rel.text = some p ∧ Names ch rel.text p v) ∧
        ∀ v, (extractVersionsFromCliBody ch rel.text).sdk = some v →
          ∃ p, sdkPlace ch rel.text = some p ∧ Names ch rel.text p v) ∧
      ∀ nodeVer found, scan ch nodeVer found page = scan ch nodeVer found (page.filter (namesNode ch nodeVer))) ↔
    ∀ rel ∈ page, (∀ p, nodePlace ch rel.text = some p → KnownForm ch p) ∧
      ∀ p, sdkPlace ch rel.text = some p → KnownForm ch p := by
  have hnode : ∀ rel : Release, (∀ v, (extractVersionsFromCliBody ch rel.text).node = some v →
      ∃ p, nodePlace ch rel.text = some p ∧ Names ch rel.text p v) ↔
      ∀ p, nodePlace ch rel.text = some p → KnownForm ch p := by
    intro rel
    rw [node_eq_place]
    exact named_at_iff hch fun p hp => place_spec hp
  have hsdk : ∀ rel : Release, (∀ v, (extractVersionsFromCliBody ch rel.text).sdk = some v →
      ∃ p, sdkPlace ch rel.text = some p ∧ Names ch rel.text p v) ↔
      ∀ p, sdkPlace ch rel.text = some p → KnownForm ch p := by
    intro rel
    rw [sdk_eq_place]
    refine named_at_iff hch fun p hp => ?_
    obtain ⟨e, -, he⟩ := List.exists_of_findSome?_eq_some hp
    exact place_spec he
  constructor
  · rintro ⟨hwhole, -⟩ rel hrel
    exact ⟨(hnode rel).mp (hwhole rel hrel).1, (hsdk rel).mp (hwhole rel hrel).2⟩
  · intro hknown
    refine ⟨fun rel hrel => ⟨(hnode rel).mpr (hknown rel hrel).1, (hsdk rel).mpr (hknown rel hrel).2⟩, ?_⟩
    intro nodeVer found
    refine scan_filter (fun rel hrel htargets => ?_) found
    obtain ⟨p, hp, hnames⟩ := (hnode rel).mpr (hknown rel hrel).1 nodeVer htargets
    rw [namesNode, hp, Option.any_some]
    exact decide_eq_true hnames

end Texts

theorem lexical_ascii : Characters.Lexical .ascii where
  word_of_digit := by
    intro c hc
    have hdigit : c.isDigit = true := by
      by_contra h
      simp [digit, Characters.ascii, h] at hc
    simp [Characters.ascii, Char.isAlphanum, hdigit]
  dot := by decide
  dash := by decide

instance (ch : Characters) (p : List Char × List Char) : Decidable (KnownForm ch p) :=
  decidable_of_iff ((token ch p.2, []) ∈ (version ch).splits (token ch p.2) ∧ endsInNumber ch p.1 = false)
    (and_congr_left fun _ => Regex.mem_splits_iff.trans (and_iff_left (List.append_nil _).symm))

theorem alphaRelease_named : "v2.0.0-alpha.35" ≠ "" := by decide

/-- A CLI release whose text names an alpha of the node and of the SDK. -/
def alphaRelease : Release where
  tagName := "v2.0.0-alpha.35"
  body := some "bump rollups-node to v2.0.0-alpha.12, @cartesi/sdk@0.12.0-alpha.40"
  named := alphaRelease_named

theorem candidateRelease_named : "v2.0.0-alpha.36" ≠ "" := by decide

/-- A CLI release whose text names a release candidate of the node. -/
def candidateRelease : Release where
  tagName := "v2.0.0-alpha.36"
  body := some "bump rollups-node to v2.0.0-rc1"
  named := candidateRelease_named

theorem versions_whole_alpha :
    ((∀ rel ∈ [alphaRelease],
        (∀ v, (extractVersionsFromCliBody .ascii rel.text).node = some v →
          ∃ p, nodePlace .ascii rel.text = some p ∧ Names .ascii rel.text p v) ∧
        ∀ v, (extractVersionsFromCliBody .ascii rel.text).sdk = some v →
          ∃ p, sdkPlace .ascii rel.text = some p ∧ Names .ascii rel.text p v) ∧
      ∀ nodeVer found, scan .ascii nodeVer found [alphaRelease] =
        scan .ascii nodeVer found ([alphaRelease].filter (namesNode .ascii nodeVer))) := by
  refine (versions_whole_iff lexical_ascii [alphaRelease]).mpr fun rel hrel => ?_
  have hnode : (nodePlace .ascii alphaRelease.text).all (fun p => decide (KnownForm .ascii p)) = true := by
    decide +kernel
  have hsdk : (sdkPlace .ascii alphaRelease.text).all (fun p => decide (KnownForm .ascii p)) = true := by
    decide +kernel
  rw [List.mem_singleton.mp hrel]
  constructor
  · intro p hp
    rw [hp] at hnode
    exact of_decide_eq_true hnode
  · intro p hp
    rw [hp] at hsdk
    exact of_decide_eq_true hsdk

/-- The text names a release candidate, and the resolver takes it for the release. -/
theorem candidate_taken_for_release :
    candidateRelease.Targets .ascii "2.0.0" ∧ namesNode .ascii "2.0.0" candidateRelease = false ∧
      namesNode .ascii "2.0.0-rc1" candidateRelease = true ∧
      (resolveAllVersions .ascii (some [candidateRelease]) "v2.0.0").cli = some "2.0.0-alpha.36" ∧
      ∀ p, nodePlace .ascii candidateRelease.text = some p → ¬ Names .ascii candidateRelease.text p "2.0.0" := by
  have hnames : namesNode .ascii "2.0.0" candidateRelease = false := by decide +kernel
  refine ⟨by decide +kernel, hnames, by decide +kernel, by decide +kernel, fun p hp hp' => ?_⟩
  rw [namesNode, hp, Option.any_some, decide_eq_true hp'] at hnames
  cases hnames

end ReleaseValidation.Catalog.VersionTokens
