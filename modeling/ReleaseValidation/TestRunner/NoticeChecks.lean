import ReleaseValidation.Foundations.Polls
import ReleaseValidation.TestRunner.NodeReplies

/-! # The notice check

`notice_check` polls the outputs of the application until enough of them count as notices whose
payload contains a text. Outputs count that are marked as notices; where none is marked, those
without a destination count. Whatever a poll raises, the next one is made.
-/
namespace ReleaseValidation.TestRunner.NoticeChecks
open Store Programs Programs.Program Polls

/-- The assertion, and the interpreter's conversions of what it meets. -/
structure Check where
  minCount : ℕ
  containsText : Json
  deadline : ℚ
  /-- `poll_timeout`, as the results show it. -/
  pollTimeout : String
  str : Json → String
  repr : Json → String
  /-- `bytes.fromhex(s.removeprefix("0x")).decode("utf-8", errors="replace")`, if `s` is hexadecimal. -/
  decode : String → Option String

/-- What one turn of the loop meets. -/
structure Poll where
  clock : ℚ
  reply : Except String Json

structure Memory where
  beforeCount : Option ℕ
  lastCount : ℕ

def Memory.see (n : ℕ) (m : Memory) : Memory := ⟨some (m.beforeCount.getD n), n⟩

section Outputs
variable (c : Check)

/-- One of the type fields of the output says that it is a notice. -/
def marked (o : Json) : Except Err Bool := do
  let typename ← o.get "__typename" .null
  let type ← o.get "type" .null
  let shown ← o.get "__typename" (.str "")
  let outputEnum ← o.get "output_enum" .null
  if typename.isText "Notice" || type.isText "Notice" || includes "notice" (lower (c.str shown)) ||
      outputEnum.isText "Notice" then pure true
  else do
    let decoded ← o.get "decoded_data" (.obj [])
    let t ← decoded.get "type" .null
    pure (t.isText "Notice")

def undirected (o : Json) : Except Err Bool := do
  let destination ← o.get "destination" .null
  if destination.truthy then pure false
  else do
    let decoded ← o.get "decoded_data" (.obj [])
    let d ← decoded.get "destination" .null
    pure (!d.truthy)

def payload (o : Json) : Except Err Json := do
  let rawData ← o.get "raw_data" (.str "0x")
  o.get "payload" rawData

def decoded : Json → Option String
  | .str s => c.decode s
  | _ => none

/-- `contains_text in decoded`, where a payload that cannot be decoded contains nothing. -/
def payloadContains (p : Json) : Bool :=
  match decoded c p, c.containsText with
  | some text, .str needle => includes needle text
  | _, _ => false

/-- `_matches`. -/
def containsFilter (o : Json) : Except Err Bool := do
  let p ← payload o
  pure (payloadContains c p)

def noticesIn (items : List Json) : Except Err (List Json) := do
  let notices ← keepIf (marked c) items
  if notices.isEmpty then keepIf undirected items else pure notices

/-- `matching`, from the outputs of a body. -/
def matchingOutputs (items : List Json) : Except Err (List Json) := do
  let notices ← noticesIn c items
  if c.containsText.truthy then keepIf (containsFilter c) notices else pure notices

/-- The outputs of a body without an error. -/
def listedOutputs (body : Json) : Except Err (List Json) := do
  let result ← body.get "result" (.obj [])
  let outputs ← result.get "data" (.arr [])
  outputs.elements

/-- What the result shows of the first matching output. -/
def sample : List Json → Except Err Json
  | [] => .error (.exception "list index out of range")
  | o :: _ => do
    let p ← payload o
    match decoded c p with
    | some text => (Json.str text).upTo 120
    | none => p.upTo 120

end Outputs

section Results
variable (c : Check)

def expected : String := ">= " ++ toString c.minCount ++ " notice(s)"

def found (before after : ℕ) (shown : Json) : Report :=
  .counted "notices" before
    ⟨.str "notice_check", true, some (.json (.str (expected c))),
      some (.json (.str (toString after ++ " matching notice(s)"))),
      some ("Found " ++ toString after ++ " notice(s) (expected >= " ++ toString c.minCount ++ ") | First: " ++ c.str shown)⟩
    after false

def timedOutResult (last : ℕ) : AssertionResult :=
  ⟨.str "notice_check", false,
    some (.json (.str (expected c ++ if c.containsText.truthy then " containing " ++ c.repr c.containsText else ""))),
    some (.json (.str (toString last ++ " matching notices after timeout"))),
    some ("Timed out after " ++ c.pollTimeout ++ "s — last seen: " ++ toString last ++ " (expected >= " ++
      toString c.minCount ++ ")")⟩

def timedOut (m : Memory) : Report :=
  match m.beforeCount with
  | some before => .counted "notices" before (timedOutResult c m.lastCount) m.lastCount false
  | none => .single (timedOutResult c m.lastCount)

/-- The `try` block of one turn: the results, when enough outputs match. -/
def pollOnce (e : Poll) : Program Memory Err (Option Report) := do
  let body ← ofExcept (e.reply.mapError .exception)
  if ← ofExcept (body.has "error") then pure none
  else do
    let items ← ofExcept (listedOutputs body)
    let matching ← ofExcept (matchingOutputs c items)
    write (Memory.see matching.length)
    let before ← read fun m => m.beforeCount.getD 0
    if c.minCount ≤ matching.length then do
      let shown ← ofExcept (sample c matching)
      pure (some (found c before matching.length shown))
    else pure none

/-- `NoticeCheckExecutor.execute`, over the turns of its loop. -/
def execute (polls : List Poll) : Option (Exit Err Report) :=
  (poll (fun e => decide (c.deadline ≤ e.clock)) (attempt (pollOnce c)) (fun m => (.returned (timedOut c m), m))
    ⟨none, 0⟩ polls).map Prod.fst

end Results

/-! ### What a poll counts -/

section Counting
variable (c : Check)

def fits (o : Json) : Bool := !c.containsText.truthy || holds (containsFilter c o)

/-- The marked outputs, or without any those without a destination. -/
def notices (items : List Json) : List Json :=
  if items.any fun o => holds (marked c o) then items.filter fun o => holds (marked c o)
  else items.filter fun o => holds (undirected o)

/-- The outputs that count. -/
def counting (items : List Json) : List Json := (notices c items).filter (fits c)

/-- The executor can read the fields of the outputs. -/
structure Readable (items : List Json) : Prop where
  marked : ∀ o ∈ items, ∃ b, marked c o = .ok b
  undirected : (∀ o ∈ items, holds (NoticeChecks.marked c o) = false) → ∀ o ∈ items, ∃ b, undirected o = .ok b

/-- The poll is answered by a list of outputs that the executor can read. -/
structure Lists (e : Poll) (items : List Json) : Prop where
  answer : ∃ body, e.reply = .ok body ∧ body.has "error" = .ok false ∧ listedOutputs body = .ok items
  readable : Readable c items

/-- The matching outputs of a poll. -/
def tally (e : Poll) : Option (List Json) :=
  match e.reply with
  | .error _ => none
  | .ok body =>
    match body.has "error", listedOutputs body >>= matchingOutputs c with
    | .ok false, .ok matching => some matching
    | _, _ => none

variable {c} {items ms : List Json} {o : Json} {e : Poll}

theorem marked_object {b : Bool} (h : marked c o = .ok b) : ∃ fields, o = .obj fields := by
  cases o with
  | obj fields => exact ⟨fields, rfl⟩
  | _ => cases h

theorem containsFilter_ok (h : ∃ b, marked c o = .ok b) : ∃ b, containsFilter c o = .ok b := by
  obtain ⟨b, hb⟩ := h
  obtain ⟨fields, rfl⟩ := marked_object hb
  exact ⟨payloadContains c _, rfl⟩

theorem mem_of_mem_notices (h : o ∈ notices c items) : o ∈ items := by
  unfold notices at h
  split at h
  next => exact (List.mem_filter.mp h).1
  next => exact (List.mem_filter.mp h).1

theorem noticesIn_ok_iff : noticesIn c items = .ok ms ↔ Readable c items ∧ ms = notices c items := by
  rw [noticesIn, except_bind_ok_iff]
  simp only [keepIf_ok_iff]
  by_cases hany : (items.any fun o => holds (marked c o)) = true
  · obtain ⟨o, ho, hmarked⟩ := List.any_eq_true.mp hany
    have hne : (items.filter fun o => holds (marked c o)).isEmpty = false :=
      List.isEmpty_eq_false_iff.mpr (List.ne_nil_of_mem (List.mem_filter.mpr ⟨ho, hmarked⟩))
    rw [notices, if_pos hany]
    constructor
    · rintro ⟨_, ⟨hall, rfl⟩, h⟩
      rw [hne] at h
      cases h
      refine ⟨⟨hall, fun hnone => absurd hmarked ?_⟩, rfl⟩
      rw [hnone o ho]
      exact Bool.false_ne_true
    · rintro ⟨hread, rfl⟩
      refine ⟨_, ⟨hread.marked, rfl⟩, ?_⟩
      rw [hne]
      rfl
  · have hnone : ∀ o ∈ items, holds (marked c o) = false := by simpa using hany
    have hnil : (items.filter fun o => holds (marked c o)) = [] :=
      List.filter_eq_nil_iff.mpr fun o ho => by rw [hnone o ho]; exact Bool.false_ne_true
    rw [notices, if_neg hany, hnil]
    constructor
    · rintro ⟨_, ⟨hall, rfl⟩, h⟩
      obtain ⟨hundirected, rfl⟩ := keepIf_ok_iff.mp h
      exact ⟨⟨hall, fun _ => hundirected⟩, rfl⟩
    · rintro ⟨hread, rfl⟩
      exact ⟨[], ⟨hread.marked, rfl⟩, keepIf_ok_iff.mpr ⟨hread.undirected hnone, rfl⟩⟩

theorem matchingOutputs_ok_iff : matchingOutputs c items = .ok ms ↔ Readable c items ∧ ms = counting c items := by
  rw [matchingOutputs, except_bind_ok_iff]
  simp only [noticesIn_ok_iff]
  cases hfilter : c.containsText.truthy with
  | false =>
    have hfits : (notices c items).filter (fits c) = notices c items :=
      List.filter_eq_self.mpr fun o _ => by rw [fits, hfilter]; rfl
    rw [counting, hfits]
    constructor
    · rintro ⟨_, ⟨hread, rfl⟩, h⟩
      cases h
      exact ⟨hread, rfl⟩
    · rintro ⟨hread, rfl⟩
      exact ⟨_, ⟨hread, rfl⟩, rfl⟩
  | true =>
    have hfits : fits c = fun o => holds (containsFilter c o) := by
      funext o
      rw [fits, hfilter]
      rfl
    rw [counting, hfits]
    constructor
    · rintro ⟨_, ⟨hread, rfl⟩, h⟩
      exact ⟨hread, (keepIf_ok_iff.mp h).2⟩
    · rintro ⟨hread, rfl⟩
      refine ⟨_, ⟨hread, rfl⟩, keepIf_ok_iff.mpr ⟨fun o ho => ?_, rfl⟩⟩
      exact containsFilter_ok (hread.marked o (mem_of_mem_notices ho))

theorem tally_eq_some_iff : tally c e = some ms ↔ ∃ items, Lists c e items ∧ ms = counting c items := by
  unfold tally
  split
  next text hreply =>
    refine iff_of_false (by rintro ⟨⟩) ?_
    rintro ⟨items, ⟨⟨body, hbody, -⟩, -⟩, -⟩
    rw [hreply] at hbody
    cases hbody
  next body hreply =>
    split
    next matching herror hmatching =>
      obtain ⟨items, hitems, hmatching⟩ := except_bind_ok hmatching
      obtain ⟨hread, rfl⟩ := matchingOutputs_ok_iff.mp hmatching
      constructor
      · rintro ⟨⟩
        exact ⟨items, ⟨⟨body, hreply, herror, hitems⟩, hread⟩, rfl⟩
      · rintro ⟨items', ⟨⟨body', hreply', -, hitems'⟩, -⟩, rfl⟩
        rw [hreply] at hreply'
        cases hreply'
        rw [hitems] at hitems'
        cases hitems'
        rfl
    next hno =>
      refine iff_of_false (by rintro ⟨⟩) ?_
      rintro ⟨items, ⟨⟨body', hreply', herror, hitems⟩, hread⟩, rfl⟩
      rw [hreply] at hreply'
      cases hreply'
      refine hno (counting c items) herror ?_
      exact except_bind_ok_iff.mpr ⟨items, hitems, matchingOutputs_ok_iff.mpr ⟨hread, rfl⟩⟩

end Counting

/-! ### One turn -/

section Turns
variable (c : Check)

theorem uncancelled_marked (o : Json) : Uncancelled (marked c o) := by
  refine (uncancelled_get _ _ _).bind fun typename => (uncancelled_get _ _ _).bind fun type =>
    (uncancelled_get _ _ _).bind fun shown => (uncancelled_get _ _ _).bind fun outputEnum => ?_
  split
  next => exact uncancelled_ok true
  next =>
    exact (uncancelled_get _ _ _).bind fun decoded => (uncancelled_get _ _ _).bind fun t => uncancelled_ok _

theorem uncancelled_undirected (o : Json) : Uncancelled (undirected o) := by
  refine (uncancelled_get _ _ _).bind fun destination => ?_
  split
  next => exact uncancelled_ok false
  next => exact (uncancelled_get _ _ _).bind fun decoded => (uncancelled_get _ _ _).bind fun d => uncancelled_ok _

theorem uncancelled_payload (o : Json) : Uncancelled (payload o) :=
  (uncancelled_get _ _ _).bind fun _ => uncancelled_get _ _ _

theorem uncancelled_containsFilter (o : Json) : Uncancelled (containsFilter c o) :=
  (uncancelled_payload o).bind fun _ => uncancelled_ok _

theorem uncancelled_matchingOutputs (items : List Json) : Uncancelled (matchingOutputs c items) := by
  refine Uncancelled.bind ?_ fun notices => ?_
  · refine (uncancelled_keepIf (uncancelled_marked c) items).bind fun notices => ?_
    split
    next => exact uncancelled_keepIf uncancelled_undirected items
    next => exact uncancelled_ok notices
  · split
    next => exact uncancelled_keepIf (uncancelled_containsFilter c) notices
    next => exact uncancelled_ok notices

theorem uncancelled_listedOutputs (body : Json) : Uncancelled (listedOutputs body) :=
  (uncancelled_get _ _ _).bind fun _ => (uncancelled_get _ _ _).bind fun outputs => uncancelled_elements outputs

theorem uncancelled_sample (ms : List Json) : Uncancelled (sample c ms) := by
  cases ms with
  | nil => exact uncancelled_exception _
  | cons o ms =>
    refine (uncancelled_payload o).bind fun p => ?_
    split
    next => exact uncancelled_upTo _ _
    next => exact uncancelled_upTo _ _

variable {c} {e : Poll} {m : Memory} {ms : List Json}

/-- A poll that reads no outputs leaves the counts alone. -/
theorem attempt_unread (h : tally c e = none) : attempt (pollOnce c) m e = .again m := by
  refine attempt_again_iff.mpr ?_
  unfold pollOnce
  unfold tally at h
  cases hreply : e.reply with
  | error text => exact Or.inr ⟨text, rfl⟩
  | ok body =>
    simp only [hreply] at h
    rw [Except.mapError, bind_returned (ofExcept_ok _ _)]
    cases herror : body.has "error" with
    | error err =>
      obtain ⟨text, rfl⟩ := (uncancelled_has "error" body).exception herror
      exact Or.inr ⟨text, rfl⟩
    | ok failed =>
      rw [bind_returned (ofExcept_ok _ _)]
      cases failed with
      | true => exact Or.inl rfl
      | false =>
        rw [if_neg Bool.false_ne_true]
        rw [herror] at h
        cases hitems : listedOutputs body with
        | error err =>
          obtain ⟨text, rfl⟩ := (uncancelled_listedOutputs body).exception hitems
          exact Or.inr ⟨text, rfl⟩
        | ok items =>
          rw [bind_returned (ofExcept_ok _ _)]
          cases hmatching : matchingOutputs c items with
          | error err =>
            obtain ⟨text, rfl⟩ := (uncancelled_matchingOutputs c items).exception hmatching
            exact Or.inr ⟨text, rfl⟩
          | ok ms =>
            have hms : (listedOutputs body >>= matchingOutputs c) = .ok ms := by rw [hitems]; exact hmatching
            rw [hms] at h
            cases h

theorem pollOnce_read (h : tally c e = some ms) : pollOnce c e m =
    (if c.minCount ≤ ms.length then do
      let shown ← ofExcept (sample c ms)
      pure (some (found c (m.beforeCount.getD ms.length) ms.length shown))
    else pure none : Program Memory Err (Option Report)) (m.see ms.length) := by
  obtain ⟨items, ⟨⟨body, hreply, herror, hitems⟩, hread⟩, rfl⟩ := tally_eq_some_iff.mp h
  have hmatching := matchingOutputs_ok_iff.mpr ⟨hread, rfl⟩
  unfold pollOnce
  rw [hreply, Except.mapError, bind_returned (ofExcept_ok _ _), herror, bind_returned (ofExcept_ok _ _),
    if_neg Bool.false_ne_true, hitems, bind_returned (ofExcept_ok _ _), hmatching, bind_returned (ofExcept_ok _ _),
    bind_returned (write_apply _ _), bind_returned (read_apply _ _)]
  rfl

/-- The poll counts enough outputs and can show the first. -/
def accepts (c : Check) (e : Poll) : Bool :=
  match tally c e with
  | some ms => decide (c.minCount ≤ ms.length) && (sample c ms).isOk
  | none => false

theorem attempt_accepts (h : accepts c e = true) : ∃ ms shown, tally c e = some ms ∧ c.minCount ≤ ms.length ∧
    ∀ m, attempt (pollOnce c) m e =
      .leave (.returned (found c (m.beforeCount.getD ms.length) ms.length shown), m.see ms.length) := by
  unfold accepts at h
  split at h
  next ms htally =>
    obtain ⟨hle, hok⟩ := Bool.and_eq_true_iff.mp h
    have hle := of_decide_eq_true hle
    cases hsample : sample c ms with
    | error err =>
      rw [hsample] at hok
      cases hok
    | ok shown =>
      refine ⟨ms, shown, htally, hle, fun m => attempt_leave_iff.mpr ?_⟩
      rw [pollOnce_read htally, if_pos hle, hsample]
      rfl
  next => cases h

theorem attempt_refuses (h : accepts c e = false) (m : Memory) :
    attempt (pollOnce c) m e = .again (match tally c e with | some ms => m.see ms.length | none => m) := by
  cases htally : tally c e with
  | none => exact attempt_unread htally
  | some ms =>
    rw [accepts, htally] at h
    refine attempt_again_iff.mpr ?_
    rw [pollOnce_read htally]
    by_cases hle : c.minCount ≤ ms.length
    · cases hsample : sample c ms with
      | ok shown => simp [hle, hsample, Except.isOk, Except.toBool] at h
      | error err =>
        obtain ⟨text, rfl⟩ := (uncancelled_sample c ms).exception hsample
        rw [if_pos hle]
        exact Or.inr ⟨text, rfl⟩
    · rw [if_neg hle]
      exact Or.inl rfl

end Turns

/-! ### The verdict -/

section Verdict
variable (c : Check) (polls : List Poll)

/-- The polls that the check makes. -/
def made : List Poll := Polls.made (fun e => decide (c.deadline ≤ e.clock)) (accepts c) polls

def counted (e : Poll) : Option ℕ := (tally c e).map List.length

/-- A poll that counts enough outputs can show the first: there is one, and its payload is a text or a list. -/
def Showable (e : Poll) : Prop :=
  ∀ items, Lists c e items → c.minCount ≤ (counting c items).length → (sample c (counting c items)).isOk = true

variable {c polls} {e : Poll} {m : Memory}

theorem accepts_of_lists (hshow : Showable c e) {items : List Json} (hlists : Lists c e items)
    (hle : c.minCount ≤ (counting c items).length) : accepts c e = true := by
  rw [accepts, tally_eq_some_iff.mpr ⟨items, hlists, rfl⟩]
  exact Bool.and_eq_true_iff.mpr ⟨decide_eq_true hle, hshow items hlists hle⟩

/-- The count before is that of the first poll that reads a list. -/
theorem rounds_beforeCount {late : Poll → Bool}
    (h : rounds late (attempt (pollOnce c)) ⟨none, 0⟩ polls = some m) :
    m.beforeCount = polls.findSome? (counted c) := by
  refine rounds_induction (I := fun es m => m.beforeCount = es.findSome? (counted c)) rfl ?_ h
  intro pre t e u hbefore _ hround
  have hrefused : accepts c e = false := by
    refine Bool.eq_false_iff.mpr fun haccepts => ?_
    obtain ⟨ms, shown, -, -, hleave⟩ := attempt_accepts haccepts
    cases (hleave t).symm.trans hround
  have hu := Round.again.inj ((attempt_refuses hrefused t).symm.trans hround)
  rw [← hu, List.findSome?_append, List.findSome?_singleton, ← hbefore, counted]
  cases tally c e with
  | none => exact (Option.or_none).symm
  | some ms =>
    cases ht : t.beforeCount with
    | none => simp [Memory.see, ht]
    | some n => simp [Memory.see, ht]

theorem all_passed_iff {r : Report} (hrun : execute c polls = some (.returned r))
    (hshow : ∀ e ∈ made c polls, Showable c e) :
    r.passed = true ↔ ∃ e ∈ made c polls, ∃ items, Lists c e items ∧ c.minCount ≤ (counting c items).length ∧
      ∀ n ∈ (made c polls).findSome? (counted c), n ≤ (counting c items).length := by
  obtain ⟨⟨x, m⟩, hpoll, hx⟩ := Option.map_eq_some_iff.mp hrun
  have hleave : ∀ m e, accepts c e = true → ∃ a, attempt (pollOnce c) m e = .leave a := by
    intro m e haccepts
    obtain ⟨ms, shown, -, -, hround⟩ := attempt_accepts haccepts
    exact ⟨_, hround m⟩
  have hagain : ∀ m e, accepts c e = false → ∃ u, attempt (pollOnce c) m e = .again u :=
    fun m e hrefused => ⟨_, attempt_refuses hrefused m⟩
  rcases (poll_eq_some_iff_made hleave hagain).mp hpoll with
    ⟨pre, e, t, hmade, -, haccepts, hrounds, hround⟩ | ⟨t, hnone, -, -, hend⟩
  · -- The last poll made is accepted, and decides by its count and the first one.
    obtain ⟨ms, shown, htally, hle, hattempt⟩ := attempt_accepts haccepts
    obtain ⟨items, hlists, rfl⟩ := tally_eq_some_iff.mp htally
    have hmem : e ∈ made c polls := by
      rw [made, hmade]
      exact List.mem_append_right _ (List.mem_singleton.mpr rfl)
    have hfirst : (made c polls).findSome? (counted c) =
        some (t.beforeCount.getD (counting c items).length) := by
      rw [made, hmade, List.findSome?_append, List.findSome?_singleton, ← rounds_beforeCount hrounds, counted, htally]
      cases t.beforeCount <;> rfl
    have hr : r = found c (t.beforeCount.getD (counting c items).length) (counting c items).length shown := by
      have hret := (Round.leave.inj ((hattempt t).symm.trans hround))
      rw [← hret] at hx
      exact (Exit.returned.inj hx).symm
    rw [hr, found, Report.passed_lenient, hfirst]
    constructor
    · rintro ⟨-, hcount⟩
      refine ⟨e, hmem, items, hlists, hle, ?_⟩
      rintro n ⟨⟩
      exact Int.ofNat_le.mp hcount
    · rintro ⟨d, hd, items', hlists', hle', hmore⟩
      obtain rfl := leaving_unique hd hmem (accepts_of_lists (hshow d hd) hlists' hle') haccepts
      have hsame : counting c items' = counting c items := by
        have htally' := tally_eq_some_iff.mpr ⟨items', hlists', rfl⟩
        exact Option.some.inj (htally'.symm.trans htally)
      have hcount := hmore _ rfl
      rw [hsame] at hcount
      exact ⟨rfl, Int.ofNat_le.mpr hcount⟩
  · -- No poll is accepted, and the polling times out.
    have hr : r.passed = false := by
      cases hend
      obtain rfl := Exit.returned.inj hx
      unfold timedOut
      split <;> rfl
    rw [hr]
    refine iff_of_false Bool.false_ne_true ?_
    rintro ⟨d, hd, items, hlists, hle, -⟩
    have haccepts := accepts_of_lists (hshow d hd) hlists hle
    rw [hnone d hd] at haccepts
    cases haccepts

end Verdict

/-! ### Marked and unmarked outputs -/

/-- The poll returns enough outputs that are marked as notices and fit. -/
def Meets (c : Check) (e : Poll) : Prop :=
  ∃ body items, e.reply = .ok body ∧ body.has "error" = .ok false ∧ listedOutputs body = .ok items ∧
    c.minCount ≤ (items.filter fun o => holds (marked c o) && fits c o).length

def sampleCheck : Check where
  minCount := 1
  containsText := .str ""
  deadline := 60
  pollTimeout := "60.0"
  str j := match j with
    | .str s => s
    | _ => ""
  repr _ := ""
  decode s := if s = "0x48" then some "H" else none

def samplePoll (o : Json) : Poll := ⟨0, .ok (.obj [("result", .obj [("data", .arr [o])])])⟩

def noticeOutput : Json := .obj [("type", .str "Notice"), ("payload", .str "0x48")]

def plainOutput : Json := .obj [("index", .str "0x0"), ("payload", .str "0x48")]

theorem samplePoll_lists {o : Json} {items : List Json} (h : Lists sampleCheck (samplePoll o) items) : items = [o] := by
  obtain ⟨⟨body, hreply, -, hitems⟩, -⟩ := h
  cases hreply
  cases hitems
  rfl

theorem notice_decides : (found sampleCheck 1 1 (.str "H")).passed = true ↔
    ∃ e ∈ made sampleCheck [samplePoll noticeOutput], ∃ items, Lists sampleCheck e items ∧
      sampleCheck.minCount ≤ (counting sampleCheck items).length ∧
      ∀ n ∈ (made sampleCheck [samplePoll noticeOutput]).findSome? (counted sampleCheck),
        n ≤ (counting sampleCheck items).length := by
  have hrun : execute sampleCheck [samplePoll noticeOutput] = some (.returned (found sampleCheck 1 1 (.str "H"))) := by
    with_unfolding_all rfl
  refine all_passed_iff hrun fun e he items hlists _ => ?_
  obtain rfl := List.mem_singleton.mp (mem_of_mem_made he).1
  rw [samplePoll_lists hlists]
  with_unfolding_all rfl

/-- An output without a mark and without a destination counts as a notice. -/
theorem unmarked_output_passes : ∃ c polls r, execute c polls = some (.returned r) ∧
    ¬ (r.passed = true ↔ ∃ e ∈ made c polls, Meets c e) := by
  refine ⟨sampleCheck, [samplePoll plainOutput], found sampleCheck 1 1 (.str "H"), by with_unfolding_all rfl,
    fun hiff => ?_⟩
  obtain ⟨e, he, body, items, hreply, -, hitems, hle⟩ := hiff.mp rfl
  obtain rfl := List.mem_singleton.mp (mem_of_mem_made he).1
  cases hreply
  cases hitems
  have hnone : ([plainOutput].filter fun o => holds (marked sampleCheck o) && fits sampleCheck o) = [] := by
    with_unfolding_all rfl
  rw [hnone] at hle
  exact absurd hle (by decide)

end ReleaseValidation.TestRunner.NoticeChecks
