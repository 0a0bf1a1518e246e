import ReleaseValidation.Foundations.Fences
import ReleaseValidation.Foundations.Resumption
import ReleaseValidation.Foundations.Runs

/-! # Streaming the log of a container

A thread reads the log of a container as a stream and appends each line to the buffer. When the
stream ends, for whatever reason, it opens another one, from two seconds before the time at
which it has read its last line. Times are in milliseconds, on the one clock of the host that
stamps the lines and is read by the thread.
-/
namespace ReleaseValidation.SandboxManager.LogStreams
open Fences Resumption Runs

abbrev Text := List Char

/-- A line of the log, decoded. -/
structure Record where
  ts : ℕ
  text : Text
  deriving DecidableEq, Repr

/-- `rstrip()`. -/
def rstrip (t : Text) : Text := (t.reverse.dropWhile white).reverse

def Record.line (r : Record) : Text := rstrip r.text

section Levels
-- `word` tells the characters that `\w` matches
variable (word : Char → Bool)

/-- `\b(…)\b` finds one of the words, each of which has only word characters. -/
def finds (words : List String) (t : Text) : Bool :=
  (t.splitOnP fun c => !word c).any fun w => w ∈ words.map String.toList

/-- `_classify_level`. -/
def classifyLevel (t : Text) : String :=
  if finds word ["ERROR", "CRITICAL", "FATAL", "error", "critical", "fatal"] t then "error"
  else if finds word ["WARN", "WARNING", "warn", "warning"] t then "warn"
  else if finds word ["DEBUG", "TRACE", "debug", "trace"] t then "debug"
  else "info"

end Levels

/-- What the thread does next. -/
inductive Phase
  /-- It looks at the stop event. -/
  | top
  /-- It asks Docker for the container and its log. -/
  | connecting
  /-- The stream goes on at position `k` of the log. -/
  | reading (k : ℕ)
  /-- It waits after an exception. -/
  | waiting
  | done
  deriving DecidableEq, Repr

/-- A call of `log_buffer.append` for the line at `position`. -/
structure Call where
  position : ℕ
  component : String
  level : String
  message : Text
  deriving DecidableEq, Repr

structure State where
  now : ℕ
  log : List Record
  running : Bool
  removed : Bool
  stopped : Bool
  since : Option ℕ
  phase : Phase
  /-- The length of the log up to the last line that has been read. -/
  seen : ℕ
  calls : List Call
  /-- The length of the log when the stop event was set. -/
  stopAt : ℕ
  /-- A stream has failed or the container has been restarted. -/
  disturbed : Bool

def initial (now : ℕ) : State := ⟨now, [], true, false, false, none, .top, 0, [], 0, false⟩

inductive Act
  | tick (d : ℕ)
  | emit (text : Text)
  | exit
  | restart
  | remove
  | setStop
  | enter
  | leave
  | connect
  /-- `docker.errors.NotFound`. -/
  | gone
  /-- Any other exception before there is a stream. -/
  | refused
  | read
  /-- The stream ends. -/
  | close
  /-- The stream raises. -/
  | error
  | wake
  deriving DecidableEq, Repr

namespace State

def cursor (s : State) : Option ℕ :=
  match s.phase with
  | .reading k => some k
  | _ => none

/-- The position of the first line that a new stream sends. -/
def start (s : State) : ℕ :=
  match s.since with
  | some t => (s.log.takeWhile fun r => r.ts < t - 2000).length
  | none => 0

/-- There is a line at the position, and it is not blank. -/
def HasText (s : State) (i : ℕ) : Prop := ∃ r, s.log[i]? = some r ∧ r.line ≠ []

def got (s : State) : List ℕ := s.calls.map Call.position

end State

variable (word : Char → Bool) (component : String)

/-- The body of the loop over the stream. -/
def received (s : State) (k : ℕ) (r : Record) : State :=
  { s with
    since := some s.now
    phase := .reading (k + 1)
    seen := max s.seen (k + 1)
    calls := if r.line = [] then s.calls
      else s.calls ++ [⟨k, component, classifyLevel word r.line, r.line.take 2000⟩] }

def step (s : State) : Act → Option State
  | .tick d => some { s with now := s.now + d }
  | .emit text => if s.running then some { s with log := s.log ++ [⟨s.now, text⟩] } else none
  | .exit => if s.running then some { s with running := false } else none
  | .restart =>
    if s.running || s.removed then none else some { s with running := true, disturbed := true }
  | .remove => some { s with running := false, removed := true }
  | .setStop => some { s with stopped := true, stopAt := if s.stopped then s.stopAt else s.log.length }
  | .enter => if s.phase = .top ∧ s.stopped = false then some { s with phase := .connecting } else none
  | .leave => if s.phase = .top ∧ s.stopped = true then some { s with phase := .done } else none
  | .connect => if s.phase = .connecting ∧ s.removed = false then some { s with phase := .reading s.start } else none
  | .gone => if s.phase = .connecting ∧ s.removed = true then some { s with phase := .done } else none
  | .refused => if s.phase = .connecting then some { s with phase := if s.stopped then .done else .waiting } else none
  | .read =>
    match s.phase with
    | .reading k => (s.log[k]?).map fun r => if s.stopped then { s with phase := .top } else received word component s k r
    | _ => none
  | .close =>
    match s.phase with
    | .reading k => if s.running = false ∧ (s.removed = true ∨ s.log.length ≤ k) then some { s with phase := .top } else none
    | _ => none
  | .error =>
    match s.phase with
    | .reading _ => some { s with phase := if s.stopped then .done else .waiting, disturbed := true }
    | _ => none
  | .wake => if s.phase = .waiting then some { s with phase := .top } else none

/-- A new stream leaves no line out that has not been read; unless something has been
disturbed, it brings none that has; and the stop event is set when nothing is left to read. -/
def Careful (s : State) : Act → Prop
  | .connect => (∀ i, s.seen ≤ i → i < s.start → ¬ s.HasText i) ∧
      (s.disturbed = false → ∀ i, s.start ≤ i → i < s.seen → ¬ s.HasText i)
  | .setStop => s.stopped = false → ∀ i, s.seen ≤ i → ¬ s.HasText i
  | _ => True

instance (s : State) (i : ℕ) : Decidable (s.HasText i) :=
  decidable_of_iff (∃ r ∈ s.log[i]?, r.line ≠ []) Iff.rfl

instance (s : State) : (a : Act) → Decidable (Careful s a)
  | .connect => inferInstanceAs (Decidable (_ ∧ _))
  | .setStop => decidable_of_iff (s.stopped = false → ∀ i, s.seen ≤ i → i < s.log.length → ¬ s.HasText i)
      ⟨fun h hs i hi hw => h hs i hi (List.getElem?_eq_some_iff.mp hw.choose_spec.1).1 hw, fun h hs i hi _ => h hs i hi⟩
  | .tick _ | .emit _ | .exit | .restart | .remove | .enter | .leave | .gone | .refused | .read | .close | .error | .wake =>
    isTrue trivial

/-- The lines with text emitted before the stop have been appended, none of them twice unless
something has been disturbed, and what has been appended are lines of the log. -/
structure Covered (s : State) : Prop where
  atLeastOnce : s.stopped = true → ∀ i, i < s.stopAt → s.HasText i → i ∈ s.got
  atMostOnce : s.disturbed = false → s.got.Nodup
  ofLog : ∀ c ∈ s.calls, ∃ r, s.log[c.position]? = some r ∧
    c = ⟨c.position, component, classifyLevel word r.line, r.line.take 2000⟩

/-- What the careful steps keep. -/
structure Following (s : State) : Prop extends Covered word component s where
  complete : Complete s.HasText s.seen s.got s.cursor
  once : s.disturbed = false → Once s.HasText s.seen s.got s.cursor
  cursor_le : ∀ k, s.cursor = some k → k ≤ s.log.length
  seen_le : s.seen ≤ s.log.length
  stopAt_le : s.stopped = true → s.stopAt ≤ s.log.length

section Steps
variable {word component} {s t : State} {a : Act}

theorem start_le (s : State) : s.start ≤ s.log.length := by
  unfold State.start
  split
  next => exact (List.takeWhile_prefix _).length_le
  next => exact Nat.zero_le _

theorem hasText_append (r : Record) {i : ℕ} (hi : i < s.log.length) :
    State.HasText { s with log := s.log ++ [r] } i ↔ s.HasText i := by
  simp only [State.HasText, List.getElem?_append_left hi]

theorem length_le_append (r : Record) : s.log.length ≤ (s.log ++ [r]).length := by
  rw [List.length_append]
  exact Nat.le_add_right _ _

theorem following_initial (now : ℕ) : Following word component (initial now) where
  atLeastOnce := nofun
  atMostOnce _ := List.nodup_nil
  ofLog := nofun
  complete := complete_nil
  once _ := once_nil
  cursor_le := nofun
  seen_le := le_rfl
  stopAt_le := nofun

theorem cursor_park {p : Phase} (hp : ∀ k, p ≠ .reading k) : State.cursor { s with phase := p } = none := by
  unfold State.cursor
  split
  next k hk => exact absurd hk (hp k)
  next => rfl

/-- Without a stream the thread has nothing to follow. -/
theorem Following.park (h : Following word component s) {p : Phase} (hp : ∀ k, p ≠ .reading k) :
    Following word component { s with phase := p } where
  atLeastOnce := h.atLeastOnce
  atMostOnce := h.atMostOnce
  ofLog := h.ofLog
  complete := by
    rw [cursor_park hp]
    exact h.complete.stop
  once hd := by
    rw [cursor_park hp]
    exact (h.once hd).stop
  cursor_le k hk := by cases (cursor_park hp).symm.trans hk
  seen_le := h.seen_le
  stopAt_le := h.stopAt_le

theorem Following.emit (h : Following word component s) (r : Record) :
    Following word component { s with log := s.log ++ [r] } where
  atLeastOnce hstop i hi hw := by
    have hbefore := h.stopAt_le hstop
    exact h.atLeastOnce hstop i hi ((hasText_append r (hi.trans_le hbefore)).mp hw)
  atMostOnce := h.atMostOnce
  ofLog c hc := by
    obtain ⟨r', hr', hcall⟩ := h.ofLog c hc
    have hlt : c.position < s.log.length := (List.getElem?_eq_some_iff.mp hr').1
    exact ⟨r', by rw [List.getElem?_append_left hlt]; exact hr', hcall⟩
  complete := h.complete.congr (fun _ hi => hasText_append r hi) h.seen_le h.cursor_le
  once hd := (h.once hd).congr (fun _ hi => hasText_append r hi) h.seen_le
  cursor_le k hk := (h.cursor_le k hk).trans (length_le_append r)
  seen_le := h.seen_le.trans (length_le_append r)
  stopAt_le hstop := (h.stopAt_le hstop).trans (length_le_append r)

/-- A disturbance leaves nothing to claim about lines that come twice. -/
theorem Following.disturb (h : Following word component s) (running : Bool) :
    Following word component { s with running := running, disturbed := true } where
  atLeastOnce := h.atLeastOnce
  atMostOnce := nofun
  ofLog := h.ofLog
  complete := h.complete
  once := nofun
  cursor_le := h.cursor_le
  seen_le := h.seen_le
  stopAt_le := h.stopAt_le

theorem Following.setStop (h : Following word component s) (hcare : Careful s .setStop) :
    Following word component
      { s with stopped := true, stopAt := if s.stopped then s.stopAt else s.log.length } where
  atLeastOnce _ i hi hw := by
    cases hstopped : s.stopped with
    | true =>
      simp only [hstopped, if_true] at hi
      exact h.atLeastOnce hstopped i hi hw
    | false =>
      refine h.complete.kept i ?_ hw
      by_contra hseen
      exact hcare hstopped i (by omega) hw
  atMostOnce := h.atMostOnce
  ofLog := h.ofLog
  complete := h.complete
  once := h.once
  cursor_le := h.cursor_le
  seen_le := h.seen_le
  stopAt_le _ := by
    dsimp only
    split
    next hstopped => exact h.stopAt_le hstopped
    next => exact le_rfl

theorem Following.connect (h : Following word component s) (hcare : Careful s .connect) :
    Following word component { s with phase := .reading s.start } where
  atLeastOnce := h.atLeastOnce
  atMostOnce := h.atMostOnce
  ofLog := h.ofLog
  complete := h.complete.start hcare.1
  once hd := (h.once hd).start (hcare.2 hd)
  cursor_le := by
    rintro _ ⟨⟩
    exact start_le s
  seen_le := h.seen_le
  stopAt_le := h.stopAt_le

theorem cursor_reading {k : ℕ} (hk : s.phase = .reading k) : s.cursor = some k := by
  rw [State.cursor, hk]

/-- The call for a line follows those before it, unless the line is blank. -/
theorem got_received (k : ℕ) (r : Record) :
    (received word component s k r).got = if r.line = [] then s.got else s.got ++ [k] := by
  unfold State.got received
  split
  next => rfl
  next => rw [List.map_append, List.map_singleton]

theorem mem_calls_received {k : ℕ} {r : Record} {c : Call} (hc : c ∈ (received word component s k r).calls) :
    c ∈ s.calls ∨ c = ⟨k, component, classifyLevel word r.line, r.line.take 2000⟩ := by
  unfold received at hc
  dsimp only at hc
  split at hc
  next => exact .inl hc
  next => exact (List.mem_append.mp hc).imp_right List.mem_singleton.mp

theorem Following.read (h : Following word component s) {k : ℕ} {r : Record} (hk : s.phase = .reading k)
    (hr : s.log[k]? = some r) (hstop : s.stopped = false) :
    Following word component (received word component s k r) := by
  have hlt : k < s.log.length := (List.getElem?_eq_some_iff.mp hr).1
  have hcomplete : Complete s.HasText (max s.seen (k + 1)) (received word component s k r).got (some (k + 1)) := by
    have hold := cursor_reading hk ▸ h.complete
    rw [got_received]
    refine hold.read (fun i hi => ?_) fun ⟨r', hr', hline⟩ => ?_
    · split
      next => exact hi
      next => exact List.mem_append_left _ hi
    · cases hr.symm.trans hr'
      rw [if_neg hline]
      exact List.mem_append_right _ List.mem_cons_self
  have honce : s.disturbed = false →
      Once s.HasText (max s.seen (k + 1)) (received word component s k r).got (some (k + 1)) := by
    intro hd
    have hold := cursor_reading hk ▸ h.once hd
    rw [got_received]
    split
    next => exact hold.skip
    next hline => exact hold.read ⟨r, hr, hline⟩
  exact
    { atLeastOnce := fun hstopped => by cases hstop.symm.trans hstopped
      atMostOnce := fun hd => (honce hd).nodup
      ofLog := fun c hc => by
        obtain hc | rfl := mem_calls_received hc
        · exact h.ofLog c hc
        · exact ⟨r, hr, rfl⟩
      complete := hcomplete
      once := honce
      cursor_le := by
        rintro _ ⟨⟩
        exact hlt
      seen_le := max_le h.seen_le hlt
      stopAt_le := h.stopAt_le }

theorem parked (stopped : Bool) (k : ℕ) : (if stopped then Phase.done else .waiting) ≠ .reading k := by
  cases stopped <;> exact nofun

theorem step_following (h : Following word component s) (ht : step word component s a = some t) (hcare : Careful s a) :
    Following word component t := by
  cases a with
  | tick d =>
    cases ht
    exact ⟨⟨h.atLeastOnce, h.atMostOnce, h.ofLog⟩, h.complete, h.once, h.cursor_le, h.seen_le, h.stopAt_le⟩
  | emit text =>
    obtain ⟨-, ht⟩ := Option.ite_none_right_eq_some.mp ht
    cases ht
    exact h.emit _
  | exit =>
    obtain ⟨-, ht⟩ := Option.ite_none_right_eq_some.mp ht
    cases ht
    exact ⟨⟨h.atLeastOnce, h.atMostOnce, h.ofLog⟩, h.complete, h.once, h.cursor_le, h.seen_le, h.stopAt_le⟩
  | restart =>
    obtain ⟨-, ht⟩ := Option.ite_none_left_eq_some.mp ht
    cases ht
    exact h.disturb true
  | remove =>
    cases ht
    exact ⟨⟨h.atLeastOnce, h.atMostOnce, h.ofLog⟩, h.complete, h.once, h.cursor_le, h.seen_le, h.stopAt_le⟩
  | setStop =>
    cases ht
    exact h.setStop hcare
  | enter =>
    obtain ⟨-, ht⟩ := Option.ite_none_right_eq_some.mp ht
    cases ht
    exact h.park nofun
  | leave =>
    obtain ⟨-, ht⟩ := Option.ite_none_right_eq_some.mp ht
    cases ht
    exact h.park nofun
  | connect =>
    obtain ⟨-, ht⟩ := Option.ite_none_right_eq_some.mp ht
    cases ht
    exact h.connect hcare
  | gone =>
    obtain ⟨-, ht⟩ := Option.ite_none_right_eq_some.mp ht
    cases ht
    exact h.park nofun
  | refused =>
    obtain ⟨-, ht⟩ := Option.ite_none_right_eq_some.mp ht
    cases ht
    exact h.park (parked _)
  | read =>
    simp only [step] at ht
    split at ht
    next k hk =>
      obtain ⟨r, hr, rfl⟩ := Option.map_eq_some_iff.mp ht
      split
      next => exact h.park nofun
      next hstop => exact h.read hk hr (eq_false_of_ne_true hstop)
    next => cases ht
  | close =>
    simp only [step] at ht
    split at ht
    next k hk =>
      obtain ⟨-, ht⟩ := Option.ite_none_right_eq_some.mp ht
      cases ht
      exact h.park nofun
    next => cases ht
  | error =>
    simp only [step] at ht
    split at ht
    next k hk =>
      cases ht
      exact (h.park (parked _)).disturb _
    next => cases ht
  | wake =>
    obtain ⟨-, ht⟩ := Option.ite_none_right_eq_some.mp ht
    cases ht
    exact h.park nofun

/-- In every run of careful steps the lines emitted before the stop are covered, throughout. -/
theorem log_covered (word : Char → Bool) (component : String) {now : ℕ} {as : List Act}
    (h : Always (step word component) (fun s a _ => Careful s a) (initial now) as) :
    Always (step word component) (fun _ _ t => Covered word component t) (initial now) as := by
  refine always_of_invariant (I := Following word component) ?_ (following_initial now) h
  intro s a t hs ht hcare
  have hfollowing := step_following hs ht hcare
  exact ⟨hfollowing.toCovered, hfollowing⟩

end Steps

def asciiWord (c : Char) : Bool := c.isAlphanum || c == '_'

/-- The stream fails between two lines, the second of which comes with the new stream. -/
def interrupted : List Act :=
  [.emit ['u', 'p'], .enter, .connect, .read, .error, .tick 1500, .emit ['o', 'k', '\n'], .wake, .enter, .connect, .read,
    .read, .setStop]

theorem log_covered_interrupted :
    Always (step asciiWord "anvil") (fun _ _ t => Covered asciiWord "anvil" t) (initial 0) interrupted :=
  log_covered asciiWord "anvil" (by decide)

/-- The container exits after a line, and its log is read again. -/
def exited : List Act :=
  [.emit ['u', 'p'], .enter, .connect, .read, .exit, .close, .enter, .connect]

theorem exited_line_twice : ¬ ∀ (now : ℕ) (as : List Act),
    Always (step asciiWord "anvil") (fun _ _ t => Covered asciiWord "anvil" t) (initial now) as := by
  intro h
  have hrun : (exec (step asciiWord "anvil") (initial 5000) (exited ++ [.read])).map
      (fun t => (t.disturbed, t.got)) = some (false, [0, 0]) := by decide
  obtain ⟨t, ht, htwice⟩ := Option.map_eq_some_iff.mp hrun
  obtain ⟨u, hu, hut⟩ := exec_snoc_iff.mp ht
  obtain ⟨hquiet, hgot⟩ := Prod.mk.inj htwice
  have hnodup := ((h 5000 (exited ++ [.read])).at hu hut).atMostOnce hquiet
  rw [hgot] at hnodup
  exact absurd hnodup (by decide)

end ReleaseValidation.SandboxManager.LogStreams
