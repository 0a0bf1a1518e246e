import Mathlib.Algebra.Order.Group.Multiset
import Mathlib.Data.List.Induction
import Mathlib.Data.Multiset.Range
import ReleaseValidation.Foundations.Parties
import ReleaseValidation.Foundations.Runs

/-! # Consumers of a queue with acknowledgements

A message is delivered to a handler, which meets one event after another and returns or
raises. A message whose handler has returned is acknowledged; one whose handler raises or is
interrupted goes back to the queue and is delivered again. What the handlers put out is one
log. Several handlers may stand anywhere in their work at a time, and still the log of each
message is that of its deliveries, one after the other.
-/
namespace ReleaseValidation.Consumers
open Runs
variable {μ τ ι ε : Type*}

/-- Where the handler of a delivered message stands. -/
inductive Stage (τ : Type*)
  | running (t : τ)
  | returned
  | raised
  deriving DecidableEq

structure Handler (μ τ ι ε : Type*) where
  start : μ → Stage τ
  next : μ → τ → ι → Stage τ × List ε

namespace Handler
variable (h : Handler μ τ ι ε) (m : μ)

/-- Where the handler stands after the events of a delivery, and what it has put out. -/
def run : Stage τ → List ι → Option (Stage τ × List ε)
  | stage, [] => some (stage, [])
  | .running t, e :: es => (run (h.next m t e).1 es).map fun x => (x.1, (h.next m t e).2 ++ x.2)
  | .returned, _ :: _ => none
  | .raised, _ :: _ => none

/-- A delivery of the message can come to stand here, with this output. -/
def Reaches (stage : Stage τ) (out : List ε) : Prop := ∃ es, h.run m (h.start m) es = some (stage, out)

variable {h m}

theorem reaches_start : h.Reaches m (h.start m) [] := ⟨[], by cases h.start m <;> rfl⟩

theorem run_snoc {s : Stage τ} {es : List ι} {t : τ} {out : List ε} {e : ι}
    (hrun : h.run m s es = some (.running t, out)) :
    h.run m s (es ++ [e]) = some ((h.next m t e).1, out ++ (h.next m t e).2) := by
  induction es generalizing s out with
  | nil =>
    cases s with
    | running u =>
      simp only [run, Option.some.injEq, Prod.mk.injEq, Stage.running.injEq] at hrun
      obtain ⟨rfl, rfl⟩ := hrun
      rw [List.nil_append, run, run.eq_def]
      simp
    | returned => simp [run] at hrun
    | raised => simp [run] at hrun
  | cons d es ih =>
    cases s with
    | running u =>
      rw [run] at hrun
      obtain ⟨x, hx, heq⟩ := Option.map_eq_some_iff.mp hrun
      obtain ⟨stage, outs⟩ := x
      simp only [Prod.mk.injEq] at heq
      obtain ⟨rfl, rfl⟩ := heq
      rw [List.cons_append, run, ih hx]
      simp
    | returned => cases hrun
    | raised => cases hrun

theorem Reaches.next {t : τ} {out : List ε} (hr : h.Reaches m (.running t) out) (e : ι) :
    h.Reaches m (h.next m t e).1 (out ++ (h.next m t e).2) := by
  obtain ⟨es, hes⟩ := hr
  exact ⟨es ++ [e], run_snoc hes⟩

/-- What holds at the start of a delivery and is kept by every event holds wherever it comes to stand. -/
theorem Reaches.induction {I : Stage τ → List ε → Prop} (hstart : I (h.start m) [])
    (hnext : ∀ t out e, I (.running t) out → I (h.next m t e).1 (out ++ (h.next m t e).2)) {stage : Stage τ}
    {out : List ε} (hr : h.Reaches m stage out) : I stage out := by
  obtain ⟨es, hes⟩ := hr
  have hgen : ∀ s pre, I s pre → ∀ stage out, h.run m s es = some (stage, out) → I stage (pre ++ out) := by
    clear hes
    induction es with
    | nil =>
      intro s pre hI stage out hrun
      cases s <;> cases hrun <;> rwa [List.append_nil]
    | cons e es ih =>
      intro s pre hI stage out hrun
      cases s with
      | running u =>
        rw [run] at hrun
        obtain ⟨x, hx, heq⟩ := Option.map_eq_some_iff.mp hrun
        cases heq
        rw [← List.append_assoc]
        exact ih _ _ (hnext u pre e hI) _ _ hx
      | returned => cases hrun
      | raised => cases hrun
  exact hgen _ [] hstart _ _ hes

end Handler

/-- A message in the hands of its handler. -/
structure Held (τ : Type*) where
  tag : ℕ
  stage : Stage τ

structure State (μ τ ε : Type*) where
  published : List μ
  queue : List ℕ
  held : List (Held τ)
  acked : List ℕ
  /-- The tags of the messages that went back to the queue. -/
  returned : List ℕ
  log : List (ℕ × ε)

def initial : State μ τ ε := ⟨[], [], [], [], [], []⟩

namespace State
variable (s : State μ τ ε)

/-- What the handlers of a message have put out. -/
def output (tag : ℕ) : List ε := s.log.filterMap fun x => if x.1 = tag then some x.2 else none

/-- The messages of the queue, of the handlers and the acknowledged ones. -/
def tags : Multiset ℕ := s.queue + s.held.map Held.tag + s.acked

end State

inductive Act (μ ι : Type*)
  | publish (m : μ)
  | deliver (j : ℕ)
  | event (k : ℕ) (e : ι)
  | settle (k : ℕ)
  | interrupt (k : ℕ)

section System
variable (h : Handler μ τ ι ε) (prefetch : ℕ)

def putBack (s : State μ τ ε) (k tag : ℕ) : State μ τ ε :=
  { s with held := s.held.eraseIdx k, queue := tag :: s.queue, returned := s.returned ++ [tag] }

def step (s : State μ τ ε) : Act μ ι → Option (State μ τ ε)
  | .publish m => some { s with published := s.published ++ [m], queue := s.queue ++ [s.published.length] }
  | .deliver j =>
    if s.held.length < prefetch then
      s.queue[j]?.bind fun tag => s.published[tag]?.map fun m =>
        { s with queue := s.queue.eraseIdx j, held := s.held ++ [⟨tag, h.start m⟩] }
    else none
  | .event k e => s.held[k]?.bind fun d => s.published[d.tag]?.bind fun m =>
      match d.stage with
      | .running t =>
        some { s with held := s.held.set k ⟨d.tag, (h.next m t e).1⟩
                      log := s.log ++ (h.next m t e).2.map fun x => (d.tag, x) }
      | .returned => none
      | .raised => none
  | .settle k => s.held[k]?.bind fun d =>
      match d.stage with
      | .running _ => none
      | .returned => some { s with held := s.held.eraseIdx k, acked := s.acked ++ [d.tag] }
      | .raised => some (putBack s k d.tag)
  -- the handler is cancelled, or the process stops
  | .interrupt k => s.held[k]?.map fun d => putBack s k d.tag

/-- The log of a message: what its earlier deliveries have put out, and its present or last one. -/
structure Told (s : State μ τ ε) (tag : ℕ) (m : μ) (past : List (List ε)) (last : List ε) : Prop where
  output : s.output tag = past.flatten ++ last
  count : past.length = s.returned.count tag
  past : ∀ out ∈ past, ∃ stage, h.Reaches m stage out
  waiting : tag ∈ s.queue → last = []
  held : ∀ d ∈ s.held, d.tag = tag → h.Reaches m d.stage last
  acked : tag ∈ s.acked → h.Reaches m .returned last

structure Accounts (s : State μ τ ε) : Prop where
  conserved : s.tags = Multiset.range s.published.length
  logged : ∀ x ∈ s.log, x.1 < s.published.length
  returned : ∀ tag ∈ s.returned, tag < s.published.length
  told : ∀ tag m, s.published[tag]? = some m → ∃ past last, Told h s tag m past last

end System

/-! ### Every message is in one place -/

section Places
variable {s t : State μ τ ε}

theorem coe_eraseIdx {β : Type*} {l : List β} {k : ℕ} {x : β} (hk : l[k]? = some x) :
    (l : Multiset β) = x ::ₘ (l.eraseIdx k : Multiset β) := by
  obtain ⟨hlt, rfl⟩ := List.getElem?_eq_some_iff.mp hk
  rw [Multiset.cons_coe, Multiset.coe_eq_coe]
  exact (List.getElem_cons_eraseIdx_perm hlt).symm

theorem coe_tags_eraseIdx {held : List (Held τ)} {k : ℕ} {d : Held τ} (hk : held[k]? = some d) :
    (held.map Held.tag : Multiset ℕ) = d.tag ::ₘ ((held.eraseIdx k).map Held.tag : Multiset ℕ) := by
  have hmap : (held.map Held.tag)[k]? = some d.tag := by rw [List.getElem?_map, hk, Option.map_some]
  rw [coe_eraseIdx hmap, List.eraseIdx_map]

theorem map_tag_set {held : List (Held τ)} {k : ℕ} {d : Held τ} {stage : Stage τ} (hk : held[k]? = some d) :
    (held.set k ⟨d.tag, stage⟩).map Held.tag = held.map Held.tag := by
  obtain ⟨hlt, rfl⟩ := List.getElem?_eq_some_iff.mp hk
  have hlt' : k < (held.map Held.tag).length := by rwa [List.length_map]
  have htag : held[k].tag = (held.map Held.tag)[k] := (List.getElem_map _).symm
  rw [List.map_set, htag, List.set_getElem_self hlt']

/-- No message is in two places. -/
structure Separate (s : State μ τ ε) : Prop where
  held : (s.held.map Held.tag).Nodup
  queue_held : ∀ d ∈ s.held, d.tag ∉ s.queue
  queue_acked : ∀ tag ∈ s.queue, tag ∉ s.acked
  held_acked : ∀ d ∈ s.held, d.tag ∉ s.acked

theorem separate_of_tags (h : s.tags = Multiset.range s.published.length) : Separate s := by
  have hnodup : (s.queue ++ s.held.map Held.tag ++ s.acked).Nodup := by
    have hcoe : ((s.queue ++ s.held.map Held.tag ++ s.acked : List ℕ) : Multiset ℕ) = s.tags := by
      simp [State.tags]
    rw [← Multiset.coe_nodup, hcoe, h]
    exact Multiset.nodup_range _
  obtain ⟨hfront, -, hacked⟩ := List.nodup_append'.mp hnodup
  obtain ⟨-, hheld, hqueue⟩ := List.nodup_append'.mp hfront
  refine ⟨hheld, fun d hd hq => hqueue hq (List.mem_map_of_mem hd), fun tag hq ha => ?_, fun d hd ha => ?_⟩
  · exact hacked (List.mem_append_left _ hq) ha
  · exact hacked (List.mem_append_right _ (List.mem_map_of_mem hd)) ha

theorem Separate.ne_of_mem_eraseIdx (h : Separate s) {k : ℕ} {d d' : Held τ} (hk : s.held[k]? = some d)
    (hd' : d' ∈ s.held.eraseIdx k) : d'.tag ≠ d.tag := by
  have hnodup : (d.tag ::ₘ ((s.held.eraseIdx k).map Held.tag : Multiset ℕ)).Nodup := by
    rw [← coe_tags_eraseIdx hk]
    exact h.held
  intro htag
  refine (Multiset.nodup_cons.mp hnodup).1 ?_
  rw [← htag]
  exact List.mem_map_of_mem hd'

theorem Separate.of_mem_set (h : Separate s) {k : ℕ} {d d' new : Held τ} (hk : s.held[k]? = some d)
    (hd' : d' ∈ s.held.set k new) : d' = new ∨ d' ∈ s.held ∧ d'.tag ≠ d.tag := by
  obtain ⟨i, hi⟩ := List.mem_iff_getElem?.mp hd'
  obtain ⟨-, hnew⟩ | ⟨hne, hi⟩ := Parties.getElem?_set_cases hi
  · exact .inl hnew
  · refine .inr ⟨List.mem_of_getElem? hi, fun htag => hne ?_⟩
    have hlt : i < (s.held.map Held.tag).length := by
      rw [List.length_map]
      exact (List.getElem?_eq_some_iff.mp hi).1
    refine (List.getElem?_inj hlt h.held).mp ?_
    rw [List.getElem?_map, List.getElem?_map, hi, hk, Option.map_some, Option.map_some, htag]

end Places

/-! ### One step -/

section Steps
variable {h : Handler μ τ ι ε} {prefetch : ℕ} {s t : State μ τ ε} {tag : ℕ} {m : μ} {past : List (List ε)} {last : List ε}

/-- What a step does: a message is published, delivered, worked on, acknowledged or put back. -/
theorem step_cases {a : Act μ ι} (hstep : step h prefetch s a = some t) :
    (∃ m, t = { s with published := s.published ++ [m], queue := s.queue ++ [s.published.length] }) ∨
    (∃ j tag m, s.held.length < prefetch ∧ s.queue[j]? = some tag ∧ s.published[tag]? = some m ∧
      t = { s with queue := s.queue.eraseIdx j, held := s.held ++ [⟨tag, h.start m⟩] }) ∨
    (∃ k tag u m e, s.held[k]? = some ⟨tag, .running u⟩ ∧ s.published[tag]? = some m ∧
      t = { s with held := s.held.set k ⟨tag, (h.next m u e).1⟩
                   log := s.log ++ (h.next m u e).2.map fun x => (tag, x) }) ∨
    (∃ k tag, s.held[k]? = some ⟨tag, .returned⟩ ∧
      t = { s with held := s.held.eraseIdx k, acked := s.acked ++ [tag] }) ∨
    ∃ k d, s.held[k]? = some d ∧ t = putBack s k d.tag := by
  cases a with
  | publish m => exact .inl ⟨m, (Option.some.inj hstep).symm⟩
  | deliver j =>
    simp only [step] at hstep
    split at hstep
    next hlt =>
      obtain ⟨tag, hj, hstep⟩ := Option.bind_eq_some_iff.mp hstep
      obtain ⟨m, hm, rfl⟩ := Option.map_eq_some_iff.mp hstep
      exact .inr (.inl ⟨j, tag, m, hlt, hj, hm, rfl⟩)
    next => cases hstep
  | event k e =>
    obtain ⟨⟨tag, stage⟩, hk, hstep⟩ := Option.bind_eq_some_iff.mp hstep
    obtain ⟨m, hm, hstep⟩ := Option.bind_eq_some_iff.mp hstep
    cases stage with
    | running u => exact .inr (.inr (.inl ⟨k, tag, u, m, e, hk, hm, (Option.some.inj hstep).symm⟩))
    | returned => cases hstep
    | raised => cases hstep
  | settle k =>
    obtain ⟨⟨tag, stage⟩, hk, hstep⟩ := Option.bind_eq_some_iff.mp hstep
    cases stage with
    | running u => cases hstep
    | returned => exact .inr (.inr (.inr (.inl ⟨k, tag, hk, (Option.some.inj hstep).symm⟩)))
    | raised => exact .inr (.inr (.inr (.inr ⟨k, _, hk, (Option.some.inj hstep).symm⟩)))
  | interrupt k =>
    obtain ⟨d, hk, rfl⟩ := Option.map_eq_some_iff.mp hstep
    exact .inr (.inr (.inr (.inr ⟨k, d, hk, rfl⟩)))

theorem step_conserves {a : Act μ ι} (hs : s.tags = Multiset.range s.published.length)
    (hstep : step h prefetch s a = some t) : t.tags = Multiset.range t.published.length := by
  unfold State.tags at hs ⊢
  obtain ⟨m, rfl⟩ | ⟨j, tag, m, -, hj, -, rfl⟩ | ⟨k, tag, u, m, e, hk, -, rfl⟩ | ⟨k, tag, hk, rfl⟩ | ⟨k, d, hk, rfl⟩ :=
    step_cases hstep
  · simp only [List.length_append, List.length_singleton, Multiset.range_succ, ← hs, ← Multiset.coe_add,
      Multiset.coe_singleton, ← Multiset.singleton_add]
    ac_rfl
  · simp only [← hs, coe_eraseIdx hj, List.map_append, List.map_singleton, ← Multiset.coe_add,
      Multiset.coe_singleton, ← Multiset.singleton_add]
    ac_rfl
  · simp only [map_tag_set hk, hs]
  · simp only [← hs, coe_tags_eraseIdx hk, ← Multiset.coe_add, Multiset.coe_singleton, ← Multiset.singleton_add]
    ac_rfl
  · simp only [putBack, ← hs, coe_tags_eraseIdx hk, ← Multiset.cons_coe, ← Multiset.singleton_add]
    ac_rfl

theorem output_append (s : State μ τ ε) (k : ℕ) (out : List ε) (held : List (Held τ)) :
    State.output { s with held := held, log := s.log ++ out.map fun x => (k, x) } tag =
      s.output tag ++ if k = tag then out else [] := by
  rw [State.output, State.output, List.filterMap_append, List.filterMap_map]
  congr 1
  split
  next hk => simp [hk]
  next hk => simp [hk]

/-- A step that only moves other messages changes nothing about the log of a message. -/
theorem Told.of_same (ht : Told h s tag m past last) (hout : t.output tag = s.output tag)
    (hcount : t.returned.count tag = s.returned.count tag) (hqueue : tag ∈ t.queue → tag ∈ s.queue)
    (hheld : ∀ d ∈ t.held, d.tag = tag → d ∈ s.held) (hacked : tag ∈ t.acked → tag ∈ s.acked) :
    Told h t tag m past last where
  output := hout.trans ht.output
  count := ht.count.trans hcount.symm
  past := ht.past
  waiting hq := ht.waiting (hqueue hq)
  held d hd htag := ht.held d (hheld d hd htag) htag
  acked ha := ht.acked (hacked ha)

theorem lt_of_tags (hs : s.tags = Multiset.range s.published.length)
    (h : tag ∈ s.queue ∨ (∃ d ∈ s.held, d.tag = tag) ∨ tag ∈ s.acked) : tag < s.published.length := by
  rw [← Multiset.mem_range, ← hs, State.tags]
  simp only [Multiset.mem_add, Multiset.mem_coe, List.mem_map]
  exact or_assoc.mpr h

theorem told_publish (hs : Accounts h s) :
    Told h { s with published := s.published ++ [m], queue := s.queue ++ [s.published.length] } s.published.length m
      [] [] where
  output := by
    refine List.filterMap_eq_nil_iff.mpr fun x hx => if_neg ?_
    exact (hs.logged x hx).ne
  count := (List.count_eq_zero.mpr fun hmem => (hs.returned _ hmem).false).symm
  past out hout := absurd hout List.not_mem_nil
  waiting _ := rfl
  held d hd htag := absurd (lt_of_tags hs.conserved (.inr (.inl ⟨d, hd, htag⟩))) (Nat.lt_irrefl _)
  acked ha := absurd (lt_of_tags hs.conserved (.inr (.inr ha))) (Nat.lt_irrefl _)

theorem told_deliver {j k : ℕ} (ht : Told h s tag m past last) (hj : s.queue[j]? = some k)
    {m' : μ} (hm' : k = tag → m' = m) :
    Told h { s with queue := s.queue.eraseIdx j, held := s.held ++ [⟨k, h.start m'⟩] } tag m past last := by
  have hk : k ∈ s.queue := List.mem_of_getElem? hj
  refine ⟨ht.output, ht.count, ht.past, fun hq => ht.waiting (List.mem_of_mem_eraseIdx hq), ?_, ht.acked⟩
  intro d hd htag
  rcases List.mem_append.mp hd with hd | hd
  · exact ht.held d hd htag
  · obtain rfl := List.mem_singleton.mp hd
    cases htag
    rw [ht.waiting hk, hm' rfl]
    exact Handler.reaches_start

theorem told_event {k : ℕ} {d : Held τ} {u : τ} {m' : μ} {e : ι} (ht : Told h s tag m past last) (hsep : Separate s)
    (hk : s.held[k]? = some d) (hstage : d.stage = .running u) (hm' : d.tag = tag → m' = m) :
    ∃ last', Told h { s with held := s.held.set k ⟨d.tag, (h.next m' u e).1⟩
                             log := s.log ++ (h.next m' u e).2.map fun x => (d.tag, x) } tag m past last' := by
  have hd : d ∈ s.held := List.mem_of_getElem? hk
  by_cases htag : d.tag = tag
  · subst htag
    obtain rfl := hm' rfl
    have hreach := ht.held d hd rfl
    rw [hstage] at hreach
    refine ⟨last ++ (h.next m' u e).2, ?_, ht.count, ht.past, fun hq => absurd hq (hsep.queue_held d hd), ?_,
      fun ha => absurd ha (hsep.held_acked d hd)⟩
    · rw [output_append, if_pos rfl, ht.output, List.append_assoc]
    · intro d' hd' htag
      rcases hsep.of_mem_set hk hd' with rfl | ⟨-, hne⟩
      · exact hreach.next e
      · exact absurd htag hne
  · refine ⟨last, ht.of_same ?_ rfl (fun hq => hq) (fun d' hd' htag' => ?_) fun ha => ha⟩
    · rw [output_append, if_neg htag, List.append_nil]
    · rcases hsep.of_mem_set hk hd' with rfl | ⟨hold, -⟩
      · exact absurd htag' htag
      · exact hold

theorem told_ack {k : ℕ} {d : Held τ} (ht : Told h s tag m past last) (hk : s.held[k]? = some d)
    (hstage : d.stage = .returned) :
    Told h { s with held := s.held.eraseIdx k, acked := s.acked ++ [d.tag] } tag m past last := by
  refine ⟨ht.output, ht.count, ht.past, ht.waiting, fun d' hd' => ht.held d' (List.mem_of_mem_eraseIdx hd'), ?_⟩
  intro ha
  rcases List.mem_append.mp ha with ha | ha
  · exact ht.acked ha
  · have hreach := ht.held d (List.mem_of_getElem? hk) (List.mem_singleton.mp ha).symm
    rwa [hstage] at hreach

theorem told_putBack {k : ℕ} {d : Held τ} (ht : Told h s tag m past last) (hsep : Separate s)
    (hk : s.held[k]? = some d) : ∃ past' last', Told h (putBack s k d.tag) tag m past' last' := by
  have hd : d ∈ s.held := List.mem_of_getElem? hk
  by_cases htag : d.tag = tag
  · refine ⟨past ++ [last], [], ?_, ?_, ?_, fun _ => rfl, fun d' hd' htag' => ?_, fun ha => ?_⟩
    · rw [List.flatten_append, List.flatten_singleton, List.append_nil]
      exact ht.output
    · rw [putBack, List.count_append, htag, List.count_singleton_self, ← ht.count, List.length_append]
      rfl
    · intro out hout
      rcases List.mem_append.mp hout with hout | hout
      · exact ht.past out hout
      · rw [List.mem_singleton.mp hout]
        exact ⟨d.stage, ht.held d hd htag⟩
    · exact absurd (htag'.trans htag.symm) (hsep.ne_of_mem_eraseIdx hk hd')
    · exact absurd (htag ▸ ha) (hsep.held_acked d hd)
  · refine ⟨past, last, ht.of_same rfl ?_ ?_ (fun d' hd' _ => List.mem_of_mem_eraseIdx hd') fun ha => ha⟩
    · rw [putBack, List.count_append, List.count_singleton, if_neg (by simpa using htag), Nat.add_zero]
    · intro hq
      rcases List.mem_cons.mp hq with hq | hq
      · exact absurd hq.symm htag
      · exact hq

theorem step_told {a : Act μ ι} (hs : Accounts h s) (hstep : step h prefetch s a = some t)
    (hm : t.published[tag]? = some m) : ∃ past last, Told h t tag m past last := by
  have hsep := separate_of_tags hs.conserved
  obtain ⟨m', rfl⟩ | ⟨j, k, m', -, hj, hm', rfl⟩ | ⟨k, tag', u, m', e, hk, hm', rfl⟩ | ⟨k, tag', hk, rfl⟩ | ⟨k, d, hk, rfl⟩ :=
    step_cases hstep
  · rcases Parties.getElem?_append_cases hm with ⟨rfl, rfl⟩ | hm
    · exact ⟨[], [], told_publish hs⟩
    · obtain ⟨past, last, ht⟩ := hs.told tag m hm
      refine ⟨past, last, ht.of_same rfl rfl (fun hq => ?_) (fun _ hd _ => hd) fun ha => ha⟩
      rcases List.mem_append.mp hq with hq | hq
      · exact hq
      · have hlt := (List.getElem?_eq_some_iff.mp hm).1
        rw [List.mem_singleton.mp hq] at hlt
        exact absurd hlt (Nat.lt_irrefl _)
  · obtain ⟨past, last, ht⟩ := hs.told tag m hm
    refine ⟨past, last, told_deliver ht hj ?_⟩
    rintro rfl
    exact Option.some.inj (hm'.symm.trans hm)
  · obtain ⟨past, last, ht⟩ := hs.told tag m hm
    have hsame : tag' = tag → m' = m := by
      rintro rfl
      exact Option.some.inj (hm'.symm.trans hm)
    exact ⟨past, told_event ht hsep hk rfl hsame⟩
  · obtain ⟨past, last, ht⟩ := hs.told tag m hm
    exact ⟨past, last, told_ack ht hk rfl⟩
  · obtain ⟨past, last, ht⟩ := hs.told tag m hm
    exact told_putBack ht hsep hk

theorem step_known {a : Act μ ι} (hs : Accounts h s) (hstep : step h prefetch s a = some t) :
    (∀ x ∈ t.log, x.1 < t.published.length) ∧ ∀ tag ∈ t.returned, tag < t.published.length := by
  obtain ⟨m', rfl⟩ | ⟨j, k, m', -, hj, hm', rfl⟩ | ⟨k, tag', u, m', e, hk, hm', rfl⟩ | ⟨k, tag', hk, rfl⟩ | ⟨k, d, hk, rfl⟩ :=
    step_cases hstep
  · simp only [List.length_append, List.length_singleton]
    exact ⟨fun x hx => Nat.lt_succ_of_lt (hs.logged x hx), fun tag htag => Nat.lt_succ_of_lt (hs.returned tag htag)⟩
  · exact ⟨hs.logged, hs.returned⟩
  · refine ⟨fun x hx => ?_, hs.returned⟩
    rcases List.mem_append.mp hx with hx | hx
    · exact hs.logged x hx
    · obtain ⟨out, -, rfl⟩ := List.mem_map.mp hx
      exact (List.getElem?_eq_some_iff.mp hm').1
  · exact ⟨hs.logged, hs.returned⟩
  · refine ⟨hs.logged, fun tag htag => ?_⟩
    rcases List.mem_append.mp htag with htag | htag
    · exact hs.returned tag htag
    · rw [List.mem_singleton.mp htag]
      have hd : d.tag < s.published.length :=
        lt_of_tags hs.conserved (.inr (.inl ⟨d, List.mem_of_getElem? hk, rfl⟩))
      exact hd

theorem step_accounts {a : Act μ ι} (hs : Accounts h s) (hstep : step h prefetch s a = some t) : Accounts h t :=
  ⟨step_conserves hs.conserved hstep, (step_known hs hstep).1, (step_known hs hstep).2,
    fun _ _ hm => step_told hs hstep hm⟩

theorem accounts_initial : Accounts h initial where
  conserved := rfl
  logged _ hx := absurd hx List.not_mem_nil
  returned _ hx := absurd hx List.not_mem_nil
  told _ _ hm := by cases hm

/-- After every run, each message is waiting, held or acknowledged, and its log is that of its deliveries. -/
theorem exec_accounts {as : List (Act μ ι)} (hrun : exec (step h prefetch) initial as = some t) : Accounts h t :=
  exec_invariant (fun _ _ _ hs hstep => step_accounts hs hstep) accounts_initial hrun

end Steps
end ReleaseValidation.Consumers
