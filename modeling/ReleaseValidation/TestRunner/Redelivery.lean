import ReleaseValidation.TestRunner.Answers

/-! # Commands that are delivered more than once

A worker that stops before it acknowledges a command leaves what its delivery has
inserted, and the next worker starts over. Each delivery offers a row of its own; only
the id that an agent brings along is the same in every delivery.
-/
namespace ReleaseValidation.TestRunner.CommandTask
open Store Programs Tables

/-- The delivery comes to an insert that takes effect, under the id. -/
def Inserts (env : Env) (msg : TestCommand) (id : Uuid) : Prop :=
  Skips env ∧ id = env.freshId ∨ (∃ d, Starts env msg d) ∧ id = resultId env msg

/-- The row that the delivery inserts is terminal when the delivery ends. -/
def Finishes (env : Env) (msg : TestCommand) : Prop :=
  Skips env ∨ ∃ d outcome, Starts env msg d ∧ Settles env d outcome

/-- The first delivery that comes to an insert finishes its row, and the inserts of the
later ones are refused. -/
def SettledByFirst (msg : TestCommand) (envs : List Env) : Prop :=
  ∃ pre env post id, envs = pre ++ env :: post ∧ (∀ e ∈ pre, ∀ k, ¬ Inserts e msg k) ∧
    Inserts env msg id ∧ Finishes env msg ∧ ∀ e ∈ post, ∀ k, Inserts e msg k → k = id

/-- Between the two worlds the command got exactly one row, and it is terminal. -/
def SettledOnce (msg : TestCommand) (w w' : World) : Prop :=
  AddsOne (fun _ row => row.runId = msg.runId ∧ row.definitionId = msg.definitionId ∧
    row.status.terminal = true) w.results w'.results

variable {env : Env} {msg : TestCommand} {w : World}

/-! ### What a delivery offers -/

theorem offer_of_skips (h : Skips env) : offer env msg = some (env.freshId, msg.row .skipped) := by
  obtain ⟨hc, heff⟩ := h
  simp only [offer, hc, heff, ↓reduceIte]

theorem offer_of_starts {d : Definition} (h : Starts env msg d) :
    offer env msg = some (resultId env msg, leftRow env msg d) := by
  obtain ⟨hc, hlock, hd, heff⟩ := h
  simp only [offer, hc, hlock, heff, hd, and_self, ↓reduceIte, Option.map_some]

theorem offer_cases {x : Uuid × ResultRow} (h : offer env msg = some x) :
    (Skips env ∧ x = (env.freshId, msg.row .skipped)) ∨
      ∃ d, Starts env msg d ∧ x = (resultId env msg, leftRow env msg d) := by
  unfold offer at h
  cases hc : answered (env.fault .checkCancelled) env.cancelled false with
  | raised e => simp [hc] at h
  | stopped => simp [hc] at h
  | returned cancelled =>
    cases cancelled with
    | true =>
      by_cases heff : Effective (env.fault .insertSkipped)
      · simp only [hc, heff, ↓reduceIte, Option.some.injEq] at h
        exact .inl ⟨⟨hc, heff⟩, h.symm⟩
      · simp [hc, heff] at h
    | false =>
      by_cases hstart : env.fault .cacheLock = none ∧ Effective (env.fault .insertRunning)
      · simp only [hc, hstart, and_self, ↓reduceIte, Option.map_eq_some_iff] at h
        obtain ⟨d, hd, rfl⟩ := h
        exact .inr ⟨d, ⟨hc, hstart.1, hd, hstart.2⟩, rfl⟩
      · simp [hc, hstart] at h

theorem inserts_iff_offer {id : Uuid} : Inserts env msg id ↔ ∃ row, offer env msg = some (id, row) := by
  constructor
  · rintro (⟨hs, rfl⟩ | ⟨⟨d, hs⟩, rfl⟩)
    · exact ⟨_, offer_of_skips hs⟩
    · exact ⟨_, offer_of_starts hs⟩
  · rintro ⟨row, h⟩
    rcases offer_cases h with ⟨hs, hx⟩ | ⟨d, hs, hx⟩
    · exact .inl ⟨hs, congrArg Prod.fst hx⟩
    · exact .inr ⟨⟨d, hs⟩, congrArg Prod.fst hx⟩

theorem offer_eq_none_iff : offer env msg = none ↔ ∀ k, ¬ Inserts env msg k := by
  constructor
  · intro h k hk
    obtain ⟨row, hrow⟩ := inserts_iff_offer.mp hk
    rw [h] at hrow
    cases hrow
  · intro h
    cases ho : offer env msg with
    | none => rfl
    | some x => exact absurd (inserts_iff_offer.mpr ⟨x.2, ho⟩) (h x.1)

theorem not_starts_of_skips (h : Skips env) (d : Definition) : ¬ Starts env msg d := by
  rintro ⟨hc, -⟩
  rw [h.1] at hc
  cases hc

theorem Starts.unique {d d' : Definition} (h : Starts env msg d) (h' : Starts env msg d') : d = d' := by
  have hd := h.2.2.1
  rw [h'.2.2.1] at hd
  exact (Option.some.inj hd).symm

theorem offer_terminal_iff {x : Uuid × ResultRow} (h : offer env msg = some x) :
    x.2.status.terminal = true ↔ Finishes env msg := by
  rcases offer_cases h with ⟨hs, rfl⟩ | ⟨d, hs, rfl⟩
  · exact ⟨fun _ => .inl hs, fun _ => rfl⟩
  · constructor
    · intro hterm
      by_contra hno
      have hnot : ∀ outcome, ¬ Settles env d outcome := by
        intro outcome hset
        exact hno (.inr ⟨d, outcome, hs, hset⟩)
      rw [leftRow_of_not_settles hnot] at hterm
      cases hterm
    · rintro (hskip | ⟨d', outcome, hs', hset⟩)
      · exact absurd hs (not_starts_of_skips hskip d)
      · obtain rfl := hs.unique hs'
        rw [leftRow_of_settles hset]
        exact runExit_terminal hset.2.1

theorem leftRow_identity (d : Definition) :
    (leftRow env msg d).runId = msg.runId ∧ (leftRow env msg d).definitionId = msg.definitionId := by
  by_cases h : ∃ outcome, Settles env d outcome
  · obtain ⟨outcome, hset⟩ := h
    rw [leftRow_of_settles hset]
    exact ⟨rfl, rfl⟩
  · rw [leftRow_of_not_settles (not_exists.mp h)]
    exact ⟨rfl, rfl⟩

theorem offer_identity {x : Uuid × ResultRow} (h : offer env msg = some x) :
    x.2.runId = msg.runId ∧ x.2.definitionId = msg.definitionId := by
  rcases offer_cases h with ⟨-, rfl⟩ | ⟨d, -, rfl⟩
  · exact ⟨rfl, rfl⟩
  · exact leftRow_identity d

/-! ### What the deliveries add up to -/

theorem deliver_results (envs : List Env) (w : World) :
    (deliver msg w envs).results = claimAll w.results (envs.filterMap fun env => offer env msg) := by
  induction envs generalizing w with
  | nil => rfl
  | cons env envs ih =>
    have hstep : deliver msg w (env :: envs) = deliver msg (consume env msg w).2 envs := rfl
    rw [hstep, ih, consume_results, List.filterMap_cons]
    cases offer env msg with
    | none => rfl
    | some x => rfl

/-- However often a command is delivered and wherever its workers stop, it ends with one
terminal row exactly when the first delivery that inserts a row finishes it, and every
later insert is refused for its id. -/
theorem settled_once_iff {envs : List Env}
    (hfree : ∀ env ∈ envs, env.freshId ∉ w.results ∧ resultId env msg ∉ w.results) :
    SettledOnce msg w (deliver msg w envs) ↔ SettledByFirst msg envs := by
  have hfrees : ∀ x ∈ envs.filterMap (fun env => offer env msg), x.1 ∉ w.results := by
    intro x hx
    obtain ⟨env, henv, ho⟩ := List.mem_filterMap.mp hx
    rcases offer_cases ho with ⟨-, rfl⟩ | ⟨d, -, rfl⟩
    · exact (hfree env henv).1
    · exact (hfree env henv).2
  unfold SettledOnce
  rw [deliver_results, addsOne_claimAll_iff hfrees]
  constructor
  · rintro ⟨x, rest, hx, ⟨-, -, hterm⟩, hrest⟩
    obtain ⟨pre, env, post, rfl, hpre, ho, rfl⟩ := List.filterMap_eq_cons_iff.mp hx
    refine ⟨pre, env, post, x.1, rfl, ?_, ?_, (offer_terminal_iff ho).mp hterm, ?_⟩
    · intro e he
      exact offer_eq_none_iff.mp (hpre e he)
    · exact inserts_iff_offer.mpr ⟨x.2, ho⟩
    · intro e he k hk
      obtain ⟨row, hrow⟩ := inserts_iff_offer.mp hk
      exact hrest (k, row) (List.mem_filterMap.mpr ⟨e, he, hrow⟩)
  · rintro ⟨pre, env, post, id, rfl, hpre, hins, hfin, hpost⟩
    obtain ⟨row, ho⟩ := inserts_iff_offer.mp hins
    refine ⟨(id, row), post.filterMap fun env => offer env msg, ?_, ?_, ?_⟩
    · apply List.filterMap_eq_cons_iff.mpr
      refine ⟨pre, env, post, rfl, ?_, ho, rfl⟩
      intro e he
      exact offer_eq_none_iff.mpr (hpre e he)
    · obtain ⟨hrun, hdef⟩ := offer_identity ho
      exact ⟨hrun, hdef, (offer_terminal_iff ho).mpr hfin⟩
    · intro y hy
      obtain ⟨e, he, hey⟩ := List.mem_filterMap.mp hy
      exact hpost e he y.1 (inserts_iff_offer.mpr ⟨y.2, hey⟩)

/-- In the bulk lane, where every delivery has an id of its own, the deliveries that
insert are the one that finishes. -/
theorem settledByFirst_bulk_iff {envs : List Env} (hbulk : msg.resultId = none)
    (hnodup : (envs.map Env.freshId).Nodup) :
    SettledByFirst msg envs ↔ ∃ pre env post, envs = pre ++ env :: post ∧ Finishes env msg ∧
      ∀ e ∈ pre ++ post, ∀ k, ¬ Inserts e msg k := by
  have hid : ∀ {e : Env} {k : Uuid}, Inserts e msg k → k = e.freshId := by
    rintro e k (⟨-, rfl⟩ | ⟨-, rfl⟩)
    · rfl
    · rw [resultId, hbulk]
      rfl
  constructor
  · rintro ⟨pre, env, post, id, rfl, hpre, hins, hfin, hpost⟩
    refine ⟨pre, env, post, rfl, hfin, ?_⟩
    intro e he k hk
    rcases List.mem_append.mp he with he | he
    · exact hpre e he k hk
    · have hsame : e.freshId = env.freshId := by
        rw [← hid hk, hpost e he k hk, hid hins]
      rw [List.map_append, List.map_cons] at hnodup
      have htail := (List.nodup_append.mp hnodup).2.1
      have hnot := (List.nodup_cons.mp htail).1
      rw [← hsame] at hnot
      exact hnot (List.mem_map_of_mem he)
  · rintro ⟨pre, env, post, rfl, hfin, hother⟩
    have hins : ∃ id, Inserts env msg id := by
      rcases hfin with hs | ⟨d, outcome, hs, -⟩
      · exact ⟨_, .inl ⟨hs, rfl⟩⟩
      · exact ⟨_, .inr ⟨⟨d, hs⟩, rfl⟩⟩
    obtain ⟨id, hins⟩ := hins
    refine ⟨pre, env, post, id, rfl, ?_, hins, hfin, ?_⟩
    · intro e he
      exact hother e (List.mem_append_left _ he)
    · intro e he k hk
      exact absurd hk (hother e (List.mem_append_right _ he) k)

/-- The worker stops while the test runs. -/
def stoppedEnv (freshId : Uuid) : Env :=
  workerEnv [graphqlTest] freshId fun site => if site = .runTest then some .stop else none

def passingEnv (freshId : Uuid) : Env := workerEnv [graphqlTest] freshId fun _ => none

/-- The command as an agent sends it. -/
def agentCommand : TestCommand := { bulkCommand with resultId := some "agent-res" }

theorem stopped_delivery_left :
    (consume (stoppedEnv "res-1") bulkCommand noResults).1 = .stopped ∧
    (consume (passingEnv "res-2") bulkCommand (deliver bulkCommand noResults [stoppedEnv "res-1"])).1 =
        .returned () ∧
    ((deliver bulkCommand noResults [stoppedEnv "res-1", passingEnv "res-2"]).results.lookup "res-1").map
        ResultRow.status = some .running ∧
    ¬ SettledOnce bulkCommand noResults
        (deliver bulkCommand noResults [stoppedEnv "res-1", passingEnv "res-2"]) ∧
    ¬ SettledOnce agentCommand noResults
        (deliver agentCommand noResults [stoppedEnv "res-1", passingEnv "res-2"]) := by
  refine ⟨rfl, rfl, rfl, ?_, ?_⟩
  · rintro ⟨k, r, -, hr, -, honly⟩
    have h1 : "res-1" = k := honly "res-1" (AList.lookup_isSome.mp rfl) (AList.notMem_empty _)
    have h2 : "res-2" = k := honly "res-2" (AList.lookup_isSome.mp rfl) (AList.notMem_empty _)
    have h12 : "res-1" = "res-2" := h1.trans h2.symm
    revert h12
    decide
  · rintro ⟨k, r, -, hr, ⟨-, -, hterm⟩, honly⟩
    have hk : "agent-res" = k := honly "agent-res" (AList.lookup_isSome.mp rfl) (AList.notMem_empty _)
    subst hk
    obtain rfl := Option.some.inj hr
    cases hterm

theorem settled_once_stopped_early :
    SettledOnce bulkCommand noResults (deliver bulkCommand noResults
      [workerEnv [graphqlTest] "res-1" fun site => if site = .cacheLock then some .stop else none,
        passingEnv "res-2"]) := by
  apply (settled_once_iff _).mpr
  · refine ⟨[_], passingEnv "res-2", [], "res-2", rfl, ?_, ?_, ?_, ?_⟩
    · intro e he
      obtain rfl := List.mem_singleton.mp he
      exact offer_eq_none_iff.mp rfl
    · exact inserts_iff_offer.mpr ⟨_, rfl⟩
    · exact (offer_terminal_iff (x := ("res-2", _)) rfl).mp rfl
    · intro e he
      cases he
  · intro env _
    exact ⟨AList.notMem_empty _, AList.notMem_empty _⟩

end ReleaseValidation.TestRunner.CommandTask
