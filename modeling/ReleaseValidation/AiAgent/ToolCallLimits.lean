import ReleaseValidation.AiAgent.AgentLoop

/-! # The limit on the tool calls of a session

The loop of `run` looks at the limit between two turns. What a single response asks for is
executed to its end, and the messages of a user are answered without a look at the limit.
-/
namespace ReleaseValidation.AiAgent.AgentLoop
open JsonTexts Runs

/-- The executor has been handed a call that it has not answered. -/
def Phase.inHand : Phase → ℕ
  | .executing _ => 1
  | _ => 0

/-- The calls of the current response that wait for the executor. -/
def Phase.waiting : Phase → ℕ
  | .executing e => e.pending.length
  | _ => 0

/-- The calls executed and those that will be, whatever the model says next. -/
def State.committed (s : State) : ℕ := s.toolCallCount + s.phase.waiting

def Act.asked : Act → ℕ
  | .response r => r.toolCalls.length
  | _ => 0

def Act.executed : Act → ℕ
  | .toolResult _ => 1
  | _ => 0

/-- A response asks for at most the calls that are left. -/
def AsksWithin (l : Config) (s : State) : Act → Prop
  | .response r => (r.toolCalls.length : ℤ) ≤ l.limits.maxToolCalls - s.toolCallCount
  | _ => True

instance decidableAsksWithin (l : Config) (s : State) : (a : Act) → Decidable (AsksWithin l s a)
  | .response r => inferInstanceAs (Decidable ((r.toolCalls.length : ℤ) ≤ l.limits.maxToolCalls - s.toolCallCount))
  | .run _ | .sendUserMessage _ | .turn _ | .summarised _ | .transient | .failed | .toolResult _ => isTrue trivial

variable {l : Config}

@[simp] theorem committed_idle (s : State) : ({ s with phase := .idle } : State).committed = s.toolCallCount := rfl

@[simp] theorem committed_send (s : State) (caller : Caller) (attempt : ℕ) :
    (s.send caller attempt).committed = s.toolCallCount := rfl

@[simp] theorem committed_streamTurn (s : State) (caller : Caller) :
    (s.streamTurn caller).committed = s.toolCallCount := rfl

@[simp] theorem committed_requestSummary (s : State) : s.requestSummary.committed = s.toolCallCount := rfl

@[simp] theorem inHand_requestSummary (s : State) : s.requestSummary.phase.inHand = 0 := rfl

theorem committed_loopTurn (s : State) : s.loopTurn.committed = s.toolCallCount := by
  obtain ⟨-, -, h⟩ | h := loopTurn_cases s <;> rw [h]
  · exact committed_requestSummary s
  · exact committed_streamTurn s _

theorem waiting_turnDone (s : State) (caller : Caller) (stop : StopReason) (newMessages : List Message) :
    (s.turnDone caller stop newMessages).phase.waiting = 0 ∧ (s.turnDone caller stop newMessages).phase.inHand = 0 := by
  obtain h | ⟨-, -, h⟩ := turnDone_phase s caller stop newMessages <;> rw [h] <;> exact ⟨rfl, rfl⟩

theorem committed_turnDone (s : State) (caller : Caller) (stop : StopReason) (newMessages : List Message) :
    (s.turnDone caller stop newMessages).committed = s.toolCallCount := by
  rw [State.committed, (waiting_turnDone s caller stop newMessages).1]
  rfl

theorem committed_received (s : State) (caller : Caller) (r : Response) :
    (s.received caller r).committed = s.toolCallCount + r.toolCalls.length := by
  cases h : r.toolCalls with
  | nil =>
    rw [received_nil h, committed_turnDone]
    rfl
  | cons tc tcs =>
    rw [received_cons h]
    exact Nat.add_right_comm s.toolCallCount 1 tcs.length

theorem committed_answered (s : State) (e : Execution) (content : Str) :
    (s.answered e content).committed = s.toolCallCount + e.pending.length := by
  cases h : e.pending with
  | nil =>
    rw [answered_nil h, committed_turnDone]
    rfl
  | cons tc tcs =>
    rw [answered_cons h]
    exact Nat.add_right_comm s.toolCallCount 1 tcs.length

theorem committed_of {s : State} {p : Phase} (h : s.phase = p) : s.committed = s.toolCallCount + p.waiting := by
  rw [State.committed, h]

/-- Calls are committed to by responses only. -/
theorem step_committed {s t : State} {a : Act} (h : step l s a = some t) : t.committed = s.committed + a.asked := by
  cases step_move h with
  | run initialMessage hp => exact (committed_of hp).symm
  | sendUserMessage text hp => exact (committed_of hp).symm
  | limitReached elapsed reason hp hover => exact (committed_of hp).symm
  | turn elapsed hp hover => exact (committed_loopTurn s).trans (committed_of hp).symm
  | summaryFailed hp => exact (committed_of hp).symm
  | summarised summary hp => exact (committed_of hp).symm
  | givenUp caller attempt hp hle => exact (committed_of hp).symm
  | retried caller attempt hp hlt => exact (committed_of hp).symm
  | failed caller attempt hp => exact (committed_of hp).symm
  | response caller attempt r hp =>
    exact (committed_received s caller r).trans (congrArg (· + r.toolCalls.length) (committed_of hp).symm)
  | toolResult e result hp => exact (committed_answered s e _).trans (committed_of hp).symm

theorem response_committed {s t : State} {r : Response} (h : step l s (.response r) = some t) :
    t.committed = s.toolCallCount + r.toolCalls.length := by
  cases step_move h with
  | response caller attempt r hp => exact committed_received s caller r

theorem exec_committed_mono {s t : State} {as : List Act} (h : exec (step l) s as = some t) :
    s.committed ≤ t.committed := by
  refine exec_invariant (I := fun u => s.committed ≤ u.committed) ?_ (Nat.le_refl _) h
  intro u a v hle hv
  rw [step_committed hv]
  exact Nat.le_add_right_of_le hle

/-- The calls committed to stay within the limit exactly if every response asks for at most the calls left. -/
theorem committed_le_iff {s t : State} {as : List Act} (h : exec (step l) s as = some t) :
    (t.committed : ℤ) ≤ l.limits.maxToolCalls ↔
      (s.committed : ℤ) ≤ l.limits.maxToolCalls ∧ Always (step l) (fun u a _ => AsksWithin l u a) s as := by
  constructor
  · intro hle
    refine ⟨(Int.ofNat_le.mpr (exec_committed_mono h)).trans hle, always_of_forall ?_⟩
    rintro pre a post u v rfl hu hv
    obtain ⟨u', hu', hpost⟩ := exec_append_iff.mp h
    cases hu.symm.trans hu'
    rw [exec_cons, hv] at hpost
    have hmono := exec_committed_mono hpost
    cases a with
    | response r =>
      rw [response_committed hv] at hmono
      change (r.toolCalls.length : ℤ) ≤ _
      omega
    | _ => exact trivial
  · rintro ⟨hs, hasks⟩
    refine exec_invariant_always (I := fun u => (u.committed : ℤ) ≤ l.limits.maxToolCalls) ?_ hs hasks h
    intro u a v hu hv hwithin
    cases a with
    | response r =>
      change (r.toolCalls.length : ℤ) ≤ _ at hwithin
      rw [response_committed hv]
      omega
    | _ =>
      rw [step_committed hv]
      exact hu

/-- The counter counts the calls that the executor has been handed. -/
theorem step_counted {s t : State} {a : Act} (h : step l s a = some t) :
    t.toolCallCount + s.phase.inHand = s.toolCallCount + a.executed + t.phase.inHand := by
  cases step_move h with
  | run initialMessage hp => rw [hp]; rfl
  | sendUserMessage text hp => rw [hp]; rfl
  | limitReached elapsed reason hp hover => rw [hp]; rfl
  | turn elapsed hp hover =>
    rw [hp]
    obtain ⟨-, -, hturn⟩ | hturn := loopTurn_cases s <;> rw [hturn] <;> rfl
  | summaryFailed hp => rw [hp]; rfl
  | summarised summary hp => rw [hp]; rfl
  | givenUp caller attempt hp hle => rw [hp]; rfl
  | retried caller attempt hp hlt => rw [hp]; rfl
  | failed caller attempt hp => rw [hp]; rfl
  | response caller attempt r hp =>
    rw [hp]
    cases hcalls : r.toolCalls with
    | nil =>
      rw [received_nil hcalls, (waiting_turnDone _ _ _ _).2]
      rfl
    | cons tc tcs =>
      rw [received_cons hcalls]
      rfl
  | toolResult e result hp =>
    rw [hp]
    cases hcalls : e.pending with
    | nil =>
      rw [answered_nil hcalls, (waiting_turnDone _ _ _ _).2]
      rfl
    | cons tc tcs =>
      rw [answered_cons hcalls]
      rfl

/-- The counter of a loop counts the calls that the executor has answered, and the one it has in hand. -/
theorem exec_counted {as : List Act} {t : State} (h : exec (step l) initial as = some t) :
    t.toolCallCount = (as.map Act.executed).sum + t.phase.inHand := by
  refine exec_history (P := fun as t => t.toolCallCount = (as.map Act.executed).sum + t.phase.inHand) rfl ?_ h
  intro as u a v _ hu hv
  have hstep := step_counted hv
  simp only [List.map_append, List.sum_append, List.map_singleton, List.sum_singleton]
  omega

/-- A run keeps to the limit if its responses do, and only then once none of their calls is waiting. -/
theorem tool_calls_within_iff (l : Config) {as : List Act} {t : State} (h : exec (step l) initial as = some t) :
    (0 ≤ l.limits.maxToolCalls ∧ Always (step l) (fun s a _ => AsksWithin l s a) initial as →
      (t.toolCallCount : ℤ) ≤ l.limits.maxToolCalls) ∧
    (t.phase.waiting = 0 → (t.toolCallCount : ℤ) ≤ l.limits.maxToolCalls →
      0 ≤ l.limits.maxToolCalls ∧ Always (step l) (fun s a _ => AsksWithin l s a) initial as) := by
  have hiff := committed_le_iff h
  unfold State.committed at hiff
  constructor
  · intro hwithin
    have hle := hiff.mpr hwithin
    omega
  · intro hwaiting hle
    rw [hwaiting] at hiff
    exact hiff.mp hle

/-- A response with this many calls of a tool. -/
def readLogs (n : ℕ) : Response where
  content := (List.range n).map fun i => .toolUse ⟨"call_" ++ toString i, "read_logs", []⟩
  stopReason := some .toolUse
  usage := ⟨900, 60, none, none⟩

/-- A session whose only response uses up its calls. -/
theorem two_calls_of_two : ∃ t,
    exec (step ⟨.autonomous, some 2, none, 5000⟩) initial
        [.run (str "Begin."), .turn 0, .response (readLogs 2), .toolResult .null, .toolResult .null, .turn 9] = some t ∧
      (t.toolCallCount : ℤ) ≤ 2 := by
  obtain ⟨t, ht⟩ : ∃ t, exec (step ⟨.autonomous, some 2, none, 5000⟩) initial
      [.run (str "Begin."), .turn 0, .response (readLogs 2), .toolResult .null, .toolResult .null, .turn 9] = some t :=
    Option.isSome_iff_exists.mp (by decide +kernel)
  exact ⟨t, ht, (tool_calls_within_iff _ ht).1 (by decide +kernel)⟩

/-- The first response of an autonomous session asks for 51 calls, and all of them are executed. -/
theorem fifty_one_calls_of_fifty :
    ¬ ∀ (l : Config) (as : List Act) (t : State), exec (step l) initial as = some t →
      (t.toolCallCount : ℤ) ≤ l.limits.maxToolCalls := by
  intro h
  have hrun : (exec (step ⟨.autonomous, none, none, 5000⟩) initial
      ([.run (str "Begin."), .turn 0, .response (readLogs 51)] ++ List.replicate 51 (.toolResult .null))).map
        State.toolCallCount = some 51 := by decide +kernel
  obtain ⟨t, ht, hcount⟩ := Option.map_eq_some_iff.mp hrun
  have hle := h _ _ t ht
  rw [hcount] at hle
  exact absurd hle (by decide)

end ReleaseValidation.AiAgent.AgentLoop
