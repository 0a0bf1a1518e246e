import ReleaseValidation.AiAgent.CachedRequests

/-! # Conversations that are summarised

When the context grows too large, all but the last four messages are replaced by a summary of
them. Beside the loop we keep the whole conversation, as it would be without summaries: what
the loop holds is the latest summary and the rest of the conversation, and what it no longer
holds was in the request for a summary that it keeps.
-/
namespace ReleaseValidation.AiAgent.AgentLoop
open JsonTexts Runs

variable (l : Config)

/-- The messages that an action adds to the conversation. -/
def additions (s : State) : Act → List Message
  | .run initialMessage => [Message.user initialMessage]
  | .sendUserMessage text => [Message.user text]
  | .response r =>
    match s.phase, r.toolCalls with
    | .streaming _ _, [] => [⟨.assistant, .blocks r.assistantContent⟩]
    | _, _ => []
  | .toolResult result =>
    match s.phase with
    | .executing e =>
      match e.pending with
      | [] => [⟨.assistant, .blocks e.assistantContent⟩, ⟨.user, .blocks (e.toolResults ++
          [.plain (.toolResult e.current.id (boundedToolContent l.toolResultMaxChars result))])⟩]
      | _ :: _ => []
    | _ => []
  | _ => []

/-- The whole conversation after an action. `run` begins a new one. -/
def converse (said : List Message) (s : State) : Act → List Message
  | .run initialMessage => [Message.user initialMessage]
  | a => said ++ (additions l s a).map Message.unmarked

/-- The two messages that stand for what has been summarised. -/
def summaryMessages (summary : Str) : List Message :=
  [Message.user (str "[Context summary from earlier in this session]\n" ++ summary),
    ⟨.assistant, .text (str "Understood. I'll continue from where we left off.")⟩]

/-- The messages of `front` stand for those of `taken`: each summary was asked for with the
messages that stood for the earlier ones, and the messages that followed. -/
inductive Stands (sent : List (List Message)) : List Message → List Str → List Message → Prop
  | whole : Stands sent [] [] []
  | summary {taken chunk front toSummarise : List Message} {summaries : List Str} (text : Str) :
    Stands sent taken summaries front → toSummarise.map Message.unmarked = front ++ chunk →
    [Message.user (summaryPrompt toSummarise)] ∈ sent →
    Stands sent (taken ++ chunk) (summaries ++ [text]) (summaryMessages text)

/-- The loop holds a summary of the conversation's first part, and the rest of it. -/
structure Abridges (s : State) (said taken rest : List Message) (summaries : List Str) (front : List Message) :
    Prop where
  said : said = taken ++ rest
  messages : s.messages.map Message.unmarked = front ++ rest
  recorded : summaries <:+ s.compressionSummaries.map Prod.snd
  front : Stands s.sent taken summaries front
  kept : taken = [] ∨ 4 ≤ rest.length

/-! ### The transcript -/

mutual

/-- `_clean`. -/
def clean : Value → Value
  | .obj fields => .obj (cleanFields fields)
  | .arr items => .arr (cleanItems items)
  | v => v

def cleanItems : List Value → List Value
  | [] => []
  | v :: vs => clean v :: cleanItems vs

def cleanFields : List (Str × Value) → List (Str × Value)
  | [] => []
  | (k, v) :: fs => if k = str "cache_control" then cleanFields fs else (k, clean v) :: cleanFields fs

end

structure Transcript where
  messages : Option Value
  tailRaw : Option Str
  truncated : Bool
  compressionSummaries : List (ℕ × Str)

/-- `transcript`. -/
def transcript (maxChars : ℕ) (s : State) : Transcript :=
  let msgs := clean (.arr (s.messages.map Message.toValue))
  let text := points (dump msgs)
  let truncated := decide (maxChars < text.length)
  { messages := if truncated then none else some msgs
    tailRaw := if truncated then some (lastChars maxChars text) else none
    truncated := truncated
    compressionSummaries := s.compressionSummaries }

variable {l}

theorem cleanFields_append (fs gs : List (Str × Value)) : cleanFields (fs ++ gs) = cleanFields fs ++ cleanFields gs := by
  induction fs with
  | nil => rfl
  | cons f fs ih =>
    obtain ⟨k, v⟩ := f
    rw [List.cons_append, cleanFields, cleanFields]
    split
    next => exact ih
    next => rw [ih, List.cons_append]

theorem cleanItems_eq_map (vs : List Value) : cleanItems vs = vs.map clean := by
  induction vs with
  | nil => rfl
  | cons v vs ih => rw [cleanItems, ih, List.map_cons]

theorem clean_block (b : Block) : clean b.toValue = clean b.unmarked.toValue := by
  rw [Block.toValue, Block.toValue, clean, clean, cleanFields_append, cleanFields_append]
  cases b.cached with
  | false => rfl
  | true =>
    rw [if_pos rfl, cleanFields, if_pos rfl]
    rfl

/-- The marks leave no trace in the transcript. -/
theorem clean_toValue (m : Message) : clean m.toValue = clean m.unmarked.toValue := by
  obtain ⟨role, content⟩ := m
  cases content with
  | text s => rfl
  | blocks bs =>
    have hitems : cleanItems (bs.map Block.toValue) = cleanItems ((bs.map Block.unmarked).map Block.toValue) := by
      rw [cleanItems_eq_map, cleanItems_eq_map, List.map_map, List.map_map, List.map_map]
      exact List.map_congr_left fun b _ => clean_block b
    change clean (.obj [(_, _), (_, .arr (bs.map Block.toValue))]) =
      clean (.obj [(_, _), (_, .arr ((bs.map Block.unmarked).map Block.toValue))])
    simp only [clean, cleanFields, hitems]
    rfl

theorem clean_messages (ms : List Message) :
    clean (.arr (ms.map Message.toValue)) = clean (.arr ((ms.map Message.unmarked).map Message.toValue)) := by
  rw [clean, clean, cleanItems_eq_map, cleanItems_eq_map, List.map_map, List.map_map, List.map_map]
  exact congrArg Value.arr (List.map_congr_left fun m _ => clean_toValue m)

/-! ### One step -/

section Steps
variable {s t : State} {said taken rest : List Message} {summaries : List Str} {front : List Message}

theorem Stands.mono {sent sent' : List (List Message)} (h : Stands sent taken summaries front) (hsent : sent <+: sent') :
    Stands sent' taken summaries front := by
  induction h with
  | whole => exact .whole
  | summary text _ hchunk hmem ih => exact .summary text ih hchunk (hsent.subset hmem)

/-- What the loop holds, and that the summary it waits for is one of its messages. -/
structure Held (s : State) (said : List Message) : Prop where
  abridges : ∃ taken rest summaries front, Abridges s said taken rest summaries front
  asked : s.phase = .summarising →
    [Message.user (summaryPrompt (s.messages.take (s.messages.length - 4)))] ∈ s.sent ∧ 6 < s.messages.length

/-- The messages grow as the conversation does. -/
theorem Abridges.grow {more : List Message} (h : Abridges s said taken rest summaries front)
    (hmessages : t.messages.map Message.unmarked = s.messages.map Message.unmarked ++ more.map Message.unmarked)
    (hsummaries : t.compressionSummaries = s.compressionSummaries) (hsent : s.sent <+: t.sent) :
    Abridges t (said ++ more.map Message.unmarked) taken (rest ++ more.map Message.unmarked) summaries front where
  said := by rw [h.said, List.append_assoc]
  messages := by rw [hmessages, h.messages, List.append_assoc]
  recorded := hsummaries ▸ h.recorded
  front := h.front.mono hsent
  kept := h.kept.imp id fun hle => by
    rw [List.length_append]
    omega

theorem Held.grow {more : List Message} (h : Held s said)
    (hmessages : t.messages.map Message.unmarked = s.messages.map Message.unmarked ++ more.map Message.unmarked)
    (hsummaries : t.compressionSummaries = s.compressionSummaries) (hsent : s.sent <+: t.sent)
    (hphase : t.phase ≠ .summarising) : Held t (said ++ more.map Message.unmarked) := by
  obtain ⟨taken, rest, summaries, front, ha⟩ := h.abridges
  exact ⟨⟨taken, _, summaries, front, ha.grow hmessages hsummaries hsent⟩, fun hp => absurd hp hphase⟩

theorem Held.same (h : Held s said) (hmessages : t.messages.map Message.unmarked = s.messages.map Message.unmarked)
    (hsummaries : t.compressionSummaries = s.compressionSummaries) (hsent : s.sent <+: t.sent)
    (hphase : t.phase ≠ .summarising) : Held t (said ++ ([] : List Message).map Message.unmarked) :=
  h.grow (by rw [hmessages, List.map_nil, List.append_nil]) hsummaries hsent hphase

theorem Stands.length_front {sent : List (List Message)} (h : Stands sent taken summaries front) : front.length ≤ 2 := by
  cases h with
  | whole => exact Nat.zero_le 2
  | summary => exact Nat.le_refl 2

/-- A summary takes the place of all but the last four messages. -/
theorem Held.compressed (h : Held s said) (hphase : s.phase = .summarising) (summary : Str) :
    ∃ taken rest summaries front, Abridges (s.compressed summary) said taken rest summaries front := by
  obtain ⟨hprompt, hlen⟩ := h.asked hphase
  obtain ⟨taken, rest, summaries, front, ha⟩ := h.abridges
  have hfront := ha.front.length_front
  have hlength : s.messages.length = front.length + rest.length := by
    have hmap := congrArg List.length ha.messages
    rwa [List.length_map, List.length_append] at hmap
  have hsplit : s.messages.length - 4 = front.length + (rest.length - 4) := by omega
  refine ⟨taken ++ rest.take (rest.length - 4), rest.drop (rest.length - 4), summaries ++ [summary],
    summaryMessages summary, ?_, ?_, ?_, ?_, ?_⟩
  · rw [ha.said, List.append_assoc, List.take_append_drop]
  · have hdrop : (s.messages.drop (s.messages.length - 4)).map Message.unmarked = rest.drop (rest.length - 4) := by
      rw [List.map_drop, ha.messages, hsplit, List.drop_append, List.drop_of_length_le (Nat.le_add_right _ _),
        List.nil_append, Nat.add_sub_cancel_left]
    exact congrArg (summaryMessages summary ++ ·) hdrop
  · obtain ⟨earlier, hearlier⟩ := ha.recorded
    refine ⟨earlier, ?_⟩
    rw [State.compressed, List.map_append, ← hearlier, List.append_assoc]
    rfl
  · refine .summary summary ha.front ?_ hprompt
    rw [List.map_take, ha.messages, hsplit, List.take_append, List.take_of_length_le (Nat.le_add_right _ _),
      Nat.add_sub_cancel_left]
  · refine .inr ?_
    rw [List.length_drop]
    omega

theorem held_streamTurn {more : List Message} {caller : Caller}
    (h : ∃ taken rest summaries front, Abridges s said taken rest summaries front) :
    Held ({ s with messages := s.messages ++ more }.streamTurn caller) (said ++ more.map Message.unmarked) := by
  obtain ⟨taken, rest, summaries, front, ha⟩ := h
  refine ⟨⟨taken, _, summaries, front, ha.grow ?_ rfl (List.prefix_append _ _)⟩, by rintro ⟨⟩⟩
  rw [← List.map_append]
  exact map_unmarked_applyMessageCacheBreakpoint _

theorem held_nextTurn {caller : Caller} (h : ∃ taken rest summaries front, Abridges s said taken rest summaries front) :
    Held (s.streamTurn caller) (said ++ ([] : List Message).map Message.unmarked) := by
  have hturn : Held ({ s with messages := s.messages ++ [] }.streamTurn caller) (said ++ ([] : List Message).map _) :=
    held_streamTurn h
  simpa only [List.append_nil] using hturn

theorem Held.received (h : Held s said) {caller : Caller} {attempt : ℕ} {r : Response}
    (hphase : s.phase = .streaming caller attempt) :
    Held (s.received caller r) (said ++ (additions l s (.response r)).map Message.unmarked) := by
  cases hr : r.toolCalls with
  | nil =>
    have hadd : additions l s (.response r) = [⟨.assistant, .blocks r.assistantContent⟩] := by
      simp only [additions, hphase, hr]
    rw [hadd, received_nil hr]
    refine h.grow (List.map_append ..) rfl List.prefix_rfl ?_
    rcases turnDone_phase (s.accounted r.usage) caller r.stop _ with hp | ⟨-, -, hp⟩
    · exact fun hs => by cases hp.symm.trans hs
    · exact fun hs => by cases hp.symm.trans hs
  | cons tc tcs =>
    have hadd : additions l s (.response r) = [] := by simp only [additions, hphase, hr]
    rw [hadd, received_cons hr]
    exact h.same rfl rfl List.prefix_rfl nofun

theorem Held.answered (h : Held s said) {e : Execution} {result : Value} (hphase : s.phase = .executing e) :
    Held (s.answered e (boundedToolContent l.toolResultMaxChars result))
      (said ++ (additions l s (.toolResult result)).map Message.unmarked) := by
  cases he : e.pending with
  | nil =>
    have hadd : additions l s (.toolResult result) = [⟨.assistant, .blocks e.assistantContent⟩,
        ⟨.user, .blocks (e.toolResults ++
          [.plain (.toolResult e.current.id (boundedToolContent l.toolResultMaxChars result))])⟩] := by
      simp only [additions, hphase, he]
    rw [hadd, answered_nil he]
    refine h.grow (List.map_append ..) rfl List.prefix_rfl ?_
    rcases turnDone_phase s e.caller e.stop _ with hp | ⟨-, -, hp⟩
    · exact fun hs => by cases hp.symm.trans hs
    · exact fun hs => by cases hp.symm.trans hs
  | cons tc tcs =>
    have hadd : additions l s (.toolResult result) = [] := by simp only [additions, hphase, he]
    rw [hadd, answered_cons he]
    exact h.same rfl rfl List.prefix_rfl nofun

theorem Held.step {a : Act} (h : Held s said) (hstep : step l s a = some t) : Held t (converse l said s a) := by
  have hidle : Held { s with phase := .idle } (said ++ ([] : List Message).map Message.unmarked) :=
    h.same rfl rfl List.prefix_rfl nofun
  cases step_move hstep with
  | run initialMessage hphase =>
    refine ⟨⟨[], [Message.user initialMessage], [], [], rfl, rfl, List.nil_suffix, .whole, .inl rfl⟩, nofun⟩
  | sendUserMessage text hphase => exact held_streamTurn h.abridges
  | limitReached elapsed reason hphase hover => exact hidle
  | turn elapsed hphase hover =>
    rcases loopTurn_cases s with ⟨-, hlen, heq⟩ | heq
    · rw [heq]
      obtain ⟨taken, rest, summaries, front, ha⟩ := h.abridges
      have hgrown : Abridges s.requestSummary (said ++ ([] : List Message).map Message.unmarked) taken _ summaries front :=
        ha.grow (List.append_nil _).symm rfl (List.prefix_append _ _)
      exact ⟨⟨taken, _, summaries, front, hgrown⟩, fun _ => ⟨List.mem_append_right _ (List.mem_singleton.mpr rfl), hlen⟩⟩
    · rw [heq]
      exact held_nextTurn h.abridges
  | summaryFailed hphase => exact hidle
  | summarised summary hphase => exact held_nextTurn (h.compressed hphase summary)
  | givenUp caller attempt hphase hlast => exact hidle
  | retried caller attempt hphase hmore => exact h.same rfl rfl (List.prefix_append _ _) nofun
  | failed caller attempt hphase => exact hidle
  | response caller attempt r hphase => exact h.received hphase
  | toolResult e result hphase => exact h.answered hphase

end Steps

/-- A response that calls one tool and fills the context. -/
def callingResponse (id : String) : Response :=
  ⟨[.toolUse ⟨id, "get_status", []⟩], some .toolUse, ⟨170000, 20, none, none⟩⟩

def callingTurn (id : String) : List Act := [.turn 0, .response (callingResponse id), .toolResult .null]

/-- Three turns that call a tool, and a summary. -/
def summarisedTalk : List Act :=
  .run (str "start") :: (callingTurn "a" ++ callingTurn "b" ++ callingTurn "c" ++ [.turn 0, .summarised (some (str "all well"))])

end ReleaseValidation.AiAgent.AgentLoop
