import ReleaseValidation.AiAgent.Conversations

/-! # What the cache of the model may keep

The system prompt and the last tool schema carry a mark for the model's cache, and before each
turn one more mark moves to the last block of the messages. A request is served from the cache
as far as it repeats an earlier one, so a conversation has to grow at its end only.
-/
namespace ReleaseValidation.AiAgent.AgentLoop
open JsonTexts Runs

/-- A tool schema: its name, the rest of its definition, and whether it carries `cache_control`. -/
structure ToolSchema where
  name : String
  definition : List (Str × Value)
  cached : Bool

/-- `_system_blocks`. -/
def systemBlocks (systemPrompt : Str) : List Block := [⟨.text systemPrompt, true⟩]

/-- `_tools`, of the tools of the mode. -/
def toolSchemas (base : List ToolSchema) (excludeTools : List String) : List ToolSchema :=
  let tools := base.filter fun t => !excludeTools.contains t.name
  match tools.getLast? with
  | none => tools
  | some t => tools.dropLast ++ [{ t with cached := true }]

namespace Block

def unmarked (b : Block) : Block := { b with cached := false }

end Block

namespace Message

def unmarked (m : Message) : Message := m.mapBlocks (List.map Block.unmarked)

end Message

/-- The blocks of the messages, one after the other. -/
def allBlocks (ms : List Message) : List Block := ms.flatMap Message.blocks

/-- The marks of a request of `_stream_turn`. -/
def marks (systemPrompt : Str) (tools : List ToolSchema) (ms : List Message) : ℕ :=
  (systemBlocks systemPrompt).countP Block.cached + tools.countP ToolSchema.cached + (allBlocks ms).countP Block.cached

/-- The second request repeats the first one, marks aside. -/
def Repeats (ms ms' : List Message) : Prop := ms.map Message.unmarked <+: ms'.map Message.unmarked

/-! ### The marks of one request -/

theorem markLastBlock_eq (bs : List Block) (b : Block) : markLastBlock (bs ++ [b]) = bs ++ [{ b with cached := true }] := by
  induction bs with
  | nil => rfl
  | cons c bs ih =>
    cases bs with
    | nil => rfl
    | cons d bs => exact congrArg (c :: ·) ih

theorem blocks_mapBlocks {f : List Block → List Block} (hf : f [] = []) (m : Message) :
    (m.mapBlocks f).blocks = f m.blocks := by
  obtain ⟨role, content⟩ := m
  cases content with
  | text s => exact hf.symm
  | blocks bs => rfl

theorem allBlocks_unmarked (ms : List Message) : allBlocks (ms.map Message.unmarked) = (allBlocks ms).map Block.unmarked := by
  rw [allBlocks, allBlocks, List.flatMap_map, List.map_flatMap]
  exact List.flatMap_congr fun m _ => blocks_mapBlocks rfl m

theorem markLastBlock_append {bs cs : List Block} (h : cs ≠ []) : markLastBlock (bs ++ cs) = bs ++ markLastBlock cs := by
  obtain ⟨cs, c, rfl⟩ := (List.eq_nil_or_concat' cs).resolve_left h
  rw [← List.append_assoc, markLastBlock_eq, markLastBlock_eq, List.append_assoc]

/-- The mark goes to the last block of all, if there is any. -/
theorem markLatest_blocks (ms : List Message) :
    match markLatest ms with
    | some ms' => allBlocks ms ≠ [] ∧ allBlocks ms' = markLastBlock (allBlocks ms)
    | none => allBlocks ms = [] := by
  induction ms with
  | nil => rfl
  | cons m ms ih =>
    rw [markLatest]
    cases h : markLatest ms with
    | some ms' =>
      rw [h] at ih
      obtain ⟨hne, heq⟩ := ih
      refine ⟨List.append_ne_nil_of_right_ne_nil _ hne, ?_⟩
      exact (congrArg (m.blocks ++ ·) heq).trans (markLastBlock_append hne).symm
    | none =>
      rw [h] at ih
      have hms : allBlocks (m :: ms) = m.blocks := (congrArg (m.blocks ++ ·) ih).trans (List.append_nil _)
      by_cases hm : m.blocks = []
      · simp only [hm, ↓reduceIte]
        exact hms.trans hm
      · simp only [hm, ↓reduceIte]
        refine ⟨by rwa [hms], ?_⟩
        have hblocks : allBlocks (m.mapBlocks markLastBlock :: ms) = markLastBlock m.blocks ++ allBlocks ms :=
          congrArg (· ++ allBlocks ms) (blocks_mapBlocks rfl m)
        rw [hblocks, ih, List.append_nil, hms]

/-- A request of a turn carries its messages' blocks with one mark, on the last of them. -/
theorem allBlocks_applyMessageCacheBreakpoint (ms : List Message) :
    allBlocks (applyMessageCacheBreakpoint ms) = markLastBlock ((allBlocks ms).map Block.unmarked) := by
  have hmark := markLatest_blocks (ms.map Message.unmarked)
  rw [allBlocks_unmarked] at hmark
  change allBlocks ((markLatest (ms.map Message.unmarked)).getD (ms.map Message.unmarked)) = _
  cases h : markLatest (ms.map Message.unmarked) with
  | some ms' =>
    rw [h] at hmark
    exact hmark.2
  | none =>
    rw [h] at hmark
    simp only at hmark
    rw [Option.getD_none, allBlocks_unmarked, hmark]
    rfl

theorem countP_markLastBlock_unmarked (bs : List Block) :
    (markLastBlock (bs.map Block.unmarked)).countP Block.cached = if bs = [] then 0 else 1 := by
  have hzero : ∀ cs : List Block, (cs.map Block.unmarked).countP Block.cached = 0 := fun cs => by
    simp [List.countP_eq_zero, Block.unmarked]
  rcases List.eq_nil_or_concat' bs with rfl | ⟨cs, b, rfl⟩
  · rfl
  · rw [List.map_append, List.map_singleton, markLastBlock_eq, List.countP_append, hzero]
    simp

theorem markLastBlock_dropLast (bs : List Block) :
    (markLastBlock (bs.map Block.unmarked)).dropLast = bs.dropLast.map Block.unmarked := by
  rcases List.eq_nil_or_concat' bs with rfl | ⟨cs, b, rfl⟩
  · rfl
  · rw [List.map_append, List.map_singleton, markLastBlock_eq, List.dropLast_concat, List.dropLast_concat]

theorem map_unmarked_markLastBlock (bs : List Block) : (markLastBlock bs).map Block.unmarked = bs.map Block.unmarked := by
  rcases List.eq_nil_or_concat' bs with rfl | ⟨cs, b, rfl⟩
  · rfl
  · rw [markLastBlock_eq, List.map_append, List.map_append]
    rfl

theorem unmarked_mapBlocks {f : List Block → List Block}
    (hf : ∀ bs, (f bs).map Block.unmarked = bs.map Block.unmarked) (m : Message) :
    (m.mapBlocks f).unmarked = m.unmarked := by
  obtain ⟨role, content⟩ := m
  cases content with
  | text s => rfl
  | blocks bs => exact congrArg (fun bs => (⟨role, .blocks bs⟩ : Message)) (hf bs)

theorem map_unmarked_markLatest {ms ms' : List Message} (h : markLatest ms = some ms') :
    ms'.map Message.unmarked = ms.map Message.unmarked := by
  induction ms generalizing ms' with
  | nil => cases h
  | cons m ms ih =>
    rw [markLatest] at h
    split at h
    next ms'' hms =>
      cases h
      exact congrArg (m.unmarked :: ·) (ih hms)
    next =>
      split at h
      next => cases h
      next =>
        cases h
        exact congrArg (· :: ms.map Message.unmarked) (unmarked_mapBlocks map_unmarked_markLastBlock m)

theorem unmarked_unmarked (ms : List Message) :
    (ms.map Message.unmarked).map Message.unmarked = ms.map Message.unmarked := by
  rw [List.map_map]
  refine List.map_congr_left fun m _ => unmarked_mapBlocks (fun bs => ?_) m
  simp [Block.unmarked]

theorem map_unmarked_applyMessageCacheBreakpoint (ms : List Message) :
    (applyMessageCacheBreakpoint ms).map Message.unmarked = ms.map Message.unmarked := by
  change ((markLatest (ms.map Message.unmarked)).getD (ms.map Message.unmarked)).map Message.unmarked = _
  cases h : markLatest (ms.map Message.unmarked) with
  | some ms' => exact (map_unmarked_markLatest h).trans (unmarked_unmarked ms)
  | none => exact unmarked_unmarked ms

theorem countP_toolSchemas {base : List ToolSchema} (hbase : ∀ t ∈ base, t.cached = false) (excludeTools : List String) :
    (toolSchemas base excludeTools).countP ToolSchema.cached ≤ 1 := by
  have hzero : ∀ ts : List ToolSchema, (∀ t ∈ ts, t ∈ base) → ts.countP ToolSchema.cached = 0 := by
    intro ts hts
    rw [List.countP_eq_zero]
    intro t ht
    simp [hbase t (hts t ht)]
  have hmem : ∀ t ∈ base.filter fun t => !excludeTools.contains t.name, t ∈ base := fun t ht => List.mem_of_mem_filter ht
  unfold toolSchemas
  dsimp only
  split
  next =>
    rw [hzero _ hmem]
    exact Nat.zero_le 1
  next =>
    rw [List.countP_append, hzero _ fun t ht => hmem t (List.dropLast_subset _ ht)]
    rfl

/-! ### The requests of a run -/

/-- The state after a response or a tool result: nothing is sent, and the messages have grown. -/
structure Quiet (s t : State) : Prop where
  sent : t.sent = s.sent
  grows : s.messages <+: t.messages
  settled : ∀ caller attempt, t.phase ≠ .streaming caller attempt

theorem quiet_turnDone (s : State) (caller : Caller) (stop : StopReason) (newMessages : List Message) :
    Quiet s (s.turnDone caller stop newMessages) where
  sent := rfl
  grows := List.prefix_append _ _
  settled caller' attempt h := by
    rcases turnDone_phase s caller stop newMessages with hidle | ⟨-, -, hturn⟩
    · cases hidle.symm.trans h
    · cases hturn.symm.trans h

theorem quiet_received (s : State) (caller : Caller) (r : Response) : Quiet s (s.received caller r) := by
  cases h : r.toolCalls with
  | nil =>
    rw [received_nil h]
    have hq := quiet_turnDone (s.accounted r.usage) caller r.stop [⟨.assistant, .blocks r.assistantContent⟩]
    exact ⟨hq.sent, hq.grows, hq.settled⟩
  | cons tc tcs =>
    rw [received_cons h]
    exact ⟨rfl, List.prefix_rfl, by rintro _ _ ⟨⟩⟩

theorem quiet_answered (s : State) (e : Execution) (content : Str) : Quiet s (s.answered e content) := by
  cases h : e.pending with
  | nil =>
    rw [answered_nil h]
    exact quiet_turnDone s e.caller e.stop _
  | cons tc tcs =>
    rw [answered_cons h]
    exact ⟨rfl, List.prefix_rfl, by rintro _ _ ⟨⟩⟩

/-- What is sent in a turn. -/
def Prepared (ms : List Message) : Prop := ∃ ms₀, ms = applyMessageCacheBreakpoint ms₀

structure Requests (s : State) : Prop where
  sent : ∀ ms ∈ s.sent, Prepared ms ∨ ∃ text, ms = [Message.user text]
  streaming : ∀ caller attempt, s.phase = .streaming caller attempt → Prepared s.messages

theorem Requests.of_quiet {s t : State} (h : Requests s) (hq : Quiet s t) : Requests t :=
  ⟨hq.sent ▸ h.sent, fun caller attempt hphase => absurd hphase (hq.settled caller attempt)⟩

theorem Requests.idle {s : State} (h : Requests s) : Requests { s with phase := .idle } := ⟨h.sent, by rintro _ _ ⟨⟩⟩

theorem Requests.send {s : State} (hsent : ∀ ms ∈ s.sent, Prepared ms ∨ ∃ text, ms = [Message.user text])
    (hms : Prepared s.messages) (caller : Caller) (attempt : ℕ) : Requests (s.send caller attempt) where
  sent := List.forall_mem_append.mpr ⟨hsent, List.forall_mem_singleton.mpr (.inl hms)⟩
  streaming _ _ _ := hms

theorem Requests.step {l : Config} {s t : State} {a : Act} (h : Requests s) (hstep : step l s a = some t) : Requests t := by
  have hturn : ∀ (u : State) caller, u.sent = s.sent → Requests (u.streamTurn caller) := fun u caller hu =>
    Requests.send (s := { u with messages := applyMessageCacheBreakpoint u.messages }) (hu ▸ h.sent) ⟨_, rfl⟩ caller 0
  cases step_move hstep with
  | run initialMessage hphase => exact ⟨h.sent, by rintro _ _ ⟨⟩⟩
  | sendUserMessage text hphase => exact hturn _ _ rfl
  | limitReached elapsed reason hphase hover => exact h.idle
  | turn elapsed hphase hover =>
    rcases loopTurn_cases s with ⟨-, -, heq⟩ | heq
    · rw [heq]
      refine ⟨List.forall_mem_append.mpr ⟨h.sent, List.forall_mem_singleton.mpr (.inr ⟨_, rfl⟩)⟩, ?_⟩
      rintro _ _ ⟨⟩
    · rw [heq]
      exact hturn s .run rfl
  | summaryFailed hphase => exact h.idle
  | summarised summary hphase => exact hturn _ _ rfl
  | givenUp caller attempt hphase hlast => exact h.idle
  | retried caller attempt hphase hmore => exact Requests.send h.sent (h.streaming caller attempt hphase) caller _
  | failed caller attempt hphase => exact h.idle
  | response caller attempt r hphase => exact h.of_quiet (quiet_received s caller r)
  | toolResult e result hphase => exact h.of_quiet (quiet_answered s e _)

theorem requests_initial : Requests initial := ⟨fun _ hms => absurd hms List.not_mem_nil, by rintro _ _ ⟨⟩⟩

theorem marked_of_request {ms : List Message} (h : Prepared ms ∨ ∃ text, ms = [Message.user text]) :
    (allBlocks ms).countP Block.cached ≤ 1 ∧ ∀ b ∈ (allBlocks ms).dropLast, b.cached = false := by
  rcases h with ⟨ms₀, rfl⟩ | ⟨text, rfl⟩
  · rw [allBlocks_applyMessageCacheBreakpoint, countP_markLastBlock_unmarked, markLastBlock_dropLast]
    refine ⟨by split <;> simp, fun b hb => ?_⟩
    obtain ⟨c, -, rfl⟩ := List.mem_map.mp hb
    rfl
  · simp [allBlocks, Message.user, Message.blocks]

/-! ### Requests that repeat earlier ones -/

/-- No new conversation is begun, and none is summarised. -/
def Undisturbed (s : State) (a : Act) (t : State) : Prop :=
  (∀ initialMessage, a ≠ .run initialMessage) ∧ s.phase ≠ .summarising ∧ t.phase ≠ .summarising

/-- The state after a step that continues the conversation. -/
structure Continued (s t : State) : Prop where
  grows : Repeats s.messages t.messages
  sent : t.sent = s.sent ∨ t.sent = s.sent ++ [t.messages]

theorem Repeats.refl (ms : List Message) : Repeats ms ms := List.prefix_rfl

theorem Repeats.trans {ms ms' ms'' : List Message} (h : Repeats ms ms') (h' : Repeats ms' ms'') : Repeats ms ms'' :=
  List.IsPrefix.trans h h'

theorem continued_of_quiet {s t : State} (h : Quiet s t) : Continued s t :=
  ⟨h.grows.map Message.unmarked, .inl h.sent⟩

theorem continued_streamTurn (s : State) (more : List Message) (caller : Caller) :
    Continued s ({ s with messages := s.messages ++ more }.streamTurn caller) := by
  refine ⟨?_, .inr rfl⟩
  change s.messages.map Message.unmarked <+: (applyMessageCacheBreakpoint (s.messages ++ more)).map Message.unmarked
  rw [map_unmarked_applyMessageCacheBreakpoint, List.map_append]
  exact List.prefix_append _ _

theorem continued_step {l : Config} {s t : State} {a : Act} (hstep : step l s a = some t) (hcalm : Undisturbed s a t) :
    Continued s t := by
  have hidle : Continued s { s with phase := .idle } := ⟨.refl _, .inl rfl⟩
  obtain ⟨hrun, hs, ht⟩ := hcalm
  cases step_move hstep with
  | run initialMessage hphase => exact absurd rfl (hrun initialMessage)
  | sendUserMessage text hphase => exact continued_streamTurn s _ _
  | limitReached elapsed reason hphase hover => exact hidle
  | turn elapsed hphase hover =>
    rcases loopTurn_cases s with ⟨-, -, heq⟩ | heq
    · rw [heq] at ht
      exact absurd rfl ht
    · rw [heq]
      have hturn := continued_streamTurn s [] .run
      simpa only [List.append_nil] using hturn
  | summaryFailed hphase => exact hidle
  | summarised summary hphase => exact absurd hphase hs
  | givenUp caller attempt hphase hlast => exact hidle
  | retried caller attempt hphase hmore => exact ⟨.refl _, .inr rfl⟩
  | failed caller attempt hphase => exact hidle
  | response caller attempt r hphase => exact continued_of_quiet (quiet_received s caller r)
  | toolResult e result hphase => exact continued_of_quiet (quiet_answered s e _)

/-- The requests since some state: each repeats the earlier ones, and the messages repeat them all. -/
structure Repeating (s₀ s : State) : Prop where
  grows : Repeats s₀.messages s.messages
  sent : ∃ new, s.sent = s₀.sent ++ new ∧ new.Pairwise Repeats ∧
    ∀ ms ∈ new, Repeats s₀.messages ms ∧ Repeats ms s.messages

theorem Repeating.step {s₀ s t : State} (h : Repeating s₀ s) (hc : Continued s t) : Repeating s₀ t := by
  obtain ⟨new, hnew, hpair, hall⟩ := h.sent
  refine ⟨h.grows.trans hc.grows, ?_⟩
  rcases hc.sent with hsent | hsent
  · refine ⟨new, hsent.trans hnew, hpair, fun ms hms => ?_⟩
    exact ⟨(hall ms hms).1, (hall ms hms).2.trans hc.grows⟩
  · refine ⟨new ++ [t.messages], by rw [hsent, hnew, List.append_assoc], ?_, ?_⟩
    · refine List.pairwise_append.mpr ⟨hpair, List.pairwise_singleton _ _, fun ms hms ms' hms' => ?_⟩
      rw [List.mem_singleton.mp hms']
      exact (hall ms hms).2.trans hc.grows
    · refine List.forall_mem_append.mpr ⟨fun ms hms => ?_, List.forall_mem_singleton.mpr ?_⟩
      · exact ⟨(hall ms hms).1, (hall ms hms).2.trans hc.grows⟩
      · exact ⟨h.grows.trans hc.grows, .refl _⟩

/-- Every request carries three marks at most, the one in its messages on their last block. Until
a conversation is begun anew or summarised, each request repeats all earlier ones from the start. -/
theorem requests_cached {l : Config} {base : List ToolSchema} (hbase : ∀ t ∈ base, t.cached = false)
    (systemPrompt : Str) (excludeTools : List String) {s t : State} {before as : List Act}
    (hs : exec (step l) initial before = some s) (ht : exec (step l) s as = some t)
    (hcalm : Always (step l) Undisturbed s as) :
    (∀ ms ∈ t.sent, marks systemPrompt (toolSchemas base excludeTools) ms ≤ 3 ∧
      ∀ b ∈ (allBlocks ms).dropLast, b.cached = false) ∧
    ∃ new, t.sent = s.sent ++ new ∧ new.Pairwise Repeats ∧
      ∀ ms ∈ new, Repeats s.messages ms ∧ Repeats ms t.messages := by
  have hexec : exec (step l) initial (before ++ as) = some t := exec_append_iff.mpr ⟨s, hs, ht⟩
  have hrequests : Requests t := exec_invariant (fun _ _ _ hI hstep => hI.step hstep) requests_initial hexec
  have hrepeating : Repeating s t := by
    refine exec_invariant_always (fun _ _ _ hI hstep hQ => hI.step (continued_step hstep hQ)) ?_ hcalm ht
    exact ⟨.refl _, [], (List.append_nil _).symm, List.Pairwise.nil, fun _ hms => absurd hms List.not_mem_nil⟩
  refine ⟨fun ms hms => ?_, hrepeating.sent⟩
  obtain ⟨hone, hlast⟩ := marked_of_request (hrequests.sent ms hms)
  have htools := countP_toolSchemas hbase excludeTools
  have hsystem : (systemBlocks systemPrompt).countP Block.cached = 1 := rfl
  refine ⟨?_, hlast⟩
  unfold marks
  omega

def interactiveConfig : Config := ⟨.interactive, none, none, 5000⟩

def statusTool : ToolSchema := ⟨"get_status", [], false⟩

def plainResponse : Response := ⟨[.text (str "ready")], some .endTurn, ⟨10, 2, none, none⟩⟩

/-- A turn that is tried twice, and the start of the next one. -/
def twoTurns : List Act := [.transient, .response plainResponse, .sendUserMessage (str "go on")]

theorem requests_cached_twoTurns :
    ∃ s t, exec (step interactiveConfig) initial [.sendUserMessage (str "hello")] = some s ∧
      exec (step interactiveConfig) s twoTurns = some t ∧
      (∀ ms ∈ t.sent, marks (str "system") (toolSchemas [statusTool] []) ms ≤ 3 ∧
        ∀ b ∈ (allBlocks ms).dropLast, b.cached = false) ∧
      ∃ new, t.sent = s.sent ++ new ∧ new.length = 2 ∧ new.Pairwise Repeats := by
  have hruns : ∃ s t, exec (step interactiveConfig) initial [.sendUserMessage (str "hello")] = some s ∧
      exec (step interactiveConfig) s twoTurns = some t ∧ Always (step interactiveConfig) Undisturbed s twoTurns ∧
      t.sent.length = s.sent.length + 2 := by
    refine ⟨_, _, rfl, rfl, ?_, rfl⟩
    rintro _ ⟨⟩
    refine ⟨⟨nofun, nofun, nofun⟩, ?_⟩
    rintro _ ⟨⟩
    refine ⟨⟨nofun, nofun, nofun⟩, ?_⟩
    rintro _ ⟨⟩
    exact ⟨⟨nofun, nofun, nofun⟩, trivial⟩
  obtain ⟨s, t, hs, ht, hcalm, hlen⟩ := hruns
  obtain ⟨hmarks, new, hnew, hpair, -⟩ :=
    requests_cached (List.forall_mem_singleton.mpr rfl : ∀ t ∈ [statusTool], t.cached = false) (str "system") [] hs ht hcalm
  refine ⟨s, t, hs, ht, hmarks, new, hnew, ?_, hpair⟩
  rw [hnew, List.length_append] at hlen
  omega

end ReleaseValidation.AiAgent.AgentLoop
