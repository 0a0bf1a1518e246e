import Mathlib.Data.List.Flatten
import Mathlib.Data.List.Nodup
import ReleaseValidation.AiAgent.AgentLoop

/-! # The conversations sent to the model

The model accepts a list of messages only if the results of tool calls follow the calls. At the
head of the loop the messages are an opening and then rounds of calls and results, so the last
four of more than six are two whole rounds.
-/
namespace ReleaseValidation.AiAgent.AgentLoop
open Dialogues JsonTexts Runs
open scoped List

/-- Calls and their results are next to each other, and the user speaks first. -/
structure WellFormed (ms : List Message) : Prop where
  startsWithUser : ∃ m ms', ms = m :: ms' ∧ m.role = .user
  resultsFollowCalls : ∀ before m after, ms = before ++ m :: after → m.toolResultIds ≠ [] →
    m.role = .user ∧ ∃ before' a, before = before' ++ [a] ∧ a.role = .assistant ∧
      m.toolResultIds = a.toolUseIds ∧ m.toolResultIds.Nodup
  callsAnswered : ∀ before a after, ms = before ++ a :: after → a.toolUseIds ≠ [] →
    a.role = .assistant ∧ ∃ m after', after = m :: after' ∧ m.toolResultIds = a.toolUseIds

/-- The calls of the whole list have one result each. -/
def AnsweredOnce (ms : List Message) : Prop :=
  ∀ id ∈ ms.flatMap Message.toolUseIds, (ms.flatMap Message.toolResultIds).count id = 1

/-- The response stops for its tool calls exactly if it has some, and tells them apart. -/
structure Response.WellBehaved (r : Response) : Prop where
  stops : r.stop = .toolUse ↔ r.toolCalls ≠ []
  distinct : (r.toolCalls.map ToolCall.id).Nodup

/-- The tool calls that a response brings. -/
def Act.callIds : Act → List String
  | .response r => r.toolCalls.map ToolCall.id
  | _ => []

def talk (ms : List Message) : List (Turn String) := ms.map Message.turn

theorem flatMap_asks (ms : List Message) : (talk ms).flatMap Turn.asks = ms.flatMap Message.toolUseIds :=
  List.flatMap_map _ _ ms

theorem flatMap_answers (ms : List Message) : (talk ms).flatMap Turn.answers = ms.flatMap Message.toolResultIds :=
  List.flatMap_map _ _ ms

/-- A paired talk that the user starts is well formed. -/
theorem wellFormed_of_paired {ms : List Message} (hpaired : Paired (talk ms)) (hstart : StartsWithUser (talk ms))
    (hne : ms ≠ []) : WellFormed ms where
  startsWithUser := by
    obtain ⟨m, ms', rfl⟩ := List.exists_cons_of_ne_nil hne
    exact ⟨m, ms', rfl, hstart m.turn rfl⟩
  resultsFollowCalls := by
    rintro before m after rfl hm
    obtain ⟨before', a, hbefore, hround⟩ := hpaired.preceded (List.map_append ..) hm
    obtain ⟨before'', rest, rfl, -, hrest⟩ := List.map_eq_append_iff.mp hbefore
    obtain ⟨a, rfl, rfl⟩ := List.map_eq_singleton_iff.mp hrest
    exact ⟨hround.answerer, before'', a, rfl, hround.asker, hround.matching,
      (congrArg List.Nodup hround.matching).mpr hround.distinct⟩
  callsAnswered := by
    rintro before a after rfl ha
    obtain ⟨u, after', hafter, hround⟩ := hpaired.followed (List.map_append ..) ha
    obtain ⟨m, after'', rfl, rfl, -⟩ := List.map_eq_cons_iff.mp hafter
    exact ⟨hround.asker, m, after'', rfl, hround.matching⟩

theorem answeredOnce_of_paired {ms : List Message} (hpaired : Paired (talk ms))
    (hnodup : (ms.flatMap Message.toolUseIds).Nodup) : AnsweredOnce ms := by
  intro id hid
  rw [← flatMap_answers, hpaired.answers_eq_asks, flatMap_asks]
  exact List.count_eq_one_of_mem hnodup hid

/-! ### The marks of the cache -/

theorem turn_mapBlocks {m : Message} {f : List Block → List Block}
    (h : ∀ bs, (f bs).map Block.kind = bs.map Block.kind) : (m.mapBlocks f).turn = m.turn := by
  obtain ⟨role, content⟩ := m
  cases content with
  | text s => rfl
  | blocks bs =>
    have hids (g : BlockKind → Option String) : (f bs).filterMap (fun b => g b.kind) = bs.filterMap fun b => g b.kind := by
      have hmap := congrArg (List.filterMap g) (h bs)
      rwa [List.filterMap_map, List.filterMap_map] at hmap
    exact congrArg₂ (Turn.mk role) (hids _) (hids _)

theorem map_kind_markLastBlock (bs : List Block) : (markLastBlock bs).map Block.kind = bs.map Block.kind := by
  induction bs with
  | nil => rfl
  | cons b bs ih =>
    cases bs with
    | nil => rfl
    | cons c bs => exact congrArg (b.kind :: ·) ih

theorem talk_markLatest {ms ms' : List Message} (h : markLatest ms = some ms') : talk ms' = talk ms := by
  induction ms generalizing ms' with
  | nil => cases h
  | cons m ms ih =>
    rw [markLatest] at h
    split at h
    next ms'' hms =>
      cases h
      exact congrArg (m.turn :: ·) (ih hms)
    next =>
      split at h
      next => cases h
      next =>
        cases h
        exact congrArg (· :: talk ms) (turn_mapBlocks map_kind_markLastBlock)

/-- The marks change no role and no call or result. -/
theorem talk_applyMessageCacheBreakpoint (ms : List Message) : talk (applyMessageCacheBreakpoint ms) = talk ms := by
  have hcleared : talk (ms.map (Message.mapBlocks (List.map fun b => { b with cached := false }))) = talk ms := by
    rw [talk, List.map_map]
    refine List.map_congr_left fun m _ => turn_mapBlocks fun bs => ?_
    rw [List.map_map]
    rfl
  unfold applyMessageCacheBreakpoint
  dsimp only
  cases h : markLatest (ms.map (Message.mapBlocks (List.map fun b => { b with cached := false }))) with
  | none => exact hcleared
  | some ms' => exact (talk_markLatest h).trans hcleared

/-! ### The invariant of the loop -/

/-- What a turn finds, if `caller` takes it. -/
def Ready (caller : Caller) (ms : List Message) : Prop :=
  match caller with
  | .run => Opened (talk ms)
  | .sendUserMessage => Paired (talk ms) ∧ StartsWithUser (talk ms) ∧ ms ≠ []

/-- The results so far, the call in hand and those that wait make up the calls of the response. -/
structure Execution.Consistent (e : Execution) : Prop where
  stop : e.stop = .toolUse
  calls : e.assistantContent.filterMap (fun b => b.kind.toolUseId) =
    e.toolResults.filterMap (fun b => b.kind.toolResultId) ++ e.current.id :: e.pending.map ToolCall.id
  distinct : (e.assistantContent.filterMap fun b => b.kind.toolUseId).Nodup
  noResults : e.assistantContent.filterMap (fun b => b.kind.toolResultId) = []
  noCalls : e.toolResults.filterMap (fun b => b.kind.toolUseId) = []

def State.Fits (s : State) : Prop :=
  match s.phase with
  | .idle => Paired (talk s.messages) ∧ StartsWithUser (talk s.messages)
  | .turn => Opened (talk s.messages)
  | .summarising => Opened (talk s.messages) ∧ 6 < s.messages.length
  | .streaming caller _ => Ready caller s.messages
  | .executing e => Ready e.caller s.messages ∧ e.Consistent

/-- The calls in the messages and in the response that is being executed. -/
def State.callIds (s : State) : List String :=
  s.messages.flatMap Message.toolUseIds ++
    match s.phase with
    | .executing e => e.assistantContent.filterMap fun b => b.kind.toolUseId
    | _ => []

/-- Every list sent after those of `base` is well formed and has calls from `ids` only. -/
def SentSince (base : List (List Message)) (ids : List String) (sent : List (List Message)) : Prop :=
  ∃ new, sent = base ++ new ∧ ∀ ms ∈ new, Paired (talk ms) ∧ WellFormed ms ∧ ms.flatMap Message.toolUseIds <+ ids

structure Kept (base : List (List Message)) (ids : List String) (s : State) : Prop where
  fits : s.Fits
  known : s.callIds <+ ids
  sent : SentSince base ids s.sent

theorem SentSince.snoc {base sent : List (List Message)} {ids : List String} (h : SentSince base ids sent)
    {ms : List Message} (hpaired : Paired (talk ms)) (hstart : StartsWithUser (talk ms)) (hne : ms ≠ [])
    (hids : ms.flatMap Message.toolUseIds <+ ids) : SentSince base ids (sent ++ [ms]) := by
  obtain ⟨new, rfl, hnew⟩ := h
  refine ⟨new ++ [ms], List.append_assoc _ _ _, ?_⟩
  rw [List.forall_mem_append, List.forall_mem_singleton]
  exact ⟨hnew, hpaired, wellFormed_of_paired hpaired hstart hne, hids⟩

theorem SentSince.mono {base sent : List (List Message)} {ids : List String} (h : SentSince base ids sent)
    (more : List String) : SentSince base (ids ++ more) sent := by
  obtain ⟨new, rfl, hnew⟩ := h
  refine ⟨new, rfl, fun ms hms => ?_⟩
  obtain ⟨hpaired, hwell, hids⟩ := hnew ms hms
  exact ⟨hpaired, hwell, hids.trans (List.sublist_append_left _ _)⟩

theorem Ready.facts {caller : Caller} {ms : List Message} (h : Ready caller ms) :
    Paired (talk ms) ∧ StartsWithUser (talk ms) ∧ ms ≠ [] := by
  cases caller with
  | run =>
    refine ⟨Opened.paired h, Opened.startsWithUser h, ?_⟩
    rintro rfl
    exact Opened.ne_nil h rfl
  | sendUserMessage => exact h

theorem Ready.congr {caller : Caller} {ms ms' : List Message} (h : Ready caller ms) (htalk : talk ms' = talk ms) :
    Ready caller ms' := by
  cases caller with
  | run => exact (congrArg Opened htalk).mpr h
  | sendUserMessage =>
    obtain ⟨hpaired, hstart, hne⟩ := h
    refine ⟨(congrArg Paired htalk).mpr hpaired, (congrArg StartsWithUser htalk).mpr hstart, ?_⟩
    rintro rfl
    exact hne (List.map_eq_nil_iff.mp htalk.symm)

theorem callIds_eq {s : State} (h : ∀ e, s.phase ≠ .executing e) :
    s.callIds = s.messages.flatMap Message.toolUseIds := by
  unfold State.callIds
  split
  next e he => exact absurd he (h e)
  next => exact List.append_nil _

theorem Kept.messages_known {base : List (List Message)} {ids : List String} {s : State} (h : Kept base ids s) :
    s.messages.flatMap Message.toolUseIds <+ ids :=
  (List.sublist_append_left _ _).trans h.known

section Steps
variable {base : List (List Message)} {ids : List String} {s : State} {caller : Caller}

/-- Messages that a turn may find are sent. -/
theorem kept_send (attempt : ℕ) (hready : Ready caller s.messages)
    (hids : s.messages.flatMap Message.toolUseIds <+ ids) (hsent : SentSince base ids s.sent) :
    Kept base ids (s.send caller attempt) := by
  obtain ⟨hpaired, hstart, hne⟩ := hready.facts
  refine ⟨hready, ?_, hsent.snoc hpaired hstart hne hids⟩
  rw [callIds_eq (by rintro e ⟨⟩)]
  exact hids

theorem kept_streamTurn (hready : Ready caller s.messages) (hids : s.messages.flatMap Message.toolUseIds <+ ids)
    (hsent : SentSince base ids s.sent) : Kept base ids (s.streamTurn caller) := by
  have htalk := talk_applyMessageCacheBreakpoint s.messages
  refine kept_send 0 (hready.congr htalk) ?_ hsent
  change (applyMessageCacheBreakpoint s.messages).flatMap Message.toolUseIds <+ ids
  rw [← flatMap_asks, htalk, flatMap_asks]
  exact hids

/-- A method ends with messages that a turn may find. -/
theorem kept_idle (hready : Ready caller s.messages) (hids : s.messages.flatMap Message.toolUseIds <+ ids)
    (hsent : SentSince base ids s.sent) : Kept base ids { s with phase := .idle } := by
  obtain ⟨hpaired, hstart, -⟩ := hready.facts
  refine ⟨⟨hpaired, hstart⟩, ?_, hsent⟩
  rw [callIds_eq (by rintro e ⟨⟩)]
  exact hids

/-- A turn adds paired messages, and a round if it is to be followed by another turn. -/
theorem kept_turnDone {stop : StopReason} {new : List Message} (hready : Ready caller s.messages)
    (hnew : Paired (talk new)) (hround : stop = .toolUse → ∃ a u, talk new = [a, u] ∧ Round a u)
    (hids : (s.messages ++ new).flatMap Message.toolUseIds <+ ids) (hsent : SentSince base ids s.sent) :
    Kept base ids (s.turnDone caller stop new) := by
  have htalk : talk (s.messages ++ new) = talk s.messages ++ talk new := List.map_append ..
  obtain ⟨hpaired, hstart, hne⟩ := hready.facts
  have hne' : talk s.messages ≠ [] := fun h => hne (List.map_eq_nil_iff.mp h)
  obtain hphase | ⟨rfl, rfl, hphase⟩ := turnDone_phase s caller stop new
  · refine ⟨?_, ?_, hsent⟩
    · rw [State.Fits, hphase]
      change Paired (talk (s.messages ++ new)) ∧ StartsWithUser (talk (s.messages ++ new))
      rw [htalk]
      exact ⟨hpaired.append hnew, startsWithUser_append hstart hne'⟩
    · rw [callIds_eq (by rw [hphase]; rintro e ⟨⟩)]
      exact hids
  · refine ⟨?_, ?_, hsent⟩
    · obtain ⟨a, u, hau, hround⟩ := hround rfl
      rw [State.Fits, hphase]
      change Opened (talk (s.messages ++ new))
      rw [htalk, hau]
      exact Opened.round hready hround
    · rw [callIds_eq (by rw [hphase]; rintro e ⟨⟩)]
      exact hids

end Steps

/-! ### Responses and their results -/

theorem assistantContent_calls (r : Response) :
    r.assistantContent.filterMap (fun b => b.kind.toolUseId) = r.toolCalls.map ToolCall.id := by
  unfold Response.assistantContent Response.toolCalls
  rw [List.filterMap_filterMap, List.map_filterMap]
  refine List.filterMap_congr fun b _ => ?_
  cases b <;> rfl

theorem assistantContent_results (r : Response) :
    r.assistantContent.filterMap (fun b => b.kind.toolResultId) = [] := by
  unfold Response.assistantContent
  rw [List.filterMap_filterMap, List.filterMap_eq_nil_iff]
  intro b _
  cases b <;> rfl

theorem consistent_first {r : Response} (hr : r.WellBehaved) (caller : Caller) {tc : ToolCall} {tcs : List ToolCall}
    (h : r.toolCalls = tc :: tcs) : (⟨caller, r.stop, r.assistantContent, [], tc, tcs⟩ : Execution).Consistent where
  stop := hr.stops.mpr (h ▸ List.cons_ne_nil _ _)
  calls := by
    rw [assistantContent_calls, h]
    rfl
  distinct := by
    rw [assistantContent_calls]
    exact hr.distinct
  noResults := assistantContent_results r
  noCalls := rfl

namespace Execution.Consistent
variable {e : Execution}

theorem next (h : e.Consistent) {tc : ToolCall} {tcs : List ToolCall} (hp : e.pending = tc :: tcs) (content : Str) :
    ({ e with
      toolResults := e.toolResults ++ [.plain (.toolResult e.current.id content)], current := tc, pending := tcs } :
        Execution).Consistent where
  stop := h.stop
  calls := by
    rw [h.calls, hp, List.filterMap_append, List.append_assoc]
    rfl
  distinct := h.distinct
  noResults := h.noResults
  noCalls := by
    rw [List.filterMap_append, h.noCalls]
    rfl

/-- The response and all of its results are a round. -/
theorem round (h : e.Consistent) (hp : e.pending = []) (content : Str) :
    Round (Message.turn ⟨.assistant, .blocks e.assistantContent⟩)
      (Message.turn ⟨.user, .blocks (e.toolResults ++ [.plain (.toolResult e.current.id content)])⟩) where
  asker := rfl
  asking := by
    change e.assistantContent.filterMap (fun b => b.kind.toolUseId) ≠ []
    rw [h.calls]
    exact List.append_ne_nil_of_right_ne_nil _ (List.cons_ne_nil _ _)
  distinct := h.distinct
  fresh := h.noResults
  answerer := rfl
  done := by
    change (e.toolResults ++ _).filterMap (fun b => b.kind.toolUseId) = []
    rw [List.filterMap_append, h.noCalls]
    rfl
  matching := by
    change (e.toolResults ++ _).filterMap (fun b => b.kind.toolResultId) =
      e.assistantContent.filterMap (fun b => b.kind.toolUseId)
    rw [h.calls, hp, List.filterMap_append]
    rfl

end Execution.Consistent

/-! ### Steps and runs -/

theorem Kept.mono {base : List (List Message)} {ids : List String} {s : State} (h : Kept base ids s)
    (more : List String) : Kept base (ids ++ more) s :=
  ⟨h.fits, h.known.trans (List.sublist_append_left _ _), h.sent.mono more⟩

theorem user_plain (text : Str) : (Message.user text).turn.Plain := ⟨rfl, rfl⟩

section Runs
variable {l : Config} {base : List (List Message)} {ids : List String} {s t : State}

theorem kept_run (initialMessage : Str) (hsent : SentSince base ids s.sent) :
    Kept base ids { s with messages := [Message.user initialMessage], phase := .turn } := by
  refine ⟨Opened.opening rfl (user_plain initialMessage), ?_, hsent⟩
  rw [callIds_eq (by rintro e ⟨⟩)]
  exact List.nil_sublist ids

theorem kept_sendUserMessage (h : Kept base ids s) (hp : s.phase = .idle) (text : Str) :
    Kept base ids ({ s with messages := s.messages ++ [Message.user text] }.streamTurn .sendUserMessage) := by
  have hfits := h.fits
  rw [State.Fits, hp] at hfits
  obtain ⟨hpaired, hstart⟩ := hfits
  have htalk : talk (s.messages ++ [Message.user text]) = talk s.messages ++ [(Message.user text).turn] :=
    List.map_append ..
  refine kept_streamTurn ⟨?_, ?_, List.concat_ne_nil _ _⟩ ?_ h.sent
  · rw [htalk]
    exact hpaired.append (Paired.nil.plain (user_plain text))
  · rw [htalk]
    cases hm : talk s.messages with
    | nil =>
      rintro _ ⟨⟩
      rfl
    | cons u us =>
      rw [hm] at hstart
      exact startsWithUser_append hstart (List.cons_ne_nil _ _)
  · rw [List.flatMap_append]
    exact (List.append_nil _).symm ▸ h.messages_known

/-- The two rounds that are kept follow the summary and its acknowledgement. -/
theorem kept_compressed (h : Kept base ids s) (hp : s.phase = .summarising) (summary : Str) :
    Kept base ids ((s.compressed summary).streamTurn .run) := by
  have hfits := h.fits
  rw [State.Fits, hp] at hfits
  obtain ⟨hopened, hlen⟩ := hfits
  have hlast := hopened.last_rounds (n := 4) ⟨2, rfl⟩ (by rw [talk, List.length_map]; omega)
  rw [talk, List.length_map, ← List.map_drop] at hlast
  refine kept_streamTurn (Opened.resumed rfl ⟨rfl, rfl⟩ ⟨rfl, rfl⟩ hlast) ?_ h.sent
  exact ((List.drop_sublist _ _).flatMap _).trans h.messages_known

theorem kept_loopTurn (h : Kept base ids s) (hp : s.phase = .turn) : Kept base ids s.loopTurn := by
  have hopened := h.fits
  rw [State.Fits, hp] at hopened
  obtain ⟨-, hlen, hturn⟩ | hturn := loopTurn_cases s
  · rw [hturn]
    refine ⟨⟨hopened, hlen⟩, ?_, h.sent.snoc (Paired.nil.plain (user_plain _)) ?_ (List.cons_ne_nil _ _) ?_⟩
    · rw [callIds_eq (by rintro e ⟨⟩)]
      exact h.messages_known
    · rintro _ ⟨⟩
      rfl
    · exact List.nil_sublist ids
  · rw [hturn]
    exact kept_streamTurn hopened h.messages_known h.sent

theorem kept_received {caller : Caller} {attempt : ℕ} {r : Response} (h : Kept base ids s)
    (hp : s.phase = .streaming caller attempt) (hr : r.WellBehaved) :
    Kept base (ids ++ r.toolCalls.map ToolCall.id) (s.received caller r) := by
  have hready := h.fits
  rw [State.Fits, hp] at hready
  have hids := h.messages_known.append (List.Sublist.refl (r.toolCalls.map ToolCall.id))
  have hsent := h.sent.mono (r.toolCalls.map ToolCall.id)
  generalize ids ++ r.toolCalls.map ToolCall.id = known at hids hsent ⊢
  rw [← assistantContent_calls] at hids
  cases hcalls : r.toolCalls with
  | nil =>
    rw [received_nil hcalls]
    have hnone : r.assistantContent.filterMap (fun b => b.kind.toolUseId) = [] := by
      rw [assistantContent_calls, hcalls]
      rfl
    refine kept_turnDone hready (Paired.nil.plain ⟨hnone, assistantContent_results r⟩) ?_ ?_ hsent
    · intro hstop
      exact absurd hcalls (hr.stops.mp hstop)
    · rw [List.flatMap_append, List.flatMap_singleton]
      exact hids
  | cons tc tcs =>
    rw [received_cons hcalls]
    exact ⟨⟨hready, consistent_first hr caller hcalls⟩, hids, hsent⟩

theorem kept_answered {e : Execution} (h : Kept base ids s) (hp : s.phase = .executing e) (content : Str) :
    Kept base ids (s.answered e content) := by
  have hfits := h.fits
  rw [State.Fits, hp] at hfits
  obtain ⟨hready, hcons⟩ := hfits
  have hids := h.known
  rw [State.callIds, hp] at hids
  cases hcalls : e.pending with
  | nil =>
    rw [answered_nil hcalls]
    have hround := hcons.round hcalls content
    refine kept_turnDone hready (Paired.nil.round hround) (fun _ => ⟨_, _, rfl, hround⟩) ?_ h.sent
    rw [List.flatMap_append, List.flatMap_cons, List.flatMap_singleton]
    rw [show Message.toolUseIds ⟨.user, _⟩ = [] from hround.done, List.append_nil]
    exact hids
  | cons tc tcs =>
    rw [answered_cons hcalls]
    exact ⟨⟨hready, hcons.next hcalls content⟩, hids, h.sent⟩

/-- Every action keeps the invariant; a response adds its calls to those known. -/
theorem step_kept {a : Act} (h : Kept base ids s) (hstep : step l s a = some t)
    (ha : ∀ r, a = .response r → r.WellBehaved) : Kept base (ids ++ a.callIds) t := by
  have hmono := h.mono a.callIds
  cases step_move hstep with
  | run initialMessage hp => exact kept_run initialMessage hmono.sent
  | sendUserMessage text hp => exact kept_sendUserMessage hmono hp text
  | limitReached elapsed reason hp hover =>
    have hready : Ready .run s.messages := by
      have hfits := h.fits
      rw [State.Fits, hp] at hfits
      exact hfits
    exact kept_idle hready hmono.messages_known hmono.sent
  | turn elapsed hp hover => exact kept_loopTurn hmono hp
  | summaryFailed hp =>
    have hready : Ready .run s.messages := by
      have hfits := h.fits
      rw [State.Fits, hp] at hfits
      exact hfits.1
    exact kept_idle hready hmono.messages_known hmono.sent
  | summarised summary hp => exact kept_compressed hmono hp summary
  | givenUp caller attempt hp hle =>
    have hready := h.fits
    rw [State.Fits, hp] at hready
    exact kept_idle hready hmono.messages_known hmono.sent
  | retried caller attempt hp hlt =>
    have hready := h.fits
    rw [State.Fits, hp] at hready
    exact kept_send (attempt + 1) hready hmono.messages_known hmono.sent
  | failed caller attempt hp =>
    have hready := h.fits
    rw [State.Fits, hp] at hready
    exact kept_idle hready hmono.messages_known hmono.sent
  | response caller attempt r hp => exact kept_received h hp (ha r rfl)
  | toolResult e result hp => exact kept_answered hmono hp _

theorem exec_kept {as : List Act} (h : Kept base ids s) (hexec : exec (step l) s as = some t)
    (has : ∀ r, .response r ∈ as → r.WellBehaved) : Kept base (ids ++ as.flatMap Act.callIds) t := by
  induction as generalizing s ids with
  | nil =>
    cases hexec
    rw [List.flatMap_nil, List.append_nil]
    exact h
  | cons a as ih =>
    obtain ⟨u, hu, hexec⟩ := Option.bind_eq_some_iff.mp hexec
    have hstep := step_kept h hu (by rintro r rfl; exact has r List.mem_cons_self)
    rw [List.flatMap_cons, ← List.append_assoc]
    exact ih hstep hexec fun r hr => has r (List.mem_cons_of_mem _ hr)

end Runs

/-- In a call of `run` every list sent to the model is well formed; if all calls of tools can be told apart, each
has one result. -/
theorem run_sends_wellFormed (l : Config) {s t : State} {initialMessage : Str} {as : List Act}
    (h : exec (step l) s (.run initialMessage :: as) = some t) (has : ∀ r, .response r ∈ as → r.WellBehaved) :
    ∃ new, t.sent = s.sent ++ new ∧
      ∀ ms ∈ new, WellFormed ms ∧ ((as.flatMap Act.callIds).Nodup → AnsweredOnce ms) := by
  obtain ⟨u, hu, h⟩ := Option.bind_eq_some_iff.mp h
  cases step_move hu with
  | run _ hp =>
    have hnone : SentSince s.sent [] s.sent := ⟨[], (List.append_nil _).symm, by simp⟩
    obtain ⟨new, hnew, hsent⟩ := (exec_kept (kept_run initialMessage hnone) h has).sent
    refine ⟨new, hnew, fun ms hms => ?_⟩
    obtain ⟨hpaired, hwell, hids⟩ := hsent ms hms
    exact ⟨hwell, fun hnodup => answeredOnce_of_paired hpaired (hids.nodup hnodup)⟩

def calling (ids : List String) (inputTokens : ℕ) : Response where
  content := ids.map fun id => .toolUse ⟨id, "query_graphql", []⟩
  stopReason := some .toolUse
  usage := ⟨inputTokens, 60, none, none⟩

/-- Three rounds, after which the context is compressed. -/
def threeRounds : List Act :=
  [.turn 0, .response (calling ["a", "b"] 900), .toolResult .null, .toolResult .null,
    .turn 5, .response (calling ["c"] 1800), .toolResult .null, .turn 9, .transient,
    .response (calling ["d"] 170000), .toolResult .null, .turn 12, .summarised (some (str "a to d"))]

theorem threeRounds_sends : ∃ t,
    exec (step ⟨.chaos, none, none, 5000⟩) initial (.run (str "Begin.") :: threeRounds) = some t ∧
      t.sent.length = 6 ∧ ∀ ms ∈ t.sent, WellFormed ms ∧ AnsweredOnce ms := by
  have hrun : (exec (step ⟨.chaos, none, none, 5000⟩) initial (.run (str "Begin.") :: threeRounds)).map
      (fun t => t.sent.length) = some 6 := by decide +kernel
  obtain ⟨t, ht, hlen⟩ := Option.map_eq_some_iff.mp hrun
  have hresponses : ∀ r, .response r ∈ threeRounds → r.WellBehaved := by
    intro r hr
    simp only [threeRounds, List.mem_cons, reduceCtorEq, Act.response.injEq, List.not_mem_nil, or_false, false_or] at hr
    obtain rfl | rfl | rfl := hr <;> exact ⟨by decide, by decide⟩
  obtain ⟨new, hnew, hsent⟩ := run_sends_wellFormed _ ht hresponses
  refine ⟨t, ht, hlen, fun ms hms => ?_⟩
  rw [hnew] at hms
  obtain ⟨hwell, honce⟩ := hsent ms hms
  exact ⟨hwell, honce (by decide)⟩

end ReleaseValidation.AiAgent.AgentLoop
