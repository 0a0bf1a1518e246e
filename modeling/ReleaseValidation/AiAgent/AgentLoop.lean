import Mathlib.Data.Rat.Defs
import ReleaseValidation.Foundations.Dialogues
import ReleaseValidation.Foundations.JsonTexts
import ReleaseValidation.Foundations.Runs

/-! # The agent loop

An agent loop keeps a conversation with the model. Its method `run` starts a new conversation
and takes turns until the model is done or a limit is reached; `send_user_message` adds a message
and takes a single turn. In a turn the model is sent all messages, and the calls of tools in its
response are executed one after the other. Before a turn of `run` the older messages may be
replaced by a summary. A raised error ends the method it arises in.
-/
namespace ReleaseValidation.AiAgent.AgentLoop
open Dialogues JsonTexts

def str (s : String) : Str := s.toList.map fun c => Fin.ofNat 0x110000 c.toNat

/-! ### Limits -/

inductive Mode
  | autonomous
  | collaborative
  | interactive
  | chaos
  | other (name : String)
  deriving DecidableEq, Repr

structure Limits where
  maxToolCalls : ℤ
  maxDuration : ℤ
  deriving DecidableEq, Repr

/-- `LIMITS.get(mode, LIMITS["autonomous"])`. -/
def limitsOf : Mode → Limits
  | .autonomous | .other _ => ⟨50, 600⟩
  | .collaborative | .interactive => ⟨200, 3600⟩
  | .chaos => ⟨100, 1800⟩

/-- What an agent loop is made with. -/
structure Config where
  mode : Mode
  maxToolCallsOverride : Option ℤ
  maxDurationOverride : Option ℤ
  /-- `MODEL_TOOL_RESULT_MAX_CHARS`. -/
  toolResultMaxChars : ℕ
  deriving DecidableEq, Repr

/-- `base`, unless there is an override other than zero. -/
def overridden (override : Option ℤ) (base : ℤ) : ℤ :=
  match override with
  | some n => if n = 0 then base else n
  | none => base

/-- `_limits`. -/
def Config.limits (l : Config) : Limits where
  maxToolCalls := overridden l.maxToolCallsOverride (limitsOf l.mode).maxToolCalls
  maxDuration := overridden l.maxDurationOverride (limitsOf l.mode).maxDuration

/-! ### Tool results -/

def isHexDigit (c : CodePoint) : Bool := (str "0123456789abcdefABCDEF").contains c

/-- `s[-n:]`. -/
def lastChars {α : Type} (n : ℕ) (s : List α) : List α := if n = 0 then s else s.drop (s.length - n)

def shapeString (s : Str) : Str :=
  if (str "0x").isPrefixOf s ∧ 200 < s.length ∧ (s.drop 2).all isHexDigit then
    s.take 96 ++ str "…" ++ lastChars 24 s ++
      str (" [hex truncated, total " ++ toString s.length ++ " chars — full value in audit panel]")
  else s

mutual

/-- `_shape_value`. -/
def shapeValue : Value → Value
  | .str s => .str (shapeString s)
  | .obj fields => .obj (shapeFields fields)
  | .arr items => .arr (shapeItems items)
  | v => v

def shapeItems : List Value → List Value
  | [] => []
  | v :: vs => shapeValue v :: shapeItems vs

def shapeFields : List (Str × Value) → List (Str × Value)
  | [] => []
  | (k, v) :: fs => (k, shapeValue v) :: shapeFields fs

end

/-- The code points of a text of ASCII characters. -/
def points (t : Text) : Str := t.map fun c => Fin.ofNat 0x110000 c.toNat

/-- `_bounded_tool_content`. -/
def boundedToolContent (maxChars : ℕ) (result : Value) : Str :=
  let s := points (dump (shapeValue result))
  if s.length ≤ maxChars then s
  else
    let head := maxChars * 7 / 10
    let tail := maxChars * 2 / 10
    let omitted : ℤ := s.length - head - tail
    s.take head ++
      str (" …[TRUNCATED " ++ toString omitted ++ " chars — full output is in the tool audit panel]… ") ++
      lastChars tail s

/-! ### Messages -/

structure ToolCall where
  id : String
  name : String
  input : List (Str × Value)

inductive BlockKind
  | text (text : Str)
  | toolUse (call : ToolCall)
  | toolResult (toolUseId : String) (content : Str)

structure Block where
  kind : BlockKind
  /-- The block carries `cache_control`. -/
  cached : Bool

inductive Content
  | text (s : Str)
  | blocks (bs : List Block)

structure Message where
  role : Role
  content : Content

namespace BlockKind

def toolUseId : BlockKind → Option String
  | .toolUse call => some call.id
  | _ => none

def toolResultId : BlockKind → Option String
  | .toolResult id _ => some id
  | _ => none

def fields : BlockKind → List (Str × Value)
  | .text s => [(str "type", .str (str "text")), (str "text", .str s)]
  | .toolUse call => [(str "type", .str (str "tool_use")), (str "id", .str (str call.id)),
      (str "name", .str (str call.name)), (str "input", .obj call.input)]
  | .toolResult id content => [(str "type", .str (str "tool_result")), (str "tool_use_id", .str (str id)),
      (str "content", .str content)]

end BlockKind

namespace Block

def plain (kind : BlockKind) : Block := ⟨kind, false⟩

def toValue (b : Block) : Value :=
  .obj (b.kind.fields ++
    if b.cached then [(str "cache_control", .obj [(str "type", .str (str "ephemeral"))])] else [])

end Block

namespace Message

def user (text : Str) : Message := ⟨.user, .text text⟩

def blocks (m : Message) : List Block :=
  match m.content with
  | .text _ => []
  | .blocks bs => bs

/-- The calls of tools in the message. -/
def toolUseIds (m : Message) : List String := m.blocks.filterMap fun b => b.kind.toolUseId

/-- The calls of tools whose results are in the message. -/
def toolResultIds (m : Message) : List String := m.blocks.filterMap fun b => b.kind.toolResultId

def turn (m : Message) : Turn String := ⟨m.role, m.toolUseIds, m.toolResultIds⟩

def toValue (m : Message) : Value :=
  .obj [(str "role", .str (str (match m.role with | .user => "user" | .assistant => "assistant"))),
    (str "content", match m.content with | .text s => .str s | .blocks bs => .arr (bs.map Block.toValue))]

/-- The message with its blocks changed, if it has blocks. -/
def mapBlocks (f : List Block → List Block) (m : Message) : Message :=
  { m with content := match m.content with | .text s => .text s | .blocks bs => .blocks (f bs) }

end Message

/-- The blocks, the last of them marked. -/
def markLastBlock : List Block → List Block
  | [] => []
  | [b] => [{ b with cached := true }]
  | b :: c :: bs => b :: markLastBlock (c :: bs)

/-- The messages, the last block of all marked; none if there is no block. -/
def markLatest : List Message → Option (List Message)
  | [] => none
  | m :: ms =>
    match markLatest ms with
    | some ms' => some (m :: ms')
    | none => if m.blocks = [] then none else some (m.mapBlocks markLastBlock :: ms)

/-- `_apply_message_cache_breakpoint`. -/
def applyMessageCacheBreakpoint (messages : List Message) : List Message :=
  let cleared := messages.map (Message.mapBlocks (List.map fun b => { b with cached := false }))
  (markLatest cleared).getD cleared

/-! ### Responses -/

inductive StopReason
  | endTurn
  | toolUse
  | other (name : String)
  deriving DecidableEq, Repr

inductive ResponseBlock
  | text (text : Str)
  | toolUse (call : ToolCall)
  | other

structure Usage where
  inputTokens : ℕ
  outputTokens : ℕ
  cacheReadInputTokens : Option ℕ
  cacheCreationInputTokens : Option ℕ
  deriving DecidableEq, Repr

/-- A complete response; without a reason it has stopped at the end of its turn. -/
structure Response where
  content : List ResponseBlock
  stopReason : Option StopReason
  usage : Usage

namespace Response

def stop (r : Response) : StopReason := r.stopReason.getD .endTurn

def toolCalls (r : Response) : List ToolCall :=
  r.content.filterMap fun
    | .toolUse call => some call
    | _ => none

def assistantContent (r : Response) : List Block :=
  r.content.filterMap fun
    | .text text => some (.plain (.text text))
    | .toolUse call => some (.plain (.toolUse call))
    | .other => none

end Response

/-! ### The loop -/

inductive Caller
  | run
  | sendUserMessage
  deriving DecidableEq, Repr

/-- The tool calls of a response, the current of which is with the executor. -/
structure Execution where
  caller : Caller
  stop : StopReason
  assistantContent : List Block
  toolResults : List Block
  current : ToolCall
  pending : List ToolCall

inductive Phase
  /-- No method is running. -/
  | idle
  /-- At the head of the loop of `run`. -/
  | turn
  | summarising
  | streaming (caller : Caller) (attempt : ℕ)
  | executing (e : Execution)

structure State where
  messages : List Message
  compressionSummaries : List (ℕ × Str)
  toolCallCount : ℕ
  totalTokens : ℕ
  cacheReadTokens : ℕ
  contextTokens : ℕ
  phase : Phase
  /-- The message lists sent to the model so far. -/
  sent : List (List Message)

inductive Act
  | run (initialMessage : Str)
  | sendUserMessage (text : Str)
  /-- The head of the loop, so long after its start. -/
  | turn (elapsed : ℚ)
  /-- The model has written the summary, or that request has failed. -/
  | summarised (summary : Option Str)
  /-- An error that is retried. -/
  | transient
  /-- Another error of the stream. -/
  | failed
  | response (r : Response)
  | toolResult (result : Value)

def initial : State := ⟨[], [], 0, 0, 0, 0, .idle, []⟩

def contextWindow : ℕ := 200000

/-- `CONTEXT_WINDOW * COMPRESS_THRESHOLD`. -/
def compressAt : ℕ := contextWindow * 80 / 100

/-- The length of `RETRY_DELAYS_S`. -/
def retries : ℕ := 3

variable (l : Config)

/-- `_over_limit`. -/
def overLimit (s : State) (elapsed : ℚ) : Option String :=
  if l.limits.maxToolCalls ≤ s.toolCallCount then
    some ("Tool call limit reached (" ++ toString l.limits.maxToolCalls ++ ")")
  else if l.limits.maxDuration ≤ elapsed then
    some ("Time limit reached (" ++ toString l.limits.maxDuration ++ "s)")
  else none

def summaryPrompt (toSummarise : List Message) : Str :=
  str ("Summarise the following conversation history concisely, " ++
    "preserving all key findings, tool results, and decisions:\n\n") ++
    points (dump (.arr (toSummarise.map Message.toValue)))

namespace State

/-- The messages are sent to the model. -/
def send (s : State) (caller : Caller) (attempt : ℕ) : State :=
  { s with phase := .streaming caller attempt, sent := s.sent ++ [s.messages] }

/-- `_stream_turn`, up to its first attempt. -/
def streamTurn (s : State) (caller : Caller) : State :=
  { s with messages := applyMessageCacheBreakpoint s.messages }.send caller 0

/-- `_compress_context` asks for its summary. -/
def requestSummary (s : State) : State :=
  { s with
    phase := .summarising
    sent := s.sent ++ [[Message.user (summaryPrompt (s.messages.take (s.messages.length - 4)))]] }

/-- `_compress_context`, once it has the summary. -/
def compressed (s : State) (summary : Str) : State :=
  { s with
    compressionSummaries := s.compressionSummaries ++ [(s.messages.length - 4, summary)]
    messages := Message.user (str "[Context summary from earlier in this session]\n" ++ summary) ::
      ⟨.assistant, .text (str "Understood. I'll continue from where we left off.")⟩ ::
      s.messages.drop (s.messages.length - 4)
    contextTokens := s.contextTokens * 2 / 5 }

def accounted (s : State) (u : Usage) : State :=
  let cacheRead := u.cacheReadInputTokens.getD 0
  let cacheCreate := u.cacheCreationInputTokens.getD 0
  { s with
    totalTokens := s.totalTokens + u.inputTokens + u.outputTokens + cacheCreate
    cacheReadTokens := s.cacheReadTokens + cacheRead
    contextTokens := u.inputTokens + cacheRead + cacheCreate }

/-- The turn ends with its new messages, and with it every method that does not loop. -/
def turnDone (s : State) (caller : Caller) (stop : StopReason) (newMessages : List Message) : State :=
  { s with
    messages := s.messages ++ newMessages
    phase :=
      match caller with
      | .sendUserMessage => .idle
      | .run => if stop = .endTurn then .idle else if stop ≠ .toolUse then .idle else .turn }

/-- The next tool call is handed to the executor. -/
def executeNext (s : State) (e : Execution) : State :=
  { s with toolCallCount := s.toolCallCount + 1, phase := .executing e }

/-- The response is complete; its tool calls are executed. -/
def received (s : State) (caller : Caller) (r : Response) : State :=
  let s := s.accounted r.usage
  match r.toolCalls with
  | [] => s.turnDone caller r.stop [⟨.assistant, .blocks r.assistantContent⟩]
  | tc :: tcs => s.executeNext ⟨caller, r.stop, r.assistantContent, [], tc, tcs⟩

/-- A tool call has its result. -/
def answered (s : State) (e : Execution) (content : Str) : State :=
  let toolResults := e.toolResults ++ [.plain (.toolResult e.current.id content)]
  match e.pending with
  | [] => s.turnDone e.caller e.stop [⟨.assistant, .blocks e.assistantContent⟩, ⟨.user, .blocks toolResults⟩]
  | tc :: tcs => s.executeNext { e with toolResults := toolResults, current := tc, pending := tcs }

/-- The head of the loop of `run`, when no limit has been reached. -/
def loopTurn (s : State) : State :=
  if compressAt < s.contextTokens ∧ 6 < s.messages.length then s.requestSummary else s.streamTurn .run

end State

def step (s : State) (a : Act) : Option State :=
  match s.phase, a with
  | .idle, .run initialMessage => some { s with messages := [Message.user initialMessage], phase := .turn }
  | .idle, .sendUserMessage text =>
    some ({ s with messages := s.messages ++ [Message.user text] }.streamTurn .sendUserMessage)
  | .turn, .turn elapsed =>
    match overLimit l s elapsed with
    | some _ => some { s with phase := .idle }
    | none => some s.loopTurn
  | .summarising, .summarised none => some { s with phase := .idle }
  | .summarising, .summarised (some summary) => some ((s.compressed summary).streamTurn .run)
  | .streaming caller attempt, .transient =>
    if retries ≤ attempt then some { s with phase := .idle } else some (s.send caller (attempt + 1))
  | .streaming _ _, .failed => some { s with phase := .idle }
  | .streaming caller _, .response r => some (s.received caller r)
  | .executing e, .toolResult result => some (s.answered e (boundedToolContent l.toolResultMaxChars result))
  | _, _ => none

/-- What an action does, by the phase it finds. -/
inductive Move (s : State) : Act → State → Prop
  | run (initialMessage : Str) :
    s.phase = .idle → Move s (.run initialMessage) { s with messages := [Message.user initialMessage], phase := .turn }
  | sendUserMessage (text : Str) :
    s.phase = .idle →
    Move s (.sendUserMessage text) ({ s with messages := s.messages ++ [Message.user text] }.streamTurn .sendUserMessage)
  | limitReached (elapsed : ℚ) (reason : String) :
    s.phase = .turn → overLimit l s elapsed = some reason → Move s (.turn elapsed) { s with phase := .idle }
  | turn (elapsed : ℚ) : s.phase = .turn → overLimit l s elapsed = none → Move s (.turn elapsed) s.loopTurn
  | summaryFailed : s.phase = .summarising → Move s (.summarised none) { s with phase := .idle }
  | summarised (summary : Str) :
    s.phase = .summarising → Move s (.summarised (some summary)) ((s.compressed summary).streamTurn .run)
  | givenUp (caller : Caller) (attempt : ℕ) :
    s.phase = .streaming caller attempt → retries ≤ attempt → Move s .transient { s with phase := .idle }
  | retried (caller : Caller) (attempt : ℕ) :
    s.phase = .streaming caller attempt → attempt < retries → Move s .transient (s.send caller (attempt + 1))
  | failed (caller : Caller) (attempt : ℕ) :
    s.phase = .streaming caller attempt → Move s .failed { s with phase := .idle }
  | response (caller : Caller) (attempt : ℕ) (r : Response) :
    s.phase = .streaming caller attempt → Move s (.response r) (s.received caller r)
  | toolResult (e : Execution) (result : Value) :
    s.phase = .executing e → Move s (.toolResult result) (s.answered e (boundedToolContent l.toolResultMaxChars result))

variable {l}

theorem step_move {s t : State} {a : Act} (h : step l s a = some t) : Move l s a t := by
  unfold step at h
  split at h
  next hp =>
    cases h
    exact Move.run _ hp
  next hp =>
    cases h
    exact Move.sendUserMessage _ hp
  next hp =>
    split at h
    next hover =>
      cases h
      exact Move.limitReached _ _ hp hover
    next hover =>
      cases h
      exact Move.turn _ hp hover
  next hp =>
    cases h
    exact Move.summaryFailed hp
  next hp =>
    cases h
    exact Move.summarised _ hp
  next hp =>
    split at h
    next hle =>
      cases h
      exact Move.givenUp _ _ hp hle
    next hlt =>
      cases h
      exact Move.retried _ _ hp (Nat.lt_of_not_le hlt)
  next hp =>
    cases h
    exact Move.failed _ _ hp
  next hp =>
    cases h
    exact Move.response _ _ _ hp
  next hp =>
    cases h
    exact Move.toolResult _ _ hp
  next => cases h

/-- The head of the loop asks for a summary or starts the turn. -/
theorem loopTurn_cases (s : State) :
    compressAt < s.contextTokens ∧ 6 < s.messages.length ∧ s.loopTurn = s.requestSummary ∨
      s.loopTurn = s.streamTurn .run := by
  unfold State.loopTurn
  split
  next h => exact Or.inl ⟨h.1, h.2, rfl⟩
  next => exact Or.inr rfl

theorem received_nil {s : State} {caller : Caller} {r : Response} (h : r.toolCalls = []) :
    s.received caller r =
      (s.accounted r.usage).turnDone caller r.stop [⟨.assistant, .blocks r.assistantContent⟩] := by
  simp only [State.received, h]

theorem received_cons {s : State} {caller : Caller} {r : Response} {tc : ToolCall} {tcs : List ToolCall}
    (h : r.toolCalls = tc :: tcs) :
    s.received caller r =
      (s.accounted r.usage).executeNext ⟨caller, r.stop, r.assistantContent, [], tc, tcs⟩ := by
  simp only [State.received, h]

theorem answered_nil {s : State} {e : Execution} {content : Str} (h : e.pending = []) :
    s.answered e content =
      s.turnDone e.caller e.stop [⟨.assistant, .blocks e.assistantContent⟩,
        ⟨.user, .blocks (e.toolResults ++ [.plain (.toolResult e.current.id content)])⟩] := by
  simp only [State.answered, h]

theorem answered_cons {s : State} {e : Execution} {content : Str} {tc : ToolCall} {tcs : List ToolCall}
    (h : e.pending = tc :: tcs) :
    s.answered e content =
      s.executeNext { e with
        toolResults := e.toolResults ++ [.plain (.toolResult e.current.id content)], current := tc, pending := tcs } := by
  simp only [State.answered, h]

theorem turnDone_phase (s : State) (caller : Caller) (stop : StopReason) (newMessages : List Message) :
    (s.turnDone caller stop newMessages).phase = .idle ∨
      caller = .run ∧ stop = .toolUse ∧ (s.turnDone caller stop newMessages).phase = .turn := by
  cases caller with
  | sendUserMessage => exact Or.inl rfl
  | run => cases stop <;> simp [State.turnDone]

end ReleaseValidation.AiAgent.AgentLoop
