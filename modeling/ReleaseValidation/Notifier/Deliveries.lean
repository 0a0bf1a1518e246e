import ReleaseValidation.Foundations.Consumers
import ReleaseValidation.Notifier.RunEmbeds

/-! # Notifications on their way to the chat

The notifier takes messages from a queue and posts their embeds to a webhook: up to three
times, as long as the answer says that another attempt may help. What came of it is a row of
the table of deliveries. A message whose handler raises goes back to the queue.
-/
namespace ReleaseValidation.Notifier.Deliveries
open Programs Store Consumers Runs

/-- How `json.loads` ends on the body of a message. -/
inductive Loaded
  | json (body : Json)
  /-- A `JSONDecodeError`. -/
  | invalid
  /-- Any other error: the bytes are no text. -/
  | undecodable

/-- How `client.post` ends. -/
inductive Reply
  | response (status : ℕ) (json : Except Err Json) (text : String)
  | transportError
  | error (e : Err)

structure Row where
  deliveryId : String
  eventType : Json
  runId : Json
  channel : String
  status : String
  error : Option String
  deliveredAt : String

inductive Effect
  | post (embeds : List Embed) (reply : Reply)
  | row (r : Row)

/-- Where `handle_discord_message` waits. -/
inductive Phase
  | received
  | posting (embeds : List Embed) (attempt : ℕ)
  | logging (status : String) (error : Option String)

inductive Event
  | handled (now : String)
  | answered (reply : Reply)
  | logged (deliveryId now : String) (inserted : Bool)

def maxRetries : ℕ := 3

/-- What the notifier runs with. -/
structure Config where
  py : Interpreter
  others : String → Option Formatter
  webhookUrl : String

section Handler
variable (cfg : Config)

/-- `float(resp.json().get("retry_after", 1.0))`. -/
def retryAfter (json : Except Err Json) : Except Err ℚ := do
  let body ← json
  cfg.py.toFloat (← body.get "retry_after" (.float 1))

/-- The end of an attempt that was neither accepted nor refused. -/
def retry (embeds : List Embed) (attempt : ℕ) : Stage Phase :=
  if attempt < maxRetries then .running (.posting embeds (attempt + 1))
  else .running (.logging "failed" (some "max retries exceeded"))

/-- One round of the loop of `send_embed`. -/
def afterReply (embeds : List Embed) (attempt : ℕ) : Reply → Stage Phase
  | .response status json text =>
    if status = 429 then
      match retryAfter cfg json with
      | .ok _ => retry embeds attempt
      | .error _ => .raised
    else if status = 200 ∨ status = 204 then .running (.logging "delivered" none)
    else if 400 ≤ status ∧ status < 500 then .running (.logging "failed" (some (clip 500 text)))
    else retry embeds attempt
  | .transportError => retry embeds attempt
  | .error _ => .raised

/-- From the start of `send_embed` to its loop. -/
def sendEmbed (embeds : List Embed) : Stage Phase :=
  if cfg.webhookUrl = "" then .returned else .running (.posting (embeds.take 10) 1)

def received (now : String) : Loaded → Stage Phase
  | .json body =>
    match handleDiscordMessage cfg.py now cfg.others body with
    | .ok (some embeds) => sendEmbed cfg embeds
    | .ok none => .returned
    | .error _ => .raised
  | .invalid => .returned
  | .undecodable => .raised

/-- The keys of the message that its row repeats. -/
def Loaded.key (key : String) (default : Json) : Loaded → Json
  | .json body => (body.get key default).toOption.getD default
  | .invalid => default
  | .undecodable => default

/-- `_log_delivery`, whose own errors are only logged. -/
def logDelivery (m : Loaded) (status : String) (error : Option String) (deliveryId now : String) : Bool → List Effect
  | true => [.row ⟨deliveryId, m.key "event_type" (.str "unknown"), m.key "run_id" .null, "discord", status, error, now⟩]
  | false => []

def next (m : Loaded) : Phase → Event → Stage Phase × List Effect
  | .received, .handled now => (received cfg now m, [])
  | .posting embeds attempt, .answered reply => (afterReply cfg embeds attempt reply, [.post embeds reply])
  | .logging status error, .logged deliveryId now inserted =>
    (.returned, logDelivery m status error deliveryId now inserted)
  | phase, _ => (.running phase, [])

/-- `handle_discord_message` under `message.process(requeue=True)`. -/
def handler : Handler Loaded Phase Event Effect where
  start _ := .running .received
  next := next cfg

/-- `channel.set_qos(prefetch_count=5)`. -/
abbrev step : State Loaded Phase Effect → Act Loaded Event → Option (State Loaded Phase Effect) :=
  Consumers.step (handler cfg) 5

end Handler

def Reply.accepted : Reply → Bool
  | .response status _ _ => status == 200 || status == 204
  | .transportError => false
  | .error _ => false

def Effect.accepted : Effect → Bool
  | .post _ reply => reply.accepted
  | .row _ => false

def Effect.isRow : Effect → Bool
  | .post _ _ => false
  | .row _ => true

/-- The loop goes on after this reply, if it has an attempt left. -/
def Retried (cfg : Config) : Reply → Prop
  | .response status json _ =>
    status = 429 ∧ (∃ x, retryAfter cfg json = .ok x) ∨
      status ≠ 429 ∧ status ≠ 200 ∧ status ≠ 204 ∧ ¬ (400 ≤ status ∧ status < 500)
  | .transportError => True
  | .error _ => False

/-- How the loop ends on the last of its replies, and what the row says of it. -/
inductive Ends (cfg : Config) : ℕ → Reply → String → Option String → Prop
  | accepted {attempt : ℕ} {reply : Reply} : reply.accepted = true → Ends cfg attempt reply "delivered" none
  | refused {attempt status : ℕ} {json : Except Err Json} {text : String} : status ≠ 429 → 400 ≤ status →
      status < 500 → Ends cfg attempt (.response status json text) "failed" (some (clip 500 text))
  | exhausted {attempt : ℕ} {reply : Reply} : attempt = maxRetries → Retried cfg reply →
    Ends cfg attempt reply "failed" (some "max retries exceeded")

/-- The replies of a whole loop. -/
def Concludes (cfg : Config) (replies : List Reply) (status : String) (error : Option String) : Prop :=
  ∃ before last, replies = before ++ [last] ∧ (∀ r ∈ before, Retried cfg r) ∧ before.length < maxRetries ∧
    Ends cfg (before.length + 1) last status error

/-- The embeds that a delivery of the message posts. -/
def Posts (cfg : Config) (m : Loaded) (embeds : List Embed) : Prop :=
  cfg.webhookUrl ≠ "" ∧ ∃ now body all, m = .json body ∧
    handleDiscordMessage cfg.py now cfg.others body = .ok (some all) ∧ embeds = all.take 10

/-- A delivery of the message can end with nothing to post. -/
def Drops (cfg : Config) (m : Loaded) : Prop :=
  cfg.webhookUrl = "" ∨ m = .invalid ∨
    ∃ now body, m = .json body ∧ handleDiscordMessage cfg.py now cfg.others body = .ok none

/-- What a delivery puts out whose handler returns: nothing, or its posts and the row that
tells how they ended, unless the table refused it. -/
def Complete (cfg : Config) (m : Loaded) (out : List Effect) : Prop :=
  out = [] ∧ Drops cfg m ∨
    ∃ embeds replies status error deliveryId now inserted, Posts cfg m embeds ∧ Concludes cfg replies status error ∧
      out = replies.map (.post embeds) ++ logDelivery m status error deliveryId now inserted

/-- What a delivery puts out that is interrupted or raises: some of its posts. -/
def Unfinished (cfg : Config) (m : Loaded) (out : List Effect) : Prop :=
  ∃ embeds replies, out = replies.map (.post embeds) ∧ (replies ≠ [] → Posts cfg m embeds) ∧
    replies.length ≤ maxRetries ∧ ∀ r ∈ replies.dropLast, Retried cfg r

section Delivery
variable {cfg : Config} {m : Loaded}

theorem Retried.not_accepted {r : Reply} (h : Retried cfg r) : r.accepted = false := by
  cases r with
  | response status json text =>
    rcases h with ⟨rfl, -⟩ | ⟨-, h200, h204, -⟩
    · rfl
    · simp [Reply.accepted, h200, h204]
  | transportError => rfl
  | error e => cases h

/-- What the handler has put out where it stands. -/
def Standing (cfg : Config) (m : Loaded) : Stage Phase → List Effect → Prop
  | .running .received, out => out = []
  | .running (.posting embeds attempt), out =>
    Posts cfg m embeds ∧ ∃ replies : List Reply, out = replies.map (.post embeds) ∧ replies.length + 1 = attempt ∧
      attempt ≤ maxRetries ∧ ∀ r ∈ replies, Retried cfg r
  | .running (.logging status error), out =>
    ∃ embeds replies, Posts cfg m embeds ∧ Concludes cfg replies status error ∧ out = replies.map (.post embeds)
  | .returned, out => Complete cfg m out
  | .raised, out => Unfinished cfg m out

theorem standing_received (now : String) : Standing cfg m (received cfg now m) [] := by
  cases m with
  | json body =>
    rw [received]
    split
    next embeds hembeds =>
      unfold sendEmbed
      split
      next hurl => exact Or.inl ⟨rfl, .inl hurl⟩
      next hurl => exact ⟨⟨hurl, now, body, embeds, rfl, hembeds, rfl⟩, [], rfl, rfl, by decide, by simp⟩
    next hnone => exact Or.inl ⟨rfl, .inr (.inr ⟨now, body, rfl, hnone⟩)⟩
    next => exact ⟨[], [], rfl, by simp, by simp, by simp⟩
  | invalid => exact Or.inl ⟨rfl, .inr (.inl rfl)⟩
  | undecodable => exact ⟨[], [], rfl, by simp, by simp, by simp⟩

theorem standing_retry {embeds : List Embed} {replies : List Reply} {attempt : ℕ} {reply : Reply}
    (hposts : Posts cfg m embeds) (hlen : replies.length + 1 = attempt) (hmax : attempt ≤ maxRetries)
    (hbefore : ∀ r ∈ replies, Retried cfg r) (hreply : Retried cfg reply) :
    Standing cfg m (retry embeds attempt) ((replies ++ [reply]).map (.post embeds)) := by
  unfold retry
  split
  next hlt =>
    refine ⟨hposts, replies ++ [reply], rfl, by simp [hlen], by omega, ?_⟩
    simpa [or_imp, forall_and] using ⟨hbefore, hreply⟩
  next hge =>
    have hlast : replies.length + 1 = maxRetries := by omega
    exact ⟨embeds, replies ++ [reply], hposts, ⟨replies, reply, rfl, hbefore, by omega, Ends.exhausted hlast hreply⟩, rfl⟩

theorem standing_afterReply {embeds : List Embed} {replies : List Reply} {attempt : ℕ} (reply : Reply)
    (hposts : Posts cfg m embeds) (hlen : replies.length + 1 = attempt) (hmax : attempt ≤ maxRetries)
    (hbefore : ∀ r ∈ replies, Retried cfg r) :
    Standing cfg m (afterReply cfg embeds attempt reply) ((replies ++ [reply]).map (.post embeds)) := by
  have hraised : Unfinished cfg m ((replies ++ [reply]).map (.post embeds)) :=
    ⟨embeds, replies ++ [reply], rfl, fun _ => hposts, by simp; omega, by simpa using hbefore⟩
  have hends : ∀ status error, Ends cfg (replies.length + 1) reply status error →
      Standing cfg m (.running (.logging status error)) ((replies ++ [reply]).map (.post embeds)) :=
    fun status error hend =>
      ⟨embeds, replies ++ [reply], hposts, ⟨replies, reply, rfl, hbefore, by omega, hend⟩, rfl⟩
  cases reply with
  | response status json text =>
    rw [afterReply]
    split
    next h429 =>
      split
      next x hx => exact standing_retry hposts hlen hmax hbefore (.inl ⟨h429, x, hx⟩)
      next => exact hraised
    next h429 =>
      split
      next hok => exact hends _ _ (.accepted (by simpa [Reply.accepted] using hok))
      next hok =>
        obtain ⟨h200, h204⟩ := not_or.mp hok
        split
        next hclient => exact hends _ _ (.refused h429 hclient.1 hclient.2)
        next hclient => exact standing_retry hposts hlen hmax hbefore (.inr ⟨h429, h200, h204, hclient⟩)
  | transportError => exact standing_retry hposts hlen hmax hbefore trivial
  | error e => exact hraised

theorem standing_next {phase : Phase} {out : List Effect} (h : Standing cfg m (.running phase) out) (e : Event) :
    Standing cfg m (next cfg m phase e).1 (out ++ (next cfg m phase e).2) := by
  unfold next
  split
  next now =>
    obtain rfl : out = [] := h
    exact standing_received now
  next embeds attempt reply =>
    obtain ⟨hposts, replies, rfl, hlen, hmax, hbefore⟩ := h
    have hstanding := standing_afterReply reply hposts hlen hmax hbefore
    rwa [List.map_append] at hstanding
  next status error deliveryId now inserted =>
    obtain ⟨embeds, replies, hposts, hconcludes, rfl⟩ := h
    exact .inr ⟨embeds, replies, status, error, deliveryId, now, inserted, hposts, hconcludes, rfl⟩
  next => rwa [List.append_nil]

theorem standing_of_reaches {stage : Stage Phase} {out : List Effect} (h : (handler cfg).Reaches m stage out) :
    Standing cfg m stage out := by
  have hstart : Standing cfg m ((handler cfg).start m) [] := rfl
  exact h.induction hstart fun _ _ e ht => standing_next ht e

/-- What one delivery puts out, interrupted or not: up to three posts, each after the first
because the one before it failed, and then at most a row that tells how they ended. -/
def Delivery (cfg : Config) (m : Loaded) (out : List Effect) : Prop :=
  ∃ embeds replies rows, out = replies.map (.post embeds) ++ rows ∧ (replies ≠ [] → Posts cfg m embeds) ∧
    replies.length ≤ maxRetries ∧ (∀ r ∈ replies.dropLast, Retried cfg r) ∧
    (rows = [] ∨ ∃ status error deliveryId now, Concludes cfg replies status error ∧
      rows = logDelivery m status error deliveryId now true)

theorem Concludes.dropLast {replies : List Reply} {status : String} {error : Option String}
    (h : Concludes cfg replies status error) : replies.length ≤ maxRetries ∧ ∀ r ∈ replies.dropLast, Retried cfg r := by
  obtain ⟨before, last, rfl, hbefore, hlen, -⟩ := h
  exact ⟨by simpa using Nat.succ_le_of_lt hlen, by simpa using hbefore⟩

theorem delivery_nil : Delivery cfg m [] := ⟨[], [], [], rfl, by simp, by simp, by simp, .inl rfl⟩

theorem Complete.delivery {out : List Effect} (h : Complete cfg m out) : Delivery cfg m out := by
  obtain ⟨rfl, -⟩ | ⟨embeds, replies, status, error, deliveryId, now, inserted, hposts, hconcludes, rfl⟩ := h
  · exact delivery_nil
  · obtain ⟨hlen, hbefore⟩ := hconcludes.dropLast
    refine ⟨embeds, replies, _, rfl, fun _ => hposts, hlen, hbefore, ?_⟩
    cases inserted with
    | false => exact .inl rfl
    | true => exact .inr ⟨status, error, deliveryId, now, hconcludes, rfl⟩

theorem Standing.delivery {stage : Stage Phase} {out : List Effect} (h : Standing cfg m stage out) :
    Delivery cfg m out := by
  match stage, h with
  | .running .received, h =>
    obtain rfl : out = [] := h
    exact delivery_nil
  | .running (.posting embeds attempt), h =>
    obtain ⟨hposts, replies, rfl, hlen, hmax, hbefore⟩ := h
    refine ⟨embeds, replies, [], by simp, fun _ => hposts, by omega, fun r hr => ?_, .inl rfl⟩
    exact hbefore r (List.dropLast_subset _ hr)
  | .running (.logging status error), h =>
    obtain ⟨embeds, replies, hposts, hconcludes, rfl⟩ := h
    obtain ⟨hlen, hbefore⟩ := hconcludes.dropLast
    exact ⟨embeds, replies, [], by simp, fun _ => hposts, hlen, hbefore, .inl rfl⟩
  | .returned, h => exact Complete.delivery h
  | .raised, h =>
    obtain ⟨embeds, replies, rfl, hposts, hlen, hbefore⟩ := h
    exact ⟨embeds, replies, [], by simp, hposts, hlen, hbefore, .inl rfl⟩

def Effect.toldDelivered : Effect → Bool
  | .post _ _ => false
  | .row r => r.status == "delivered"

/-- A delivery is accepted at most once, and its row says so only if it was. -/
theorem Delivery.counts {out : List Effect} (h : Delivery cfg m out) :
    out.countP Effect.accepted ≤ 1 ∧ out.countP Effect.toldDelivered ≤ out.countP Effect.accepted := by
  obtain ⟨embeds, replies, rows, rfl, -, -, hbefore, hrows⟩ := h
  have hposts : (replies.map (Effect.post embeds)).countP Effect.accepted = replies.countP Reply.accepted :=
    List.countP_map
  have htold : (replies.map (Effect.post embeds)).countP Effect.toldDelivered = 0 := by
    simp [List.countP_eq_zero, Effect.toldDelivered]
  have hone : replies.countP Reply.accepted ≤ 1 := by
    rcases List.eq_nil_or_concat replies with rfl | ⟨before, last, rfl⟩
    · simp
    · have hzero : before.countP Reply.accepted = 0 := by
        rw [List.countP_eq_zero]
        intro r hr
        simp [(hbefore r (by simpa using hr)).not_accepted]
      rw [List.concat_eq_append, List.countP_append, hzero, Nat.zero_add]
      exact List.countP_le_length
  rcases hrows with rfl | ⟨status, error, deliveryId, now, hconcludes, rfl⟩
  · simp [hposts, htold, hone]
  · rw [List.countP_append, List.countP_append, hposts, htold]
    refine ⟨by simpa [logDelivery, Effect.accepted] using hone, ?_⟩
    obtain ⟨before, last, rfl, -, -, hend⟩ := hconcludes
    cases hend with
    | accepted haccepted => simp [logDelivery, Effect.toldDelivered, Effect.accepted, haccepted]
    | refused => simp [logDelivery, Effect.toldDelivered]
    | exhausted => simp [logDelivery, Effect.toldDelivered]

end Delivery

section Queue
variable {cfg : Config} {as : List (Act Loaded Event)} {s : State Loaded Phase Effect} {tag : ℕ} {m : Loaded}

theorem countP_flatten_le {α : Type} {p : α → Bool} {ls : List (List α)} (h : ∀ l ∈ ls, l.countP p ≤ 1) :
    ls.flatten.countP p ≤ ls.length := by
  induction ls with
  | nil => simp
  | cons l ls ih =>
    obtain ⟨hl, hls⟩ := List.forall_mem_cons.mp h
    have hrest := ih hls
    rw [List.flatten_cons, List.countP_append, List.length_cons]
    omega

theorem countP_flatten_le_countP {α : Type} {p q : α → Bool} {ls : List (List α)}
    (h : ∀ l ∈ ls, l.countP p ≤ l.countP q) : ls.flatten.countP p ≤ ls.flatten.countP q := by
  induction ls with
  | nil => simp
  | cons l ls ih =>
    obtain ⟨hl, hls⟩ := List.forall_mem_cons.mp h
    rw [List.flatten_cons, List.countP_append, List.countP_append]
    exact Nat.add_le_add hl (ih hls)

/-- However its deliveries are interleaved with others and interrupted, a notification is in one
place. It is accepted once at most, and once more for each return to the queue, and recorded as
delivered no more often than it was accepted. An acknowledged one has a complete delivery. -/
theorem notification_accounted (hrun : exec (step cfg) initial as = some s) (hm : s.published[tag]? = some m) :
    s.tags = Multiset.range s.published.length ∧
      (s.output tag).countP Effect.accepted ≤ s.returned.count tag + 1 ∧
      (s.output tag).countP Effect.toldDelivered ≤ (s.output tag).countP Effect.accepted ∧
      ∃ past : List (List Effect), ∃ last, s.output tag = past.flatten ++ last ∧ past.length = s.returned.count tag ∧
        (∀ out ∈ past, Delivery cfg m out) ∧ (tag ∈ s.queue → last = []) ∧ (tag ∈ s.acked → Complete cfg m last) := by
  have haccounts := exec_accounts hrun
  obtain ⟨past, last, ht⟩ := haccounts.told tag m hm
  have hpast : ∀ out ∈ past, Delivery cfg m out := by
    intro out hout
    obtain ⟨stage, hreach⟩ := ht.past out hout
    exact (standing_of_reaches hreach).delivery
  have hlast : Delivery cfg m last := by
    have htag : tag ∈ s.tags := by
      rw [haccounts.conserved, Multiset.mem_range]
      exact (List.getElem?_eq_some_iff.mp hm).1
    simp only [State.tags, Multiset.mem_add, Multiset.mem_coe, List.mem_map] at htag
    rcases htag with (hq | ⟨d, hd, hdtag⟩) | ha
    · rw [ht.waiting hq]
      exact delivery_nil
    · exact (standing_of_reaches (ht.held d hd hdtag)).delivery
    · exact (standing_of_reaches (ht.acked ha)).delivery
  refine ⟨haccounts.conserved, ?_, ?_, past, last, ht.output, ht.count, hpast, ht.waiting,
    fun ha => standing_of_reaches (ht.acked ha)⟩
  · have hflat := countP_flatten_le fun out hout => (hpast out hout).counts.1
    have hone := hlast.counts.1
    rw [ht.output, List.countP_append, ← ht.count]
    omega
  · have hflat := countP_flatten_le_countP fun out hout => (hpast out hout).counts.2
    have hone := hlast.counts.2
    rw [ht.output, List.countP_append, List.countP_append]
    omega

def webhookConfig : Config := ⟨plainInterpreter, fun _ => none, "https://chat.example/webhook"⟩

def passedMessage : Loaded := .json (passedNotification.message "e" "t")

/-- The webhook is down at first and the handler is cancelled; then it asks for patience, and accepts. -/
def interruptedRun : List (Act Loaded Event) :=
  [.publish passedMessage, .deliver 0, .event 0 (.handled "t"), .event 0 (.answered (.response 503 (.ok .null) "")),
    .interrupt 0, .deliver 0, .event 0 (.handled "u"),
    .event 0 (.answered (.response 429 (.ok (.obj [("retry_after", .float 1)])) "")),
    .event 0 (.answered (.response 204 (.ok .null) "")), .event 0 (.logged "d" "v" true), .settle 0]

theorem notification_accounted_interruptedRun :
    ∃ s, exec (step webhookConfig) initial interruptedRun = some s ∧ s.acked = [0] ∧ s.returned = [0] ∧
      (s.output 0).countP Effect.accepted ≤ 2 ∧
      ∃ past : List (List Effect), ∃ last, s.output 0 = past.flatten ++ last ∧ Complete webhookConfig passedMessage last := by
  have hends : ∃ s, exec (step webhookConfig) initial interruptedRun = some s ∧ s.acked = [0] ∧ s.returned = [0] ∧
      s.published[0]? = some passedMessage := ⟨_, rfl, rfl, rfl, rfl⟩
  obtain ⟨s, hrun, hacked, hreturned, hm⟩ := hends
  obtain ⟨-, haccepted, -, past, last, hout, -, -, -, hcomplete⟩ := notification_accounted hrun hm
  rw [hreturned] at haccepted
  exact ⟨s, hrun, hacked, hreturned, haccepted, past, last, hout, hcomplete (by simp [hacked])⟩

theorem raised_of_not_object {body : Json} (hbody : ∀ fields, body ≠ .obj fields) (now : String) :
    received cfg now (.json body) = .raised := by
  cases body with
  | obj fields => exact absurd rfl (hbody fields)
  | _ => rfl

/-- The handler of such a body has nothing to put out and does not return. -/
theorem reaches_of_not_object {body : Json} (hbody : ∀ fields, body ≠ .obj fields) {stage : Stage Phase}
    {out : List Effect} (h : (handler cfg).Reaches (.json body) stage out) :
    (stage = .running .received ∨ stage = .raised) ∧ out = [] := by
  refine h.induction (I := fun stage out => (stage = .running .received ∨ stage = .raised) ∧ out = [])
    ⟨.inl rfl, rfl⟩ ?_
  rintro phase out e ⟨hphase, rfl⟩
  obtain rfl : phase = .received := by simpa using hphase
  cases e with
  | handled now => exact ⟨.inr (raised_of_not_object hbody now), rfl⟩
  | answered reply => exact ⟨.inl rfl, rfl⟩
  | logged deliveryId now inserted => exact ⟨.inl rfl, rfl⟩

/-- A body that is JSON but no object stays with the notifier, in every run. -/
theorem not_object_never_leaves (hrun : exec (step cfg) initial as = some s) {body : Json}
    (hm : s.published[tag]? = some (.json body)) (hbody : ∀ fields, body ≠ .obj fields) :
    (tag ∈ s.queue ∨ ∃ d ∈ s.held, d.tag = tag) ∧ s.output tag = [] := by
  have haccounts := exec_accounts hrun
  obtain ⟨past, last, ht⟩ := haccounts.told tag _ hm
  have hacked : tag ∉ s.acked := by
    intro ha
    obtain ⟨hstage, -⟩ := reaches_of_not_object hbody (ht.acked ha)
    simp at hstage
  have htag : tag ∈ s.tags := by
    rw [haccounts.conserved, Multiset.mem_range]
    exact (List.getElem?_eq_some_iff.mp hm).1
  simp only [State.tags, Multiset.mem_add, Multiset.mem_coe, List.mem_map, hacked, or_false] at htag
  refine ⟨htag, ?_⟩
  have hlast : last = [] := by
    rcases htag with hq | ⟨d, hd, hdtag⟩
    · exact ht.waiting hq
    · exact (reaches_of_not_object hbody (ht.held d hd hdtag)).2
  rw [ht.output, hlast, List.append_nil, List.flatten_eq_nil_iff]
  intro out hout
  obtain ⟨stage, hreach⟩ := ht.past out hout
  exact (reaches_of_not_object hbody hreach).2

/-- A run that takes in an empty list, and puts it back. -/
def poisonedRun : List (Act Loaded Event) :=
  [.publish (.json (.arr [])), .deliver 0, .event 0 (.handled "t"), .settle 0]

theorem not_object_never_leaves_poisonedRun :
    ∃ s, exec (step webhookConfig) initial poisonedRun = some s ∧ (0 ∈ s.queue ∨ ∃ d ∈ s.held, d.tag = 0) ∧
      s.output 0 = [] := by
  have hends : ∃ s, exec (step webhookConfig) initial poisonedRun = some s ∧
      s.published[0]? = some (.json (.arr [])) := ⟨_, rfl, rfl⟩
  obtain ⟨s, hrun, hm⟩ := hends
  exact ⟨s, hrun, not_object_never_leaves hrun hm nofun⟩

end Queue
end ReleaseValidation.Notifier.Deliveries
