import ReleaseValidation.Foundations.JsonObjects
import ReleaseValidation.Foundations.Runs
import ReleaseValidation.Foundations.Topics

/-! # Live events

Clients connect to the orchestrator under a channel or under none, and the relay broadcasts every
event of the live channel of Redis to those that have no channel and to those whose channel is the run or
the session of the event. The connections change while a broadcast is sending. Nothing is awaited while the lock is
held, so what is done under it is one step, together with what its task does on its own before; each
send is a step as well. Tasks take their steps in any order.
-/
namespace ReleaseValidation.Orchestrator.LiveEvents
open JsonTexts Runs Topics

variable {Conn : Type} [DecidableEq Conn]

/-! ### The connection manager -/

/-- `_connections`. Connections without a channel are in the bucket of `none`. -/
abbrev Connections (Conn : Type) := Buckets (Option Str) Conn

/-- `ConnectionManager.connect`, under the lock. -/
def connect (b : Connections Conn) (ws : Conn) (channel : Option Str) : Connections Conn := add b channel ws

/-- `ConnectionManager.disconnect`. -/
def disconnect (b : Connections Conn) (ws : Conn) (channel : Option Str) : Connections Conn := remove none b channel ws

/-- `dict.get(name)`. A dict keeps the last member of a name. -/
def get (fields : List (Str × Value)) (name : Text) : Value := (fields.reverse.lookup (codePoints name)).getD .null

section Broadcasts
-- `loads` is `json.loads`, which may raise
variable (loads : Text → Option Value)

/-- `keys` of a message. Only an object has a `get`. -/
def keys (message : Text) : List Value :=
  match loads message with
  | some (.obj fields) => [get fields "run_id".toList, get fields "session_id".toList]
  | _ => []

/-- The connections of a key that is true. An array or an object has no hash, so it cannot be looked up. -/
def connectionsOf (b : Connections Conn) : Value → Except String (List Conn)
  | .str s => .ok (if s = [] then [] else bucket b (some s))
  | .arr (_ :: _) => .error "unhashable type: 'list'"
  | .obj (_ :: _) => .error "unhashable type: 'dict'"
  -- no channel is equal to a word or a number, true or not
  | _ => .ok []

/-- `targets`. -/
def targets (b : Connections Conn) (message : Text) : Except String (List Conn) :=
  (keys loads message).foldlM (fun ts key => (connectionsOf b key).map (join ts)) (bucket b none)

end Broadcasts

/-! ### Endpoints and the relay -/

/-- A call of `websocket_endpoint`. -/
inductive Endpoint
  | outside
  /-- It awaits `ws.accept()` or the lock. -/
  | connecting (channel : Option Str)
  | refused
  /-- It sends a ping now and then. -/
  | serving (channel : Option Str)
  /-- A ping has failed. -/
  | leaving (channel : Option Str)
  | disconnected
  /-- The task was cancelled, which leaves the connection where it is. -/
  | cancelled (channel : Option Str)
  deriving DecidableEq

/-- The task of `redis_subscriber`. -/
inductive Relay (Conn : Type)
  | listening
  /-- A broadcast has these targets left, and these are `dead`. -/
  | sending (left dead : List Conn)
  /-- A broadcast has raised, and with it the relay. -/
  | raised (error : String)
  deriving DecidableEq

/-- A broadcast at its snapshot. -/
structure Broadcast (Conn : Type) where
  message : Text
  connections : Connections Conn
  /-- The channel under which a connection is registered. -/
  registered : Registry (Option Str) Conn

/-- A call of `send_text` by a broadcast. -/
structure Attempt (Conn : Type) where
  broadcast : ℕ
  ws : Conn
  ok : Bool
  deriving DecidableEq

structure State (Conn : Type) where
  connections : Connections Conn
  endpoints : Conn → Endpoint
  relay : Relay Conn
  /-- The broadcasts that have been begun, and how many of them have returned. -/
  broadcasts : List (Broadcast Conn)
  returned : ℕ
  attempts : List (Attempt Conn)

def State.initial : State Conn := ⟨single none, fun _ => .outside, .listening, [], 0, []⟩

/-- The channel of a connection from its `connect` to its `disconnect`. -/
def Endpoint.channel : Endpoint → Option (Option Str)
  | .serving c | .leaving c | .cancelled c => some c
  | .outside | .connecting _ | .refused | .disconnected => none

namespace State
variable (s : State Conn)

/-- A send to the connection failed in a broadcast that has returned. -/
def Failed (ws : Conn) : Prop := ∃ a ∈ s.attempts, a.broadcast < s.returned ∧ a.ws = ws ∧ a.ok = false

instance (ws : Conn) : Decidable (s.Failed ws) := inferInstanceAs (Decidable (∃ a ∈ s.attempts, _))

/-- A connection is registered from its `connect` to its `disconnect`, or to the end of a broadcast that
failed to reach it. -/
def registered : Registry (Option Str) Conn := fun ws => if s.Failed ws then none else (s.endpoints ws).channel

/-- The connections that broadcast `i` has sent its message to, in this order. -/
def sentTo (i : ℕ) : List Conn := (s.attempts.filter (·.broadcast = i)).map Attempt.ws

/-- `dead` of broadcast `i`. -/
def deadOf (i : ℕ) : List Conn := (s.attempts.filter fun a => a.broadcast = i ∧ a.ok = false).map Attempt.ws

def setEndpoint (ws : Conn) (e : Endpoint) : State Conn := { s with endpoints := Function.update s.endpoints ws e }

end State

inductive Act (Conn : Type)
  | request (ws : Conn) (channel : Option Str)
  /-- `ws.accept()` raises. -/
  | refuse (ws : Conn)
  | connect (ws : Conn)
  | ping (ws : Conn) (ok : Bool)
  | cancel (ws : Conn)
  | disconnect (ws : Conn)
  /-- The relay has received a message, and its broadcast takes the snapshot. -/
  | broadcast (message : Text)
  | send (ok : Bool)
  /-- The broadcast prunes its dead connections and returns. -/
  | prune
  deriving DecidableEq

def step (loads : Text → Option Value) (s : State Conn) : Act Conn → Option (State Conn)
  | .request ws c => if s.endpoints ws = .outside then some (s.setEndpoint ws (.connecting c)) else none
  | .refuse ws =>
    match s.endpoints ws with
    | .connecting _ => some (s.setEndpoint ws .refused)
    | _ => none
  | .connect ws =>
    match s.endpoints ws with
    | .connecting c => some { s.setEndpoint ws (.serving c) with connections := connect s.connections ws c }
    | _ => none
  | .ping ws ok =>
    match s.endpoints ws with
    | .serving c => some (if ok then s else s.setEndpoint ws (.leaving c))
    | _ => none
  | .cancel ws =>
    match s.endpoints ws with
    | .serving c => some (s.setEndpoint ws (.cancelled c))
    | _ => none
  | .disconnect ws =>
    match s.endpoints ws with
    | .leaving c => some { s.setEndpoint ws .disconnected with connections := disconnect s.connections ws c }
    | _ => none
  | .broadcast message =>
    match s.relay with
    | .listening =>
      let broadcasts := s.broadcasts ++ [⟨message, s.connections, s.registered⟩]
      match targets loads s.connections message with
      | .ok ts => some { s with relay := .sending ts [], broadcasts := broadcasts }
      | .error e => some { s with relay := .raised e, broadcasts := broadcasts }
    | _ => none
  | .send ok =>
    match s.relay with
    | .sending (ws :: left) dead =>
      some { s with
        relay := .sending left (if ok then dead else dead ++ [ws])
        attempts := s.attempts ++ [⟨s.returned, ws, ok⟩] }
    | _ => none
  | .prune =>
    match s.relay with
    | .sending [] dead =>
      some { s with connections := prune s.connections dead, relay := .listening, returned := s.returned + 1 }
    | _ => none

/-! ### What a broadcast owes -/

section Routing
variable (loads : Text → Option Value)

/-- The value is no array or object with members. -/
def Hashable (key : Value) : Prop := (∀ v vs, key ≠ .arr (v :: vs)) ∧ ∀ f fs, key ≠ .obj (f :: fs)

/-- The run and the session of the message can be looked up. -/
def Routable (message : Text) : Prop := ∀ key ∈ keys loads message, Hashable key

/-- The connection is registered globally, or under a channel with a name that is the run or the session of the message. -/
def Addressed (b : Broadcast Conn) (ws : Conn) : Prop :=
  b.registered ws = some none ∨
    ∃ name, name ≠ [] ∧ Value.str name ∈ keys loads b.message ∧ b.registered ws = some (some name)

structure Routed (s : State Conn) : Prop where
  answered : ∀ e, s.relay ≠ .raised e
  once : ∀ i, (s.sentTo i).Nodup
  only : ∀ i b, s.broadcasts[i]? = some b → ∀ ws ∈ s.sentTo i, Addressed loads b ws
  all : ∀ i b, s.broadcasts[i]? = some b → i < s.returned → ∀ ws, Addressed loads b ws → ws ∈ s.sentTo i
  ordered : s.attempts.Pairwise (·.broadcast ≤ ·.broadcast)
  gone : ∀ ws, s.endpoints ws = .disconnected ∨ s.Failed ws → ∀ k, ws ∉ bucket s.connections k

end Routing

variable {loads : Text → Option Value} {s s' : State Conn} {b : Connections Conn} {ts ts' : List Conn} {ws : Conn}
  {e : Endpoint}

/-! ### The targets of a message -/

omit [DecidableEq Conn] in
theorem connectionsOf_eq_ok {key : Value} {xs : List Conn} (h : connectionsOf b key = .ok xs) :
    Hashable key ∧ ∀ ws, ws ∈ xs ↔ ∃ name, name ≠ [] ∧ key = .str name ∧ ws ∈ bucket b (some name) := by
  unfold connectionsOf at h
  split at h
  next name =>
    refine ⟨⟨nofun, nofun⟩, fun ws => ?_⟩
    cases h
    by_cases hname : name = []
    · simp [hname]
    · simp [hname]
  next => cases h
  next => cases h
  next key hstr harr hobj =>
    cases h
    exact ⟨⟨harr, hobj⟩, fun ws => iff_of_false List.not_mem_nil fun ⟨name, _, heq, _⟩ => hstr name heq⟩

omit [DecidableEq Conn] in
theorem connectionsOf_hashable (b : Connections Conn) {key : Value} (h : Hashable key) :
    ∃ xs, connectionsOf b key = .ok xs := by
  unfold connectionsOf
  split
  next => exact ⟨_, rfl⟩
  next v vs => exact absurd rfl (h.1 v vs)
  next f fs => exact absurd rfl (h.2 f fs)
  next => exact ⟨_, rfl⟩

/-- The connections of one key after the other. -/
theorem gather_eq_ok {ks : List Value} (h : ks.foldlM (fun ts key => (connectionsOf b key).map (join ts)) ts = .ok ts') :
    (∀ key ∈ ks, Hashable key) ∧ (ts.Nodup → ts'.Nodup) ∧ ∀ ws, ws ∈ ts' ↔
      ws ∈ ts ∨ ∃ name, name ≠ [] ∧ Value.str name ∈ ks ∧ ws ∈ bucket b (some name) := by
  induction ks generalizing ts with
  | nil =>
    cases h
    exact ⟨nofun, id, by simp⟩
  | cons key ks ih =>
    rw [List.foldlM_cons] at h
    cases hkey : connectionsOf b key with
    | error e =>
      rw [hkey] at h
      cases h
    | ok xs =>
      rw [hkey] at h
      obtain ⟨hhash, hxs⟩ := connectionsOf_eq_ok hkey
      obtain ⟨hrest, hnodup, hmem⟩ := ih h
      refine ⟨List.forall_mem_cons.mpr ⟨hhash, hrest⟩, fun hts => hnodup (nodup_join hts), fun ws => ?_⟩
      rw [hmem, mem_join, hxs]
      simp only [List.mem_cons, or_assoc]
      refine or_congr_right ?_
      constructor
      · rintro (⟨name, hname, rfl, hws⟩ | ⟨name, hname, hks, hws⟩)
        · exact ⟨name, hname, .inl rfl, hws⟩
        · exact ⟨name, hname, .inr hks, hws⟩
      · rintro ⟨name, hname, heq | hks, hws⟩
        · exact .inl ⟨name, hname, heq.symm, hws⟩
        · exact .inr ⟨name, hname, hks, hws⟩

theorem gather_hashable {ks : List Value} (h : ∀ key ∈ ks, Hashable key) :
    ∃ ts', ks.foldlM (fun ts key => (connectionsOf b key).map (join ts)) ts = .ok ts' := by
  induction ks generalizing ts with
  | nil => exact ⟨ts, rfl⟩
  | cons key ks ih =>
    obtain ⟨hkey, hks⟩ := List.forall_mem_cons.mp h
    obtain ⟨xs, hxs⟩ := connectionsOf_hashable b hkey
    rw [List.foldlM_cons, hxs]
    exact ih hks

theorem routable_iff {message : Text} : Routable loads message ↔ ∃ ts, targets loads b message = .ok ts :=
  ⟨fun h => gather_hashable h, fun ⟨_, h⟩ => (gather_eq_ok h).1⟩

/-- The targets are those to whom the message is addressed, each once. -/
theorem targets_exact {x : Broadcast Conn} (hx : Registers x.connections x.registered)
    (h : targets loads x.connections x.message = .ok ts) : ts.Nodup ∧ ∀ ws, ws ∈ ts ↔ Addressed loads x ws := by
  obtain ⟨-, hnodup, hmem⟩ := gather_eq_ok h
  refine ⟨hnodup (hx.nodup none), fun ws => ?_⟩
  simp only [hmem, hx.mem_iff, Addressed]

/-! ### What holds in every state -/

/-- The endpoint has been connected. -/
def Endpoint.Entered : Endpoint → Prop
  | .serving _ | .leaving _ | .disconnected | .cancelled _ => True
  | .outside | .connecting _ | .refused => False

/-- How far the broadcast has come that has not returned. -/
def Current (loads : Text → Option Value) (s : State Conn) : Prop :=
  match s.relay with
  | .listening => s.broadcasts.length = s.returned ∧ ∀ a ∈ s.attempts, a.broadcast < s.returned
  | .sending left dead => ∃ earlier x, s.broadcasts = earlier ++ [x] ∧ earlier.length = s.returned ∧
      targets loads x.connections x.message = .ok (s.sentTo s.returned ++ left) ∧ dead = s.deadOf s.returned ∧
        ∀ a ∈ s.attempts, a.broadcast ≤ s.returned
  | .raised _ => s.broadcasts.length = s.returned + 1 ∧ ∀ a ∈ s.attempts, a.broadcast < s.returned

structure Inv (loads : Text → Option Value) (s : State Conn) : Prop where
  registers : Registers s.connections s.registered
  snapshots : ∀ x ∈ s.broadcasts, Registers x.connections x.registered
  entered : ∀ x ∈ s.broadcasts, ∀ ws c, x.registered ws = some c → (s.endpoints ws).Entered
  ordered : s.attempts.Pairwise (·.broadcast ≤ ·.broadcast)
  finished : ∀ i x, s.broadcasts[i]? = some x → i < s.returned →
    targets loads x.connections x.message = .ok (s.sentTo i)
  current : Current loads s

theorem inv_initial : Inv loads (.initial : State Conn) where
  registers := registers_single none
  snapshots := nofun
  entered := nofun
  ordered := .nil
  finished := nofun
  current := ⟨rfl, nofun⟩

theorem registered_setEndpoint (h : s.Failed ws → e.channel = none) :
    (s.setEndpoint ws e).registered = Function.update s.registered ws e.channel := by
  funext ws'
  by_cases hws : ws' = ws
  · subst hws
    rw [Function.update_self]
    by_cases hfailed : s.Failed ws'
    · rw [h hfailed]
      exact if_pos hfailed
    · change (if s.Failed ws' then none else (Function.update s.endpoints ws' e ws').channel) = _
      rw [if_neg hfailed, Function.update_self]
  · rw [Function.update_of_ne hws]
    change (if s.Failed ws' then none else (Function.update s.endpoints ws e ws').channel) = _
    rw [Function.update_of_ne hws, State.registered]

/-- A step of an endpoint that keeps its channel. -/
theorem registered_setEndpoint_self (h : e.channel = (s.endpoints ws).channel) :
    (s.setEndpoint ws e).registered = s.registered := by
  funext ws'
  change (if s.Failed ws' then none else (Function.update s.endpoints ws e ws').channel) = _
  by_cases hws : ws' = ws
  · subst hws
    rw [Function.update_self, h, State.registered]
  · rw [Function.update_of_ne hws, State.registered]

theorem Inv.setEndpoint (h : Inv loads s) (hentered : (s.endpoints ws).Entered → e.Entered)
    (hb : Registers b (s.setEndpoint ws e).registered) : Inv loads { s.setEndpoint ws e with connections := b } where
  registers := hb
  snapshots := h.snapshots
  entered x hx ws' c hc := by
    have hold := h.entered x hx ws' c hc
    change (Function.update s.endpoints ws e ws').Entered
    by_cases hws : ws' = ws
    · subst hws
      rw [Function.update_self]
      exact hentered hold
    · rwa [Function.update_of_ne hws]
  ordered := h.ordered
  finished := h.finished
  current := h.current

theorem entered_of_registered {c : Option Str} (h : s.registered ws = some c) : (s.endpoints ws).Entered := by
  have hchannel : (s.endpoints ws).channel = some c := by
    unfold State.registered at h
    split at h
    · cases h
    · exact h
  cases he : s.endpoints ws <;> rw [he] at hchannel <;> trivial

omit [DecidableEq Conn] in
theorem sentTo_eq_nil {i : ℕ} (h : ∀ a ∈ s.attempts, a.broadcast < i) : s.sentTo i = [] := by
  have hfilter : s.attempts.filter (·.broadcast = i) = [] := by
    refine List.filter_eq_nil_iff.mpr fun a ha => ?_
    have hlt := h a ha
    simp only [decide_eq_true_eq]
    omega
  rw [State.sentTo, hfilter, List.map_nil]

omit [DecidableEq Conn] in
theorem deadOf_subset {i : ℕ} : s.deadOf i ⊆ s.sentTo i := by
  intro ws hws
  obtain ⟨a, ha, rfl⟩ := List.mem_map.mp hws
  obtain ⟨hmem, hdead⟩ := List.mem_filter.mp ha
  exact List.mem_map_of_mem (List.mem_filter.mpr ⟨hmem, decide_eq_true (of_decide_eq_true hdead).1⟩)

omit [DecidableEq Conn] in
theorem mem_deadOf {i : ℕ} : ws ∈ s.deadOf i ↔ ∃ a ∈ s.attempts, a.broadcast = i ∧ a.ws = ws ∧ a.ok = false := by
  simp only [State.deadOf, List.mem_map, List.mem_filter, decide_eq_true_eq]
  constructor
  · rintro ⟨a, ⟨ha, hi, hok⟩, hws⟩
    exact ⟨a, ha, hi, hws, hok⟩
  · rintro ⟨a, ha, hi, hws, hok⟩
    exact ⟨a, ⟨ha, hi, hok⟩, hws⟩

omit [DecidableEq Conn] in
theorem mem_sentTo {i : ℕ} : ws ∈ s.sentTo i ↔ ∃ a ∈ s.attempts, a.broadcast = i ∧ a.ws = ws := by
  simp only [State.sentTo, List.mem_map, List.mem_filter, decide_eq_true_eq]
  exact ⟨fun ⟨a, ⟨ha, hi⟩, hws⟩ => ⟨a, ha, hi, hws⟩, fun ⟨a, ha, hi, hws⟩ => ⟨a, ⟨ha, hi⟩, hws⟩⟩

theorem Inv.returned_le (h : Inv loads s) : s.returned ≤ s.broadcasts.length := by
  have hcur := h.current
  unfold Current at hcur
  split at hcur
  next => exact hcur.1.ge
  next =>
    obtain ⟨earlier, x, hsplit, hlength, -⟩ := hcur
    rw [hsplit, List.length_append, hlength]
    exact Nat.le_add_right _ _
  next => omega

/-- What a broadcast has sent to has been connected. -/
theorem Inv.entered_of_failed (h : Inv loads s) (hws : s.Failed ws) : (s.endpoints ws).Entered := by
  obtain ⟨a, ha, hlt, rfl, -⟩ := hws
  obtain ⟨x, hx⟩ : ∃ x, s.broadcasts[a.broadcast]? = some x :=
    ⟨_, List.getElem?_eq_getElem (Nat.lt_of_lt_of_le hlt h.returned_le)⟩
  have hmem := List.mem_of_getElem? hx
  have haddressed := ((targets_exact (h.snapshots x hmem) (h.finished _ x hx hlt)).2 a.ws).mp
    (mem_sentTo.mpr ⟨a, ha, rfl, rfl⟩)
  obtain hnone | ⟨name, -, -, hname⟩ := haddressed
  · exact h.entered x hmem _ _ hnone
  · exact h.entered x hmem _ _ hname

/-- A step of an endpoint that keeps its channel. -/
theorem Inv.keepChannel (h : Inv loads s) (hentered : (s.endpoints ws).Entered → e.Entered)
    (hchannel : e.channel = (s.endpoints ws).channel) : Inv loads (s.setEndpoint ws e) := by
  have hb := h.registers
  rw [← registered_setEndpoint_self hchannel] at hb
  exact h.setEndpoint hentered hb

theorem Inv.connected {c : Option Str} (h : Inv loads s) (hws : s.endpoints ws = .connecting c) :
    Inv loads { s.setEndpoint ws (.serving c) with connections := connect s.connections ws c } := by
  have hfailed : ¬ s.Failed ws := fun hf => by
    have hentered := h.entered_of_failed hf
    rw [hws] at hentered
    exact hentered
  refine h.setEndpoint (fun _ => trivial) ?_
  rw [registered_setEndpoint fun hf => absurd hf hfailed]
  refine h.registers.add ?_ c
  rw [State.registered, if_neg hfailed, hws]
  rfl

theorem Inv.left {c : Option Str} (h : Inv loads s) (hws : s.endpoints ws = .leaving c) :
    Inv loads { s.setEndpoint ws .disconnected with connections := disconnect s.connections ws c } := by
  refine h.setEndpoint (fun _ => trivial) ?_
  rw [registered_setEndpoint fun _ => rfl]
  refine h.registers.remove (fun k hk => ?_) none
  unfold State.registered at hk
  split at hk
  · cases hk
  · rw [hws] at hk
    exact (Option.some.inj hk).symm

/-- A broadcast begins, or raises. -/
theorem Inv.begun {m : Text} {relay : Relay Conn} (h : Inv loads s) (hlisten : s.relay = .listening)
    (hrelay : (∃ ts, targets loads s.connections m = .ok ts ∧ relay = .sending ts []) ∨ ∃ e, relay = .raised e) :
    Inv loads { s with relay := relay, broadcasts := s.broadcasts ++ [⟨m, s.connections, s.registered⟩] } := by
  have hcur := h.current
  rw [Current, hlisten] at hcur
  obtain ⟨hlength, hattempts⟩ := hcur
  refine ⟨h.registers, ?_, ?_, h.ordered, ?_, ?_⟩
  · exact List.forall_mem_append.mpr ⟨h.snapshots, List.forall_mem_singleton.mpr h.registers⟩
  · exact List.forall_mem_append.mpr ⟨h.entered, List.forall_mem_singleton.mpr fun _ _ hc => entered_of_registered hc⟩
  · intro i x hx hi
    rw [List.getElem?_append_left (Nat.lt_of_lt_of_eq hi hlength.symm)] at hx
    exact h.finished i x hx hi
  · obtain ⟨ts, hts, rfl⟩ | ⟨e, rfl⟩ := hrelay
    · have hsent := sentTo_eq_nil hattempts
      refine ⟨s.broadcasts, _, rfl, hlength, ?_, ?_, fun a ha => (hattempts a ha).le⟩
      · change targets loads s.connections m = .ok (s.sentTo s.returned ++ ts)
        rw [hsent, hts, List.nil_append]
      · exact (List.subset_nil.mp (hsent ▸ deadOf_subset)).symm
    · exact ⟨by rw [List.length_append, hlength]; rfl, hattempts⟩

theorem Inv.sent {left dead : List Conn} (ok : Bool) (h : Inv loads s) (hsending : s.relay = .sending (ws :: left) dead) :
    Inv loads { s with
      relay := .sending left (if ok then dead else dead ++ [ws])
      attempts := s.attempts ++ [⟨s.returned, ws, ok⟩] } := by
  have hcur := h.current
  rw [Current, hsending] at hcur
  obtain ⟨earlier, x, hsplit, hlength, htargets, hdead, hattempts⟩ := hcur
  set s' : State Conn := { s with
    relay := .sending left (if ok then dead else dead ++ [ws])
    attempts := s.attempts ++ [⟨s.returned, ws, ok⟩] } with hs'
  have hregistered : s'.registered = s.registered := by
    funext ws'
    have hfailed : s'.Failed ws' ↔ s.Failed ws' := by
      simp only [State.Failed, hs', List.mem_append, List.mem_singleton]
      constructor
      · rintro ⟨a, ha | rfl, hlt, hrest⟩
        · exact ⟨a, ha, hlt, hrest⟩
        · exact absurd hlt (Nat.lt_irrefl _)
      · rintro ⟨a, ha, hrest⟩
        exact ⟨a, .inl ha, hrest⟩
    simp only [State.registered, hfailed]
    rfl
  have hsent : ∀ i, s'.sentTo i = s.sentTo i ++ if s.returned = i then [ws] else [] := by
    intro i
    simp only [State.sentTo, hs', List.filter_append, List.map_append]
    by_cases hi : s.returned = i <;> simp [hi]
  refine ⟨hregistered ▸ h.registers, h.snapshots, h.entered, ?_, ?_, ?_⟩
  · refine List.pairwise_append.mpr ⟨h.ordered, List.pairwise_singleton _ _, fun a ha a' ha' => ?_⟩
    rw [List.mem_singleton.mp ha']
    exact hattempts a ha
  · intro i y hy hi
    have hne : s.returned ≠ i := Nat.ne_of_gt hi
    rw [h.finished i y hy hi, hsent, if_neg hne, List.append_nil]
  · refine ⟨earlier, x, hsplit, hlength, ?_, ?_, ?_⟩
    · rw [htargets, hsent, if_pos rfl, List.append_assoc, List.singleton_append]
    · simp only [State.deadOf, hs', List.filter_append, List.map_append]
      rw [hdead]
      cases ok <;> simp [State.deadOf]
    · refine List.forall_mem_append.mpr ⟨hattempts, List.forall_mem_singleton.mpr (Nat.le_refl _)⟩

theorem Inv.pruned {dead : List Conn} (h : Inv loads s) (hsending : s.relay = .sending [] dead) :
    Inv loads { s with connections := prune s.connections dead, relay := .listening, returned := s.returned + 1 } := by
  have hcur := h.current
  rw [Current, hsending] at hcur
  obtain ⟨earlier, x, hsplit, hlength, htargets, hdead, hattempts⟩ := hcur
  rw [List.append_nil] at htargets
  set s' : State Conn :=
    { s with connections := prune s.connections dead, relay := .listening, returned := s.returned + 1 } with hs'
  have hregistered : s'.registered = fun ws => if ws ∈ dead then none else s.registered ws := by
    funext ws
    have hfailed : s'.Failed ws ↔ ws ∈ dead ∨ s.Failed ws := by
      rw [hdead, mem_deadOf]
      simp only [State.Failed, hs', Nat.lt_succ_iff_lt_or_eq]
      constructor
      · rintro ⟨a, ha, hlt | heq, hrest⟩
        · exact .inr ⟨a, ha, hlt, hrest⟩
        · exact .inl ⟨a, ha, heq, hrest⟩
      · rintro (⟨a, ha, heq, hrest⟩ | ⟨a, ha, hlt, hrest⟩)
        · exact ⟨a, ha, .inr heq, hrest⟩
        · exact ⟨a, ha, .inl hlt, hrest⟩
    simp only [State.registered, hfailed]
    by_cases hws : ws ∈ dead
    · rw [if_pos (.inl hws), if_pos hws]
    · rw [if_neg hws]
      simp only [hws, false_or]
      rfl
  refine ⟨?_, h.snapshots, h.entered, h.ordered, ?_, ?_⟩
  · rw [hregistered]
    exact h.registers.prune dead
  · intro i y hy hi
    obtain hlt | rfl := Nat.lt_succ_iff_lt_or_eq.mp hi
    · exact h.finished i y hy hlt
    · change s.broadcasts[s.returned]? = some y at hy
      rw [hsplit, ← hlength, List.getElem?_concat_length] at hy
      cases hy
      exact htargets
  · exact ⟨by rw [hsplit, List.length_append, hlength]; rfl, fun a ha => Nat.lt_succ_of_le (hattempts a ha)⟩

/-- What a step can do. -/
inductive Move (loads : Text → Option Value) (s : State Conn) : Act Conn → State Conn → Prop
  | stay (ws : Conn) : Move loads s (.ping ws true) s
  | endpoint {a : Act Conn} {ws : Conn} {e : Endpoint} (ha : ∀ m, a ≠ .broadcast m)
      (hentered : (s.endpoints ws).Entered → e.Entered) (hchannel : e.channel = (s.endpoints ws).channel) :
      Move loads s a (s.setEndpoint ws e)
  | connect {ws : Conn} {c : Option Str} (h : s.endpoints ws = .connecting c) :
      Move loads s (.connect ws) { s.setEndpoint ws (.serving c) with connections := connect s.connections ws c }
  | disconnect {ws : Conn} {c : Option Str} (h : s.endpoints ws = .leaving c) :
      Move loads s (.disconnect ws) { s.setEndpoint ws .disconnected with connections := disconnect s.connections ws c }
  | begun {m : Text} {ts : List Conn} (hlisten : s.relay = .listening) (hts : targets loads s.connections m = .ok ts) :
      Move loads s (.broadcast m)
        { s with relay := .sending ts [], broadcasts := s.broadcasts ++ [⟨m, s.connections, s.registered⟩] }
  | raised {m : Text} {e : String} (hlisten : s.relay = .listening) (he : targets loads s.connections m = .error e) :
      Move loads s (.broadcast m)
        { s with relay := .raised e, broadcasts := s.broadcasts ++ [⟨m, s.connections, s.registered⟩] }
  | sent {ws : Conn} {left dead : List Conn} (ok : Bool) (h : s.relay = .sending (ws :: left) dead) :
      Move loads s (.send ok) { s with
        relay := .sending left (if ok then dead else dead ++ [ws])
        attempts := s.attempts ++ [⟨s.returned, ws, ok⟩] }
  | pruned {dead : List Conn} (h : s.relay = .sending [] dead) :
      Move loads s .prune
        { s with connections := prune s.connections dead, relay := .listening, returned := s.returned + 1 }

theorem step_move {a : Act Conn} (h : step loads s a = some s') : Move loads s a s' := by
  cases a with
  | request ws c =>
    rw [step] at h
    split at h <;> cases h
    next hout => exact .endpoint nofun (by rw [hout]; exact id) (by rw [hout]; rfl)
  | refuse ws =>
    rw [step] at h
    split at h <;> cases h
    next hconnecting => exact .endpoint nofun (by rw [hconnecting]; exact id) (by rw [hconnecting]; rfl)
  | connect ws =>
    rw [step] at h
    split at h <;> cases h
    next hconnecting => exact .connect hconnecting
  | ping ws ok =>
    rw [step] at h
    split at h <;> cases h
    next hserving =>
      cases ok with
      | true => exact .stay ws
      | false => exact .endpoint nofun (fun _ => trivial) (by rw [hserving]; rfl)
  | cancel ws =>
    rw [step] at h
    split at h <;> cases h
    next hserving => exact .endpoint nofun (fun _ => trivial) (by rw [hserving]; rfl)
  | disconnect ws =>
    rw [step] at h
    split at h <;> cases h
    next hleaving => exact .disconnect hleaving
  | broadcast m =>
    rw [step] at h
    split at h
    next hlisten =>
      split at h <;> cases h
      next hts => exact .begun hlisten hts
      next he => exact .raised hlisten he
    next => cases h
  | send ok =>
    rw [step] at h
    split at h <;> cases h
    next hsending => exact .sent ok hsending
  | prune =>
    rw [step] at h
    split at h <;> cases h
    next hsending => exact .pruned hsending

theorem inv_step {a : Act Conn} (h : Inv loads s) (hstep : step loads s a = some s') : Inv loads s' := by
  cases step_move hstep with
  | stay => exact h
  | endpoint _ hentered hchannel => exact h.keepChannel hentered hchannel
  | connect hws => exact h.connected hws
  | disconnect hws => exact h.left hws
  | begun hlisten hts => exact h.begun hlisten (.inl ⟨_, hts, rfl⟩)
  | raised hlisten _ => exact h.begun hlisten (.inr ⟨_, rfl⟩)
  | sent ok hsending => exact h.sent ok hsending
  | pruned hsending => exact h.pruned hsending

theorem inv_run {as : List (Act Conn)} (h : exec (step loads) .initial as = some s) : Inv loads s :=
  exec_invariant (fun _ _ _ hI ht => inv_step hI ht) inv_initial h

/-! ### The relay raises at a message that is not routable -/

def Raised (s : State Conn) : Prop := ∃ e, s.relay = .raised e

theorem raised_step {a : Act Conn} (hstep : step loads s a = some s') :
    Raised s' ↔ Raised s ∨ ∃ m, a = .broadcast m ∧ ¬ Routable loads m := by
  -- a step of another task, or of a broadcast that goes on
  have hother : (∀ m, a ≠ .broadcast m) → (Raised s' ↔ Raised s) →
      (Raised s' ↔ Raised s ∨ ∃ m, a = .broadcast m ∧ ¬ Routable loads m) :=
    fun ha hs => hs.trans (or_iff_left fun ⟨m, hm, _⟩ => ha m hm).symm
  have hlistening : s.relay = .listening → ¬ Raised s := fun hlisten ⟨e, he⟩ => by cases hlisten.symm.trans he
  have hsending : ∀ {left dead : List Conn}, s.relay = .sending left dead → ¬ Raised s :=
    fun hs ⟨e, he⟩ => by cases hs.symm.trans he
  cases step_move hstep with
  | stay => exact hother nofun Iff.rfl
  | endpoint ha => exact hother ha Iff.rfl
  | connect => exact hother nofun Iff.rfl
  | disconnect => exact hother nofun Iff.rfl
  | @begun m ts hlisten hts =>
    refine iff_of_false (fun ⟨e, he⟩ => by cases he) ?_
    rintro (hs | ⟨_, ⟨⟩, hroutable⟩)
    · exact hlistening hlisten hs
    · exact hroutable (routable_iff.mpr ⟨ts, hts⟩)
  | @raised m e hlisten he =>
    refine iff_of_true ⟨e, rfl⟩ (.inr ⟨m, rfl, fun hroutable => ?_⟩)
    obtain ⟨ts, hts⟩ := (routable_iff (b := s.connections)).mp hroutable
    cases he.symm.trans hts
  | sent ok hs => exact hother nofun (iff_of_false (fun ⟨e, he⟩ => by cases he) (hsending hs))
  | pruned hs => exact hother nofun (iff_of_false (fun ⟨e, he⟩ => by cases he) (hsending hs))

theorem raised_iff {as : List (Act Conn)} (h : exec (step loads) .initial as = some s) :
    Raised s ↔ ∃ m, Act.broadcast m ∈ as ∧ ¬ Routable loads m := by
  refine exec_history (P := fun as s => Raised s ↔ ∃ m, Act.broadcast m ∈ as ∧ ¬ Routable loads m) ?_ ?_ h
  · exact iff_of_false (fun ⟨e, he⟩ => by cases he) fun ⟨m, hm, _⟩ => by cases hm
  · intro as u a t _ hu ht
    rw [raised_step ht, hu]
    simp only [List.mem_append, List.mem_singleton]
    constructor
    · rintro (⟨m, hm, hroutable⟩ | ⟨m, rfl, hroutable⟩)
      · exact ⟨m, .inl hm, hroutable⟩
      · exact ⟨m, .inr rfl, hroutable⟩
    · rintro ⟨m, hm | hm, hroutable⟩
      · exact .inl ⟨m, hm, hroutable⟩
      · exact .inr ⟨m, hm.symm, hroutable⟩

theorem broadcast_enabled (h : s.relay = .listening) (m : Text) : ∃ s', step loads s (.broadcast m) = some s' := by
  rw [step, h]
  cases targets loads s.connections m with
  | ok ts => exact ⟨_, rfl⟩
  | error e => exact ⟨_, rfl⟩

/-! ### Every run -/

/-- What is sent of a broadcast is the first part of its targets. -/
theorem Inv.sentTo_targets (h : Inv loads s) (hraised : ¬ Raised s) (i : ℕ) :
    s.sentTo i = [] ∨ ∃ x left, s.broadcasts[i]? = some x ∧
      targets loads x.connections x.message = .ok (s.sentTo i ++ left) := by
  by_cases hi : i < s.returned
  · have hlt := Nat.lt_of_lt_of_le hi h.returned_le
    have hx := List.getElem?_eq_getElem hlt
    exact .inr ⟨_, [], hx, by rw [h.finished i _ hx hi, List.append_nil]⟩
  have hcur := h.current
  unfold Current at hcur
  split at hcur
  next =>
    exact .inl (sentTo_eq_nil fun a ha => Nat.lt_of_lt_of_le (hcur.2 a ha) (Nat.le_of_not_lt hi))
  next left dead hsending =>
    obtain ⟨earlier, x, hsplit, hlength, htargets, -, hattempts⟩ := hcur
    obtain hlt | rfl := Nat.lt_or_eq_of_le (Nat.le_of_not_lt hi)
    · exact .inl (sentTo_eq_nil fun a ha => Nat.lt_of_le_of_lt (hattempts a ha) hlt)
    · refine .inr ⟨x, left, ?_, htargets⟩
      rw [hsplit, ← hlength, List.getElem?_concat_length]
  next e he => exact absurd ⟨e, he⟩ hraised

theorem Inv.routed (h : Inv loads s) (hraised : ¬ Raised s) : Routed loads s where
  answered e he := hraised ⟨e, he⟩
  once i := by
    obtain hnil | ⟨x, left, hx, htargets⟩ := h.sentTo_targets hraised i
    · rw [hnil]
      exact .nil
    · exact (targets_exact (h.snapshots x (List.mem_of_getElem? hx)) htargets).1.of_append_left
  only i b hb ws hws := by
    obtain hnil | ⟨x, left, hx, htargets⟩ := h.sentTo_targets hraised i
    · rw [hnil] at hws
      cases hws
    · cases hb.symm.trans hx
      have hexact := (targets_exact (h.snapshots b (List.mem_of_getElem? hx)) htargets).2 ws
      exact hexact.mp (List.mem_append_left _ hws)
  all i b hb hi ws hws :=
    ((targets_exact (h.snapshots b (List.mem_of_getElem? hb)) (h.finished i b hb hi)).2 ws).mpr hws
  ordered := h.ordered
  gone ws hws k hmem := by
    have hregistered := (h.registers.mem_iff k ws).mp hmem
    unfold State.registered at hregistered
    split at hregistered
    next => cases hregistered
    next hfailed =>
      rw [hws.resolve_right hfailed] at hregistered
      cases hregistered

/-- Live events are routed exactly unless the run or the session of a message cannot be looked up. -/
theorem live_events_routed_iff {as : List (Act Conn)} (h : exec (step loads) .initial as = some s) :
    Routed loads s ↔ ∀ m, Act.broadcast m ∈ as → Routable loads m := by
  constructor
  · intro hs m hm
    by_contra hroutable
    obtain ⟨e, he⟩ := (raised_iff h).mpr ⟨m, hm, hroutable⟩
    exact hs.answered e he
  · intro has
    refine (inv_run h).routed fun hraised => ?_
    obtain ⟨m, hm, hroutable⟩ := (raised_iff h).mp hraised
    exact hroutable (has m hm)

/-! ### A global connection and one of a run -/

/-- An event of the run `r1`. -/
def runEvent : Text := "\x7b\"run_id\": \"r1\"\x7d".toList

def runChannel : Str := codePoints "r1".toList

def oneEvent (message : Text) : Option Value :=
  if message = runEvent then some (.obj [(codePoints "run_id".toList, .str runChannel)]) else none

/-- The connection of the run fails, and the other one disconnects while the broadcast is sending. -/
def twoConnections : List (Act ℕ) :=
  [.request 0 none, .request 1 (some runChannel), .connect 1, .connect 0, .broadcast runEvent, .ping 0 false, .send true,
    .disconnect 0, .send false, .prune]

theorem keys_runEvent : keys oneEvent runEvent = [.str runChannel, .null] := by
  rw [keys, oneEvent, if_pos rfl]
  rfl

theorem live_events_routed_two :
    ∃ s, exec (step oneEvent) .initial twoConnections = some s ∧ s.sentTo 0 = [0, 1] ∧ Routed oneEvent s := by
  have hrun : (exec (step oneEvent) .initial twoConnections).map (·.sentTo 0) = some [0, 1] := by rfl
  obtain ⟨s, hs, hsent⟩ := Option.map_eq_some_iff.mp hrun
  refine ⟨s, hs, hsent, (live_events_routed_iff hs).mpr fun m hm => ?_⟩
  obtain rfl : m = runEvent := by simpa [twoConnections] using hm
  rw [Routable, keys_runEvent]
  simp [Hashable]

/-- A message whose run is an array. -/
def listEvent : Text := "\x7b\"run_id\": [\"r1\"]\x7d".toList

theorem read_listEvent : read listEvent = some (.obj [(codePoints "run_id".toList, .arr [.str runChannel])]) := by
  have htext : listEvent = dump (.obj [(codePoints "run_id".toList, .arr [.str runChannel])]) := by rfl
  rw [htext, read_dump]
  rfl

theorem listEvent_not_routable : ¬ Routable read listEvent := by
  intro h
  have hkeys : Value.arr [.str runChannel] ∈ keys read listEvent := by
    rw [keys, read_listEvent]
    exact List.mem_cons_self
  exact (h _ hkeys).1 _ _ rfl

theorem list_event_raises : ∃ s : State ℕ,
    exec (step read) .initial [.request 0 none, .connect 0, .broadcast listEvent] = some s ∧ ¬ Routed read s := by
  obtain ⟨s, hs⟩ : ∃ s : State ℕ, exec (step read) .initial [.request 0 none, .connect 0] = some s := ⟨_, rfl⟩
  have hlisten : s.relay = .listening := by
    cases hs
    rfl
  obtain ⟨s', hs'⟩ := broadcast_enabled hlisten listEvent
  have hrun := exec_snoc_iff.mpr ⟨s, hs, hs'⟩
  have hlast : Act.broadcast listEvent ∈ [.request 0 none, .connect 0] ++ [.broadcast listEvent] :=
    List.mem_append_right _ (List.mem_singleton.mpr rfl)
  obtain ⟨e, he⟩ := (raised_iff hrun).mpr ⟨listEvent, hlast, listEvent_not_routable⟩
  exact ⟨s', hrun, fun h => h.answered e he⟩

end ReleaseValidation.Orchestrator.LiveEvents
