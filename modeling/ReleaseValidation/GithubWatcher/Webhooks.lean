import Mathlib.Data.Bool.AllAny
import ReleaseValidation.Catalog.ReleaseBodies
import ReleaseValidation.Foundations.HexTexts
import ReleaseValidation.Store.Json

/-! # Signed webhooks

A webhook of a repository is signed with the secret of that repository. The repository is named in the
body, so the handler reads the body first and verifies the signature on the way to the processing
of a release. A secret that is not set makes a verification that always succeeds.
-/
namespace ReleaseValidation.GithubWatcher.Webhooks
open Programs Store Catalog HexTexts

structure Settings where
  githubWebhookSecret : String
  cliGithubWebhookSecret : String
  githubRepo : String
  cliGithubRepo : String

namespace Settings

/-- `WEBHOOK_SECRET`. -/
def webhookSecret (c : Settings) : String := c.githubWebhookSecret

/-- `CLI_WEBHOOK_SECRET`. -/
def cliWebhookSecret (c : Settings) : String :=
  if c.cliGithubWebhookSecret = "" then c.webhookSecret else c.cliGithubWebhookSecret

end Settings

structure Request where
  xHubSignature256 : Option String
  xGithubEvent : Option String
  body : Bytes

inductive Failure
  | http (code : ℕ) (detail : String)
  | raised (e : Err)
  deriving DecidableEq

inductive Undecodable
  | jsonDecodeError
  | other (e : Err)

/-- What the handler calls: `hmac` with SHA-256, `json.loads`, the text of a value, the broker and the catalog. -/
structure World where
  hmacSha256 : Bytes → Bytes → Bytes
  loads : Bytes → Except Undecodable Json
  text : Json → String
  characters : Characters
  getConnection : Except Err Unit
  isCliAlreadyProcessed : String → Except Err Bool
  processRelease : Json → Except Err Unit
  processCliRelease : Json → Except Err Unit

inductive Reply
  | ignored (reason : String)
  | processed (source : String) (tag : Json)

inductive Call
  | processRelease (release tag : Json)
  | processCliRelease (release : Json) (tag : String)

/-- Where a request goes after its checks. -/
inductive Route
  | ignore (reason : String)
  | call (c : Call)

def raising {α : Type} : Except Err α → Except Failure α
  | .ok a => .ok a
  | .error e => .error (.raised e)

/-- `j == s`. -/
def isText (j : Json) (s : String) : Bool :=
  match j with
  | .str t => t == s
  | _ => false

section Handler
variable (w : World) (c : Settings)

/-- `"sha256=" + hmac_mod.new(secret.encode(), body, hashlib.sha256).hexdigest()`. -/
def expected (secret : String) (body : Bytes) : String :=
  "sha256=" ++ String.ofList (hexOf (w.hmacSha256 secret.toUTF8.toList body))

/-- `hmac_mod.compare_digest`, on texts. -/
def compareDigest (a b : String) : Except Failure Bool :=
  if (a.toList ++ b.toList).all fun ch => ch.toNat < 128 then .ok (a == b)
  else .error (.raised (.exception "comparing strings with non-ASCII characters is not supported"))

/-- `_verify_signature`. -/
def verifySignature (body : Bytes) (signature secret : String) : Except Failure Bool :=
  if secret = "" then .ok true else compareDigest (expected w secret body) signature

/-- `int(tag.lstrip("v").split(".")[0])`, and 0 for a `ValueError`. -/
def major (tag : String) : ℤ :=
  (limitedInt w.characters (String.ofList ((lstripV tag).toList.takeWhile (· != '.')))).getD 0

/-- The part of `_handle_release_payload` for a CLI release that is signed. -/
def cliRoute (release : Json) : Json → Except Failure Route
  | .str tag =>
    if major w tag < 2 then .ok (.ignore ("sdk_tag=" ++ tag))
    else
      match w.isCliAlreadyProcessed tag with
      | .error e => .error (.raised e)
      | .ok true => .ok (.ignore "already_processed")
      | .ok false => .ok (.call (.processCliRelease release tag))
  | tag => .error (.raised (tag.noAttribute "lstrip"))

/-- What the handler reads of a payload. -/
structure Fields where
  repoFullName : Json
  release : Json
  tag : Json

def readFields (payload : Json) : Except Err Fields := do
  let repository ← payload.get "repository" (.obj [])
  let repoFullName ← repository.get "full_name" (.str "")
  let release ← payload.get "release" (.obj [])
  let tag ← release.get "tag_name" (.str "")
  return ⟨repoFullName, release, tag⟩

def Fields.ofNode (f : Fields) : Bool := isText f.repoFullName c.githubRepo || isText f.repoFullName ""

/-- What `_handle_release_payload` does with a tag and a connection. -/
def repositoryRoute (body : Bytes) (f : Fields) (signature : String) : Except Failure Route :=
  if f.ofNode c then do
    let verified ← verifySignature w body signature c.webhookSecret
    if verified then .ok (.call (.processRelease f.release f.tag)) else .error (.http 403 "Invalid signature")
  else if isText f.repoFullName c.cliGithubRepo then do
    let verified ← verifySignature w body signature c.cliWebhookSecret
    if verified then cliRoute w f.release f.tag else .error (.http 403 "Invalid CLI webhook signature")
  else .ok (.ignore ("unknown_repo=" ++ w.text f.repoFullName))

/-- `_handle_release_payload`, up to the call. -/
def handleReleasePayload (body : Bytes) (payload : Json) (signature : String) : Except Failure Route := do
  let f ← raising (readFields payload)
  if f.tag.truthy then
    let _ ← raising w.getConnection
    repositoryRoute w c body f signature
  else .error (.http 422 "Missing tag_name in release payload")

/-- `github_webhook`, up to the call. -/
def route (r : Request) : Except Failure Route :=
  match r.xHubSignature256 with
  | none => .error (.http 401 "Missing X-Hub-Signature-256 header")
  | some signature =>
    if signature = "" then .error (.http 401 "Missing X-Hub-Signature-256 header")
    else if r.xGithubEvent ≠ some "release" then .ok (.ignore ("event=" ++ r.xGithubEvent.getD "None"))
    else
      match w.loads r.body with
      | .error .jsonDecodeError => .error (.http 400 "Invalid JSON payload")
      | .error (.other e) => .error (.raised e)
      | .ok payload => do
        let action ← raising (payload.get "action" .null)
        if isText action "published" then handleReleasePayload w c r.body payload signature
        else return .ignore ("action=" ++ w.text action)

/-- `github_webhook`: its answer, and the call that it makes. -/
def githubWebhook (r : Request) : Except Failure Reply × Option Call :=
  match route w c r with
  | .error e => (.error e, none)
  | .ok (.ignore reason) => (.ok (.ignored reason), none)
  | .ok (.call (.processRelease release tag)) =>
    ((raising (w.processRelease release)).map fun _ => .processed "node" tag, some (.processRelease release tag))
  | .ok (.call (.processCliRelease release tag)) =>
    ((raising (w.processCliRelease release)).map fun _ => .processed "cli" (.str tag), some (.processCliRelease release tag))

/-- The secret of the repository whose release is processed. -/
def Call.secret : Call → String
  | .processRelease _ _ => c.webhookSecret
  | .processCliRelease _ _ => c.cliWebhookSecret

/-- A release is processed only under a signature of the body with the secret of its repository. -/
def Authenticated (r : Request) : Prop :=
  ∀ call ∈ (githubWebhook w c r).2, Call.secret c call ≠ "" ∧ r.xHubSignature256 = some (expected w (Call.secret c call) r.body)

/-- A request that gets to `_handle_release_payload`. -/
structure Published (r : Request) (signature : String) (payload : Json) : Prop where
  header : r.xHubSignature256 = some signature
  signature_ne : signature ≠ ""
  event : r.xGithubEvent = some "release"
  loaded : w.loads r.body = .ok payload
  action : ∃ action, payload.get "action" .null = .ok action ∧ isText action "published" = true

/-- The event of a published release whose repository is the node's, or has no name. -/
def NodeRelease (r : Request) : Prop :=
  ∃ signature payload f, Published w r signature payload ∧ readFields payload = .ok f ∧ f.tag.truthy = true ∧
    f.ofNode c = true ∧ w.getConnection = .ok ()

end Handler

variable {w : World} {c : Settings} {r : Request} {body : Bytes} {payload release tag : Json} {signature secret : String} {call : Call}

theorem raising_eq_ok {α : Type} {x : Except Err α} {a : α} : raising x = .ok a ↔ x = .ok a := by
  cases x <;> simp [raising]

/-- A verification that succeeds has no secret, or the signature of the body. -/
theorem verifySignature_true (h : verifySignature w body signature secret = .ok true) :
    secret = "" ∨ signature = expected w secret body := by
  unfold verifySignature compareDigest at h
  split at h
  next hempty => exact .inl hempty
  next =>
    split at h
    next => exact .inr (beq_iff_eq.mp (Except.ok.inj h)).symm
    next => cases h

theorem expected_ne (w : World) (secret : String) (body : Bytes) : expected w secret body ≠ "" := by
  intro h
  have hchars := congrArg String.toList h
  rw [expected, String.toList_append] at hchars
  exact absurd (List.append_eq_nil_iff.mp hchars).1 (by decide)

theorem verifySignature_expected (w : World) (body : Bytes) (secret : String) :
    verifySignature w body (expected w secret body) secret = .ok true := by
  have hascii : ∀ ch ∈ (expected w secret body).toList, ch.toNat < 128 := by
    rw [expected, String.toList_append, List.forall_mem_append]
    refine ⟨List.all_iff_forall_prop.mp (by decide), fun ch hch => ?_⟩
    rw [String.toList_ofList] at hch
    obtain ⟨x, hx⟩ := Option.isSome_iff_exists.mp (unhex_digits (unhex_hexOf _) ch hch)
    exact hexDigit_ascii hx
  have hall : ((expected w secret body).toList ++ (expected w secret body).toList).all (fun ch => ch.toNat < 128) = true := by
    rw [List.all_append, Bool.and_self, List.all_eq_true]
    exact fun ch hch => decide_eq_true (hascii ch hch)
  by_cases hsecret : secret = ""
  · exact if_pos hsecret
  · rw [verifySignature, if_neg hsecret, compareDigest, if_pos hall, beq_self_eq_true]

theorem cliRoute_call (h : cliRoute w release tag = .ok (.call call)) : ∃ t, call = .processCliRelease release t := by
  unfold cliRoute at h
  split at h
  next t =>
    split at h
    next => cases h
    next =>
      split at h
      next => cases h
      next => cases h
      next =>
        cases h
        exact ⟨t, rfl⟩
  next => cases h

/-- Every call is behind a verification under the secret of its repository. -/
theorem repositoryRoute_call {f : Fields} (h : repositoryRoute w c body f signature = .ok (.call call)) :
    verifySignature w body signature (call.secret c) = .ok true ∧
      (f.ofNode c = true ∨ ∃ t, call = .processCliRelease f.release t) := by
  unfold repositoryRoute at h
  split at h
  next hnode =>
    obtain ⟨verified, hverified, h⟩ := except_bind_ok h
    cases verified with
    | false => cases h
    | true =>
      cases h
      exact ⟨hverified, .inl hnode⟩
  next =>
    split at h
    next =>
      obtain ⟨verified, hverified, h⟩ := except_bind_ok h
      cases verified with
      | false => cases h
      | true =>
        obtain ⟨t, rfl⟩ := cliRoute_call h
        exact ⟨hverified, .inr ⟨t, rfl⟩⟩
    next => cases h

theorem handleReleasePayload_call (h : handleReleasePayload w c body payload signature = .ok (.call call)) :
    ∃ f, readFields payload = .ok f ∧ f.tag.truthy = true ∧ w.getConnection = .ok () ∧
      repositoryRoute w c body f signature = .ok (.call call) := by
  obtain ⟨f, hf, h⟩ := except_bind_ok h
  cases htruthy : f.tag.truthy with
  | false =>
    rw [htruthy] at h
    cases h
  | true =>
    rw [htruthy] at h
    obtain ⟨⟨⟩, hconn, h⟩ := except_bind_ok h
    exact ⟨f, raising_eq_ok.mp hf, htruthy, raising_eq_ok.mp hconn, h⟩

theorem route_call (h : route w c r = .ok (.call call)) : ∃ signature payload, Published w r signature payload ∧
    handleReleasePayload w c r.body payload signature = .ok (.call call) := by
  unfold route at h
  split at h
  next => cases h
  next signature hheader =>
    split at h
    next => cases h
    next hne =>
      split at h
      next => cases h
      next hevent =>
        split at h
        next => cases h
        next => cases h
        next payload hload =>
          obtain ⟨action, haction, h⟩ := except_bind_ok h
          split at h
          next hpublished =>
            exact ⟨signature, payload,
              ⟨hheader, hne, not_not.mp hevent, hload, action, raising_eq_ok.mp haction, hpublished⟩, h⟩
          next => cases h

theorem route_published (h : Published w r signature payload) :
    route w c r = handleReleasePayload w c r.body payload signature := by
  obtain ⟨action, haction, hpublished⟩ := h.action
  unfold route
  simp only [h.header, if_neg h.signature_ne, h.event, ne_eq, not_true, if_false, h.loaded, raising_eq_ok.mpr haction, bind,
    Except.bind, hpublished, if_true]

/-- A release of the node repository is processed once its signature is verified. -/
theorem route_verified {f : Fields} (h : Published w r signature payload) (hfields : readFields payload = .ok f)
    (htruthy : f.tag.truthy = true) (hnode : f.ofNode c = true) (hconn : w.getConnection = .ok ())
    (hverified : verifySignature w r.body signature c.webhookSecret = .ok true) :
    route w c r = .ok (.call (.processRelease f.release f.tag)) := by
  rw [route_published h, handleReleasePayload]
  simp only [raising_eq_ok.mpr hfields, raising_eq_ok.mpr hconn, bind, Except.bind, htruthy, if_true, repositoryRoute, hnode,
    hverified]

/-- Without a secret for the node repository its releases are processed unverified. -/
theorem route_unverified (hsecret : c.githubWebhookSecret = "") (h : NodeRelease w c r) :
    ∃ release tag, route w c r = .ok (.call (.processRelease release tag)) := by
  obtain ⟨signature, payload, f, hpublished, hfields, htruthy, hnode, hconn⟩ := h
  exact ⟨f.release, f.tag, route_verified hpublished hfields htruthy hnode hconn (if_pos hsecret)⟩

theorem mem_calls_iff : call ∈ (githubWebhook w c r).2 ↔ route w c r = .ok (.call call) := by
  unfold githubWebhook
  split <;> simp_all

/-- A call is behind the signature of its repository, or that has no secret. -/
theorem call_verified (h : route w c r = .ok (.call call)) :
    (call.secret c = "" ∨ r.xHubSignature256 = some (expected w (call.secret c) r.body)) ∧
      (NodeRelease w c r ∨ ∃ release tag, call = .processCliRelease release tag) := by
  obtain ⟨signature, payload, hpublished, h⟩ := route_call h
  obtain ⟨f, hfields, htruthy, hconn, h⟩ := handleReleasePayload_call h
  obtain ⟨hverified, hrepo⟩ := repositoryRoute_call h
  constructor
  · rw [hpublished.header]
    exact (verifySignature_true hverified).imp_right (congrArg some)
  · rcases hrepo with hnode | ⟨t, ht⟩
    · exact .inl ⟨signature, payload, f, hpublished, hfields, htruthy, hnode, hconn⟩
    · exact .inr ⟨_, _, ht⟩

/-- With one of the secrets set, a request is authenticated before its release is processed exactly when the
secret of the node repository is set or the request is for no release of that. -/
theorem webhook_authenticated_iff (w : World) (c : Settings) (r : Request)
    (hset : c.githubWebhookSecret ≠ "" ∨ c.cliGithubWebhookSecret ≠ "") :
    Authenticated w c r ↔ c.githubWebhookSecret ≠ "" ∨ ¬ NodeRelease w c r := by
  constructor
  · intro h
    by_contra hboth
    rw [not_or, not_not, not_not] at hboth
    obtain ⟨release, tag, hroute⟩ := route_unverified hboth.1 hboth.2
    exact (h _ (mem_calls_iff.mpr hroute)).1 hboth.1
  · intro h call hcall
    obtain ⟨hverified, hrepo⟩ := call_verified (mem_calls_iff.mp hcall)
    have hsecret : call.secret c ≠ "" := by
      cases call with
      | processRelease release tag =>
        have hnode : NodeRelease w c r := hrepo.resolve_right (by rintro ⟨_, _, ⟨⟩⟩)
        exact h.resolve_right (not_not.mpr hnode)
      | processCliRelease release tag =>
        change c.cliWebhookSecret ≠ ""
        unfold Settings.cliWebhookSecret
        split
        next hcli => exact hset.resolve_right (not_not.mpr hcli)
        next hcli => exact hcli
    exact ⟨hsecret, hverified.resolve_left hsecret⟩

/-! ### A release of the node repository -/

def nodeBody : Bytes :=
  ("\x7b\"action\":\"published\",\"repository\":\x7b\"full_name\":\"cartesi/rollups-node\"\x7d," ++
    "\"release\":\x7b\"tag_name\":\"v2.0.0\"\x7d\x7d").toUTF8.toList

def nodeRelease : Json := .obj [("tag_name", .str "v2.0.0")]

def nodePayload : Json :=
  .obj [("action", .str "published"), ("repository", .obj [("full_name", .str "cartesi/rollups-node")]), ("release", nodeRelease)]

/-- The digest of the body with the key of the node repository. -/
def nodeDigest : Bytes :=
  [0x43, 0x77, 0x17, 0x67, 0xe8, 0xb2, 0x72, 0x45, 0x73, 0x55, 0x58, 0xc7, 0xcd, 0x19, 0x69, 0xc6,
    0xae, 0x20, 0xc1, 0x77, 0x94, 0x3e, 0x59, 0x63, 0x18, 0x80, 0xe9, 0xac, 0xaa, 0xb0, 0x31, 0xe4]

def oneRelease : World where
  hmacSha256 key body := if key = "hook-key".toUTF8.toList ∧ body = nodeBody then nodeDigest else []
  loads body := if body = nodeBody then .ok nodePayload else .error .jsonDecodeError
  text _ := ""
  characters := .ascii
  getConnection := .ok ()
  isCliAlreadyProcessed _ := .ok false
  processRelease _ := .ok ()
  processCliRelease _ := .ok ()

def bothSecrets : Settings := ⟨"hook-key", "cli-key", "cartesi/rollups-node", "cartesi/cli"⟩
def cliSecret : Settings := ⟨"", "cli-key", "cartesi/rollups-node", "cartesi/cli"⟩

def nodeRequest (signature : String) : Request := ⟨some signature, some "release", nodeBody⟩

theorem published_nodeRequest {signature : String} (h : signature ≠ "") :
    Published oneRelease (nodeRequest signature) signature nodePayload where
  header := rfl
  signature_ne := h
  event := rfl
  loaded := if_pos rfl
  action := ⟨.str "published", rfl, rfl⟩

theorem signed_authenticated : bothSecrets.githubWebhookSecret ≠ "" ∧
    Authenticated oneRelease bothSecrets (nodeRequest (expected oneRelease "hook-key" nodeBody)) ∧
      (githubWebhook oneRelease bothSecrets (nodeRequest (expected oneRelease "hook-key" nodeBody))).2 =
        some (.processRelease nodeRelease (.str "v2.0.0")) := by
  have hset : bothSecrets.githubWebhookSecret ≠ "" := by decide
  refine ⟨hset, (webhook_authenticated_iff _ _ _ (.inl hset)).mpr (.inl hset), ?_⟩
  have hpublished := published_nodeRequest (expected_ne oneRelease "hook-key" nodeBody)
  have hroute := route_verified (c := bothSecrets) (f := ⟨.str "cartesi/rollups-node", nodeRelease, .str "v2.0.0"⟩) hpublished
    rfl rfl rfl rfl (verifySignature_expected _ _ _)
  exact mem_calls_iff.mpr hroute

/-- With the secret of the CLI alone, a forged release of the node is processed. -/
theorem forged_processed :
    cliSecret.cliGithubWebhookSecret ≠ "" ∧ ¬ Authenticated oneRelease cliSecret (nodeRequest "sha256=forged") := by
  refine ⟨by decide, fun h => ?_⟩
  have hnode : NodeRelease oneRelease cliSecret (nodeRequest "sha256=forged") :=
    ⟨_, nodePayload, ⟨.str "cartesi/rollups-node", nodeRelease, .str "v2.0.0"⟩, published_nodeRequest (by decide),
      rfl, rfl, rfl, rfl⟩
  obtain ⟨release, tag, hroute⟩ := route_unverified rfl hnode
  exact (h _ (mem_calls_iff.mpr hroute)).1 rfl

end ReleaseValidation.GithubWatcher.Webhooks
