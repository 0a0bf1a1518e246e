import Mathlib.Data.List.Perm.Basic
import ReleaseValidation.Foundations.Runs
import ReleaseValidation.SandboxManager.SlotRelease
import ReleaseValidation.Store.Decoded

/-! # Bodies that are not sandbox requests

The loop decodes a body before it acknowledges the message, outside any guard; the spawned
task reads the request's fields, where an error ends that task alone. When the loop raises,
so does `main` before it drains, and every task in flight is cancelled. The pool's slots
and failures of the broker or the database are left out.
-/
namespace ReleaseValidation.SandboxManager
open Store Programs Programs.Program

namespace SandboxTask
variable {max : ℕ} {env : Env} {msg : SandboxRequest} {contractsVersion : Option String} {w u : World max}

/-- A task that does not come to the return of `provision` calls no teardown. -/
theorem teardowns_of_unprovisioned (hacq : Acquired env msg contractsVersion w u)
    (hends : (handle env msg w).1 ≠ .stopped) (hprov : ¬ Provisions env) :
    (handle env msg w).2.teardowns = w.teardowns := by
  rw [handle_of_acquired hacq] at hends ⊢
  obtain ⟨-, hu⟩ := acquired_world hacq
  obtain ⟨v, hv, hend, -⟩ := useSlot_ends env msg contractsVersion hends
  have hprovisioned : v.provisioned = false := (congrArg Watched.provisioned hv).trans (decide_eq_false hprov)
  have hteardowns : v.teardowns = w.teardowns := by
    have ht := congrArg Watched.teardowns hv
    rw [hu] at ht
    exact ht
  have hkeeps : Keeps (Frame.fixing World.teardowns) (releaseSlot env : Task max Unit) :=
    ((keeps_pure ()).await _).bind fun _ => keeps_write fun _ => rfl
  rw [hend, cleanup, bind_returned (read_apply _ v), hprovisioned, bind_returned (when_neg Bool.false_ne_true _ v)]
  exact (hkeeps v).trans hteardowns

end SandboxTask

namespace PoisonMessages
open JsonTexts Runs

abbrev Body := List UInt8

/-- `json.loads` and `int` of the interpreter. -/
structure Python where
  loads : Body → Except Err Value
  int : Value → Except Err ℤ

/-- What `_handle` reads of its message, before its first await. -/
structure Fields where
  runId : Value
  releaseTag : Value
  imageTag : Value
  sdkVersion : Value
  cliVersion : Value
  devnetVersion : Value
  contractsVersion : Value
  nodeMajorVersion : ℤ
  appId : Value
  appName : Value
  appGithubUrl : Value

def one : Value := .num ⟨['1'], rfl⟩

section System
variable (py : Python)

def readFields (msg : Value) : Except Err Fields := do
  let runId ← msg.item "run_id"
  let releaseTag ← msg.item "release_tag"
  let imageTag ← msg.item "image_tag"
  let sdkVersion ← msg.get "sdk_version" .null
  let cliVersion ← msg.get "cli_version" .null
  let devnetVersion ← msg.get "devnet_version" .null
  let contractsVersion ← msg.get "contracts_version" .null
  let nodeMajorVersion ← py.int (← msg.get "node_major_version" one)
  let appId ← msg.get "app_id" .null
  let appName ← msg.get "app_name" .null
  let appGithubUrl ← msg.get "app_github_url" .null
  pure ⟨runId, releaseTag, imageTag, sdkVersion, cliVersion, devnetVersion, contractsVersion, nodeMajorVersion,
    appId, appName, appGithubUrl⟩

/-- The body is a sandbox request: it decodes, and its fields can be read. -/
def IsRequest (body : Body) : Prop := ∃ msg fields, py.loads body = .ok msg ∧ readFields py msg = .ok fields

end System

/-- Where a spawned `_handle` stands. -/
inductive Stage
  | spawned
  | failed (error : Err)
  | preparing
  | provisioning
  /-- Provisioned, and not yet marked ready. -/
  | settling
  | testing
  /-- In the `finally` block, before it calls the teardown. -/
  | tearingDown
  | ended
  | cancelled (abandoned : Bool)
  deriving DecidableEq, Repr

/-- Where a task goes once its fields are read. -/
def Stage.next : Stage → List Stage
  | preparing => [provisioning, ended]
  | provisioning => [settling, ended]
  | settling => [testing, ended]
  | testing => [tearingDown]
  | tearingDown => [ended]
  | spawned | failed _ | ended | cancelled _ => []

theorem Stage.cancelled_not_next (stage : Stage) (b : Bool) : .cancelled b ∉ stage.next := by
  cases stage <;> simp [next]

theorem Stage.failed_not_next (stage : Stage) (e : Err) : .failed e ∉ stage.next := by
  cases stage <;> simp [next]

/-- A `CancelledError` at the task's await. The `finally` block tears down what the row names, from
the ready mark on. -/
def Stage.cancel : Stage → Stage
  | spawned | preparing | testing => cancelled false
  | provisioning | settling | tearingDown => cancelled true
  | failed e => failed e
  | ended => ended
  | cancelled abandoned => cancelled abandoned

structure Task where
  body : Body
  msg : Value
  stage : Stage

/-- Where `SandboxQueueConsumer.run` stands. -/
inductive Loop
  | fetching
  | waiting (body : Body)
  | acking (body : Body) (msg : Value)
  | raised (error : Err)

/-- The body that the loop has in hand. -/
def Loop.hand : Loop → List Body
  | fetching => []
  | waiting body => [body]
  | acking body _ => [body]
  | raised _ => []

structure State where
  queue : List Body
  loop : Loop
  tasks : List Task

def initial : State := ⟨[], .fetching, []⟩

namespace State

def setStage (s : State) (i : ℕ) (task : Task) (stage : Stage) : State :=
  { s with tasks := s.tasks.set i { task with stage := stage } }

/-- The bodies that have been delivered and are not lost. -/
def bodies (s : State) : List Body := s.queue ++ s.loop.hand ++ s.tasks.map Task.body

end State

inductive Act
  | arrive (body : Body)
  | take (i : ℕ)
  | decode
  | spawn
  | start (i : ℕ)
  | advance (i : ℕ) (stage : Stage)
  | exit

def Act.delivers : Act → Option Body
  | arrive body => some body
  | _ => none

/-- The bodies that a run delivers to the queue. -/
def arrivals (as : List Act) : List Body := as.filterMap Act.delivers

section System
variable (py : Python)

/-- `sandbox.queue` is a priority queue, so any waiting message may come next. -/
def step (s : State) : Act → Option State
  | .arrive body => some { s with queue := s.queue ++ [body] }
  | .take i =>
    match s.loop, s.queue[i]? with
    | .fetching, some body => some { s with queue := s.queue.eraseIdx i, loop := .waiting body }
    | _, _ => none
  | .decode =>
    match s.loop with
    | .waiting body =>
      match py.loads body with
      | .ok msg => some { s with loop := .acking body msg }
      | .error e => some { s with loop := .raised e }
    | _ => none
  | .spawn =>
    match s.loop with
    | .acking body msg => some { s with loop := .fetching, tasks := s.tasks ++ [⟨body, msg, .spawned⟩] }
    | _ => none
  | .start i => s.tasks[i]?.bind fun task =>
      if task.stage = .spawned then
        match readFields py task.msg with
        | .ok _ => some (s.setStage i task .preparing)
        | .error e => some (s.setStage i task (.failed e))
      else none
  | .advance i stage => s.tasks[i]?.bind fun task =>
      if stage ∈ task.stage.next then some (s.setStage i task stage) else none
  | .exit =>
    match s.loop with
    -- `await consumer_task` raises in `main`, and `asyncio.run` cancels what is left
    | .raised _ => some { s with tasks := s.tasks.map fun task => { task with stage := task.stage.cancel } }
    | _ => none

/-- The loop consumes, no delivered body is lost, and no task is cancelled, or fails on a request. -/
structure Unharmed (delivered : List Body) (s : State) : Prop where
  consumes : ∀ e, s.loop ≠ .raised e
  kept : s.bodies.Perm delivered
  uncancelled : ∀ task ∈ s.tasks, ∀ abandoned, task.stage ≠ .cancelled abandoned
  accepted : ∀ task ∈ s.tasks, IsRequest py task.body → ∀ e, task.stage ≠ .failed e

/-- Nothing is left to do until the next message is delivered. -/
def Idle (s : State) : Prop := ∀ a t, step py s a = some t → a.delivers.isSome = true

/-- Every delivered body has its task, and the task of a request has come to its end. -/
structure Handled (delivered : List Body) (s : State) : Prop where
  spawned : (s.tasks.map Task.body).Perm delivered
  ended : ∀ task ∈ s.tasks, IsRequest py task.body → task.stage = .ended

end System

/-! ### What a step keeps when the bodies decode -/

/-- The task's message is its decoded body, and the task has failed only on its fields. -/
structure Task.Sound (py : Python) (task : Task) : Prop where
  decoded : py.loads task.body = .ok task.msg
  uncancelled : ∀ abandoned, task.stage ≠ .cancelled abandoned
  failed : ∀ e, task.stage = .failed e → readFields py task.msg = .error e

structure Good (py : Python) (delivered : List Body) (s : State) : Prop where
  consumes : ∀ e, s.loop ≠ .raised e
  kept : s.bodies.Perm delivered
  acked : ∀ body msg, s.loop = .acking body msg → py.loads body = .ok msg
  sound : ∀ task ∈ s.tasks, task.Sound py

section Steps
variable {py : Python} {s t : State} {a : Act} {delivered : List Body}

theorem Task.Sound.not_failed {task : Task} (h : task.Sound py) (hreq : IsRequest py task.body) (e : Err) :
    task.stage ≠ .failed e := by
  intro hstage
  obtain ⟨msg, fields, hmsg, hfields⟩ := hreq
  cases h.decoded.symm.trans hmsg
  cases (h.failed e hstage).symm.trans hfields

theorem Good.unharmed (h : Good py delivered s) : Unharmed py delivered s where
  consumes := h.consumes
  kept := h.kept
  uncancelled task htask := (h.sound task htask).uncancelled
  accepted task htask := (h.sound task htask).not_failed

theorem bodies_setStage {i : ℕ} {task : Task} {stage : Stage} (hi : s.tasks[i]? = some task) :
    (s.setStage i task stage).bodies = s.bodies := by
  obtain ⟨hlt, rfl⟩ := List.getElem?_eq_some_iff.mp hi
  have hlt' : i < (s.tasks.map Task.body).length := by rwa [List.length_map]
  have hbody : s.tasks[i].body = (s.tasks.map Task.body)[i] := (List.getElem_map _).symm
  simp only [State.bodies, State.setStage, List.map_set]
  rw [hbody, List.set_getElem_self hlt']

theorem good_setStage {i : ℕ} {task : Task} {stage : Stage} (h : Good py delivered s)
    (hi : s.tasks[i]? = some task) (hstage : ({ task with stage := stage } : Task).Sound py) :
    Good py delivered (s.setStage i task stage) where
  consumes := h.consumes
  kept := by
    rw [bodies_setStage hi]
    exact h.kept
  acked := h.acked
  sound other hother := by
    rcases List.mem_or_eq_of_mem_set hother with hold | rfl
    · exact h.sound other hold
    · exact hstage

theorem good_step (h : Good py delivered s) (hstep : step py s a = some t)
    (hdecodes : ∀ body ∈ delivered, ∃ msg, py.loads body = .ok msg) :
    Good py (delivered ++ a.delivers.toList) t := by
  have hsame : delivered ++ [] = delivered := List.append_nil delivered
  cases a with
  | arrive body =>
    cases hstep
    refine ⟨h.consumes, ?_, h.acked, h.sound⟩
    refine List.Perm.trans ?_ (h.kept.append_right _)
    simp only [State.bodies, List.append_assoc]
    refine List.Perm.append_left _ ?_
    rw [← List.append_assoc s.loop.hand]
    exact List.perm_append_comm
  | take i =>
    change Good py (delivered ++ []) t
    rw [hsame]
    simp only [step] at hstep
    split at hstep
    next body hloop hi =>
      cases hstep
      obtain ⟨hlt, rfl⟩ := List.getElem?_eq_some_iff.mp hi
      refine ⟨nofun, ?_, nofun, h.sound⟩
      refine List.Perm.trans ?_ h.kept
      simp only [State.bodies, hloop, Loop.hand, List.append_nil]
      refine List.Perm.append_right _ ?_
      exact List.perm_append_comm.trans (List.getElem_cons_eraseIdx_perm hlt)
    next => cases hstep
  | decode =>
    change Good py (delivered ++ []) t
    rw [hsame]
    simp only [step] at hstep
    split at hstep
    next body hloop =>
      have hmem : body ∈ s.bodies := by
        simp [State.bodies, hloop, Loop.hand]
      obtain ⟨msg, hmsg⟩ := hdecodes body (h.kept.mem_iff.mp hmem)
      rw [hmsg] at hstep
      cases hstep
      refine ⟨nofun, ?_, fun b m he => ?_, h.sound⟩
      · have hkept := h.kept
        simp only [State.bodies, hloop] at hkept
        exact hkept
      · cases he
        exact hmsg
    next => cases hstep
  | spawn =>
    change Good py (delivered ++ []) t
    rw [hsame]
    simp only [step] at hstep
    split at hstep
    next body msg hloop =>
      cases hstep
      refine ⟨nofun, ?_, nofun, ?_⟩
      · refine List.Perm.trans ?_ h.kept
        simp only [State.bodies, hloop, Loop.hand, List.append_nil, List.map_append, List.append_assoc]
        exact List.Perm.append_left _ List.perm_append_comm
      · intro task htask
        rcases List.mem_append.mp htask with hold | hnew
        · exact h.sound task hold
        · rw [List.mem_singleton.mp hnew]
          exact ⟨h.acked body msg hloop, nofun, nofun⟩
    next => cases hstep
  | start i =>
    change Good py (delivered ++ []) t
    rw [hsame]
    obtain ⟨task, hi, hstep⟩ := Option.bind_eq_some_iff.mp hstep
    have hsound := h.sound task (List.mem_of_getElem? hi)
    split at hstep
    next =>
      split at hstep
      next =>
        cases hstep
        exact good_setStage h hi ⟨hsound.decoded, nofun, nofun⟩
      next e he =>
        cases hstep
        refine good_setStage h hi ⟨hsound.decoded, nofun, fun e' he' => ?_⟩
        cases he'
        exact he
    next => cases hstep
  | advance i stage =>
    change Good py (delivered ++ []) t
    rw [hsame]
    obtain ⟨task, hi, hstep⟩ := Option.bind_eq_some_iff.mp hstep
    have hsound := h.sound task (List.mem_of_getElem? hi)
    split at hstep
    next hmem =>
      cases hstep
      refine good_setStage h hi ⟨hsound.decoded, fun b hb => ?_, fun e he => ?_⟩
      · change stage = _ at hb
        rw [hb] at hmem
        exact absurd hmem (task.stage.cancelled_not_next b)
      · change stage = _ at he
        rw [he] at hmem
        exact absurd hmem (task.stage.failed_not_next e)
    next => cases hstep
  | exit =>
    simp only [step] at hstep
    split at hstep
    next e he => exact absurd he (h.consumes e)
    next => cases hstep

/-! ### A run is as long as its messages allow -/

/-- The steps that the task has before it. -/
def Stage.work : Stage → ℕ
  | spawned => 6
  | preparing => 5
  | provisioning => 4
  | settling => 3
  | testing => 2
  | tearingDown => 1
  | failed _ | ended | cancelled _ => 0

theorem Stage.work_next {stage stage' : Stage} (h : stage' ∈ stage.next) : stage'.work + 1 ≤ stage.work := by
  cases stage with
  | preparing | provisioning | settling =>
    rcases List.mem_pair.mp h with rfl | rfl <;> decide
  | testing | tearingDown =>
    rw [List.mem_singleton.mp h]
    decide
  | spawned | failed _ | ended | cancelled _ => cases h

def Loop.work : Loop → ℕ
  | fetching => 0
  | waiting _ => 8
  | acking _ _ => 7
  | raised _ => 0

def State.work (s : State) : ℕ :=
  9 * s.queue.length + s.loop.work + (s.tasks.map fun task => task.stage.work).sum

theorem sum_map_set {α : Type} {f : α → ℕ} {l : List α} {i : ℕ} {b c : α} (hc : l[i]? = some c) :
    ((l.set i b).map f).sum + f c = (l.map f).sum + f b := by
  induction l generalizing i with
  | nil => cases hc
  | cons x l ih =>
    cases i with
    | zero =>
      cases hc
      simp only [List.set_cons_zero, List.map_cons, List.sum_cons]
      omega
    | succ i =>
      have hl := ih hc
      simp only [List.set_cons_succ, List.map_cons, List.sum_cons]
      omega

theorem work_setStage {i : ℕ} {task : Task} {stage : Stage} (hi : s.tasks[i]? = some task)
    (hlt : stage.work + 1 ≤ task.stage.work) : (s.setStage i task stage).work + 1 ≤ s.work := by
  have hsum := sum_map_set (f := fun task : Task => task.stage.work) (b := { task with stage := stage }) hi
  simp only [State.work, State.setStage]
  simp only at hsum
  omega

theorem work_step (hstep : step py s a = some t) (hloop : ∀ e, s.loop ≠ .raised e) :
    t.work + 1 ≤ s.work + 10 * a.delivers.toList.length := by
  cases a with
  | arrive body =>
    cases hstep
    simp only [State.work, List.length_append, List.length_singleton, Act.delivers, Option.toList_some]
    omega
  | take i =>
    simp only [step] at hstep
    split at hstep
    next body hloop hi =>
      cases hstep
      have hlt := (List.getElem?_eq_some_iff.mp hi).1
      simp only [State.work, hloop, Loop.work, List.length_eraseIdx_of_lt hlt]
      omega
    next => cases hstep
  | decode =>
    simp only [step] at hstep
    split at hstep
    next body hloop =>
      split at hstep
      next =>
        cases hstep
        simp only [State.work, hloop, Loop.work]
        omega
      next =>
        cases hstep
        simp only [State.work, hloop, Loop.work]
        omega
    next => cases hstep
  | spawn =>
    simp only [step] at hstep
    split at hstep
    next body msg hloop =>
      cases hstep
      simp only [State.work, hloop, Loop.work, List.map_append, List.sum_append, List.map_cons, List.map_nil,
        List.sum_singleton, Stage.work]
      omega
    next => cases hstep
  | start i =>
    obtain ⟨task, hi, hstep⟩ := Option.bind_eq_some_iff.mp hstep
    split at hstep
    next hspawned =>
      split at hstep
      next =>
        cases hstep
        exact work_setStage hi (by rw [hspawned]; decide)
      next e _ =>
        cases hstep
        exact work_setStage hi (by rw [hspawned]; exact Nat.le_of_lt (by decide : 1 < 6))
    next => cases hstep
  | advance i stage =>
    obtain ⟨task, hi, hstep⟩ := Option.bind_eq_some_iff.mp hstep
    split at hstep
    next hmem =>
      cases hstep
      exact work_setStage hi (Stage.work_next hmem)
    next => cases hstep
  | exit =>
    rw [step] at hstep
    split at hstep
    next e he => exact absurd he (hloop e)
    next => cases hstep

/-- A loop and tasks with nothing left to do have handled what was delivered. -/
theorem handled_of_idle (h : Good py delivered s) (hidle : Idle py s) : Handled py delivered s := by
  have hstuck : ∀ a t, a.delivers = none → step py s a ≠ some t := by
    intro a t ha hstep
    have hsome := hidle a t hstep
    rw [ha] at hsome
    cases hsome
  have hfetching : s.loop = .fetching ∧ s.queue = [] := by
    cases hloop : s.loop with
    | fetching =>
      refine ⟨rfl, ?_⟩
      cases hq : s.queue with
      | nil => rfl
      | cons body rest =>
        refine absurd ?_ (hstuck (.take 0) { s with queue := rest, loop := .waiting body } rfl)
        simp only [step, hloop, hq]
        rfl
    | waiting body =>
      cases hloads : py.loads body with
      | ok msg =>
        refine absurd ?_ (hstuck .decode { s with loop := .acking body msg } rfl)
        simp only [step, hloop, hloads]
      | error e =>
        refine absurd ?_ (hstuck .decode { s with loop := .raised e } rfl)
        simp only [step, hloop, hloads]
    | acking body msg =>
      refine absurd ?_ (hstuck .spawn
        { s with loop := .fetching, tasks := s.tasks ++ [⟨body, msg, .spawned⟩] } rfl)
      simp only [step, hloop]
    | raised e => exact absurd hloop (h.consumes e)
  obtain ⟨hloop, hqueue⟩ := hfetching
  constructor
  · have hkept := h.kept
    simp only [State.bodies, hloop, hqueue, Loop.hand, List.nil_append] at hkept
    exact hkept
  · intro task htask hreq
    have hsound := h.sound task htask
    obtain ⟨i, hi⟩ := List.mem_iff_getElem?.mp htask
    have hmoves : ∀ stage, stage ∉ task.stage.next := by
      intro stage hmem
      refine hstuck (.advance i stage) (s.setStage i task stage) rfl ?_
      simp only [step, hi, Option.bind_some, if_pos hmem]
    cases hstage : task.stage with
    | spawned =>
      cases hfields : readFields py task.msg with
      | ok fields =>
        refine absurd ?_ (hstuck (.start i) (s.setStage i task .preparing) rfl)
        simp only [step, hi, Option.bind_some, if_pos hstage, hfields]
      | error e =>
        refine absurd ?_ (hstuck (.start i) (s.setStage i task (.failed e)) rfl)
        simp only [step, hi, Option.bind_some, if_pos hstage, hfields]
    | failed e => exact absurd hstage (hsound.not_failed hreq e)
    | cancelled b => exact absurd hstage (hsound.uncancelled b)
    | ended => rfl
    | preparing | provisioning | settling | testing | tearingDown =>
      rw [hstage] at hmoves
      exact absurd (List.mem_cons_self ..) (hmoves _)

/-! ### Whole runs -/

theorem arrivals_snoc (as : List Act) (a : Act) : arrivals (as ++ [a]) = arrivals as ++ a.delivers.toList := by
  rw [arrivals, List.filterMap_append]
  cases h : a.delivers <;> simp [arrivals, h]

theorem good_run {as : List Act} (h : exec (step py) initial as = some s)
    (hdecodes : ∀ body ∈ arrivals as, ∃ msg, py.loads body = .ok msg) :
    Good py (arrivals as) s ∧ as.length + s.work ≤ 10 * (arrivals as).length := by
  refine exec_history (P := fun as s => (∀ body ∈ arrivals as, ∃ msg, py.loads body = .ok msg) →
    Good py (arrivals as) s ∧ as.length + s.work ≤ 10 * (arrivals as).length) ?_ ?_ h hdecodes
  · intro _
    exact ⟨⟨nofun, List.Perm.refl [], nofun, nofun⟩, le_refl 0⟩
  · intro as u a t _ ih hstep hdecodes
    rw [arrivals_snoc] at hdecodes ⊢
    have hbefore : ∀ body ∈ arrivals as, ∃ msg, py.loads body = .ok msg :=
      fun body hbody => hdecodes body (List.mem_append_left _ hbody)
    obtain ⟨hgood, hwork⟩ := ih hbefore
    have hstep' := work_step hstep hgood.consumes
    refine ⟨good_step hgood hstep hbefore, ?_⟩
    simp only [List.length_append, List.length_singleton]
    omega

theorem exec_arrive (bodies queue : List Body) :
    exec (step py) ⟨queue, .fetching, []⟩ (bodies.map .arrive) = some ⟨queue ++ bodies, .fetching, []⟩ := by
  induction bodies generalizing queue with
  | nil => rw [List.append_nil]; rfl
  | cons body bodies ih =>
    rw [List.map_cons, exec_cons]
    exact (ih (queue ++ [body])).trans (by rw [List.append_assoc]; rfl)

theorem arrivals_arrive (bodies : List Body) : arrivals (bodies.map .arrive) = bodies := by
  rw [arrivals, List.filterMap_map]
  exact List.filterMap_some

end Steps

/-! ### A body that is not JSON -/

def ascii (s : String) : Body := s.toList.map fun c => UInt8.ofNat c.toNat

def requestBody : Body :=
  ascii "\x7b\"run_id\": \"1\", \"release_tag\": \"v2.0.0\", \"image_tag\": \"2.0.0\"\x7d"

def oops : Body := ascii "oops"

def requestValue : Value :=
  .obj [(Value.key "run_id", .str (Value.key "1")), (Value.key "release_tag", .str (Value.key "v2.0.0")),
    (Value.key "image_tag", .str (Value.key "2.0.0"))]

/-- The interpreter on the two bodies. -/
def twoBodies : Python where
  loads body :=
    if body = requestBody then .ok requestValue
    else .error (.exception "Expecting value: line 1 column 1 (char 0)")
  int _ := .ok 1

/-- The second body comes while the sandbox of the first is provisioned. -/
def poisoned : List Act :=
  [.arrive requestBody, .take 0, .decode, .spawn, .start 0, .advance 0 .provisioning, .arrive oops, .take 0,
    .decode, .exit]

/-- The request is abandoned, and the loop consumes no more. -/
def stopped : State :=
  ⟨[], .raised (.exception "Expecting value: line 1 column 1 (char 0)"),
    [⟨requestBody, requestValue, .cancelled true⟩]⟩

/-- The provisioning of the request is cut off. -/
def cutOff : Env := SandboxTask.oneTestEnv
  (fun site => if site = .provision then some (.before .cancelled) else none) fun _ => false

end PoisonMessages

end ReleaseValidation.SandboxManager
