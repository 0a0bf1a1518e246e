import Mathlib.Data.Fintype.EquivFin
import ReleaseValidation.Foundations.Runs
import ReleaseValidation.SandboxManager.Pool

/-! # The consumer loop and the tasks it spawns

The loop waits for a slot, acknowledges the message and spawns a task; the task
claims its slot later, after awaits of its own. Until then the slot counts as free,
so a second message can be acknowledged for it. Of a message only its run id
reaches the pool.
-/
namespace ReleaseValidation.SandboxManager.QueueConsumer
open Store Runs

variable {max : ℕ}

/-- Where `SandboxQueueConsumer.run` stands with the message it has in hand. -/
inductive Loop
  | fetching
  | checking (runId : Uuid)
  | blocked (runId : Uuid)
  | acking (runId : Uuid)
  | acked (runId : Uuid)
  deriving DecidableEq, Repr

/-- Where a spawned `_handle` stands with its slot. -/
inductive Phase
  | spawned
  | holding (sandboxId : Uuid)
  | refused
  | ended
  deriving DecidableEq, Repr

structure Task where
  runId : Uuid
  phase : Phase
  deriving DecidableEq, Repr

structure State (max : ℕ) where
  queue : List Uuid
  pool : Pool max
  loop : Loop
  tasks : List Task

def initial (max : ℕ) : State max := ⟨[], .empty max, .fetching, []⟩

inductive Act
  | arrive (runId : Uuid)
  | fetch (i : ℕ)
  | check
  | wake
  | ack
  | spawn
  | die (i : ℕ)
  | acquire (i : ℕ) (sandboxId : Uuid)
  | release (i : ℕ)
  deriving DecidableEq, Repr

def State.setPhase (s : State max) (i : ℕ) (task : Task) (phase : Phase) (pool : Pool max) : State max :=
  { s with pool := pool, tasks := s.tasks.set i { task with phase := phase } }

/-- `sandbox.queue` is a priority queue, so any waiting message may come next. A new
sandbox id is never one of the active ones. -/
def step (s : State max) : Act → Option (State max)
  | .arrive r => some { s with queue := s.queue ++ [r] }
  | .fetch i =>
    match s.loop, s.queue[i]? with
    | .fetching, some r => some { s with queue := s.queue.eraseIdx i, loop := .checking r }
    | _, _ => none
  | .check =>
    match s.loop with
    | .checking r =>
      if h : s.pool.hasCapacity = true then some { s with loop := .acking r }
      else some { s with pool := s.pool.clearSlot (Bool.eq_false_iff.mpr h), loop := .blocked r }
    | _ => none
  | .wake =>
    match s.loop with
    | .blocked r => if s.pool.slotAvailable = true then some { s with loop := .checking r } else none
    | _ => none
  | .ack =>
    match s.loop with
    | .acking r => some { s with loop := .acked r }
    | _ => none
  | .spawn =>
    match s.loop with
    | .acked r => some { s with loop := .fetching, tasks := s.tasks ++ [⟨r, .spawned⟩] }
    | _ => none
  | .die i =>
    match s.tasks[i]? with
    | some ⟨r, .spawned⟩ => some (s.setPhase i ⟨r, .spawned⟩ .ended s.pool)
    | _ => none
  | .acquire i sandboxId =>
    match s.tasks[i]? with
    | some ⟨r, .spawned⟩ =>
      if sandboxId ∈ s.pool.active then none
      else
        some (s.setPhase i ⟨r, .spawned⟩
          (if (s.pool.acquire sandboxId r).1 = true then .holding sandboxId else .refused)
          (s.pool.acquire sandboxId r).2)
    | _ => none
  | .release i =>
    match s.tasks[i]? with
    | some ⟨r, .holding sandboxId⟩ =>
      some (s.setPhase i ⟨r, .holding sandboxId⟩ .ended (s.pool.release sandboxId))
    | _ => none

def Loop.isAcked : Loop → Bool
  | acked _ => true
  | _ => false

/-- Acknowledged messages whose task has not come to `pool.acquire`. -/
def State.pending (s : State max) : ℕ := s.tasks.countP (·.phase == .spawned) + s.loop.isAcked.toNat

/-- A message is acknowledged only while the active sandboxes and the pending tasks leave
a slot for it. -/
def AckWithin (s : State max) (a : Act) (_ : State max) : Prop :=
  a = .ack → s.pool.activeCount + s.pending < max

instance (s : State max) (a : Act) (t : State max) : Decidable (AckWithin s a t) :=
  inferInstanceAs (Decidable (_ → _))

/-- Every task that asked for a slot got one. -/
def NoneRefused (s : State max) : Prop := ∀ task ∈ s.tasks, task.phase ≠ .refused

theorem countP_set {α : Type} {p : α → Bool} {l : List α} {i : ℕ} {b c : α} (hc : l[i]? = some c) :
    (l.set i b).countP p + (p c).toNat = l.countP p + (p b).toNat := by
  obtain ⟨hi, rfl⟩ := List.getElem?_eq_some_iff.mp hc
  have hpos : p l[i] = true → 0 < l.countP p := fun hp => List.countP_pos_iff.mpr ⟨l[i], List.getElem_mem hi, hp⟩
  rw [List.countP_set hi]
  cases hp : p l[i] <;> cases p b <;> simp
  all_goals
    have h := hpos hp
    omega

theorem pending_setPhase {s : State max} {i : ℕ} {r : Uuid} (phase : Phase) (pool : Pool max)
    (h : s.tasks[i]? = some ⟨r, .spawned⟩) (hp : phase ≠ .spawned) :
    (s.setPhase i ⟨r, .spawned⟩ phase pool).pending + 1 = s.pending := by
  have hc := countP_set (p := fun task : Task => task.phase == .spawned) (b := ⟨r, phase⟩) h
  have hne : (phase == Phase.spawned) = false := beq_eq_false_iff_ne.mpr hp
  simp only [State.pending, State.setPhase]
  simp only [beq_self_eq_true, Bool.toNat_true, hne, Bool.toNat_false] at hc
  omega

theorem noneRefused_setPhase {s : State max} {i : ℕ} {task : Task} {phase : Phase} {pool : Pool max}
    (hs : NoneRefused s) (hp : phase ≠ .refused) : NoneRefused (s.setPhase i task phase pool) := by
  intro other hmem
  rcases List.mem_or_eq_of_mem_set hmem with hmem | rfl
  · exact hs other hmem
  · exact hp

theorem step_acquire {s t : State max} {i : ℕ} {sandboxId : Uuid} (h : step s (.acquire i sandboxId) = some t) :
    ∃ r, s.tasks[i]? = some ⟨r, .spawned⟩ ∧ sandboxId ∉ s.pool.active ∧
      t = s.setPhase i ⟨r, .spawned⟩
        (if (s.pool.acquire sandboxId r).1 = true then .holding sandboxId else .refused)
        (s.pool.acquire sandboxId r).2 := by
  simp only [step] at h
  split at h
  next r hr =>
    split at h
    · cases h
    next hnew =>
      cases h
      exact ⟨r, hr, hnew, rfl⟩
  · cases h

/-- Every acknowledged message has a slot that is free for it, and no task was refused. -/
structure Fits (s : State max) : Prop where
  room : s.pool.activeCount + s.pending ≤ max
  granted : NoneRefused s

theorem acquire_fits {s t : State max} {i : ℕ} {sandboxId : Uuid}
    (h : step s (.acquire i sandboxId) = some t) (hs : Fits s) : Fits t := by
  obtain ⟨r, hr, hnew, rfl⟩ := step_acquire h
  have hpos : 0 < s.tasks.countP (·.phase == .spawned) :=
    List.countP_pos_iff.mpr ⟨_, List.mem_of_getElem? hr, rfl⟩
  have hcap : s.pool.hasCapacity = true := by
    rw [Pool.hasCapacity_iff]
    have hroom := hs.room
    simp only [State.pending] at hroom
    omega
  rw [Pool.acquire_fst, if_pos hcap]
  refine ⟨?_, noneRefused_setPhase hs.granted nofun⟩
  have hroom := hs.room
  have hpending := pending_setPhase (.holding sandboxId) (s.pool.acquire sandboxId r).2 hr nofun
  have hcount := Pool.acquire_activeCount hcap hnew r
  change (s.pool.acquire sandboxId r).2.activeCount + _ ≤ max
  omega

theorem release_fits {s t : State max} {i : ℕ} (h : step s (.release i) = some t) (hs : Fits s) :
    Fits t := by
  simp only [step] at h
  split at h
  next r sandboxId hr =>
    cases h
    refine ⟨?_, noneRefused_setPhase hs.granted nofun⟩
    have hroom := hs.room
    have hc := countP_set (p := fun task : Task => task.phase == .spawned) (b := ⟨r, .ended⟩) hr
    have hle : (s.pool.release sandboxId).activeCount ≤ s.pool.activeCount := by
      rw [Pool.activeCount, Pool.release_active, AList.keys_erase]
      exact List.length_erase_le
    simp only [State.pending] at hroom
    simp only [State.pending, State.setPhase]
    have h1 : (Phase.holding sandboxId == Phase.spawned) = false := rfl
    have h2 : (Phase.ended == Phase.spawned) = false := rfl
    simp only [h1, h2, Bool.toNat_false] at hc
    omega
  · cases h

theorem loop_fits {s t : State max} (hs : Fits s) (hc : t.pool.activeCount = s.pool.activeCount)
    (ht : t.tasks = s.tasks) (hl : t.loop.isAcked = s.loop.isAcked) : Fits t := by
  refine ⟨?_, ?_⟩
  · have hroom := hs.room
    simp only [State.pending] at hroom ⊢
    rw [hc, ht, hl]
    exact hroom
  · rw [NoneRefused, ht]
    exact hs.granted

theorem step_fits {s t : State max} {a : Act} (h : step s a = some t) (hack : AckWithin s a t)
    (hs : Fits s) : Fits t := by
  cases a with
  | arrive r =>
    cases h
    exact loop_fits hs rfl rfl rfl
  | fetch i =>
    simp only [step] at h
    split at h
    next hl _ =>
      cases h
      exact loop_fits hs rfl rfl (by rw [hl]; rfl)
    · cases h
  | check =>
    simp only [step] at h
    split at h
    next hl =>
      split at h
      · cases h
        exact loop_fits hs rfl rfl (by rw [hl]; rfl)
      · cases h
        exact loop_fits hs rfl rfl (by rw [hl]; rfl)
    · cases h
  | wake =>
    simp only [step] at h
    split at h
    next hl =>
      split at h
      · cases h
        exact loop_fits hs rfl rfl (by rw [hl]; rfl)
      · cases h
    · cases h
  | ack =>
    have hlt := hack rfl
    simp only [step] at h
    split at h
    next hl =>
      cases h
      refine ⟨?_, hs.granted⟩
      simp only [State.pending, hl] at hlt ⊢
      exact hlt
    · cases h
  | spawn =>
    simp only [step] at h
    split at h
    next r hl =>
      cases h
      have hroom := hs.room
      refine ⟨?_, ?_⟩
      · simp only [State.pending, hl, List.countP_append] at hroom ⊢
        exact hroom
      · intro task hmem
        rcases List.mem_append.mp hmem with hmem | hmem
        · exact hs.granted task hmem
        · rw [List.mem_singleton.mp hmem]
          nofun
    · cases h
  | die i =>
    simp only [step] at h
    split at h
    next r hr =>
      cases h
      refine ⟨?_, noneRefused_setPhase hs.granted nofun⟩
      have hroom := hs.room
      have hpending := pending_setPhase .ended s.pool hr nofun
      change s.pool.activeCount + _ ≤ max
      omega
    · cases h
  | acquire i sandboxId => exact acquire_fits h hs
  | release i => exact release_fits h hs

theorem fits_initial (max : ℕ) : Fits (initial max) := ⟨Nat.zero_le max, nofun⟩

/-! ### The other direction: an acknowledgement too many can be lost -/

theorem exists_new_id (p : Pool max) : ∃ sandboxId, sandboxId ∉ p.active := by
  obtain ⟨sandboxId, h⟩ := Infinite.exists_notMem_finset (α := String) p.active.keys.toFinset
  exact ⟨sandboxId, fun hmem => h (List.mem_toFinset.mpr (AList.mem_keys.mp hmem))⟩

/-- With more acknowledged messages than free slots, some task is refused when all the
spawned ones ask for their slot next. -/
theorem exists_refused {s : State max} (hl : s.loop.isAcked = false)
    (hover : max < s.pool.activeCount + s.pending) :
    ∃ as t, exec step s as = some t ∧ ¬ NoneRefused t := by
  induction hn : s.tasks.countP (·.phase == .spawned) generalizing s with
  | zero =>
    simp only [State.pending, hn, hl] at hover
    exact absurd s.pool.bounded (Nat.not_le_of_lt hover)
  | succ n ih =>
    have hpos : 0 < s.tasks.countP (·.phase == .spawned) := by omega
    obtain ⟨task, hmem, hph⟩ := List.countP_pos_iff.mp hpos
    obtain ⟨i, hi⟩ := List.mem_iff_getElem?.mp hmem
    obtain ⟨r, phase⟩ := task
    cases eq_of_beq hph
    obtain ⟨sandboxId, hnew⟩ := exists_new_id s.pool
    have hstep : step s (.acquire i sandboxId) = some (s.setPhase i ⟨r, .spawned⟩
        (if (s.pool.acquire sandboxId r).1 = true then .holding sandboxId else .refused)
        (s.pool.acquire sandboxId r).2) := by
      simp only [step, hi, hnew, ↓reduceIte]
    cases hcap : s.pool.hasCapacity with
    | false =>
      refine ⟨[.acquire i sandboxId], _, by rw [exec_cons, hstep]; rfl, ?_⟩
      rw [Pool.acquire_fst, hcap]
      intro hnone
      refine hnone ⟨r, .refused⟩ ?_ rfl
      exact List.mem_of_getElem? (List.getElem?_set_self (List.getElem?_eq_some_iff.mp hi).1)
    | true =>
      rw [Pool.acquire_fst, if_pos hcap] at hstep
      have hpending := pending_setPhase (.holding sandboxId) (s.pool.acquire sandboxId r).2 hi nofun
      have hcount := Pool.acquire_activeCount hcap hnew r
      obtain ⟨as, t, has, ht⟩ := ih (s := s.setPhase i ⟨r, .spawned⟩ (.holding sandboxId)
        (s.pool.acquire sandboxId r).2) hl
        (by
          change max < (s.pool.acquire sandboxId r).2.activeCount + _
          omega)
        (by
          simp only [State.pending] at hpending
          change _ + s.loop.isAcked.toNat + 1 = _ at hpending
          omega)
      exact ⟨.acquire i sandboxId :: as, t, by rw [exec_cons, hstep]; exact has, ht⟩

/-- A run that acknowledges a message only when a slot is left for it refuses no task; and
wherever a run acknowledges one message more, it has a continuation that refuses one. -/
theorem acked_requests_get_slots {as : List Act} {t : State max}
    (h : exec step (initial max) as = some t) :
    (Always step AckWithin (initial max) as → NoneRefused t) ∧
    ∀ u, step t .ack = some u → ¬ AckWithin t .ack u →
      ∃ bs v, exec step u bs = some v ∧ ¬ NoneRefused v := by
  constructor
  · intro hack
    have hfits : Fits t := by
      refine exec_invariant_always (I := Fits) (Q := AckWithin) ?_ (fits_initial max) hack h
      intro u a v hu hv hq
      exact step_fits hv hq hu
    exact hfits.granted
  · intro u hu hno
    simp only [step] at hu
    split at hu
    next r hl =>
      cases hu
      have hover : max ≤ t.pool.activeCount + t.pending := by
        by_contra hlt
        exact hno fun _ => Nat.lt_of_not_le hlt
      let w : State max := { t with loop := .fetching, tasks := t.tasks ++ [⟨r, .spawned⟩] }
      have hw : max < w.pool.activeCount + w.pending := by
        simp only [State.pending, hl] at hover
        simp only [w, State.pending, List.countP_append]
        exact Nat.lt_succ_of_le hover
      obtain ⟨bs, v, hbs, hv⟩ := exists_refused (s := w) rfl hw
      exact ⟨.spawn :: bs, v, hbs, hv⟩
    · cases hu

/-- One slot and two waiting requests: both are acknowledged before the first task comes
to its `acquire`. -/
def twoForOne : List Act :=
  [.arrive "run-1", .arrive "run-2", .fetch 0, .check, .ack, .spawn, .fetch 0, .check, .ack, .spawn,
   .acquire 0 "sbx-1", .acquire 1 "sbx-2"]

theorem acked_request_refused :
    (exec step (initial 1) twoForOne).map (·.tasks) =
      some [⟨"run-1", .holding "sbx-1"⟩, ⟨"run-2", .refused⟩] := by
  decide +kernel

theorem acked_requests_get_slots_one :
    ∃ t, exec step (initial 1) (twoForOne.take 6 ++ [.acquire 0 "sbx-1"]) = some t ∧ NoneRefused t := by
  have hsome : (exec step (initial 1) (twoForOne.take 6 ++ [.acquire 0 "sbx-1"])).isSome = true := by
    decide +kernel
  obtain ⟨t, ht⟩ := Option.isSome_iff_exists.mp hsome
  exact ⟨t, ht, (acked_requests_get_slots ht).1 (by decide +kernel)⟩

end ReleaseValidation.SandboxManager.QueueConsumer
