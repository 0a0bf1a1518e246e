import ReleaseValidation.Foundations.Runs
import ReleaseValidation.SandboxManager.Pool

/-! # Tasks that share the pool

Any number of tasks call the methods of one `SandboxPool`. A task can be interrupted
where it waits for the lock and where it waits for the event; between these points it
runs alone. The fields of the pool are kept as they are in the source, unrelated by
their types, and the methods are shown to act on them as those of `Pool` do.
-/
namespace ReleaseValidation.SandboxManager.PoolTasks
open Store Runs

/-- The calls whose body runs under `self._lock`. -/
inductive Op
  | acquire (sandboxId runId : Uuid)
  | release (sandboxId : Uuid)
  deriving DecidableEq, Repr

/-- Where a task stands in the method it has called. -/
inductive Task
  /-- It awaits the lock. -/
  | entering (op : Op)
  /-- It holds the lock. -/
  | inside (op : Op)
  /-- It is about to test the condition of the loop in `wait_for_slot`. -/
  | checking
  /-- It awaits the event; `woken` once the event has resolved its future. -/
  | waiting (woken : Bool)
  | returned (result : Bool)
  | cancelled
  deriving DecidableEq, Repr

namespace Task

/-- What `Event.set` does to the futures that wait for it. -/
def wake : Task → Task
  | waiting _ => waiting true
  | task => task

/-- The task is somewhere in `wait_for_slot`. -/
def InWait : Task → Prop
  | checking | waiting _ => True
  | _ => False

@[simp] theorem wake_inside_iff {task : Task} {op : Op} : task.wake = inside op ↔ task = inside op := by
  cases task <;> simp [wake]

theorem wake_ne_asleep (task : Task) : task.wake ≠ waiting false := by
  cases task <;> simp [wake]

end Task

structure State where
  active : AList (fun _ : Uuid => PoolEntry)
  slotAvailable : Bool
  /-- The task that holds the lock. -/
  lock : Option ℕ
  tasks : List Task

namespace State

def initial : State := ⟨∅, true, none, []⟩

def activeCount (s : State) : ℕ := s.active.keys.length

def hasCapacity (max : ℕ) (s : State) : Bool := decide (s.activeCount < max)

def setTask (s : State) (i : ℕ) (task : Task) : State := { s with tasks := s.tasks.set i task }

/-- `Event.clear`. -/
def clear (s : State) : State := { s with slotAvailable := false }

/-- `Event.set`. -/
def set (s : State) : State :=
  if s.slotAvailable then s else { s with slotAvailable := true, tasks := s.tasks.map Task.wake }

/-- The body of `acquire`. -/
def acquire (max : ℕ) (s : State) (sandboxId runId : Uuid) : Bool × State :=
  if s.hasCapacity max = false then (false, s)
  else
    let claimed := { s with active := s.active.insert sandboxId ⟨runId, sandboxId⟩ }
    (true, if claimed.hasCapacity max = false then claimed.clear else claimed)

/-- The body of `release`. -/
def release (s : State) (sandboxId : Uuid) : State :=
  { s with active := s.active.erase sandboxId }.set

def runBody (max : ℕ) (s : State) : Op → Bool × State
  | .acquire sandboxId runId => s.acquire max sandboxId runId
  | .release sandboxId => (true, s.release sandboxId)

/-- The loop of `wait_for_slot`, from the test of its condition to its next wait. -/
def waitForSlot (max : ℕ) (s : State) (i : ℕ) : State :=
  if s.hasCapacity max then s.setTask i (.returned true)
  else if s.clear.slotAvailable then s.clear.setTask i .checking
  else s.clear.setTask i (.waiting false)

end State

inductive Act
  | call (op : Op)
  | callWait
  | enter (i : ℕ)
  | body (i : ℕ)
  | resume (i : ℕ)
  | cancel (i : ℕ)
  deriving DecidableEq, Repr

/-- One task at a time runs from one of its waits to the next. The lock is handed over
in any order. -/
def step (max : ℕ) (s : State) : Act → Option State
  | .call op => some { s with tasks := s.tasks ++ [.entering op] }
  | .callWait => some { s with tasks := s.tasks ++ [.checking] }
  | .enter i =>
    match s.lock, s.tasks[i]? with
    | none, some (.entering op) => some { s.setTask i (.inside op) with lock := some i }
    | _, _ => none
  | .body i =>
    match s.tasks[i]? with
    | some (.inside op) =>
      let (result, t) := s.runBody max op
      some { t.setTask i (.returned result) with lock := none }
    | _ => none
  | .resume i =>
    match s.tasks[i]? with
    | some .checking | some (.waiting true) => some (s.waitForSlot max i)
    | _ => none
  | .cancel i =>
    match s.tasks[i]? with
    | some (.entering _) | some .checking | some (.waiting _) => some (s.setTask i .cancelled)
    | _ => none

variable {max : ℕ}

/-! ### The fields as a `Pool` -/

/-- The fields are those of the pool `p`. -/
def State.Refines (s : State) (p : Pool max) : Prop :=
  s.active = p.active ∧ s.slotAvailable = p.slotAvailable

namespace State
variable {s t : State} {p : Pool max}

theorem Refines.hasCapacity (h : s.Refines p) : s.hasCapacity max = p.hasCapacity := by
  unfold State.hasCapacity Pool.hasCapacity activeCount Pool.activeCount
  rw [h.1]

theorem Refines.congr (h : s.Refines p) (ha : t.active = s.active)
    (hv : t.slotAvailable = s.slotAvailable) : t.Refines p :=
  ⟨ha.trans h.1, hv.trans h.2⟩

theorem Refines.acquire (h : s.Refines p) (sandboxId runId : Uuid) :
    (s.acquire max sandboxId runId).1 = (p.acquire sandboxId runId).1 ∧
      (s.acquire max sandboxId runId).2.Refines (p.acquire sandboxId runId).2 := by
  unfold State.acquire
  rw [h.hasCapacity]
  cases hcap : p.hasCapacity with
  | false =>
    rw [Pool.acquire_full hcap]
    exact ⟨rfl, h⟩
  | true =>
    have hactive := Pool.acquire_active hcap sandboxId runId
    have hevent := Pool.acquire_slotAvailable hcap sandboxId runId
    rw [← h.1] at hactive hevent
    rw [if_neg nofun, Pool.acquire_fst, hcap]
    refine ⟨rfl, ?_⟩
    dsimp only
    split
    next hfull =>
      have hlen : decide ((s.active.insert sandboxId ⟨runId, sandboxId⟩).keys.length < max) = false := hfull
      refine ⟨hactive.symm, ?_⟩
      rw [hevent, hlen, Bool.and_false]
      rfl
    next hroom =>
      have hlen : decide ((s.active.insert sandboxId ⟨runId, sandboxId⟩).keys.length < max) = true :=
        eq_true_of_ne_false hroom
      refine ⟨hactive.symm, ?_⟩
      rw [hevent, hlen, Bool.and_true]
      exact h.2

theorem set_active (s : State) : s.set.active = s.active := by
  unfold State.set
  split <;> rfl

@[simp] theorem set_slotAvailable (s : State) : s.set.slotAvailable = true := by
  unfold State.set
  split
  next h => exact h
  · rfl

@[simp] theorem set_lock (s : State) : s.set.lock = s.lock := by
  unfold State.set
  split <;> rfl

theorem Refines.release (h : s.Refines p) (sandboxId : Uuid) :
    (s.release sandboxId).Refines (p.release sandboxId) := by
  refine ⟨?_, set_slotAvailable _⟩
  rw [State.release, set_active, Pool.release_active, h.1]

end State

/-! ### What every step keeps -/

/-- The fields are those of some pool, the lock is held by the task inside, and a task
sleeps only while the event is cleared. -/
structure Sound (max : ℕ) (s : State) : Prop where
  refines : ∃ p : Pool max, s.Refines p
  holder : ∀ i op, s.tasks[i]? = some (.inside op) → s.lock = some i
  held : ∀ i, s.lock = some i → ∃ op, s.tasks[i]? = some (.inside op)
  asleep : .waiting false ∈ s.tasks → s.slotAvailable = false

theorem sound_initial (max : ℕ) : Sound max .initial :=
  ⟨⟨.empty max, rfl, rfl⟩, nofun, nofun, nofun⟩

section Steps
variable {s t : State} {i : ℕ}

theorem mem_set_wake {s : State} (h : .waiting false ∈ s.set.tasks) : .waiting false ∈ s.tasks ∧ s.slotAvailable = true := by
  unfold State.set at h
  split at h
  next hv => exact ⟨h, hv⟩
  · obtain ⟨task, -, hw⟩ := List.mem_map.mp h
    exact absurd hw task.wake_ne_asleep

theorem set_inside_iff {s : State} {op : Op} :
    s.set.tasks[i]? = some (.inside op) ↔ s.tasks[i]? = some (.inside op) := by
  unfold State.set
  split
  · exact Iff.rfl
  · simp only [List.getElem?_map, Option.map_eq_some_iff, Task.wake_inside_iff, exists_eq_right]

/-- The bodies keep all of `Sound`, and leave the lock and the task that holds it as they are. -/
theorem runBody_sound (hs : Sound max s) (op : Op) :
    Sound max (s.runBody max op).2 ∧ (s.runBody max op).2.lock = s.lock := by
  obtain ⟨p, hp⟩ := hs.refines
  cases op with
  | acquire sandboxId runId =>
    have hr := (hp.acquire sandboxId runId).2
    have htasks : (s.acquire max sandboxId runId).2.tasks = s.tasks := by
      unfold State.acquire State.clear
      split
      · rfl
      · dsimp only
        split <;> rfl
    have hlock : (s.acquire max sandboxId runId).2.lock = s.lock := by
      unfold State.acquire State.clear
      split
      · rfl
      · dsimp only
        split <;> rfl
    have hevent : s.slotAvailable = false → (s.acquire max sandboxId runId).2.slotAvailable = false := by
      intro hv
      unfold State.acquire State.clear
      split
      · exact hv
      · dsimp only
        split
        · rfl
        · exact hv
    refine ⟨⟨⟨_, hr⟩, ?_, ?_, ?_⟩, hlock⟩
    · intro i op hi
      rw [State.runBody, htasks] at hi
      exact hlock.trans (hs.holder i op hi)
    · intro i hi
      rw [State.runBody, htasks]
      exact hs.held i (hlock.symm.trans hi)
    · intro hm
      rw [State.runBody, htasks] at hm
      exact hevent (hs.asleep hm)
  | release sandboxId =>
    let erased : State := { s with active := s.active.erase sandboxId }
    have hlock : erased.set.lock = s.lock := erased.set_lock
    refine ⟨⟨⟨_, hp.release sandboxId⟩, ?_, ?_, ?_⟩, hlock⟩
    · intro i op hi
      have hop : erased.tasks[i]? = some (.inside op) := set_inside_iff.mp hi
      exact hlock.trans (hs.holder i op hop)
    · intro i hi
      obtain ⟨op, hop⟩ := hs.held i (hlock.symm.trans hi)
      exact ⟨op, set_inside_iff.mpr hop⟩
    · intro hm
      obtain ⟨hmem, hv⟩ := mem_set_wake (s := erased) hm
      exact absurd ((hs.asleep hmem).symm.trans hv) nofun

theorem sound_append (hs : Sound max s) {task : Task} (hin : ∀ op, task ≠ .inside op)
    (hasleep : task ≠ .waiting false) : Sound max { s with tasks := s.tasks ++ [task] } := by
  refine ⟨hs.refines, ?_, ?_, ?_⟩
  · intro j op hj
    rcases List.mem_append.mp (List.mem_of_getElem? hj) with hmem | hmem
    · have hlt : j < s.tasks.length := by
        by_contra hle
        rw [List.getElem?_append_right (Nat.le_of_not_lt hle)] at hj
        exact hin op (List.mem_singleton.mp (List.mem_of_getElem? hj)).symm
      rw [List.getElem?_append_left hlt] at hj
      exact hs.holder j op hj
    · exact absurd (List.mem_singleton.mp hmem).symm (hin op)
  · intro j hj
    obtain ⟨op, hop⟩ := hs.held j hj
    have hlt := (List.getElem?_eq_some_iff.mp hop).1
    exact ⟨op, (List.getElem?_append_left hlt).trans hop⟩
  · intro hm
    rcases List.mem_append.mp hm with hmem | hmem
    · exact hs.asleep hmem
    · exact absurd (List.mem_singleton.mp hmem).symm hasleep

/-- A task outside the lock moves to another place outside the lock. -/
theorem sound_setTask (hs : Sound max s) {old new : Task} (hi : s.tasks[i]? = some old)
    (hold : ∀ op, old ≠ .inside op) (hnew : ∀ op, new ≠ .inside op)
    (hasleep : new = .waiting false → s.slotAvailable = false) : Sound max (s.setTask i new) := by
  have hlt := (List.getElem?_eq_some_iff.mp hi).1
  have hother : ∀ (j : ℕ) (op : Op),
      (s.setTask i new).tasks[j]? = some (Task.inside op) ↔ s.tasks[j]? = some (Task.inside op) := by
    intro j op
    by_cases hij : i = j
    · subst hij
      rw [State.setTask, List.getElem?_set_self hlt, hi, Option.some_inj, Option.some_inj]
      exact ⟨fun h => absurd h (hnew op), fun h => absurd h (hold op)⟩
    · rw [State.setTask, List.getElem?_set_ne hij]
  refine ⟨hs.refines, ?_, ?_, ?_⟩
  · intro j op hj
    exact hs.holder j op ((hother j op).mp hj)
  · intro j hj
    obtain ⟨op, hop⟩ := hs.held j hj
    exact ⟨op, (hother j op).mpr hop⟩
  · intro hm
    rcases List.mem_or_eq_of_mem_set hm with hmem | rfl
    · exact hs.asleep hmem
    · exact hasleep rfl

theorem sound_clear (hs : Sound max s) (hfull : s.hasCapacity max = false) : Sound max s.clear := by
  obtain ⟨p, hp⟩ := hs.refines
  have hcap : p.hasCapacity = false := hp.hasCapacity ▸ hfull
  exact ⟨⟨p.clearSlot hcap, hp.1, rfl⟩, hs.holder, hs.held, fun _ => rfl⟩

theorem sound_waitForSlot (hs : Sound max s) {old : Task} (hi : s.tasks[i]? = some old)
    (hold : ∀ op, old ≠ .inside op) : Sound max (s.waitForSlot max i) := by
  unfold State.waitForSlot
  split
  · exact sound_setTask hs hi hold nofun nofun
  next hfull =>
    have hclear := sound_clear hs (eq_false_of_ne_true hfull)
    split
    · exact sound_setTask hclear hi hold nofun nofun
    · exact sound_setTask hclear hi hold nofun fun _ => rfl

theorem sound_enter (hs : Sound max s) {op : Op} (hfree : s.lock = none)
    (hi : s.tasks[i]? = some (.entering op)) :
    Sound max { s.setTask i (.inside op) with lock := some i } := by
  have hlt := (List.getElem?_eq_some_iff.mp hi).1
  refine ⟨hs.refines, ?_, ?_, ?_⟩
  · intro j op' hj
    by_cases hij : i = j
    · rw [hij]
    · rw [State.setTask, List.getElem?_set_ne hij] at hj
      exact absurd (hfree.symm.trans (hs.holder j op' hj)) nofun
  · rintro j hj
    cases hj
    exact ⟨op, List.getElem?_set_self hlt⟩
  · intro hm
    rcases List.mem_or_eq_of_mem_set hm with hmem | hmem
    · exact hs.asleep hmem
    · cases hmem

theorem sound_leave (hs : Sound max s) {op : Op} (hi : s.tasks[i]? = some (.inside op)) (result : Bool) :
    Sound max { s.setTask i (.returned result) with lock := none } := by
  have hlock := hs.holder i op hi
  refine ⟨hs.refines, ?_, nofun, ?_⟩
  · intro j op' hj
    have hij : i ≠ j := by
      rintro rfl
      rw [State.setTask, List.getElem?_set_self (List.getElem?_eq_some_iff.mp hi).1] at hj
      cases hj
    rw [State.setTask, List.getElem?_set_ne hij] at hj
    have hsame := hlock.symm.trans (hs.holder j op' hj)
    exact absurd (Option.some_inj.mp hsame) hij
  · intro hm
    rcases List.mem_or_eq_of_mem_set hm with hmem | hmem
    · exact hs.asleep hmem
    · cases hmem

theorem runBody_inside (hs : Sound max s) {op : Op} (hi : s.tasks[i]? = some (.inside op)) (call : Op) :
    ∃ op', (s.runBody max call).2.tasks[i]? = some (.inside op') := by
  obtain ⟨hsound, hlock⟩ := runBody_sound hs call
  exact hsound.held i (hlock.trans (hs.holder i op hi))

theorem step_sound {a : Act} (h : step max s a = some t) (hs : Sound max s) : Sound max t := by
  cases a with
  | call op =>
    cases h
    exact sound_append hs nofun nofun
  | callWait =>
    cases h
    exact sound_append hs nofun nofun
  | enter i =>
    simp only [step] at h
    split at h
    next op hfree hi =>
      cases h
      exact sound_enter hs hfree hi
    · cases h
  | body i =>
    simp only [step] at h
    split at h
    next op hi =>
      cases h
      obtain ⟨op', hop⟩ := runBody_inside hs hi op
      exact sound_leave (runBody_sound hs op).1 hop _
    · cases h
  | resume i =>
    simp only [step] at h
    split at h
    next hi =>
      cases h
      exact sound_waitForSlot hs hi nofun
    next hi =>
      cases h
      exact sound_waitForSlot hs hi nofun
    · cases h
  | cancel i =>
    simp only [step] at h
    split at h
    next hi =>
      cases h
      exact sound_setTask hs hi nofun nofun nofun
    next hi =>
      cases h
      exact sound_setTask hs hi nofun nofun nofun
    next hi =>
      cases h
      exact sound_setTask hs hi nofun nofun nofun
    · cases h

theorem exec_sound {as : List Act} (h : exec (step max) .initial as = some t) : Sound max t :=
  exec_invariant (fun _ _ _ hs ht => step_sound ht hs) (sound_initial max) h

/-- No call is stuck at the lock: it is free, or the task that holds it can run. -/
theorem lock_free_or_leaves {as : List Act} (h : exec (step max) .initial as = some t) :
    t.lock = none ∨ ∃ i u, t.lock = some i ∧ step max t (.body i) = some u ∧ u.lock = none := by
  cases hl : t.lock with
  | none => exact .inl rfl
  | some i =>
    obtain ⟨op, hop⟩ := (exec_sound h).held i hl
    refine .inr ⟨i, { (t.runBody max op).2.setTask i (.returned (t.runBody max op).1) with lock := none }, rfl,
      ?_, rfl⟩
    simp only [step, hop]

end Steps

/-- The pool never holds more than `max` sandboxes; while its event is cleared it is full;
and while it has room no task sleeps in `wait_for_slot`, and each one that is in it
returns when it runs next. -/
theorem pool_bounded_no_lost_wakeup {as : List Act} {t : State} (h : exec (step max) .initial as = some t) :
    t.activeCount ≤ max ∧
    (t.slotAvailable = false → t.lock = none → t.activeCount = max) ∧
    (t.hasCapacity max = true → ∀ (i : ℕ) (task : Task), t.tasks[i]? = some task → task.InWait →
      step max t (.resume i) = some (t.setTask i (.returned true))) := by
  have hs := exec_sound h
  obtain ⟨p, hp⟩ := hs.refines
  have hcount : t.activeCount = p.activeCount := by rw [State.activeCount, hp.1, Pool.activeCount]
  refine ⟨hcount ▸ p.bounded, ?_, ?_⟩
  · intro hv _
    have hfull : ¬ p.activeCount < max := fun hlt => absurd (p.flagged hlt) (by rw [← hp.2, hv]; exact Bool.false_ne_true)
    have hle : p.activeCount ≤ max := p.bounded
    omega
  · intro hcap i task hi hw
    have hlt : p.activeCount < max := by
      rw [← Pool.hasCapacity_iff, ← hp.hasCapacity]
      exact hcap
    have hevent : t.slotAvailable = true := hp.2.trans (p.flagged hlt)
    have hresume : t.waitForSlot max i = t.setTask i (.returned true) := if_pos hcap
    cases task with
    | checking => simp only [step, hi, hresume]
    | waiting woken =>
      cases woken with
      | true => simp only [step, hi, hresume]
      | false => exact absurd ((hs.asleep (List.mem_of_getElem? hi)).symm.trans hevent) Bool.false_ne_true
    | _ => exact absurd hw id

/-- One slot: it is taken, a task goes to sleep in `wait_for_slot`, and a release wakes it. -/
def sleepAndWake : List Act :=
  [.call (.acquire "sbx-1" "run-1"), .enter 0, .body 0, .callWait, .resume 1,
   .call (.release "sbx-1"), .enter 2, .body 2]

theorem pool_bounded_no_lost_wakeup_one :
    ∃ t u, exec (step 1) .initial sleepAndWake = some t ∧ t.activeCount ≤ 1 ∧ t.hasCapacity 1 = true ∧
      t.tasks[1]? = some (.waiting true) ∧ step 1 t (.resume 1) = some u ∧
      u.tasks[1]? = some (.returned true) := by
  have hsome : (exec (step 1) .initial sleepAndWake).isSome = true := by decide +kernel
  obtain ⟨t, ht⟩ := Option.isSome_iff_exists.mp hsome
  have htasks : (exec (step 1) .initial sleepAndWake).map (·.tasks) =
      some [.returned true, .waiting true, .returned true] := by decide +kernel
  have hcap : (exec (step 1) .initial sleepAndWake).map (·.hasCapacity 1) = some true := by decide +kernel
  rw [ht, Option.map_some, Option.some_inj] at htasks hcap
  have hi : t.tasks[1]? = some (.waiting true) := by rw [htasks]; rfl
  obtain ⟨hbound, -, hrun⟩ := pool_bounded_no_lost_wakeup ht
  exact ⟨t, _, ht, hbound, hcap, hi, hrun hcap 1 _ hi trivial, by rw [State.setTask, htasks]; rfl⟩

end ReleaseValidation.SandboxManager.PoolTasks
