import Mathlib.Data.List.AList
import ReleaseValidation.Store.Records

/-! # The pool of active sandboxes

The pool maps the id of each active sandbox to its metadata and holds at most
`max` of them. Its event is set whenever there is capacity; both facts are part of
the type. The methods run without awaiting anything between taking and releasing
the pool's lock, so each of them is one step.
-/
namespace ReleaseValidation.SandboxManager
open Store

structure PoolEntry where
  runId : Uuid
  sandboxId : Uuid
  deriving DecidableEq, Repr

/-- `SandboxPool` under the cap `MAX_SANDBOXES`. -/
structure Pool (max : ℕ) where
  active : AList (fun _ : Uuid => PoolEntry)
  slotAvailable : Bool
  bounded : active.keys.length ≤ max
  flagged : active.keys.length < max → slotAvailable = true

namespace Pool
variable {max : ℕ}

def empty (max : ℕ) : Pool max where
  active := ∅
  slotAvailable := true
  bounded := Nat.zero_le max
  flagged _ := rfl

def activeCount (p : Pool max) : ℕ := p.active.keys.length

def hasCapacity (p : Pool max) : Bool := decide (p.activeCount < max)

theorem keys_insert_length_le (p : Pool max) (sandboxId : Uuid) (e : PoolEntry) :
    (p.active.insert sandboxId e).keys.length ≤ p.activeCount + 1 := by
  rw [AList.keys_insert, List.length_cons]
  have h := List.length_erase_le (a := sandboxId) (l := p.active.keys)
  exact Nat.succ_le_succ h

/-- `acquire`: claim a slot, unless the pool is at capacity. -/
def acquire (p : Pool max) (sandboxId runId : Uuid) : Bool × Pool max :=
  if h : p.hasCapacity = true then
    (true,
      { active := p.active.insert sandboxId ⟨runId, sandboxId⟩
        slotAvailable :=
          p.slotAvailable && decide ((p.active.insert sandboxId ⟨runId, sandboxId⟩).keys.length < max)
        bounded := by
          have hlt := of_decide_eq_true h
          exact le_trans (p.keys_insert_length_le sandboxId _) hlt
        flagged := by
          intro hlt
          rw [p.flagged (of_decide_eq_true h), Bool.true_and]
          exact decide_eq_true hlt })
  else (false, p)

/-- `release`: give the slot back and wake the waiters. -/
def release (p : Pool max) (sandboxId : Uuid) : Pool max where
  active := p.active.erase sandboxId
  slotAvailable := true
  bounded := by
    rw [AList.keys_erase]
    exact le_trans List.length_erase_le p.bounded
  flagged _ := rfl

/-- The body of the loop of `wait_for_slot`, up to the wait. -/
def clearSlot (p : Pool max) (h : p.hasCapacity = false) : Pool max where
  active := p.active
  slotAvailable := false
  bounded := p.bounded
  flagged hlt := absurd (decide_eq_true hlt) (Bool.eq_false_iff.mp h)

theorem hasCapacity_iff (p : Pool max) : p.hasCapacity = true ↔ p.activeCount < max := decide_eq_true_iff

theorem acquire_fst (p : Pool max) (sandboxId runId : Uuid) :
    (p.acquire sandboxId runId).1 = p.hasCapacity := by
  unfold acquire
  split
  next h => rw [h]
  next h => rw [Bool.eq_false_iff.mpr h]

theorem acquire_active {p : Pool max} (h : p.hasCapacity = true) (sandboxId runId : Uuid) :
    (p.acquire sandboxId runId).2.active = p.active.insert sandboxId ⟨runId, sandboxId⟩ := by
  unfold acquire
  rw [dif_pos h]

theorem acquire_slotAvailable {p : Pool max} (h : p.hasCapacity = true) (sandboxId runId : Uuid) :
    (p.acquire sandboxId runId).2.slotAvailable =
      (p.slotAvailable && decide ((p.active.insert sandboxId ⟨runId, sandboxId⟩).keys.length < max)) := by
  unfold acquire
  rw [dif_pos h]

theorem acquire_full {p : Pool max} (h : p.hasCapacity = false) (sandboxId runId : Uuid) :
    p.acquire sandboxId runId = (false, p) := by
  unfold acquire
  rw [dif_neg (Bool.eq_false_iff.mp h)]

theorem mem_acquire {p : Pool max} (h : p.hasCapacity = true) (sandboxId runId : Uuid) :
    sandboxId ∈ (p.acquire sandboxId runId).2.active := by
  rw [acquire_active h, AList.mem_insert]
  exact .inl rfl

theorem acquire_activeCount {p : Pool max} (h : p.hasCapacity = true) {sandboxId : Uuid}
    (hnew : sandboxId ∉ p.active) (runId : Uuid) :
    (p.acquire sandboxId runId).2.activeCount = p.activeCount + 1 := by
  have hnot : sandboxId ∉ p.active.keys := fun hk => hnew (AList.mem_keys.mpr hk)
  rw [activeCount, acquire_active h, AList.keys_insert, List.length_cons, List.erase_of_not_mem hnot]
  rfl

@[simp] theorem release_active (p : Pool max) (sandboxId : Uuid) :
    (p.release sandboxId).active = p.active.erase sandboxId := rfl

theorem not_mem_release (p : Pool max) (sandboxId : Uuid) : sandboxId ∉ (p.release sandboxId).active := by
  rw [release_active, AList.mem_erase]
  exact fun h => h.1 rfl

end Pool

end ReleaseValidation.SandboxManager
