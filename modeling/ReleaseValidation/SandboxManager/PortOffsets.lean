import ReleaseValidation.Foundations.Runs
import ReleaseValidation.SandboxManager.Pool

/-! # The host ports of the active sandboxes

A request that has claimed its slot takes the next port offset from a counter modulo
fifty, whatever the sandboxes that are still active; its ports follow from the offset
when it is provisioned. A request may end, and give its slot back, before that.
-/
namespace ReleaseValidation.SandboxManager.PortOffsets
open Store Runs

variable {max : ℕ}

/-- `ANVIL_PORT_BASE`, `NODE_PORT_BASE` and `GRAPHQL_PORT_BASE`. -/
structure PortBases where
  anvil : ℕ
  node : ℕ
  graphql : ℕ

/-- The bases when the environment does not set them. -/
def PortBases.default : PortBases := ⟨28545, 25000, 24000⟩

structure Ports where
  anvil : ℕ
  node : ℕ
  graphql : ℕ
  deriving DecidableEq, Repr

/-- `_allocate_ports`. -/
def PortBases.allocatePorts (bases : PortBases) (offset : ℕ) : Ports where
  anvil := bases.anvil + offset * 10
  node := bases.node + offset * 10
  graphql := bases.graphql + offset * 10

/-- `_init_port_offset`, given the ports of the sandboxes that a previous process left. -/
def PortBases.initPortOffset (bases : PortBases) (usedPorts : List ℕ) : ℕ :=
  if usedPorts = [] then 0
  else ((List.range 200).find? fun offset => bases.anvil + offset * 10 ∉ usedPorts).getD 0

/-- A request that has claimed a slot. -/
structure Sandbox where
  id : Uuid
  portOffset : ℕ
  /-- The ports it has received. -/
  ports : Option Ports
  /-- It has not given its slot back. -/
  active : Bool
  deriving DecidableEq, Repr

structure State (max : ℕ) where
  pool : Pool max
  /-- `_port_offset_counter`. -/
  counter : ℕ
  /-- The requests that have claimed a slot, in their order. -/
  sandboxes : List Sandbox

/-- A fresh process. The sandboxes of the previous one are swept before any request. -/
def initial (max : ℕ) (bases : PortBases) (usedPorts : List ℕ) : State max :=
  ⟨.empty max, bases.initPortOffset usedPorts, []⟩

inductive Act
  /-- `pool.acquire` returns; on success the offset is taken before anything is awaited. -/
  | acquire (sandboxId runId : Uuid)
  | provision (i : ℕ)
  | release (i : ℕ)
  deriving DecidableEq, Repr

def State.acquire (s : State max) (sandboxId runId : Uuid) : State max :=
  if (s.pool.acquire sandboxId runId).1 then
    { pool := (s.pool.acquire sandboxId runId).2
      counter := s.counter + 1
      sandboxes := s.sandboxes ++ [⟨sandboxId, s.counter % 50, none, true⟩] }
  else s

variable (bases : PortBases)

/-- A new sandbox id is never one of the active ones. -/
def step (s : State max) : Act → Option (State max)
  | .acquire sandboxId runId => if sandboxId ∈ s.pool.active then none else some (s.acquire sandboxId runId)
  | .provision i =>
    match s.sandboxes[i]? with
    | some ⟨id, offset, none, true⟩ =>
      some { s with sandboxes := s.sandboxes.set i ⟨id, offset, some (bases.allocatePorts offset), true⟩ }
    | _ => none
  | .release i =>
    match s.sandboxes[i]? with
    | some ⟨id, offset, ports, true⟩ =>
      some { s with
        pool := s.pool.release id
        sandboxes := s.sandboxes.set i ⟨id, offset, ports, false⟩ }
    | _ => none

/-- No port of one is the corresponding port of the other. -/
def Ports.Distinct (p q : Ports) : Prop := p.anvil ≠ q.anvil ∧ p.node ≠ q.node ∧ p.graphql ≠ q.graphql

namespace State

/-- The request at position `i` is active and has received the ports `p`. -/
def Uses (s : State max) (i : ℕ) (p : Ports) : Prop :=
  ∃ id offset, s.sandboxes[i]? = some ⟨id, offset, some p, true⟩

/-- Any two active sandboxes have distinct ports. -/
def PortsDistinct (s : State max) : Prop := ∀ i j p q, i ≠ j → s.Uses i p → s.Uses j q → p.Distinct q

end State

/-- When the request at position `i` is provisioned, no sandbox still active with ports of its own
took its offset a multiple of fifty requests away. -/
def ProvisionsApart (s : State max) (a : Act) (_ : State max) : Prop :=
  ∀ i, a = .provision i → ∀ j p, j ≠ i → s.Uses j p → ¬ (50 : ℤ) ∣ (i : ℤ) - j

variable {bases} {s t : State max} {i j : ℕ} {a : Act}

theorem allocatePorts_distinct_iff {m n : ℕ} :
    (bases.allocatePorts m).Distinct (bases.allocatePorts n) ↔ m ≠ n := by
  constructor
  · rintro ⟨h, -⟩ rfl
    exact h rfl
  · intro h
    refine ⟨?_, ?_, ?_⟩ <;> simp only [PortBases.allocatePorts] <;> omega

theorem mod_fifty_ne_iff {start i j : ℕ} :
    (start + i) % 50 ≠ (start + j) % 50 ↔ ¬ (50 : ℤ) ∣ (i : ℤ) - j := by
  omega

/-- The offset of a request is its place among the requests that took one. -/
structure Numbered (bases : PortBases) (start : ℕ) (s : State max) : Prop where
  counter : s.counter = start + s.sandboxes.length
  offset : ∀ i sandbox, s.sandboxes[i]? = some sandbox → sandbox.portOffset = (start + i) % 50
  ports : ∀ i p, s.Uses i p → p = bases.allocatePorts ((start + i) % 50)

theorem numbered_initial (usedPorts : List ℕ) :
    Numbered bases (bases.initPortOffset usedPorts) (initial max bases usedPorts) :=
  ⟨rfl, nofun, nofun⟩

theorem uses_acquire {sandboxId runId : Uuid} {p : Ports} :
    (s.acquire sandboxId runId).Uses i p ↔ s.Uses i p := by
  unfold State.acquire
  split
  · constructor
    · rintro ⟨id, offset, h⟩
      rcases List.mem_append.mp (List.mem_of_getElem? h) with hmem | hmem
      · rw [List.getElem?_append] at h
        split at h
        · exact ⟨id, offset, h⟩
        · have hlast := List.mem_singleton.mp (List.mem_of_getElem? h)
          cases hlast
      · cases List.mem_singleton.mp hmem
    · rintro ⟨id, offset, h⟩
      have hlt := (List.getElem?_eq_some_iff.mp h).1
      exact ⟨id, offset, (List.getElem?_append_left hlt).trans h⟩
  · exact Iff.rfl

/-- What a step does to the ports that are in use. -/
theorem step_uses (h : step bases s a = some t) {p : Ports} :
    t.Uses j p ↔ match a with
      | .acquire _ _ => s.Uses j p
      | .release i => j ≠ i ∧ s.Uses j p
      | .provision i =>
        j ≠ i ∧ s.Uses j p ∨
          j = i ∧ ∃ id offset, s.sandboxes[i]? = some ⟨id, offset, none, true⟩ ∧ p = bases.allocatePorts offset := by
  cases a with
  | acquire sandboxId runId =>
    simp only [step] at h
    split at h
    · cases h
    · cases h
      exact uses_acquire
  | provision i =>
    simp only [step] at h
    split at h
    next id offset hi =>
      cases h
      have hlt := (List.getElem?_eq_some_iff.mp hi).1
      by_cases hij : j = i
      · subst hij
        simp only [State.Uses, List.getElem?_set_self hlt, hi]
        simp [eq_comm]
      · simp only [State.Uses, List.getElem?_set_ne (Ne.symm hij)]
        simp [hij]
    · cases h
  | release i =>
    simp only [step] at h
    split at h
    next id offset ports hi =>
      cases h
      have hlt := (List.getElem?_eq_some_iff.mp hi).1
      by_cases hij : j = i
      · subst hij
        simp [State.Uses, List.getElem?_set_self hlt]
      · simp only [State.Uses, List.getElem?_set_ne (Ne.symm hij)]
        simp [hij]
    · cases h

theorem acquire_numbered {start : ℕ} {sandboxId runId : Uuid} (hs : Numbered bases start s) :
    (s.acquire sandboxId runId).counter = start + (s.acquire sandboxId runId).sandboxes.length ∧
      ∀ i sandbox, (s.acquire sandboxId runId).sandboxes[i]? = some sandbox →
        sandbox.portOffset = (start + i) % 50 := by
  unfold State.acquire
  split
  · refine ⟨by rw [List.length_append, hs.counter]; rfl, ?_⟩
    intro i sandbox hi
    rw [List.getElem?_append] at hi
    split at hi
    · exact hs.offset i sandbox hi
    next hle =>
      have hlast : i - s.sandboxes.length = 0 := by
        have hlt := (List.getElem?_eq_some_iff.mp hi).1
        exact Nat.lt_one_iff.mp hlt
      have hmem := List.mem_singleton.mp (List.mem_of_getElem? hi)
      have hi : i = s.sandboxes.length := by omega
      rw [hmem, hi, hs.counter]
  · exact ⟨hs.counter, hs.offset⟩

theorem set_offset {start : ℕ} (hs : Numbered bases start s) {old new : Sandbox}
    (hi : s.sandboxes[i]? = some old) {sandbox : Sandbox} (hj : (s.sandboxes.set i new)[j]? = some sandbox)
    (hsame : new.portOffset = old.portOffset) : sandbox.portOffset = (start + j) % 50 := by
  by_cases hij : i = j
  · subst hij
    rw [List.getElem?_set_self (List.getElem?_eq_some_iff.mp hi).1] at hj
    cases hj
    exact hsame.trans (hs.offset i old hi)
  · rw [List.getElem?_set_ne hij] at hj
    exact hs.offset j sandbox hj

theorem step_numbered {start : ℕ} (h : step bases s a = some t) (hs : Numbered bases start s) :
    Numbered bases start t := by
  have hports : ∀ j p, t.Uses j p → p = bases.allocatePorts ((start + j) % 50) := by
    intro j p hp
    have huse := (step_uses h).mp hp
    cases a with
    | acquire sandboxId runId => exact hs.ports j p huse
    | release i => exact hs.ports j p huse.2
    | provision i =>
      rcases huse with ⟨-, huse⟩ | ⟨rfl, id, offset, hi, rfl⟩
      · exact hs.ports j p huse
      · rw [← hs.offset j _ hi]
  cases a with
  | acquire sandboxId runId =>
    simp only [step] at h
    split at h
    · cases h
    · cases h
      exact ⟨(acquire_numbered hs).1, (acquire_numbered hs).2, hports⟩
  | provision i =>
    simp only [step] at h
    split at h
    next id offset hi =>
      cases h
      refine ⟨hs.counter.trans (by rw [List.length_set]), ?_, hports⟩
      intro j sandbox hj
      exact set_offset hs hi hj rfl
    · cases h
  | release i =>
    simp only [step] at h
    split at h
    next id offset ports hi =>
      cases h
      refine ⟨hs.counter.trans (by rw [List.length_set]), ?_, hports⟩
      intro j sandbox hj
      exact set_offset hs hi hj rfl
    · cases h

/-- As long as the ports have been distinct, one more step keeps them so exactly when it
does not provision a request a multiple of fifty away. -/
theorem step_portsDistinct_iff {start : ℕ} (h : step bases s a = some t) (hs : Numbered bases start s)
    (hd : s.PortsDistinct) : ProvisionsApart s a t ↔ t.PortsDistinct := by
  have ht := step_numbered h hs
  constructor
  · intro hapart i j p q hij hp hq
    have hne : (start + i) % 50 ≠ (start + j) % 50 := by
      have hpi := (step_uses h).mp hp
      have hqj := (step_uses h).mp hq
      cases a with
      | acquire sandboxId runId =>
        have hdist := hd i j p q hij hpi hqj
        rw [hs.ports i p hpi, hs.ports j q hqj] at hdist
        exact allocatePorts_distinct_iff.mp hdist
      | release k =>
        have hdist := hd i j p q hij hpi.2 hqj.2
        rw [hs.ports i p hpi.2, hs.ports j q hqj.2] at hdist
        exact allocatePorts_distinct_iff.mp hdist
      | provision k =>
        rcases hpi with ⟨-, hpi⟩ | ⟨rfl, -⟩ <;> rcases hqj with ⟨hjk, hqj⟩ | ⟨rfl, -⟩
        · have hdist := hd i j p q hij hpi hqj
          rw [hs.ports i p hpi, hs.ports j q hqj] at hdist
          exact allocatePorts_distinct_iff.mp hdist
        · have hne : (start + j) % 50 ≠ (start + i) % 50 := mod_fifty_ne_iff.mpr (hapart j rfl i p hij hpi)
          exact hne.symm
        · exact mod_fifty_ne_iff.mpr (hapart i rfl j q hjk hqj)
        · exact absurd rfl hij
    rw [ht.ports i p hp, ht.ports j q hq]
    exact allocatePorts_distinct_iff.mpr hne
  · rintro hdist i rfl j p hji hp
    have hp' : t.Uses j p := (step_uses h).mpr (.inl ⟨hji, hp⟩)
    have hi : ∃ q, t.Uses i q := by
      simp only [step] at h
      split at h
      next id offset hi =>
        cases h
        exact ⟨_, id, offset, List.getElem?_set_self (List.getElem?_eq_some_iff.mp hi).1⟩
      · cases h
    obtain ⟨q, hq⟩ := hi
    have hne := hdist i j q p (Ne.symm hji) hq hp'
    rw [ht.ports i q hq, ht.ports j p hp'] at hne
    exact mod_fifty_ne_iff.mp (allocatePorts_distinct_iff.mp hne)

/-- Two active sandboxes never share a port in a run exactly when no request is provisioned
a multiple of fifty requests away from a sandbox that is still active. -/
theorem ports_distinct_iff (bases : PortBases) (usedPorts : List ℕ) (as : List Act) :
    Always (step bases) ProvisionsApart (initial max bases usedPorts) as ↔
      Always (step bases) (fun _ _ t => t.PortsDistinct) (initial max bases usedPorts) as := by
  refine always_iff_of_invariant
    (I := fun s => Numbered bases (bases.initPortOffset usedPorts) s ∧ s.PortsDistinct) ?_ ?_
  · rintro s a t ⟨hs, hd⟩ ht
    have hiff := step_portsDistinct_iff ht hs hd
    exact ⟨hiff, fun hq => ⟨step_numbered ht hs, hiff.mp hq⟩⟩
  · exact ⟨numbered_initial usedPorts, by rintro i j p q - ⟨_, _, h⟩ -; cases h⟩

/-- A sandbox that outlives the fifty requests after its own. -/
def fiftyLater : List Act :=
  [.acquire "sbx-0" "run-0", .provision 0] ++
    (List.range 49).flatMap (fun n => [.acquire "sbx-1" "run-1", .release (n + 1)]) ++
    [.acquire "sbx-50" "run-50", .provision 50]

theorem port_shared :
    ∃ t p, exec (step .default) (initial 2 .default []) fiftyLater = some t ∧
      t.Uses 0 p ∧ t.Uses 50 p ∧ ¬ t.PortsDistinct := by
  let p : Ports := ⟨28545, 25000, 24000⟩
  have hends : (exec (step .default) (initial 2 .default []) fiftyLater).map
      (fun t => (t.sandboxes[0]?, t.sandboxes[50]?)) =
        some (some ⟨"sbx-0", 0, some p, true⟩, some ⟨"sbx-50", 0, some p, true⟩) := by decide +kernel
  obtain ⟨t, ht, hboth⟩ := Option.map_eq_some_iff.mp hends
  have h0 : t.Uses 0 p := ⟨_, _, congrArg Prod.fst hboth⟩
  have h50 : t.Uses 50 p := ⟨_, _, congrArg Prod.snd hboth⟩
  exact ⟨t, p, ht, h0, h50, fun hd => (hd 0 50 p p nofun h0 h50).1 rfl⟩

end ReleaseValidation.SandboxManager.PortOffsets
