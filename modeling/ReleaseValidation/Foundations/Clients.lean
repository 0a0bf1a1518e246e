import Mathlib.Algebra.Order.BigOperators.Group.List
import Mathlib.Algebra.Order.Group.Int
import Mathlib.Algebra.Ring.Int.Defs
import ReleaseValidation.Foundations.Parties
import ReleaseValidation.Foundations.Runs

/-! # Clients of a shared machine

Each client makes the requests of its plan one after the other, until one is refused or the client
gives up; a request that was given up may still be served. The requests of all clients, and those
of others, come to the machine in any order. A client that takes out no more than it has put in
never finds an account short, whatever the others do.
-/
namespace ReleaseValidation.Clients
open Parties Runs

variable {σ κ : Type*}

/-- What the machine makes of a request, and whether it grants it. -/
abbrev Machine (σ κ : Type*) := σ → κ → σ × Bool

inductive Phase
  | running
  /-- The client has given up, and its request may be under way. -/
  | waiting
  | stopped
  deriving DecidableEq, Repr

structure Client (κ : Type*) where
  granted : List κ
  todo : List κ
  phase : Phase

structure World (σ κ : Type*) where
  shared : σ
  clients : List (Client κ)

inductive Act (κ : Type*)
  | call (i : ℕ)
  | quit (i : ℕ)
  | late (i : ℕ)
  | other (k : κ)

def start (s : σ) (plans : List (List κ)) : World σ κ := ⟨s, plans.map fun plan => ⟨[], plan, .running⟩⟩

section Step
variable (m : Machine σ κ)

/-- The client after its next request, when it goes on as `next` if that is granted. -/
def Client.served (c : Client κ) (k : κ) (ks : List κ) (next : Phase) (granted : Bool) : Client κ :=
  if granted then ⟨c.granted ++ [k], ks, next⟩ else ⟨c.granted, k :: ks, .stopped⟩

def serve (w : World σ κ) (i : ℕ) (c : Client κ) (next : Phase) : Option (World σ κ) :=
  match c.todo with
  | [] => none
  | k :: ks => some ⟨(m w.shared k).1, w.clients.set i (c.served k ks next (m w.shared k).2)⟩

def step (w : World σ κ) : Act κ → Option (World σ κ)
  | .call i => w.clients[i]?.bind fun c => if c.phase = .running then serve m w i c .running else none
  | .quit i => w.clients[i]?.bind fun c =>
    if c.phase = .running then some ⟨w.shared, w.clients.set i { c with phase := .waiting }⟩ else none
  | .late i => w.clients[i]?.bind fun c => if c.phase = .waiting then serve m w i c .stopped else none
  | .other k => some ⟨(m w.shared k).1, w.clients⟩

/-- The request of a client that the action serves. -/
def request (w : World σ κ) : Act κ → Option κ
  | .call i | .late i => w.clients[i]?.bind fun c => c.todo.head?
  | _ => none

end Step

variable {m : Machine σ κ} {w w' : World σ κ} {a : Act κ} {k : κ} {plans : List (List κ)} {as : List (Act κ)} {s : σ}

/-- A client is served while it waits for the answer, or after it has given up. -/
def Serves (a : Act κ) (i : ℕ) (c : Client κ) (next : Phase) : Prop :=
  a = .call i ∧ c.phase = .running ∧ next = .running ∨ a = .late i ∧ c.phase = .waiting ∧ next = .stopped

theorem Serves.request {i : ℕ} {c : Client κ} {next : Phase} (h : Serves a i c next) (hc : w.clients[i]? = some c) :
    request w a = c.todo.head? := by
  obtain ⟨rfl, -⟩ | ⟨rfl, -⟩ := h
  · rw [request, hc]
    rfl
  · rw [request, hc]
    rfl

/-- What a step does: it serves the next request of a client, lets a client give up, or serves the request of another. -/
theorem step_cases (h : step m w a = some w') :
    (∃ (i : ℕ) (c : Client κ) (k : κ) (ks : List κ) (next : Phase), w.clients[i]? = some c ∧ c.todo = k :: ks ∧
      Serves a i c next ∧ w' = ⟨(m w.shared k).1, w.clients.set i (c.served k ks next (m w.shared k).2)⟩) ∨
    (∃ (i : ℕ) (c : Client κ), a = .quit i ∧ w.clients[i]? = some c ∧
      w' = ⟨w.shared, w.clients.set i { c with phase := .waiting }⟩) ∨
    ∃ k, a = .other k ∧ w' = ⟨(m w.shared k).1, w.clients⟩ := by
  have hserve : ∀ {i : ℕ} {c : Client κ} {next : Phase}, w.clients[i]? = some c → Serves a i c next →
      serve m w i c next = some w' → ∃ (i : ℕ) (c : Client κ) (k : κ) (ks : List κ) (next : Phase),
        w.clients[i]? = some c ∧ c.todo = k :: ks ∧ Serves a i c next ∧
          w' = ⟨(m w.shared k).1, w.clients.set i (c.served k ks next (m w.shared k).2)⟩ := by
    intro i c next hc hserves hw
    unfold serve at hw
    split at hw
    next => cases hw
    next k ks htodo => exact ⟨i, c, k, ks, next, hc, htodo, hserves, (Option.some.inj hw).symm⟩
  cases a with
  | call i =>
    obtain ⟨c, hc, h⟩ := Option.bind_eq_some_iff.mp h
    obtain ⟨hphase, h⟩ := Option.ite_none_right_eq_some.mp h
    exact Or.inl (hserve hc (Or.inl ⟨rfl, hphase, rfl⟩) h)
  | quit i =>
    obtain ⟨c, hc, h⟩ := Option.bind_eq_some_iff.mp h
    obtain ⟨-, h⟩ := Option.ite_none_right_eq_some.mp h
    exact Or.inr (Or.inl ⟨i, c, rfl, hc, (Option.some.inj h).symm⟩)
  | late i =>
    obtain ⟨c, hc, h⟩ := Option.bind_eq_some_iff.mp h
    obtain ⟨hphase, h⟩ := Option.ite_none_right_eq_some.mp h
    exact Or.inl (hserve hc (Or.inr ⟨rfl, hphase, rfl⟩) h)
  | other k => exact Or.inr (Or.inr ⟨k, rfl, (Option.some.inj h).symm⟩)

/-! ### Plans -/

/-- What is granted to a client and what it has yet to ask for is its plan. -/
def Planned (plans : List (List κ)) (w : World σ κ) : Prop :=
  Each (fun i c => plans[i]? = some (c.granted ++ c.todo)) w.clients

theorem planned_start : Planned plans (start s plans) := by
  intro i c hc
  rw [start, List.getElem?_map] at hc
  obtain ⟨plan, hplan, rfl⟩ := Option.map_eq_some_iff.mp hc
  exact hplan

theorem Client.served_plan {c : Client κ} {ks : List κ} {next : Phase} {granted : Bool} (h : c.todo = k :: ks) :
    (c.served k ks next granted).granted ++ (c.served k ks next granted).todo = c.granted ++ c.todo := by
  rw [h]
  cases granted with
  | true => simp [Client.served]
  | false => simp [Client.served]

theorem Planned.next (h : Planned plans w) (hstep : step m w a = some w') : Planned plans w' := by
  obtain ⟨i, c, k, ks, next, hc, htodo, -, rfl⟩ | ⟨i, c, -, hc, rfl⟩ | ⟨k, -, rfl⟩ := step_cases hstep
  · refine h.set ?_ fun j d _ _ hd => hd
    rw [Client.served_plan htodo]
    exact h i c hc
  · exact h.set (h i c hc) fun j d _ _ hd => hd
  · exact h

theorem planned (h : exec (step m) (start s plans) as = some w) : Planned plans w :=
  exec_invariant (fun _ _ _ hI hstep => hI.next hstep) planned_start h

/-- The request served is the next one of some plan. -/
theorem Planned.request (h : Planned plans w) (hk : request w a = some k) :
    ∃ c ∈ w.clients, ∃ plan ∈ plans, c.granted ++ [k] <+: plan := by
  have hclient : ∀ i : ℕ, (w.clients[i]?.bind fun c => c.todo.head?) = some k →
      ∃ c ∈ w.clients, ∃ plan ∈ plans, c.granted ++ [k] <+: plan := by
    intro i hi
    obtain ⟨c, hc, hhead⟩ := Option.bind_eq_some_iff.mp hi
    obtain ⟨ks, htodo⟩ := List.head?_eq_some_iff.mp hhead
    refine ⟨c, List.mem_of_getElem? hc, _, List.mem_of_getElem? (h i c hc), ks, ?_⟩
    rw [htodo]
    simp
  cases a with
  | call i => exact hclient i hk
  | quit i => cases hk
  | late i => exact hclient i hk
  | other k => cases hk

/-- The plan takes out no more than it has put in. -/
def Funded (weight : κ → ℤ) (plan : List κ) : Prop := ∀ pre, pre <+: plan → 0 ≤ (pre.map weight).sum

/-- A plan that puts in first is funded if it does not take out more in the end. -/
theorem funded_append {weight : κ → ℤ} {puts takes : List κ} (hputs : ∀ k ∈ puts, 0 ≤ weight k)
    (htakes : ∀ k ∈ takes, weight k ≤ 0) (htotal : 0 ≤ ((puts ++ takes).map weight).sum) : Funded weight (puts ++ takes) := by
  rintro pre ⟨rest, hrest⟩
  obtain ⟨left, rfl, -⟩ | ⟨taken, rfl, rfl⟩ := List.append_eq_append_iff.mp hrest
  · apply List.sum_nonneg
    intro v hv
    obtain ⟨k, hk, rfl⟩ := List.mem_map.mp hv
    exact hputs k (List.mem_append_left _ hk)
  · have hlast : (rest.map weight).sum ≤ 0 := by
      calc (rest.map weight).sum ≤ (rest.map fun _ => (0 : ℤ)).sum :=
            List.sum_le_sum fun k hk => htakes k (List.mem_append_right _ hk)
        _ = 0 := by simp
    simp only [List.map_append, List.sum_append] at htotal ⊢
    omega

/-- What others ask for. -/
def FromOthers (others : κ → Prop) (as : List (Act κ)) : Prop := ∀ k, Act.other k ∈ as → others k

theorem FromOthers.always {τ : Type*} {f : τ → Act κ → Option τ} {t : τ} {others : κ → Prop} (h : FromOthers others as) :
    Always f (fun _ a _ => ∀ k, a = Act.other k → others k) t as := by
  refine always_of_mem (P := fun a => ∀ k, a = Act.other k → others k) fun a ha k hk => h k ?_
  rwa [hk] at ha

/-! ### Accounts -/

section Accounts
variable {weight : κ → ℤ} {level : σ → ℤ} {others : κ → Prop}

/-- What a client has in the account: a request puts in its weight, or takes it out if that is negative. -/
def holding (weight : κ → ℤ) (c : Client κ) : ℤ := (c.granted.map weight).sum

/-- The machine keeps the account for the requests of the plans, and no other request takes anything out. -/
structure Keeps (m : Machine σ κ) (plans : List (List κ)) (others : κ → Prop) (weight : κ → ℤ) (level : σ → ℤ) : Prop where
  granted : ∀ s, ∀ plan ∈ plans, ∀ k ∈ plan, (m s k).2 = true → level s + weight k ≤ level (m s k).1
  refused : ∀ s, ∀ plan ∈ plans, ∀ k ∈ plan, (m s k).2 = false → level s ≤ level (m s k).1
  other : ∀ s k, others k → level s ≤ level (m s k).1

def Solvent (weight : κ → ℤ) (level : σ → ℤ) (w : World σ κ) : Prop := (w.clients.map (holding weight)).sum ≤ level w.shared

theorem solvent_start (h : 0 ≤ level s) : Solvent weight level (start s plans) := by
  have hzero : ((plans.map fun plan => (⟨[], plan, .running⟩ : Client κ)).map (holding weight)).sum = 0 := by
    rw [List.map_map]
    exact List.sum_eq_zero fun x hx => by
      obtain ⟨plan, -, rfl⟩ := List.mem_map.mp hx
      rfl
  rw [Solvent, start, hzero]
  exact h

theorem sum_set {f : Client κ → ℤ} {cs : List (Client κ)} {i : ℕ} {c d : Client κ} (hc : cs[i]? = some c) :
    ((cs.set i d).map f).sum = (cs.map f).sum - f c + f d := by
  induction cs generalizing i with
  | nil => cases hc
  | cons b cs ih =>
    cases i with
    | zero =>
      cases hc
      simp
      omega
    | succ i =>
      have hrest := ih hc
      simp only [List.set_cons_succ, List.map_cons, List.sum_cons, hrest]
      omega

theorem Solvent.next (hkeeps : Keeps m plans others weight level) (hplanned : Planned plans w)
    (h : Solvent weight level w) (hother : ∀ k, a = .other k → others k) (hstep : step m w a = some w') :
    Solvent weight level w' := by
  obtain ⟨i, c, k, ks, next, hc, htodo, -, rfl⟩ | ⟨i, c, -, hc, rfl⟩ | ⟨k, rfl, rfl⟩ := step_cases hstep
  · have hplan := List.mem_of_getElem? (hplanned i c hc)
    have hmem : k ∈ c.granted ++ c.todo := by simp [htodo]
    rw [Solvent, sum_set hc]
    unfold Solvent at h
    cases hgranted : (m w.shared k).2 with
    | true =>
      have hlevel := hkeeps.granted w.shared _ hplan k hmem hgranted
      have hholding : holding weight (c.served k ks next true) = holding weight c + weight k := by
        simp [holding, Client.served]
      rw [hholding]
      dsimp only
      omega
    | false =>
      have hlevel := hkeeps.refused w.shared _ hplan k hmem hgranted
      have hholding : holding weight (c.served k ks next false) = holding weight c := rfl
      rw [hholding]
      dsimp only
      omega
  · rw [Solvent, sum_set hc]
    have hholding : holding weight { c with phase := .waiting } = holding weight c := rfl
    rw [hholding]
    unfold Solvent at h
    dsimp only
    omega
  · exact h.trans (hkeeps.other w.shared k (hother k rfl))

/-- In every run the account covers what the clients hold. -/
theorem solvent (hkeeps : Keeps m plans others weight level) (hlevel : 0 ≤ level s) (hothers : FromOthers others as)
    (h : exec (step m) (start s plans) as = some w) : Solvent weight level w := by
  exact (exec_invariant_always (I := fun w => Planned plans w ∧ Solvent weight level w)
    (fun u a t hI hstep hQ => ⟨hI.1.next hstep, hI.2.next hkeeps hI.1 hQ hstep⟩)
    ⟨planned_start, solvent_start hlevel⟩ hothers.always h).2

theorem Solvent.holding_le (h : Solvent weight level w) (hplanned : Planned plans w)
    (hfunded : ∀ plan ∈ plans, Funded weight plan) {c : Client κ} (hc : c ∈ w.clients) :
    holding weight c ≤ level w.shared := by
  refine (List.single_le_sum (l := w.clients.map (holding weight)) ?_ _ (List.mem_map_of_mem hc)).trans h
  intro x hx
  obtain ⟨d, hd, rfl⟩ := List.mem_map.mp hx
  obtain ⟨j, hj⟩ := List.mem_iff_getElem?.mp hd
  exact hfunded _ (List.mem_of_getElem? (hplanned j d hj)) d.granted (List.prefix_append _ _)

/-- The account covers whatever a client is to take out of it next. -/
theorem covered (hkeeps : Keeps m plans others weight level) (hfunded : ∀ plan ∈ plans, Funded weight plan)
    (hlevel : 0 ≤ level s) (hothers : FromOthers others as) (h : exec (step m) (start s plans) as = some w)
    (hk : request w a = some k) : 0 ≤ level w.shared + weight k := by
  have hplanned := planned h
  obtain ⟨c, hc, plan, hplan, hfront⟩ := hplanned.request hk
  have hnext := hfunded plan hplan _ hfront
  have hle := (solvent hkeeps hlevel hothers h).holding_le hplanned hfunded hc
  rw [List.map_append, List.sum_append, List.map_singleton, List.sum_singleton] at hnext
  unfold holding at hle
  omega

end Accounts

/-! ### Clients that are never refused -/

/-- If every request is granted and no client gives up, the clients go on until their plans are done. -/
theorem all_running (hgranted : Always (step m) (fun w a _ => ∀ k, request w a = some k → (m w.shared k).2 = true)
    (start s plans) as) (hquit : ∀ i, Act.quit i ∉ as) (h : exec (step m) (start s plans) as = some w) :
    ∀ c ∈ w.clients, c.phase = .running := by
  have hrun : Always (step m) (fun w a _ => (∀ k, request w a = some k → (m w.shared k).2 = true) ∧ ∀ i, a ≠ .quit i)
      (start s plans) as := by
    refine always_of_forall fun pre a post u t has hu ht => ⟨Always.at (has ▸ hgranted) hu ht, fun i ha => hquit i ?_⟩
    rw [has, ha]
    simp
  refine exec_invariant_always (I := fun w : World σ κ => ∀ c ∈ w.clients, c.phase = .running) ?_ ?_ hrun h
  · intro u a t hI hstep hQ d hd
    obtain ⟨i, c, k, ks, next, hc, htodo, hserves, rfl⟩ | ⟨i, c, rfl, -⟩ | ⟨k, -, rfl⟩ := step_cases hstep
    · rcases List.mem_or_eq_of_mem_set hd with hd | rfl
      · exact hI d hd
      · rw [hQ.1 k (by rw [hserves.request hc, htodo]; rfl)]
        obtain ⟨-, -, rfl⟩ | ⟨-, hphase, -⟩ := hserves
        · rfl
        · rw [hI c (List.mem_of_getElem? hc)] at hphase
          cases hphase
    · exact absurd rfl (hQ.2 i)
    · exact hI d hd
  · intro c hc
    obtain ⟨plan, -, rfl⟩ := List.mem_map.mp hc
    rfl

/-! ### What stays -/

/-- What some granted requests set up, and no request takes down, holds once one of those is granted. -/
theorem established {P : σ → Prop} {S : κ → Prop} {others : κ → Prop}
    (hsets : ∀ s, ∀ plan ∈ plans, ∀ k ∈ plan, S k → (m s k).2 = true → P (m s k).1)
    (hkeeps : ∀ s, ∀ plan ∈ plans, ∀ k ∈ plan, P s → P (m s k).1) (hother : ∀ s k, others k → P s → P (m s k).1)
    (hothers : FromOthers others as) (h : exec (step m) (start s plans) as = some w) {c : Client κ} (hc : c ∈ w.clients)
    (hset : ∃ k ∈ c.granted, S k) : P w.shared := by
  refine (exec_invariant_always (I := fun w => Planned plans w ∧ ∀ c ∈ w.clients, (∃ k ∈ c.granted, S k) → P w.shared)
    ?_ ⟨planned_start, ?_⟩ hothers.always h).2 c hc hset
  · intro u a t hI hstep hQ
    refine ⟨hI.1.next hstep, fun d hd hset => ?_⟩
    obtain ⟨i, c, k, ks, next, hc, htodo, -, rfl⟩ | ⟨i, c, -, hc, rfl⟩ | ⟨k, rfl, rfl⟩ := step_cases hstep
    · have hplan := List.mem_of_getElem? (hI.1 i c hc)
      have hmem : k ∈ c.granted ++ c.todo := by simp [htodo]
      have hold : (∃ k ∈ c.granted, S k) → P (m u.shared k).1 := fun hset =>
        hkeeps _ _ hplan k hmem (hI.2 c (List.mem_of_getElem? hc) hset)
      rcases List.mem_or_eq_of_mem_set hd with hd | rfl
      · exact hkeeps _ _ hplan k hmem (hI.2 d hd hset)
      · cases hgranted : (m u.shared k).2 with
        | false =>
          rw [hgranted] at hset
          exact hold hset
        | true =>
          rw [hgranted] at hset
          obtain ⟨k', hk', hset⟩ := hset
          rcases List.mem_append.mp hk' with hk' | hk'
          · exact hold ⟨k', hk', hset⟩
          · rw [List.mem_singleton.mp hk'] at hset
            exact hsets _ _ hplan k hmem hset hgranted
    · rcases List.mem_or_eq_of_mem_set hd with hd | rfl
      · exact hI.2 d hd hset
      · exact hI.2 c (List.mem_of_getElem? hc) hset
    · exact hother _ k (hQ k rfl) (hI.2 d hd hset)
  · intro c hc hset
    obtain ⟨plan, -, rfl⟩ := List.mem_map.mp hc
    obtain ⟨k, hk, -⟩ := hset
    cases hk

end ReleaseValidation.Clients
