import ReleaseValidation.Catalog.ToolchainLinks
import ReleaseValidation.GithubWatcher.NodeReleases

/-! # CLI releases and the nodes they announce

A CLI release comes from a page of the poller, which goes through one page at a time and drops
the rest of it at a failure, or from a webhook. Its handler stores it and may fill in the CLI
of the node that its text names; if that node has no run yet, the node is announced. The
handlers stand beside the other writers of the catalog and the runs that are created, and
any of their operations may fail.
-/
namespace ReleaseValidation.GithubWatcher.CliReleases
open Runs References Parties Catalog
open ToolchainLinks (isCliRelease cli35 node12)
open NodeReleases (Origin)

/-- The operation a handler takes next: for a node whose CLI it has filled in, it looks for runs of
the node, and announces it. -/
inductive Stage
  | check | upsert
  | runs (node : String)
  | publish (node : String)
  | ended
  deriving DecidableEq, Repr

structure Handler where
  origin : Origin
  release : Release
  stage : Stage
  deriving DecidableEq

/-- The page that the poller goes through. -/
structure Cycle where
  done : List Release
  rest : List Release
  deriving DecidableEq

/-- The catalog, the tags of the runs, the page at hand unless it was dropped, the handlers in
the order they started, and the nodes that were filled in and that were announced. -/
structure State where
  db : Db
  runs : List String
  cycle : Option Cycle
  handlers : List Handler
  filled : List String
  announced : List String

def initial (db : Db) (runs : List String) : State := ⟨db, runs, none, [], [], []⟩

inductive Act
  | poll (page : List Release)
  | next
  | webhook (release : Release)
  | advance (i : ℕ)
  | fail (i : ℕ)
  | restart
  | write (a : Catalog.Act)
  | patch (tag : String) (cliTag sdkTag devnetTag contractsTag : Option String)
  | run (tag : String)

/-- A handler of the poller is at work. -/
def State.polling (s : State) : Bool := s.handlers.any fun h => h.origin == .poll && h.stage != .ended

def State.move (s : State) (i : ℕ) (h : Handler) (stage : Stage) : State :=
  { s with handlers := s.handlers.set i { h with stage := stage } }

/-- The handler that a release gets, if it is one to be handled. -/
def arriving (origin : Origin) (rel : Release) (wanted : Bool) : List Handler :=
  if wanted then [⟨origin, rel, .check⟩] else []

/-- The writers that are handled apart. -/
def apart : Catalog.Act → Bool
  | .upsertCliChain _ | .updateToolchain _ _ => true
  | _ => false

section Steps
variable (ch : Characters)

/-- The tag whose row the guard of a poll or of a webhook looks for. -/
def Handler.key (h : Handler) : String :=
  match h.origin with
  | .poll => strip ch h.release.tagName
  | .webhook => h.release.tagName

/-- A poll takes up a release that has a tag and is one of a CLI. -/
def taken (release : Release) : Bool :=
  let tag := strip ch release.tagName
  tag != "" && isCliRelease ch tag

/-- What `_upsert_cli_chain` returns. -/
def updatedNodeTag (db : Db) (release : Release) : Option String :=
  (present (cliTags ch release).nodeTag).filter fun node =>
    match db .release node with
    | some row => row.cliTag.isNone
    | none => false

/-- The next operation of the handler succeeds. -/
def advance (s : State) (i : ℕ) (h : Handler) : Option State :=
  match h.stage with
  | .check => some (s.move i h (if (s.db .cli (h.key ch)).isSome then .ended else .upsert))
  | .upsert => (transaction s.db (upsertCliChain ch h.release)).map fun db =>
    match updatedNodeTag ch s.db h.release with
    | some node => { s.move i h (.runs node) with db := db, filled := s.filled ++ [node] }
    | none => { s.move i h .ended with db := db }
  | .runs node => some (s.move i h (if node ∈ s.runs then .ended else .publish node))
  | .publish node => some { s.move i h .ended with announced := s.announced ++ [node] }
  | .ended => none

/-- The next operation of the handler fails, and with one of the poller the rest of the page is dropped. -/
def fail (s : State) (i : ℕ) (h : Handler) : Option State :=
  match h.stage with
  | .ended => none
  | _ => some { s.move i h .ended with cycle := if h.origin = .poll then none else s.cycle }

/-- A page is fetched when the one before is through or dropped, and gone through release by release. The
other writers of the catalog are those of the orchestrator and the handling of a node release; a
toolchain is patched with the tags that were settled on at an earlier read. -/
def step (s : State) : Act → Option State
  | .poll page =>
    if s.polling || s.cycle.any (fun c => c.rest != []) then none else some { s with cycle := some ⟨[], page⟩ }
  | .next =>
    match s.cycle with
    | some ⟨done, rel :: rest⟩ =>
      if s.polling then none
      else some { s with
        cycle := some ⟨done ++ [rel], rest⟩
        handlers := s.handlers ++ if taken ch rel then [⟨.poll, rel, .check⟩] else [] }
    | _ => none
  | .webhook rel =>
    some { s with handlers := s.handlers ++ arriving .webhook rel (isCliRelease ch rel.tagName) }
  | .advance i => s.handlers[i]?.bind (advance ch s i)
  | .fail i => s.handlers[i]?.bind (fail s i)
  | .restart => some { s with cycle := none, handlers := [] }
  | .write a => if apart a then none else (Catalog.step ch s.db a).map fun db => { s with db := db }
  | .patch tag cliTag sdkTag devnetTag contractsTag =>
    (transaction s.db (toolchainStatements tag cliTag sdkTag devnetTag contractsTag)).map fun db => { s with db := db }
  | .run tag => some { s with runs := s.runs ++ [tag] }

end Steps

/-! ### The links of the nodes -/

/-- The node's row has a CLI. -/
def linked (node : String) (db : Db) : Bool :=
  match db .release node with
  | some row => row.cliTag.isSome
  | none => false

section Links
variable {ch : Characters} {db db' : Db} {node : String}

/-- The statement leaves the node its link. -/
def KeepsLink (node : String) (w : Statement) : Prop :=
  ∀ db db' : Db, w.run db = some db' → linked node db = true → linked node db' = true

theorem linked_congr (h : db' .release node = db .release node) : linked node db' = linked node db := by
  simp only [linked, h]

theorem keepsLink_of_ne {w : Statement} (h : (Table.release, node) ≠ (w.table, w.key)) : KeepsLink node w := by
  intro db db' hrun hlink
  rw [linked_congr (w.run_frame hrun h)]
  exact hlink

theorem keepsLink_of_table {w : Statement} (t : Table) (h : w.table = t) (ht : t ≠ .release) : KeepsLink node w := by
  refine keepsLink_of_ne fun heq => ht ?_
  rw [← h]
  exact (congrArg Prod.fst heq).symm

theorem chain_keepsLink {sdkTag contractsTag devnetTag cliTag : Option String} :
    ∀ w ∈ chain sdkTag contractsTag devnetTag cliTag, KeepsLink node w :=
  fun _ hw => keepsLink_of_ne (release_ne_of_mem_chain hw)

/-- A new row of a node that keeps a CLI where there is one keeps the link. -/
theorem keepsLink_of_row {key : String} {row : Option ReleaseRow → Option ReleaseRow}
    (h : ∀ old new, row (some old) = some new → old.cliTag.isSome = true → new.cliTag.isSome = true) :
    KeepsLink node ⟨.release, key, row⟩ := by
  by_cases hkey : node = key
  · subst hkey
    intro db db' hrun hlink
    have hrow : db' .release node = (row (db .release node)).or (db .release node) := Schema.Write.run_row hrun
    simp only [linked, hrow] at hlink ⊢
    cases hold : db .release node with
    | none =>
      rw [hold] at hlink
      cases hlink
    | some old =>
      rw [hold] at hlink
      cases hnew : row (some old) with
      | none => exact hlink
      | some new => exact h old new hnew hlink
  · exact keepsLink_of_ne fun heq => hkey (congrArg Prod.snd heq)

theorem upsertRelease_keepsLink {tag : String} {cliTag : Option String} {major : ℤ} :
    KeepsLink node (upsertRelease tag cliTag major) := by
  refine keepsLink_of_row fun old new hnew hold => ?_
  cases hnew
  cases cliTag with
  | none => exact hold
  | some cli => rfl

/-- Only a patch of the node's toolchain that has settled on no CLI takes the link away. -/
theorem setReleaseCli_keepsLink {tag : String} {cliTag : Option String} (h : tag = node → cliTag ≠ none) :
    KeepsLink node (setReleaseCli tag cliTag) := by
  by_cases htag : tag = node
  · refine keepsLink_of_row fun old new hnew _ => ?_
    cases hnew
    exact Option.isSome_iff_ne_none.mpr (h htag)
  · exact keepsLink_of_ne fun heq => htag (congrArg Prod.snd heq).symm

theorem toolchain_keepsLink {tag : String} {cliTag sdkTag devnetTag contractsTag : Option String}
    (h : tag = node → cliTag ≠ none) :
    ∀ w ∈ toolchainStatements tag cliTag sdkTag devnetTag contractsTag, KeepsLink node w := by
  intro w hw
  rcases List.mem_append.mp hw with hw | hw
  · exact chain_keepsLink w hw
  rcases List.mem_cons.mp hw with rfl | hw
  · exact setReleaseCli_keepsLink h
  rcases List.mem_append.mp hw with hw | hw
  · obtain ⟨cli, -, rfl⟩ := List.mem_map.mp hw
    exact keepsLink_of_table .cli rfl (by decide)
  · obtain ⟨devnet, -, hw⟩ := List.mem_flatMap.mp hw
    obtain ⟨contracts, -, rfl⟩ := List.mem_map.mp hw
    exact keepsLink_of_table .devnet rfl (by decide)

theorem exec_keepsLink {ws : List Statement} (hws : ∀ w ∈ ws, KeepsLink node w)
    (h : transaction db ws = some db') (hlink : linked node db = true) : linked node db' = true :=
  exec_invariant_always (I := fun u => linked node u = true) (fun u _ v hu hrun hw => hw u v hrun hu) hlink
    (always_of_mem hws) h

theorem syncNode_keepsLink {resolve : String → Versions} {rel : Release} :
    ∀ w ∈ syncNode ch resolve rel, KeepsLink node w := by
  intro w hw
  simp only [syncNode] at hw
  split at hw
  next => cases hw
  split at hw
  next =>
    rcases List.mem_append.mp hw with hw | hw
    · exact chain_keepsLink w hw
    · rw [List.mem_singleton.mp hw]
      exact upsertRelease_keepsLink
  next =>
    rw [List.mem_singleton.mp hw]
    exact upsertRelease_keepsLink

theorem addRelease_keepsLink {resolve : String → Versions} {rawTag : String} {cliVersion : Option String} :
    ∀ w ∈ addRelease ch resolve rawTag cliVersion, KeepsLink node w := by
  intro w hw
  simp only [addRelease] at hw
  split at hw
  next => cases hw
  split at hw
  next =>
    split at hw <;>
    · rcases List.mem_append.mp hw with hw | hw
      · exact chain_keepsLink w hw
      · rw [List.mem_singleton.mp hw]
        exact upsertRelease_keepsLink
  next =>
    rw [List.mem_singleton.mp hw]
    exact upsertRelease_keepsLink

/-- No writer but the two that are handled apart touches a link. -/
theorem write_keepsLink {a : Catalog.Act} (ha : apart a = false) : ∀ w ∈ a.statements ch db, KeepsLink node w := by
  cases a with
  | syncFromGithub resolve releases =>
    intro w hw
    obtain ⟨rel, -, hw⟩ := List.mem_flatMap.mp hw
    exact syncNode_keepsLink w hw
  | syncCliFromGithub releases =>
    intro w hw
    obtain ⟨rel, -, hw⟩ := List.mem_flatMap.mp hw
    simp only [syncCli] at hw
    split at hw
    next => cases hw
    split at hw
    next => cases hw
    split at hw
    next => cases hw
    rcases List.mem_append.mp hw with hw | hw
    · exact chain_keepsLink w hw
    · rw [List.mem_singleton.mp hw]
      exact keepsLink_of_table .cli rfl (by decide)
  | syncSdkFromGithub releases =>
    intro w hw
    obtain ⟨rel, -, hw⟩ := List.mem_flatMap.mp hw
    simp only [syncSdk] at hw
    split at hw
    next => cases hw
    split at hw
    next =>
      rw [List.mem_singleton.mp hw]
      exact keepsLink_of_table .sdk rfl (by decide)
    next => cases hw
  | syncContractsFromGithub releases =>
    intro w hw
    obtain ⟨rel, -, hw⟩ := List.mem_flatMap.mp hw
    simp only [syncContracts] at hw
    split at hw
    next => cases hw
    rw [List.mem_singleton.mp hw]
    exact keepsLink_of_table .contracts rfl (by decide)
  | updateToolchain tag payload => cases ha
  | addRelease resolve rawTag cliVersion => exact addRelease_keepsLink
  | upsertNodeCatalog versions release =>
    intro w hw
    rcases List.mem_append.mp hw with hw | hw
    · exact chain_keepsLink w hw
    · rw [List.mem_singleton.mp hw]
      exact upsertRelease_keepsLink
  | upsertCliChain release => cases ha
  | upsertContractsCatalog release =>
    intro w hw
    rw [List.mem_singleton.mp hw]
    exact keepsLink_of_table .contracts rfl (by decide)

theorem step_linked {a : Catalog.Act} (ha : apart a = false) (h : Catalog.step ch db a = some db')
    (hlink : linked node db = true) : linked node db' = true := by
  have hstep := Option.some.inj h
  cases hrun : transaction db (a.statements ch db) with
  | none =>
    rw [hrun] at hstep
    rw [← hstep]
    exact hlink
  | some u =>
    rw [hrun] at hstep
    rw [← hstep]
    exact exec_keepsLink (write_keepsLink ha) hrun hlink

/-- Storing a CLI release links the node that it returns, which was not linked, and no other one. -/
theorem linked_upsertCliChain {rel : Release} (h : transaction db (upsertCliChain ch rel) = some db') :
    linked node db' = (linked node db || updatedNodeTag ch db rel == some node) := by
  have hstep : Catalog.step ch db (.upsertCliChain rel) = some db' := by
    simp only [Catalog.step, Catalog.Act.statements, h, Option.getD_some]
  have hrelease := cli_release hstep node
  have hpresent : present (cliTags ch rel).nodeTag = (cliTags ch rel).nodeTag := present_of_ne (cliTags_ne ch rel).2.2.2
  by_cases hnode : (cliTags ch rel).nodeTag = some node
  · rw [if_pos hnode] at hrelease
    rw [hnode] at hpresent
    simp only [updatedNodeTag, hnode, hpresent, linked, hrelease]
    cases hrow : db .release node with
    | none => simp [Option.filter, hrow]
    | some row =>
      obtain ⟨cliTag, major⟩ := row
      cases cliTag <;> simp [Option.filter, hrow, backfilled, coalesce]
  · rw [if_neg hnode] at hrelease
    have hnone : (updatedNodeTag ch db rel == some node) = false := by
      rw [beq_eq_false_iff_ne]
      intro hupdated
      refine hnode ?_
      rw [updatedNodeTag, hpresent] at hupdated
      exact (Option.filter_eq_some_iff.mp hupdated).1
    rw [hnone, Bool.or_false, linked_congr hrelease]

theorem not_linked_of_updated {rel : Release} (h : updatedNodeTag ch db rel = some node) : linked node db = false := by
  have hrow := (Option.filter_eq_some_iff.mp h).2
  simp only [linked]
  split at hrow
  next row heq => simpa using hrow
  next => cases hrow

end Links

/-! ### What a handler does -/

section Moves
variable {ch : Characters} {s t : State} {node : String} {i : ℕ} {h : Handler} {stage : Stage}

theorem mem_arriving {origin : Origin} {rel : Release} {wanted : Bool} (hh : h ∈ arriving origin rel wanted) :
    h = ⟨origin, rel, .check⟩ := by
  unfold arriving at hh
  split at hh
  · exact List.mem_singleton.mp hh
  · cases hh

/-- The operations of a handler that succeed. -/
inductive Advances (ch : Characters) (s : State) (i : ℕ) (h : Handler) : State → Prop
  | known : h.stage = .check → (s.db .cli (h.key ch)).isSome = true → Advances ch s i h (s.move i h .ended)
  | fresh : h.stage = .check → Advances ch s i h (s.move i h .upsert)
  | stored {db : Db} : h.stage = .upsert → transaction s.db (upsertCliChain ch h.release) = some db →
      updatedNodeTag ch s.db h.release = none → Advances ch s i h { s.move i h .ended with db := db }
  | filled {db : Db} {node : String} : h.stage = .upsert → transaction s.db (upsertCliChain ch h.release) = some db →
      updatedNodeTag ch s.db h.release = some node →
      Advances ch s i h { s.move i h (.runs node) with db := db, filled := s.filled ++ [node] }
  | run {node : String} : h.stage = .runs node → node ∈ s.runs → Advances ch s i h (s.move i h .ended)
  | noRun {node : String} : h.stage = .runs node → Advances ch s i h (s.move i h (.publish node))
  | published {node : String} : h.stage = .publish node →
      Advances ch s i h { s.move i h .ended with announced := s.announced ++ [node] }

theorem advance_cases (hstep : advance ch s i h = some t) : Advances ch s i h t := by
  unfold advance at hstep
  split at hstep
  next hstage =>
    cases hstep
    split
    next hknown => exact .known hstage hknown
    next => exact .fresh hstage
  next hstage =>
    obtain ⟨db, hdb, rfl⟩ := Option.map_eq_some_iff.mp hstep
    split
    next hupdated => exact .filled hstage hdb hupdated
    next hupdated => exact .stored hstage hdb hupdated
  next hstage =>
    cases hstep
    split
    next hrun => exact .run hstage hrun
    next => exact .noRun hstage
  next hstage =>
    cases hstep
    exact .published hstage
  next => cases hstep

theorem eq_of_fail (hstep : fail s i h = some t) :
    t = { s.move i h .ended with cycle := if h.origin = .poll then none else s.cycle } := by
  unfold fail at hstep
  split at hstep
  · cases hstep
  · exact (Option.some.inj hstep).symm

end Moves

/-! ### How often a node is announced -/

/-- Whether the stage is after the update of the node's row and before its announcement. -/
def Stage.owes (node : String) : Stage → Bool
  | .runs k | .publish k => k == node
  | .check | .upsert | .ended => false

def State.owing (s : State) (node : String) : ℕ := s.handlers.countP fun h => h.stage.owes node

/-- The announcements that were made, those that handlers owe, and one more while the node has no link. -/
def State.pledged (s : State) (node : String) : ℕ :=
  s.announced.count node + s.owing node + if linked node s.db = true then 0 else 1

/-- A patch that takes the link of the node away. -/
def Act.clears (node : String) : Act → Bool
  | .patch tag cliTag _ _ _ => tag == node && cliTag.isNone
  | _ => false

section Announcements
variable {ch : Characters} {s t : State} {node : String} {i : ℕ} {h : Handler} {stage : Stage}

theorem owing_move (node : String) (stage : Stage) (hi : s.handlers[i]? = some h) :
    (s.move i h stage).owing node + (if h.stage.owes node = true then 1 else 0) =
      s.owing node + if stage.owes node = true then 1 else 0 :=
  countP_set_add hi

theorem owing_ended (node : String) (hi : s.handlers[i]? = some h) :
    (s.move i h .ended).owing node + (if h.stage.owes node = true then 1 else 0) = s.owing node :=
  owing_move node .ended hi

/-- A handler comes to owe an announcement for the link that it has made, and announces what it owes. -/
theorem pledged_advance (hi : s.handlers[i]? = some h) (hstep : Advances ch s i h t) :
    t.pledged node ≤ s.pledged node := by
  have howing := fun stage => owing_move node stage hi
  cases hstep with
  | known hstage =>
    have hsame : (s.move i h .ended).owing node = s.owing node := by simpa [hstage, Stage.owes] using howing .ended
    exact (congrArg (fun n => s.announced.count node + n + _) hsame).le
  | fresh hstage =>
    have hsame : (s.move i h .upsert).owing node = s.owing node := by simpa [hstage, Stage.owes] using howing .upsert
    exact (congrArg (fun n => s.announced.count node + n + _) hsame).le
  | @stored db hstage hdb hnone =>
    have hsame : (s.move i h .ended).owing node = s.owing node := by simpa [hstage, Stage.owes] using howing .ended
    have hlink : linked node db = linked node s.db := by simp [linked_upsertCliChain hdb, hnone]
    change s.announced.count node + (s.move i h .ended).owing node + (if linked node db = true then 0 else 1) ≤ _
    rw [hsame, hlink]
    exact le_refl _
  | @filled db k hstage hdb hupdated =>
    have hmoved := howing (.runs k)
    have hlink : linked node db = (linked node s.db || k == node) := by simp [linked_upsertCliChain hdb, hupdated]
    change s.announced.count node + (s.move i h (.runs k)).owing node + (if linked node db = true then 0 else 1) ≤ _
    simp only [State.pledged, hlink]
    by_cases hk : k = node
    · subst hk
      have hopen := not_linked_of_updated hupdated
      simp only [hstage, Stage.owes, beq_self_eq_true, if_true, Bool.false_eq_true, if_false] at hmoved
      simp only [hopen, beq_self_eq_true, Bool.false_or, if_true, Bool.false_eq_true, if_false]
      omega
    · have hsame : (k == node) = false := beq_eq_false_iff_ne.mpr hk
      simp only [hstage, Stage.owes, hsame, Bool.false_eq_true, if_false] at hmoved
      rw [hsame, Bool.or_false]
      omega
  | @run k hstage =>
    have hmoved := howing .ended
    refine Nat.add_le_add_right ?_ (if linked node s.db = true then 0 else 1)
    change s.announced.count node + (s.move i h .ended).owing node ≤ s.announced.count node + s.owing node
    simp only [Stage.owes, Bool.false_eq_true, if_false] at hmoved
    omega
  | @noRun k hstage =>
    have hsame : (s.move i h (.publish k)).owing node = s.owing node := by
      simpa [hstage, Stage.owes] using howing (.publish k)
    exact (congrArg (fun n => s.announced.count node + n + _) hsame).le
  | @published k hstage =>
    have hmoved := howing .ended
    refine Nat.add_le_add_right ?_ (if linked node s.db = true then 0 else 1)
    change (s.announced ++ [k]).count node + (s.move i h .ended).owing node ≤ s.announced.count node + s.owing node
    simp only [hstage, Stage.owes, Bool.false_eq_true, if_false] at hmoved
    have hcount : (s.announced ++ [k]).count node = s.announced.count node + if (k == node) = true then 1 else 0 := by
      simp [List.count_append, List.count_singleton]
    omega

theorem linked_patch {tag : String} {cliTag sdkTag devnetTag contractsTag : Option String} {db db' : Db}
    (h : transaction db (toolchainStatements tag cliTag sdkTag devnetTag contractsTag) = some db')
    (hkeep : (Act.patch tag cliTag sdkTag devnetTag contractsTag).clears node = false)
    (hlink : linked node db = true) : linked node db' = true := by
  refine exec_keepsLink (toolchain_keepsLink ?_) h hlink
  rintro rfl rfl
  simp [Act.clears] at hkeep

/-- A change of the catalog that keeps the link of the node. -/
theorem pledged_db {db : Db} (h : linked node s.db = true → linked node db = true) :
    State.pledged { s with db := db } node ≤ s.pledged node := by
  simp only [State.pledged, State.owing]
  cases hlink : linked node s.db with
  | true => simp [h hlink]
  | false =>
    simp only [Bool.false_eq_true, if_false]
    split <;> omega

theorem pledged_arrive {origin : Origin} {rel : Release} {wanted : Bool} :
    State.pledged { s with handlers := s.handlers ++ arriving origin rel wanted } node = s.pledged node := by
  have hnone : (arriving origin rel wanted).countP (fun h => h.stage.owes node) = 0 := by
    rw [List.countP_eq_zero]
    intro h hh
    rw [mem_arriving hh]
    simp [Stage.owes]
  simp only [State.pledged, State.owing, List.countP_append, hnone, Nat.add_zero]

/-- No step pledges an announcement but a patch that takes the link away. -/
theorem pledged_step {a : Act} (hstep : step ch s a = some t) :
    t.pledged node ≤ s.pledged node + if a.clears node = true then 1 else 0 := by
  cases a with
  | poll page =>
    simp only [step] at hstep
    split at hstep
    · cases hstep
    · cases hstep
      exact Nat.le_add_right _ _
  | next =>
    simp only [step] at hstep
    split at hstep
    next done rel rest hcycle =>
      split at hstep
      · cases hstep
      · cases hstep
        exact (pledged_arrive (s := s)).le
    next => cases hstep
  | webhook rel =>
    cases hstep
    exact (pledged_arrive (s := s)).le
  | advance i =>
    obtain ⟨h, hi, hstep⟩ := Option.bind_eq_some_iff.mp hstep
    exact (pledged_advance hi (advance_cases hstep)).trans (Nat.le_add_right _ _)
  | fail i =>
    obtain ⟨h, hi, hstep⟩ := Option.bind_eq_some_iff.mp hstep
    rw [eq_of_fail hstep]
    have hmoved := owing_move node .ended hi
    refine Nat.add_le_add_right ?_ (if linked node s.db = true then 0 else 1)
    change s.announced.count node + (s.move i h .ended).owing node ≤ s.announced.count node + s.owing node
    simp only [Stage.owes, Bool.false_eq_true, if_false] at hmoved
    omega
  | restart =>
    cases hstep
    simp only [State.pledged, State.owing, List.countP_nil]
    omega
  | write a =>
    simp only [step] at hstep
    split at hstep
    next => cases hstep
    next ha =>
      obtain ⟨db, hdb, rfl⟩ := Option.map_eq_some_iff.mp hstep
      exact pledged_db (step_linked (Bool.eq_false_iff.mpr ha) hdb)
  | patch tag cliTag sdkTag devnetTag contractsTag =>
    obtain ⟨db, hdb, rfl⟩ := Option.map_eq_some_iff.mp hstep
    cases hclears : (Act.patch tag cliTag sdkTag devnetTag contractsTag).clears node with
    | false => exact pledged_db (linked_patch hdb hclears)
    | true =>
      simp only [State.pledged, State.owing, if_true]
      split <;> omega
  | run tag =>
    cases hstep
    exact Nat.le_add_right _ _

theorem announced_step {a : Act} (hstep : step ch s a = some t) : s.announced <+: t.announced := by
  cases a with
  | poll page =>
    simp only [step] at hstep
    split at hstep <;> cases hstep
    exact List.prefix_refl _
  | next =>
    simp only [step] at hstep
    split at hstep
    next =>
      split at hstep <;> cases hstep
      exact List.prefix_refl _
    next => cases hstep
  | advance i =>
    obtain ⟨h, hi, hstep⟩ := Option.bind_eq_some_iff.mp hstep
    cases advance_cases hstep with
    | published hstage => exact List.prefix_append _ _
    | _ => exact List.prefix_refl _
  | fail i =>
    obtain ⟨h, hi, hstep⟩ := Option.bind_eq_some_iff.mp hstep
    rw [eq_of_fail hstep]
    exact List.prefix_refl _
  | write a =>
    simp only [step] at hstep
    split at hstep
    next => cases hstep
    next =>
      obtain ⟨db, -, rfl⟩ := Option.map_eq_some_iff.mp hstep
      exact List.prefix_refl _
  | patch tag cliTag sdkTag devnetTag contractsTag =>
    obtain ⟨db, -, rfl⟩ := Option.map_eq_some_iff.mp hstep
    exact List.prefix_refl _
  | _ =>
    cases hstep
    exact List.prefix_refl _

theorem pledged_initial (db : Db) (runs : List String) (node : String) : (initial db runs).pledged node ≤ 1 := by
  simp only [State.pledged, State.owing, initial, List.count_nil, List.countP_nil, Nat.zero_add]
  by_cases hlink : linked node db = true <;> simp [hlink]

end Announcements

def cli36 : Release := ⟨"v2.0.0-alpha.36", some "bump rollups-node to v2.0.0-alpha.12", by decide⟩

/-- The link of an announced node is taken away and filled in again by another CLI release. -/
def relinked : List Act :=
  [.write (.upsertNodeCatalog .unknown node12), .webhook cli35] ++ List.replicate 4 (.advance 0) ++
    [.patch node12.tagName none none none none, .webhook cli36] ++ List.replicate 4 (.advance 1)

/-- Every node that was filled in has a run, has been announced, or is owed an announcement. -/
def NoneMissed (s : State) : Prop := ∀ node ∈ s.filled, node ∈ s.runs ∨ node ∈ s.announced ∨ 0 < s.owing node

/-- No handler fails, and the process does not restart, while a node without a run is owed its
first announcement by nobody else. -/
def Keeps (s : State) : Act → Prop
  | .fail i => ∀ h node, s.handlers[i]? = some h → h.stage.owes node = true → node ∈ s.filled →
      node ∈ s.runs ∨ node ∈ s.announced ∨ 1 < s.owing node
  | .restart => ∀ node ∈ s.filled, node ∈ s.runs ∨ node ∈ s.announced
  | _ => True

section Missed
variable {ch : Characters} {s t : State} {i : ℕ} {h : Handler}

theorem noneMissed_advance (hs : NoneMissed s) (hi : s.handlers[i]? = some h) (hstep : Advances ch s i h t) :
    NoneMissed t := by
  have howing := fun node stage => owing_move node stage hi
  cases hstep with
  | known hstage | stored hstage =>
    intro node hnode
    have hsame : (s.move i h .ended).owing node = s.owing node := by
      simpa [hstage, Stage.owes] using howing node .ended
    exact (hs node hnode).imp_right (Or.imp_right fun hpos => hsame ▸ hpos)
  | fresh hstage =>
    intro node hnode
    have hsame : (s.move i h .upsert).owing node = s.owing node := by
      simpa [hstage, Stage.owes] using howing node .upsert
    exact (hs node hnode).imp_right (Or.imp_right fun hpos => hsame ▸ hpos)
  | @filled db k hstage =>
    intro node hnode
    have hmoved := howing node (.runs k)
    simp only [hstage, Stage.owes, Bool.false_eq_true, if_false] at hmoved
    rcases List.mem_append.mp hnode with hold | hnew
    · refine (hs node hold).imp_right (Or.imp_right fun hpos => ?_)
      change 0 < (s.move i h (.runs k)).owing node
      omega
    · refine Or.inr (Or.inr ?_)
      change 0 < (s.move i h (.runs k)).owing node
      rw [List.mem_singleton.mp hnew] at hmoved ⊢
      simp only [beq_self_eq_true, if_true] at hmoved
      omega
  | @run k hstage hrun =>
    intro node hnode
    by_cases hk : k = node
    · exact Or.inl (hk ▸ hrun)
    · have hsame : (s.move i h .ended).owing node = s.owing node := by
        simpa [hstage, Stage.owes, hk] using howing node .ended
      exact (hs node hnode).imp_right (Or.imp_right fun hpos => hsame ▸ hpos)
  | @noRun k hstage =>
    intro node hnode
    have hsame : (s.move i h (.publish k)).owing node = s.owing node := by
      simpa [hstage, Stage.owes] using howing node (.publish k)
    exact (hs node hnode).imp_right (Or.imp_right fun hpos => hsame ▸ hpos)
  | @published k hstage =>
    intro node hnode
    by_cases hk : k = node
    · exact Or.inr (Or.inl (List.mem_append_right _ (List.mem_singleton.mpr hk.symm)))
    · have hsame : (s.move i h .ended).owing node = s.owing node := by
        simpa [hstage, Stage.owes, hk] using howing node .ended
      exact (hs node hnode).imp_right (Or.imp (List.mem_append_left _) fun hpos => hsame ▸ hpos)

theorem noneMissed_fail_iff (hs : NoneMissed s) (hi : s.handlers[i]? = some h) (hstep : fail s i h = some t) :
    NoneMissed t ↔ Keeps s (.fail i) := by
  have howing := fun node => owing_ended node hi
  rw [eq_of_fail hstep]
  constructor
  · intro ht x node hx howes hnode
    cases hi.symm.trans hx
    refine (ht node hnode).imp_right (Or.imp_right fun hpos => ?_)
    have hmoved := howing node
    simp only [howes, if_true] at hmoved
    change 0 < (s.move i h .ended).owing node at hpos
    omega
  · intro hkeeps node hnode
    have hmoved := howing node
    by_cases howes : h.stage.owes node = true
    · simp only [howes, if_true] at hmoved
      refine (hkeeps h node hi howes hnode).imp_right (Or.imp_right fun hpos => ?_)
      change 0 < (s.move i h .ended).owing node
      omega
    · simp only [howes] at hmoved
      refine (hs node hnode).imp_right (Or.imp_right fun hpos => ?_)
      change 0 < (s.move i h .ended).owing node
      simp only [Bool.false_eq_true, if_false, Nat.add_zero] at hmoved
      omega

theorem noneMissed_arrive (hs : NoneMissed s) {new : List Handler} {cycle : Option Cycle} :
    NoneMissed { s with cycle := cycle, handlers := s.handlers ++ new } := by
  intro node hnode
  refine (hs node hnode).imp_right (Or.imp_right fun hpos => ?_)
  simp only [State.owing, List.countP_append] at hpos ⊢
  omega

theorem noneMissed_step_iff {a : Act} (hs : NoneMissed s) (hstep : step ch s a = some t) :
    NoneMissed t ↔ Keeps s a := by
  cases a with
  | poll page =>
    simp only [step] at hstep
    split at hstep <;> cases hstep
    exact iff_of_true hs trivial
  | next =>
    simp only [step] at hstep
    split at hstep
    next =>
      split at hstep <;> cases hstep
      exact iff_of_true (noneMissed_arrive hs) trivial
    next => cases hstep
  | webhook rel =>
    cases hstep
    exact iff_of_true (noneMissed_arrive hs) trivial
  | advance i =>
    obtain ⟨h, hi, hstep⟩ := Option.bind_eq_some_iff.mp hstep
    exact iff_of_true (noneMissed_advance hs hi (advance_cases hstep)) trivial
  | fail i =>
    obtain ⟨h, hi, hstep⟩ := Option.bind_eq_some_iff.mp hstep
    exact noneMissed_fail_iff hs hi hstep
  | restart =>
    cases hstep
    simp only [NoneMissed, Keeps, State.owing, List.countP_nil, lt_irrefl, or_false]
  | write a =>
    simp only [step] at hstep
    split at hstep
    next => cases hstep
    next =>
      obtain ⟨db, -, rfl⟩ := Option.map_eq_some_iff.mp hstep
      exact iff_of_true hs trivial
  | patch tag cliTag sdkTag devnetTag contractsTag =>
    obtain ⟨db, -, rfl⟩ := Option.map_eq_some_iff.mp hstep
    exact iff_of_true hs trivial
  | run tag =>
    cases hstep
    exact iff_of_true (fun node hnode => (hs node hnode).imp_left (List.mem_append_left _)) trivial

/-- No node whose CLI was filled in is left without a run, an announcement and a handler that is about to
announce it, exactly when no handler fails and no restart comes between the two. -/
theorem none_missed_iff (db : Db) (runs : List String) (as : List Act) :
    Always (step ch) (fun _ _ t => NoneMissed t) (initial db runs) as ↔
      Always (step ch) (fun s a _ => Keeps s a) (initial db runs) as := by
  refine always_iff_of_invariant (I := NoneMissed) ?_ fun node hnode => absurd hnode List.not_mem_nil
  intro s a t hs hstep
  exact ⟨noneMissed_step_iff hs hstep, id⟩

end Missed

/-! ### How far the poller has come on a page -/

section Pages
variable (ch : Characters)

/-- The guard of a poll or the handling of the release would find its row. -/
def Stored (db : Db) (rel : Release) : Prop :=
  Schema.Has db (.cli, strip ch rel.tagName) ∨ Schema.Has db (.cli, rel.tagName)

/-- The poller's handler for the release has not stored it yet. -/
def State.AtHand (s : State) (rel : Release) : Prop :=
  ∃ h ∈ s.handlers, h.origin = .poll ∧ h.release = rel ∧ (h.stage = .check ∨ h.stage = .upsert)

/-- Every CLI release that was taken up is stored, but for the last one while it is at hand. -/
def InOrder (s : State) : Prop :=
  ∀ c, s.cycle = some c → ∀ pre rel post, c.done = pre ++ rel :: post → taken ch rel = true →
    Stored ch s.db rel ∨ post = [] ∧ s.AtHand rel

variable {ch} {s t : State} {i : ℕ} {h : Handler}

theorem Stored.mono {db db' : Db} (hkeep : ∀ p, Schema.Has db p → Schema.Has db' p) {rel : Release}
    (hs : Stored ch db rel) : Stored ch db' rel :=
  hs.imp (hkeep _) (hkeep _)

theorem has_step {db db' : Db} {a : Catalog.Act} (hstep : Catalog.step ch db a = some db') (p : Table × String)
    (hp : Schema.Has db p) : Schema.Has db' p := by
  have heq := Option.some.inj hstep
  cases hrun : transaction db (a.statements ch db) with
  | none =>
    rw [hrun] at heq
    rw [← heq]
    exact hp
  | some u =>
    rw [hrun] at heq
    rw [← heq]
    exact Schema.exec_has hrun hp

theorem has_upsertCliChain {db db' : Db} {rel : Release} (h : transaction db (upsertCliChain ch rel) = some db') :
    Schema.Has db' (.cli, rel.tagName) := by
  refine Schema.exec_inserts (w := upsertCli rel.tagName (cliTags ch rel).sdkTag (cliTags ch rel).devnetTag) h ?_
    upsertCli_inserts
  rw [upsertCliChain_eq]
  exact List.mem_append_right _ List.mem_cons_self

theorem State.AtHand.polling {rel : Release} (hs : s.AtHand rel) : s.polling = true := by
  obtain ⟨h, hmem, horigin, -, hstage⟩ := hs
  refine List.any_eq_true.mpr ⟨h, hmem, ?_⟩
  rcases hstage with hstage | hstage <;> simp [horigin, hstage]

theorem State.AtHand.other {rel : Release} {stage : Stage} (hs : s.AtHand rel) (hi : s.handlers[i]? = some h)
    (ht : t.handlers = s.handlers.set i { h with stage := stage }) :
    t.AtHand rel ∨ h.origin = .poll ∧ h.release = rel ∧ (h.stage = .check ∨ h.stage = .upsert) := by
  obtain ⟨x, hmem, hx⟩ := hs
  obtain ⟨j, hj⟩ := List.mem_iff_getElem?.mp hmem
  by_cases hij : i = j
  · subst hij
    cases hi.symm.trans hj
    exact Or.inr hx
  · refine Or.inl ⟨x, List.mem_of_getElem? (i := j) ?_, hx⟩
    rw [ht, List.getElem?_set_ne hij]
    exact hj

/-- A page stays in order while rows are added and the release at hand stays so or is stored. -/
theorem InOrder.keep (hs : InOrder ch s) (hcycle : t.cycle = s.cycle ∨ t.cycle = none)
    (hdb : ∀ p, Schema.Has s.db p → Schema.Has t.db p)
    (hhand : ∀ rel, s.AtHand rel → t.AtHand rel ∨ Stored ch t.db rel ∨ t.cycle = none) : InOrder ch t := by
  intro c hc pre rel post hdone htaken
  rcases hcycle with hsame | hnone
  · rcases hs c (hsame ▸ hc) pre rel post hdone htaken with hstored | ⟨hpost, hat⟩
    · exact Or.inl (hstored.mono hdb)
    · rcases hhand rel hat with hat | hstored | hnone
      · exact Or.inr ⟨hpost, hat⟩
      · exact Or.inl hstored
      · rw [hnone] at hc
        cases hc
  · rw [hnone] at hc
    cases hc

theorem inOrder_advance (hs : InOrder ch s) (hi : s.handlers[i]? = some h) (hstep : Advances ch s i h t) :
    InOrder ch t := by
  cases hstep with
  | known hstage hknown =>
    refine hs.keep (Or.inl rfl) (fun _ => id) fun rel hat => ?_
    refine (hat.other hi rfl).imp_right fun hself => Or.inl (Or.inl ?_)
    obtain ⟨horigin, hrel, -⟩ := hself
    simp only [Handler.key, horigin, hrel] at hknown
    exact hknown
  | fresh hstage =>
    refine hs.keep (Or.inl rfl) (fun _ => id) fun rel hat => ?_
    have hother : (s.move i h .upsert).AtHand rel ∨ _ := hat.other hi rfl
    rcases hother with hat | ⟨horigin, hrel, -⟩
    · exact Or.inl hat
    · exact Or.inl ⟨_, List.mem_of_getElem? (getElem?_set_of_some hi), horigin, hrel, Or.inr rfl⟩
  | stored hstage hdb =>
    refine hs.keep (Or.inl rfl) (fun p hp => Schema.exec_has hdb hp) fun rel hat => ?_
    refine (hat.other hi rfl).imp_right fun hself => Or.inl (Or.inr ?_)
    rw [← hself.2.1]
    exact has_upsertCliChain hdb
  | filled hstage hdb =>
    refine hs.keep (Or.inl rfl) (fun p hp => Schema.exec_has hdb hp) fun rel hat => ?_
    refine (hat.other hi rfl).imp_right fun hself => Or.inl (Or.inr ?_)
    rw [← hself.2.1]
    exact has_upsertCliChain hdb
  | run hstage | noRun hstage | published hstage =>
    refine hs.keep (Or.inl rfl) (fun _ => id) fun rel hat => ?_
    refine (hat.other hi rfl).imp_right fun hself => ?_
    rcases hself.2.2 with h' | h' <;> rw [hstage] at h' <;> cases h'

theorem inOrder_fail (hs : InOrder ch s) (hi : s.handlers[i]? = some h) (hstep : fail s i h = some t) :
    InOrder ch t := by
  rw [eq_of_fail hstep]
  by_cases horigin : h.origin = .poll
  · exact hs.keep (Or.inr (if_pos horigin)) (fun _ => id) fun _ _ => Or.inr (Or.inr (if_pos horigin))
  · refine hs.keep (Or.inl (if_neg horigin)) (fun _ => id) fun rel hat => ?_
    exact (hat.other hi rfl).imp_right fun hself => absurd hself.1 horigin

theorem State.AtHand.arrive {rel : Release} {new : List Handler} {cycle : Option Cycle} (hs : s.AtHand rel) :
    State.AtHand { s with cycle := cycle, handlers := s.handlers ++ new } rel := by
  obtain ⟨x, hmem, hx⟩ := hs
  exact ⟨x, List.mem_append_left _ hmem, hx⟩

theorem inOrder_step {a : Act} (hs : InOrder ch s) (hstep : step ch s a = some t) : InOrder ch t := by
  cases a with
  | poll page =>
    simp only [step] at hstep
    split at hstep <;> cases hstep
    rintro c hc pre rel post hdone -
    cases hc
    exact absurd hdone (by simp)
  | next =>
    simp only [step] at hstep
    split at hstep
    next done rel rest hcycle =>
      split at hstep
      next => cases hstep
      next hidle =>
        cases hstep
        rintro c hc pre r post hdone htaken
        cases hc
        rcases List.eq_nil_or_concat post with rfl | ⟨post, last, rfl⟩
        · obtain ⟨-, hr⟩ := List.append_inj' hdone rfl
          cases hr
          refine Or.inr ⟨rfl, ⟨.poll, rel, .check⟩, List.mem_append_right _ ?_, rfl, rfl, Or.inl rfl⟩
          simp [htaken]
        · have hbefore : done = pre ++ r :: post := by
            rw [List.concat_eq_append, ← List.cons_append, ← List.append_assoc] at hdone
            exact (List.append_inj' hdone rfl).1
          rcases hs _ hcycle pre r post hbefore htaken with hstored | ⟨-, hat⟩
          · exact Or.inl hstored
          · exact absurd hat.polling hidle
    next => cases hstep
  | webhook rel =>
    cases hstep
    exact hs.keep (Or.inl rfl) (fun _ => id) fun rel hat => Or.inl hat.arrive
  | advance i =>
    obtain ⟨h, hi, hstep⟩ := Option.bind_eq_some_iff.mp hstep
    exact inOrder_advance hs hi (advance_cases hstep)
  | fail i =>
    obtain ⟨h, hi, hstep⟩ := Option.bind_eq_some_iff.mp hstep
    exact inOrder_fail hs hi hstep
  | restart =>
    cases hstep
    exact hs.keep (Or.inr rfl) (fun _ => id) fun _ _ => Or.inr (Or.inr rfl)
  | write a =>
    simp only [step] at hstep
    split at hstep
    next => cases hstep
    next =>
      obtain ⟨db, hdb, rfl⟩ := Option.map_eq_some_iff.mp hstep
      exact hs.keep (Or.inl rfl) (has_step hdb) fun _ hat => Or.inl hat
  | patch tag cliTag sdkTag devnetTag contractsTag =>
    obtain ⟨db, hdb, rfl⟩ := Option.map_eq_some_iff.mp hstep
    exact hs.keep (Or.inl rfl) (fun p hp => Schema.exec_has hdb hp) fun _ hat => Or.inl hat
  | run tag =>
    cases hstep
    exact hs.keep (Or.inl rfl) (fun _ => id) fun _ hat => Or.inl hat

/-- The page at hand is the one that was fetched. -/
theorem page_step {c : Cycle} {a : Act} (hstep : step ch s a = some t) (hc : t.cycle = some c) :
    a = .poll (c.done ++ c.rest) ∨ ∃ d, s.cycle = some d ∧ d.done ++ d.rest = c.done ++ c.rest := by
  cases a with
  | poll page =>
    simp only [step] at hstep
    split at hstep <;> cases hstep
    cases hc
    exact Or.inl rfl
  | next =>
    simp only [step] at hstep
    split at hstep
    next done rel rest hcycle =>
      split at hstep <;> cases hstep
      cases hc
      exact Or.inr ⟨_, hcycle, by simp⟩
    next => cases hstep
  | advance i =>
    obtain ⟨h, hi, hstep⟩ := Option.bind_eq_some_iff.mp hstep
    refine Or.inr ⟨c, ?_, rfl⟩
    cases advance_cases hstep <;> exact hc
  | fail i =>
    obtain ⟨h, hi, hstep⟩ := Option.bind_eq_some_iff.mp hstep
    rw [eq_of_fail hstep] at hc
    by_cases horigin : h.origin = .poll
    · exact absurd hc (by simp [horigin])
    · exact Or.inr ⟨c, by simpa [horigin] using hc, rfl⟩
  | restart =>
    cases hstep
    cases hc
  | write a =>
    simp only [step] at hstep
    split at hstep
    next => cases hstep
    next =>
      obtain ⟨db, -, rfl⟩ := Option.map_eq_some_iff.mp hstep
      exact Or.inr ⟨c, hc, rfl⟩
  | patch tag cliTag sdkTag devnetTag contractsTag =>
    obtain ⟨db, -, rfl⟩ := Option.map_eq_some_iff.mp hstep
    exact Or.inr ⟨c, hc, rfl⟩
  | webhook rel | run tag =>
    cases hstep
    exact Or.inr ⟨c, hc, rfl⟩

/-- A page is gone through in its order, and no release of it is taken up before every CLI release
that is listed above it is stored; when the poller has no release at hand, all that it took up are. -/
theorem pages_in_order (db : Db) (runs : List String) {as : List Act} (h : exec (step ch) (initial db runs) as = some s)
    {c : Cycle} (hc : s.cycle = some c) :
    .poll (c.done ++ c.rest) ∈ as ∧ ∀ pre rel post, c.done = pre ++ rel :: post → taken ch rel = true →
      post ≠ [] ∨ s.polling = false → Stored ch s.db rel := by
  constructor
  · refine exec_history (P := fun as s => ∀ c : Cycle, s.cycle = some c → .poll (c.done ++ c.rest) ∈ as)
      (fun c hc => ?_) (fun as u a t _ hu ht c hc => ?_) h c hc
    · cases hc
    · rcases page_step ht hc with rfl | ⟨d, hd, hpage⟩
      · exact List.mem_append_right _ List.mem_cons_self
      · rw [← hpage]
        exact List.mem_append_left _ (hu d hd)
  · have hinit : InOrder ch (initial db runs) := by
      intro c hc
      cases hc
    have horder : InOrder ch s := exec_invariant (fun _ _ _ => inOrder_step) hinit h
    intro pre rel post hdone htaken hidle
    refine (horder c hc pre rel post hdone htaken).resolve_right ?_
    rintro ⟨hpost, hat⟩
    rcases hidle with hne | hidle
    · exact hne hpost
    · rw [hat.polling] at hidle
      cases hidle

/-- A page with two releases, of which the second is at hand. -/
theorem pages_in_order_two : ∃ s, exec (step .ascii) (initial emptyDb [])
      [.poll [cli35, cli36], .next, .advance 0, .advance 0, .next] = some s ∧ Stored .ascii s.db cli35 := by
  have hrun : (exec (step .ascii) (initial emptyDb []) [.poll [cli35, cli36], .next, .advance 0, .advance 0, .next]).map
      State.cycle = some (some ⟨[cli35, cli36], []⟩) := by decide +kernel
  obtain ⟨s, hs, hcycle⟩ := Option.map_eq_some_iff.mp hrun
  have htaken : taken .ascii cli35 = true := by decide +kernel
  exact ⟨s, hs, (pages_in_order emptyDb [] hs hcycle).2 [] cli35 [cli36] rfl htaken (Or.inl (List.cons_ne_nil _ _))⟩

end Pages
end ReleaseValidation.GithubWatcher.CliReleases
