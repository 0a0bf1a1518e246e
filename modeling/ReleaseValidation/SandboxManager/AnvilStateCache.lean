import ReleaseValidation.Foundations.Files
import ReleaseValidation.Foundations.Parties
import ReleaseValidation.Foundations.Runs

/-! # The cached chain state of Anvil

A save writes the dump of the chain and then the addresses of its contracts, each into
a temporary file that replaces the published one. Both temporary names belong to the
cache key, not to the save, and nothing keeps two saves apart. A lookup finds the two
published files one after the other and reads the addresses; Anvil loads the other.
-/
namespace ReleaseValidation.SandboxManager.AnvilStateCache
open Files Parties Runs

/-- The files of one cache key. -/
inductive CacheFile
  /-- `{key}.state.json` -/
  | state
  /-- `{key}.addresses.json` -/
  | addrs
  /-- `{key}.state.json.tmp` -/
  | stateTmp
  /-- `{key}.addresses.json.tmp` -/
  | addrsTmp
  deriving DecidableEq, Repr

/-- How far a call of `_anvil_cache_save_sync` has come. -/
inductive SavePhase
  | dumping
  /-- The first temporary file is open, and `off` of its bytes are written. -/
  | writingState (node off : ℕ)
  | stateReplaced
  | writingAddrs (node off : ℕ)
  | saved
  /-- It has raised, or its process has ended. -/
  | stopped
  deriving DecidableEq, Repr

/-- How far a call of `_anvil_cache_lookup_sync` has come. -/
inductive LookupPhase (β : Type)
  | started
  | stateSeen
  | addrsSeen
  /-- The sidecar is open, and `text` has been read from it. -/
  | reading (node : ℕ) (text : List β)
  | hit (text : List β)
  | miss
  deriving DecidableEq, Repr

inductive Task (β : Type)
  /-- A save of the dump `stateJson` with the addresses `addrsJson`. -/
  | save (stateJson addrsJson : List β) (phase : SavePhase)
  | lookup (phase : LookupPhase β)
  deriving DecidableEq, Repr

structure State (β : Type) where
  dir : Dir CacheFile β
  tasks : List (Task β)
  /-- The save that was the last to replace the state file. -/
  stateBy : Option ℕ
  /-- The save that was the last to replace the sidecar. -/
  addrsBy : Option ℕ

def initial {β : Type} : State β := ⟨.empty, [], none, none⟩

inductive Act (β : Type)
  | save (stateJson addrsJson : List β)
  | lookup
  | openState (i : ℕ)
  /-- Up to `n` more bytes reach the file. -/
  | writeState (i n : ℕ)
  | replaceState (i : ℕ)
  | openAddrs (i : ℕ)
  | writeAddrs (i n : ℕ)
  | replaceAddrs (i : ℕ)
  | checkState (i : ℕ)
  | checkAddrs (i : ℕ)
  | openSidecar (i : ℕ)
  | readSidecar (i n : ℕ)
  /-- The end of the sidecar is reached; its text is parsed, and the lookup returns. -/
  | answer (i : ℕ)
  /-- An error, or the end of the process. -/
  | stop (i : ℕ)
  deriving DecidableEq, Repr

namespace Task
variable {β : Type}

/-- It has opened a temporary file and neither published the sidecar nor stopped. -/
def inProgress : Task β → Bool
  | save _ _ (.writingState ..) | save _ _ .stateReplaced | save _ _ (.writingAddrs ..) => true
  | _ => false

/-- It has the sidecar open. -/
def reading : Task β → Bool
  | lookup (.reading ..) => true
  | _ => false

end Task

variable {β : Type}

/-- The task at position `i` goes on as `t`, leaving the directory as `dir`. -/
def State.move (s : State β) (i : ℕ) (t : Task β) (dir : Dir CacheFile β) : State β :=
  { s with dir := dir, tasks := s.tasks.set i t }

/-- `readable` tells whether a sidecar parses as a document with the token addresses. -/
def step [Inhabited β] (readable : List β → Bool) (s : State β) : Act β → Option (State β)
  | .save st ad => some { s with tasks := s.tasks ++ [.save st ad .dumping] }
  | .lookup => some { s with tasks := s.tasks ++ [.lookup .started] }
  | .openState i =>
    match s.tasks[i]? with
    | some (.save st ad .dumping) =>
      some (s.move i (.save st ad (.writingState (s.dir.node .stateTmp) 0)) (s.dir.openTrunc .stateTmp))
    | _ => none
  | .writeState i n =>
    match s.tasks[i]? with
    | some (.save st ad (.writingState node off)) =>
      some (s.move i (.save st ad (.writingState node (min (off + n) st.length)))
        (s.dir.write node off ((st.drop off).take n)))
    | _ => none
  | .replaceState i =>
    match s.tasks[i]? with
    | some (.save st ad (.writingState _ off)) =>
      if off = st.length then
        (s.dir.replace .stateTmp .state).map fun dir =>
          { s.move i (.save st ad .stateReplaced) dir with stateBy := some i }
      else none
    | _ => none
  | .openAddrs i =>
    match s.tasks[i]? with
    | some (.save st ad .stateReplaced) =>
      some (s.move i (.save st ad (.writingAddrs (s.dir.node .addrsTmp) 0)) (s.dir.openTrunc .addrsTmp))
    | _ => none
  | .writeAddrs i n =>
    match s.tasks[i]? with
    | some (.save st ad (.writingAddrs node off)) =>
      some (s.move i (.save st ad (.writingAddrs node (min (off + n) ad.length)))
        (s.dir.write node off ((ad.drop off).take n)))
    | _ => none
  | .replaceAddrs i =>
    match s.tasks[i]? with
    | some (.save st ad (.writingAddrs _ off)) =>
      if off = ad.length then
        (s.dir.replace .addrsTmp .addrs).map fun dir =>
          { s.move i (.save st ad .saved) dir with addrsBy := some i }
      else none
    | _ => none
  | .checkState i =>
    match s.tasks[i]? with
    | some (.lookup .started) =>
      some (s.move i (.lookup (if (s.dir.entries .state).isSome then .stateSeen else .miss)) s.dir)
    | _ => none
  | .checkAddrs i =>
    match s.tasks[i]? with
    | some (.lookup .stateSeen) =>
      some (s.move i (.lookup (if (s.dir.entries .addrs).isSome then .addrsSeen else .miss)) s.dir)
    | _ => none
  | .openSidecar i =>
    match s.tasks[i]?, s.dir.entries .addrs with
    | some (.lookup .addrsSeen), some node => some (s.move i (.lookup (.reading node [])) s.dir)
    | some (.lookup .addrsSeen), none => some (s.move i (.lookup .miss) s.dir)
    | _, _ => none
  | .readSidecar i n =>
    match s.tasks[i]? with
    | some (.lookup (.reading node text)) =>
      let more := ((s.dir.contents node).drop text.length).take n
      some (s.move i (.lookup (.reading node (text ++ more))) s.dir)
    | _ => none
  | .answer i =>
    match s.tasks[i]? with
    | some (.lookup (.reading node text)) =>
      if (s.dir.contents node).length ≤ text.length then
        some (s.move i (.lookup (if readable text then .hit text else .miss)) s.dir)
      else none
    | _ => none
  | .stop i =>
    match s.tasks[i]? with
    | some (.save _ _ .saved) | some (.lookup (.hit _)) | none => none
    | some (.save st ad _) => some (s.move i (.save st ad .stopped) s.dir)
    | some (.lookup _) => some (s.move i (.lookup .miss) s.dir)

/-- A lookup that reports a hit finds in place the state file of the very save that wrote
the sidecar it returns. -/
def Paired (_ : State β) (a : Act β) (t : State β) : Prop :=
  ∀ i text, a = .answer i → t.tasks[i]? = some (.lookup (.hit text)) →
    ∃ (k : ℕ) (st : List β), t.tasks[k]? = some (.save st text .saved) ∧ t.dir.file .state = some st

/-- No save opens its first temporary file while another one is in progress, no lookup
opens the sidecar when the state file has been replaced without it, and no save replaces
the state file while a lookup has the sidecar open. -/
def Apart (s : State β) : Act β → State β → Prop
  | .openState _, _ => ∀ t ∈ s.tasks, t.inProgress = false
  | .openSidecar _, _ => s.stateBy = s.addrsBy
  | .replaceState _, _ => ∀ t ∈ s.tasks, t.reading = false
  | _, _ => True

instance (s : State β) (a : Act β) (t : State β) : Decidable (Apart s a t) := by
  unfold Apart
  split <;> infer_instance

/-! ### What holds between two steps -/

/-- What the task at position `i` counts on. -/
def State.Holds (s : State β) (i : ℕ) : Task β → Prop
  | .save st _ (.writingState node off) =>
    s.dir.entries .stateTmp = some node ∧ off ≤ st.length ∧ s.dir.contents node = st.take off
  | .save _ _ .stateReplaced => s.stateBy = some i
  | .save _ ad (.writingAddrs node off) =>
    s.stateBy = some i ∧ s.dir.entries .addrsTmp = some node ∧ off ≤ ad.length ∧ s.dir.contents node = ad.take off
  | .lookup (.reading node text) =>
    s.stateBy = s.addrsBy ∧ s.dir.entries .addrs = some node ∧ text <+: s.dir.contents node
  | _ => True

/-- One save is in progress at most, and the published files are those of the saves that
replaced them. -/
structure Settled (s : State β) : Prop where
  single : AtMostOne (fun t : Task β => t.inProgress = true) s.tasks
  each : Each s.Holds s.tasks
  state : ∀ k, s.stateBy = some k → ∃ st ad phase, s.tasks[k]? = some (.save st ad phase) ∧ s.dir.file .state = some st
  addrs : ∀ k, s.addrsBy = some k → ∃ st ad, s.tasks[k]? = some (.save st ad .saved) ∧ s.dir.file .addrs = some ad
  sidecar : s.addrsBy = none → s.dir.entries .addrs = none

theorem settled_initial : Settled (initial : State β) where
  single _ _ _ _ h := by simp [initial] at h
  each _ _ h := by simp [initial] at h
  state _ h := by cases h
  addrs _ h := by cases h
  sidecar _ := rfl

section Steps
variable {s t : State β} {i : ℕ}

theorem settled_append (hs : Settled s) {new : Task β} (hnew : new.inProgress = false)
    (hholds : s.Holds s.tasks.length new) : Settled { s with tasks := s.tasks ++ [new] } where
  single := hs.single.append (by rw [hnew]; exact nofun)
  each := hs.each.append hholds fun _ _ _ h => h
  state k hk := by
    obtain ⟨st, ad, phase, hget, hfile⟩ := hs.state k hk
    exact ⟨st, ad, phase, getElem?_append_of_some hget, hfile⟩
  addrs k hk := by
    obtain ⟨st, ad, hget, hfile⟩ := hs.addrs k hk
    exact ⟨st, ad, getElem?_append_of_some hget, hfile⟩
  sidecar := hs.sidecar

/-- The task remains the save that it was, and a finished one remains finished. -/
def Task.Continues : Task β → Task β → Prop
  | save st ad phase, save st' ad' phase' => st = st' ∧ ad = ad' ∧ (phase = .saved → phase' = .saved)
  | save .., lookup _ => False
  | lookup _, _ => True

/-- The published files are what they were. -/
structure SamePublished (d d' : Dir CacheFile β) : Prop where
  state : d'.file .state = d.file .state
  addrs : d'.file .addrs = d.file .addrs
  entry : d'.entries .addrs = d.entries .addrs
  contents : ∀ node, d.entries .addrs = some node → d'.contents node = d.contents node

theorem SamePublished.refl (d : Dir CacheFile β) : SamePublished d d := ⟨rfl, rfl, rfl, fun _ _ => rfl⟩

theorem samePublished_openTrunc (d : Dir CacheFile β) {p : CacheFile} (hstate : .state ≠ p) (haddrs : .addrs ≠ p) :
    SamePublished d (d.openTrunc p) where
  state := Dir.openTrunc_file hstate
  addrs := Dir.openTrunc_file haddrs
  entry := Dir.openTrunc_entries haddrs
  contents _ h := Dir.openTrunc_contents h haddrs

theorem samePublished_write [Inhabited β] {d : Dir CacheFile β} {p : CacheFile} {node off : ℕ} {bs : List β}
    (hnode : d.entries p = some node) (hstate : .state ≠ p) (haddrs : .addrs ≠ p) :
    SamePublished d (d.write node off bs) where
  state := Dir.write_file hnode hstate
  addrs := Dir.write_file hnode haddrs
  entry := rfl
  contents _ h := Dir.write_contents_of_entries hnode h haddrs

/-- What a task that is not in progress counts on is left to it by the others. -/
theorem Holds.idle {dir : Dir CacheFile β} (hdir : SamePublished s.dir dir) {j : ℕ} {u : Task β} (tasks : List (Task β))
    (hu : u.inProgress = false) (h : s.Holds j u) : State.Holds { s with dir := dir, tasks := tasks } j u := by
  match u, hu, h with
  | .save _ _ .dumping, _, _ | .save _ _ .saved, _, _ | .save _ _ .stopped, _, _ => trivial
  | .lookup (.reading node text), _, ⟨hby, hnode, htext⟩ =>
    refine ⟨hby, hdir.entry.trans hnode, ?_⟩
    rw [hdir.contents node hnode]
    exact htext
  | .lookup .started, _, _ | .lookup .stateSeen, _, _ | .lookup .addrsSeen, _, _ => trivial
  | .lookup (.hit _), _, _ | .lookup .miss, _, _ => trivial

theorem settled_move (hs : Settled s) {old new : Task β} {dir : Dir CacheFile β} (hi : s.tasks[i]? = some old)
    (hcont : old.Continues new) (hdir : SamePublished s.dir dir)
    (halone : new.inProgress = true → ∀ j u, j ≠ i → s.tasks[j]? = some u → ¬ u.inProgress = true)
    (hothers : ∀ j u, j ≠ i → s.tasks[j]? = some u → s.Holds j u → (s.move i new dir).Holds j u)
    (hholds : (s.move i new dir).Holds i new) : Settled (s.move i new dir) where
  single := hs.single.set halone
  each := hs.each.set hholds hothers
  state k hk := by
    obtain ⟨st, ad, phase, hget, hfile⟩ := hs.state k hk
    by_cases hki : k = i
    · subst hki
      cases hi.symm.trans hget
      match new, hcont with
      | .save _ _ phase', ⟨rfl, rfl, _⟩ =>
        exact ⟨st, ad, phase', getElem?_set_of_some hget, hdir.state.trans hfile⟩
    · exact ⟨st, ad, phase, (List.getElem?_set_ne (Ne.symm hki)).trans hget, hdir.state.trans hfile⟩
  addrs k hk := by
    obtain ⟨st, ad, hget, hfile⟩ := hs.addrs k hk
    by_cases hki : k = i
    · subst hki
      cases hi.symm.trans hget
      match new, hcont with
      | .save _ _ phase', ⟨rfl, rfl, hsaved⟩ =>
        cases hsaved rfl
        exact ⟨st, ad, getElem?_set_of_some hget, hdir.addrs.trans hfile⟩
    · exact ⟨st, ad, (List.getElem?_set_ne (Ne.symm hki)).trans hget, hdir.addrs.trans hfile⟩
  sidecar h := hdir.entry.trans (hs.sidecar h)

/-- A step that leaves the directory alone. -/
theorem settled_keep (hs : Settled s) {old new : Task β} (hi : s.tasks[i]? = some old) (hcont : old.Continues new)
    (hnew : new.inProgress = false) (hholds : s.Holds i new) : Settled (s.move i new s.dir) := by
  refine settled_move hs hi hcont (.refl _) ?_ (fun _ _ _ _ h => h) hholds
  rw [hnew]
  exact nofun

/-- A step of a save on one of the temporary files. -/
theorem settled_temporary (hs : Settled s) {old new : Task β} {dir : Dir CacheFile β} (hi : s.tasks[i]? = some old)
    (hcont : old.Continues new) (hdir : SamePublished s.dir dir)
    (halone : ∀ j u, j ≠ i → s.tasks[j]? = some u → ¬ u.inProgress = true)
    (hholds : (s.move i new dir).Holds i new) : Settled (s.move i new dir) := by
  refine settled_move hs hi hcont hdir (fun _ => halone) ?_ hholds
  intro j u hne hj hu
  exact Holds.idle hdir _ (eq_false_of_ne_true (halone j u hne hj)) hu

/-- While a save is between its two replacements, the sidecar is not its own. -/
theorem Settled.addrsBy_ne (hs : Settled s) {st ad : List β} {phase : SavePhase}
    (hi : s.tasks[i]? = some (.save st ad phase)) (hphase : phase ≠ .saved) : s.addrsBy ≠ some i := by
  intro hby
  obtain ⟨st', ad', hget, -⟩ := hs.addrs i hby
  cases hi.symm.trans hget
  exact hphase rfl

theorem settled_replaceState (hs : Settled s) {st ad : List β} {node : ℕ}
    (hi : s.tasks[i]? = some (.save st ad (.writingState node st.length)))
    (hnoread : ∀ u ∈ s.tasks, u.reading = false) :
    Settled { s.move i (.save st ad .stateReplaced) (s.dir.relink .stateTmp .state) with stateBy := some i } where
  single := by
    apply hs.single.set
    intro _ j u hne hj
    exact hs.single.other hi rfl hj hne
  each := by
    refine hs.each.set rfl ?_
    intro j u hne hj hu
    have hidle := hs.single.other hi rfl hj hne
    have hread := hnoread u (List.mem_of_getElem? hj)
    match u, hidle, hread with
    | .save _ _ .dumping, _, _ | .save _ _ .saved, _, _ | .save _ _ .stopped, _, _ => trivial
    | .lookup .started, _, _ | .lookup .stateSeen, _, _ | .lookup .addrsSeen, _, _ => trivial
    | .lookup (.hit _), _, _ | .lookup .miss, _, _ => trivial
  state k hk := by
    cases hk
    obtain ⟨hnode, -, hwritten⟩ := hs.each i _ hi
    refine ⟨st, ad, _, getElem?_set_of_some hi, ?_⟩
    refine Dir.relink_file_self.trans (Dir.file_eq_some.mpr ⟨node, hnode, ?_⟩)
    rw [hwritten, List.take_length]
  addrs k hk := by
    obtain ⟨st', ad', hget, hfile⟩ := hs.addrs k hk
    have hki : i ≠ k := by
      rintro rfl
      exact hs.addrsBy_ne hi nofun hk
    exact ⟨st', ad', (List.getElem?_set_ne hki).trans hget, (Dir.relink_file (by decide) (by decide)).trans hfile⟩
  sidecar h := (Dir.relink_entries (by decide) (by decide)).trans (hs.sidecar h)

theorem settled_replaceAddrs (hs : Settled s) {st ad : List β} {node : ℕ}
    (hi : s.tasks[i]? = some (.save st ad (.writingAddrs node ad.length))) :
    Settled { s.move i (.save st ad .saved) (s.dir.relink .addrsTmp .addrs) with addrsBy := some i } where
  single := hs.single.set nofun
  each := by
    obtain ⟨hby, -⟩ := hs.each i _ hi
    refine hs.each.set trivial ?_
    intro j u hne hj hu
    have hidle := hs.single.other hi rfl hj hne
    match u, hidle, hu with
    | .save _ _ .dumping, _, _ | .save _ _ .saved, _, _ | .save _ _ .stopped, _, _ => trivial
    | .lookup (.reading ..), _, ⟨heq, _⟩ =>
      -- the state file is this save's already, and the sidecar is not
      exact absurd (heq.symm.trans hby) (hs.addrsBy_ne hi nofun)
    | .lookup .started, _, _ | .lookup .stateSeen, _, _ | .lookup .addrsSeen, _, _ => trivial
    | .lookup (.hit _), _, _ | .lookup .miss, _, _ => trivial
  state k hk := by
    obtain ⟨hby, -⟩ := hs.each i _ hi
    cases hby.symm.trans hk
    obtain ⟨st', ad', phase, hget, hfile⟩ := hs.state i hby
    cases hi.symm.trans hget
    exact ⟨st, ad, _, getElem?_set_of_some hi, (Dir.relink_file (by decide) (by decide)).trans hfile⟩
  addrs k hk := by
    cases hk
    obtain ⟨-, hnode, -, hwritten⟩ := hs.each i _ hi
    refine ⟨st, ad, getElem?_set_of_some hi, ?_⟩
    refine Dir.relink_file_self.trans (Dir.file_eq_some.mpr ⟨node, hnode, ?_⟩)
    rw [hwritten, List.take_length]
  sidecar h := by cases h

variable [Inhabited β] {readable : List β → Bool} {a : Act β}

theorem step_settled (h : step readable s a = some t) (hs : Settled s) (ha : Apart s a t) : Settled t := by
  cases a with
  | save st ad => cases h; exact settled_append hs rfl trivial
  | lookup => cases h; exact settled_append hs rfl trivial
  | openState i =>
    simp only [step] at h
    split at h
    next st ad hi =>
      cases h
      refine settled_temporary hs hi ⟨rfl, rfl, nofun⟩ (samePublished_openTrunc _ (by decide) (by decide)) ?_ ?_
      · intro j u _ hj
        rw [ha u (List.mem_of_getElem? hj)]
        exact nofun
      · exact ⟨Dir.openTrunc_entries_self, Nat.zero_le _, Dir.openTrunc_contents_self⟩
    · cases h
  | writeState i n =>
    simp only [step] at h
    split at h
    next st ad node off hi =>
      cases h
      obtain ⟨hnode, hoff, hwritten⟩ := hs.each i _ hi
      refine settled_temporary hs hi ⟨rfl, rfl, nofun⟩ (samePublished_write hnode (by decide) (by decide)) ?_ ?_
      · exact fun j u hne hj => hs.single.other hi rfl hj hne
      · refine ⟨hnode, Nat.min_le_right _ _, ?_⟩
        exact (Dir.write_take hwritten hoff).trans List.take_eq_take_min
    · cases h
  | replaceState i =>
    simp only [step] at h
    split at h
    next st ad node off hi =>
      split at h
      next hoff =>
        obtain ⟨dir, hdir, rfl⟩ := Option.map_eq_some_iff.mp h
        obtain ⟨-, rfl⟩ := Dir.replace_eq_some.mp hdir
        subst hoff
        exact settled_replaceState hs hi ha
      · cases h
    · cases h
  | openAddrs i =>
    simp only [step] at h
    split at h
    next st ad hi =>
      cases h
      have hby : s.stateBy = some i := hs.each i _ hi
      refine settled_temporary hs hi ⟨rfl, rfl, nofun⟩ (samePublished_openTrunc _ (by decide) (by decide)) ?_ ?_
      · exact fun j u hne hj => hs.single.other hi rfl hj hne
      · exact ⟨hby, Dir.openTrunc_entries_self, Nat.zero_le _, Dir.openTrunc_contents_self⟩
    · cases h
  | writeAddrs i n =>
    simp only [step] at h
    split at h
    next st ad node off hi =>
      cases h
      obtain ⟨hby, hnode, hoff, hwritten⟩ := hs.each i _ hi
      refine settled_temporary hs hi ⟨rfl, rfl, nofun⟩ (samePublished_write hnode (by decide) (by decide)) ?_ ?_
      · exact fun j u hne hj => hs.single.other hi rfl hj hne
      · refine ⟨hby, hnode, Nat.min_le_right _ _, ?_⟩
        exact (Dir.write_take hwritten hoff).trans List.take_eq_take_min
    · cases h
  | replaceAddrs i =>
    simp only [step] at h
    split at h
    next st ad node off hi =>
      split at h
      next hoff =>
        obtain ⟨dir, hdir, rfl⟩ := Option.map_eq_some_iff.mp h
        obtain ⟨-, rfl⟩ := Dir.replace_eq_some.mp hdir
        subst hoff
        exact settled_replaceAddrs hs hi
      · cases h
    · cases h
  | checkState i =>
    simp only [step] at h
    split at h
    next hi =>
      cases h
      split
      · exact settled_keep hs hi trivial rfl trivial
      · exact settled_keep hs hi trivial rfl trivial
    · cases h
  | checkAddrs i =>
    simp only [step] at h
    split at h
    next hi =>
      cases h
      split
      · exact settled_keep hs hi trivial rfl trivial
      · exact settled_keep hs hi trivial rfl trivial
    · cases h
  | openSidecar i =>
    simp only [step] at h
    split at h
    next node hi hnode =>
      cases h
      exact settled_keep hs hi trivial rfl ⟨ha, hnode, List.nil_prefix⟩
    next hi _ =>
      cases h
      exact settled_keep hs hi trivial rfl trivial
    · cases h
  | readSidecar i n =>
    simp only [step] at h
    split at h
    next node text hi =>
      cases h
      obtain ⟨hby, hnode, rest, hrest⟩ := hs.each i _ hi
      refine settled_keep hs hi trivial rfl ⟨hby, hnode, ?_⟩
      rw [← hrest, List.drop_left]
      exact List.prefix_append_right_inj text |>.mpr (List.take_prefix n rest)
    · cases h
  | answer i =>
    simp only [step] at h
    split at h
    next node text hi =>
      split at h
      · cases h
        split
        · exact settled_keep hs hi trivial rfl trivial
        · exact settled_keep hs hi trivial rfl trivial
      · cases h
    · cases h
  | stop i =>
    simp only [step] at h
    split at h
    · cases h
    · cases h
    · cases h
    next st ad phase hne hi =>
      cases h
      exact settled_keep hs hi ⟨rfl, rfl, fun hsaved => (hne hsaved).elim⟩ rfl trivial
    next hi =>
      cases h
      exact settled_keep hs hi trivial rfl trivial

/-- The sidecar that a lookup has read to its end is the published one, whole. -/
theorem step_paired (h : step readable s a = some t) (hs : Settled s) : Paired s a t := by
  rintro i text rfl hhit
  simp only [step] at h
  split at h
  next node read hi =>
    split at h
    next hend =>
      cases h
      obtain ⟨hby, hnode, htext⟩ := hs.each i _ hi
      have hread : read = s.dir.contents node := htext.eq_of_length_le hend
      have hanswer := hhit.symm.trans (getElem?_set_of_some hi)
      have hsidecar : ∃ k, s.addrsBy = some k := by
        rw [← Option.isSome_iff_exists, ← Option.ne_none_iff_isSome]
        intro hnone
        cases (hs.sidecar hnone).symm.trans hnode
      obtain ⟨k, hk⟩ := hsidecar
      obtain ⟨st, ad, phase, hsave, hstate⟩ := hs.state k (hby.trans hk)
      obtain ⟨st', ad', hsave', haddrs⟩ := hs.addrs k hk
      cases hsave.symm.trans hsave'
      have hne : i ≠ k := by
        rintro rfl
        cases hi.symm.trans hsave
      obtain ⟨node', hnode', hcontents⟩ := Dir.file_eq_some.mp haddrs
      cases hnode.symm.trans hnode'
      split at hanswer
      · cases hanswer
        refine ⟨k, st, ?_, hstate⟩
        rw [hread, hcontents]
        exact (List.getElem?_set_ne hne).trans hsave
      · cases hanswer
    · cases h
  · cases h

end Steps

/-- In every run whose steps keep apart, what a lookup reports as a hit was written by one save. -/
theorem hits_paired [Inhabited β] (readable : List β → Bool) {as : List (Act β)}
    (h : Always (step readable) Apart initial as) : Always (step readable) Paired initial as := by
  refine always_of_invariant ?_ settled_initial h
  intro s a t hs ht ha
  exact ⟨step_paired ht hs, step_settled ht hs ha⟩

/-- A save at position `i`, from its first file to its last. -/
def saveActs (i n m : ℕ) : List (Act ℕ) :=
  [.openState i, .writeState i n, .replaceState i, .openAddrs i, .writeAddrs i m, .replaceAddrs i]

/-- A lookup at position `i` that finds both files, up to its return. -/
def readActs (i n : ℕ) : List (Act ℕ) := [.checkState i, .checkAddrs i, .openSidecar i, .readSidecar i n]

/-- A lookup after a save. -/
def savedThenRead : List (Act ℕ) :=
  .save [10, 11] [12] :: saveActs 0 2 1 ++ .lookup :: readActs 1 1 ++ [.answer 1]

theorem hits_paired_saved :
    (exec (step fun _ => true) initial savedThenRead).map (fun s => s.tasks[1]?) =
        some (some (.lookup (.hit [12]))) ∧
      Always (step fun _ => true) Paired initial savedThenRead :=
  ⟨by decide +kernel, hits_paired _ (by decide +kernel)⟩

/-- A save follows each of two misses, and the second save stops after its state file. -/
def stoppedThenRead : List (Act ℕ) :=
  [.lookup, .checkState 0, .lookup, .checkState 1, .save [10, 11] [12], .save [20, 21] [22]] ++
    saveActs 2 2 1 ++ [.openState 3, .writeState 3 2, .replaceState 3, .stop 3, .lookup] ++ readActs 4 1

theorem hit_mixed : ¬ Always (step fun _ => true) Paired initial (stoppedThenRead ++ [.answer 4]) := by
  intro h
  obtain ⟨t, ht⟩ := Option.isSome_iff_exists.mp
    (show (exec (step fun _ => true) initial (stoppedThenRead ++ [.answer 4])).isSome = true by decide +kernel)
  have hstate : (exec (step fun _ => true) initial (stoppedThenRead ++ [.answer 4])).map
      (fun t => (t.tasks[4]?, t.dir.file .state, t.tasks.all (fun task => task ≠ .save [20, 21] [12] .saved))) =
        some (some (.lookup (.hit [12])), some [20, 21], true) := by decide +kernel
  rw [ht, Option.map_some, Option.some_inj, Prod.mk.injEq, Prod.mk.injEq] at hstate
  obtain ⟨hhit, hfile, hnone⟩ := hstate
  obtain ⟨u, hu, hstep⟩ := exec_snoc_iff.mp ht
  obtain ⟨k, st, hsave, hst⟩ := h.at hu hstep 4 [12] rfl hhit
  cases hfile.symm.trans hst
  have hne := List.all_eq_true.mp hnone _ (List.mem_of_getElem? hsave)
  exact absurd hne (by decide)

end ReleaseValidation.SandboxManager.AnvilStateCache
