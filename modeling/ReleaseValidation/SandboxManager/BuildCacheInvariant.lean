import ReleaseValidation.SandboxManager.BuildCache

/-! # What careful provisionings keep of the build cache

A save that fails leaves its volume behind, and the next lookup takes it for a hit. The
fallback can select a volume before it is filled, a copy whose source is gone runs on an
empty one, and the commit that is cloned need not be the one in the key. The invariant
of the runs without such steps says of every cache volume whose build it holds, or who
is saving it.
-/
namespace ReleaseValidation.SandboxManager.BuildCache
open Parties Runs Tables

variable (hash : String → String)

/-- The source of the job is there. A build without a commit is not saved, and may be empty. -/
def State.sourceThere (s : State) (t : Task) (job : Job) : Bool :=
  (decide (job = .load) && t.sha.isNone) || (s.source t job).isSome

/-- No two builds share a key, a clone is of the resolved commit, a build is loaded into
a volume that holds nothing else, a copy starts and ends with its source in place, the
fallback selects no volume that is being saved, and no save fails before its volume is
filled. -/
def State.Careful (s : State) (t : Task) : Event → Prop
  | .resolve (some c) => ∀ u ∈ s.tasks, ∀ b ∈ u.build,
      cacheKey hash b = cacheKey hash ⟨t.request.url, t.request.cli, c⟩ → b = ⟨t.request.url, t.request.cli, c⟩
  | .fallback (some key) => ∀ u ∈ s.tasks, u.saving = true → u.key hash ≠ some key
  | .clone head => ∀ c ∈ t.sha, head = c
  | .create _ => t.phase = .filling .load .creating → ∀ b ∈ t.build, ∀ v ∈ s.volumes.lookup (.snapshot t.short),
      v.contents = .empty ∨ v.contents = .whole b
  | .start =>
    match t.phase with
    | .filling job .starting => s.sourceThere t job = true
    | _ => True
  | .finish =>
    match t.phase with
    | .filling job (.copying ..) => s.sourceThere t job = true
    | _ => True
  | .fail _ => t.saving = true → ∀ b ∈ t.build, ∀ v ∈ s.volumes.lookup (.cache (cacheKey hash b)), v.contents = .whole b
  | _ => True

/-- The sandboxes in progress differ in the first characters of their identifiers, and
the applications in the hashes of their addresses; the steps of each are careful. -/
def CarefulStep (s : State) : Act → State → Prop
  | .begin r, _ =>
    (∀ u ∈ s.tasks, u.inProgress = true → u.short ≠ GarbageCollector.short r.sandboxId) ∧
      ∀ u ∈ s.tasks, hash u.request.url = hash r.url → u.request.url = r.url
  | .at i e, _ => ∀ t ∈ s.tasks[i]?, s.Careful hash t e
  | _, _ => True

instance (s : State) (t : Task) (e : Event) : Decidable (s.Careful hash t e) := by
  unfold State.Careful
  split <;> try infer_instance
  all_goals split <;> infer_instance

instance (s : State) (a : Act) (s' : State) : Decidable (CarefulStep hash s a s') := by
  unfold CarefulStep
  split <;> infer_instance

/-! ### What holds between two steps -/

namespace State

def Known (s : State) (b : Build) : Prop := ∃ t ∈ s.tasks, t.build = some b

/-- The volume is for `b`, and holds it unless `b` is being saved. -/
structure Backed (s : State) (key : String) (v : Volume) (b : Build) : Prop where
  known : s.Known b
  key : cacheKey hash b = key
  labels : ∀ l ∈ v.labels, l.appUrlHash = hash b.url ∧ l.cliVersion = b.cli
  contents : v.contents = .whole b ∨ ∃ t ∈ s.tasks, t.build = some b ∧ t.saving = true

/-- The volume `dst` is being filled with `b` by the task at position `i`. -/
def Fills (s : State) (i : ℕ) (b : Build) (dst : VolumeName) : FillStep → Prop
  | .starting => ∀ v ∈ s.volumes.lookup dst, v.contents = .empty ∨ v.contents = .whole b
  | .copying before seen =>
    (before = .empty ∨ before = .whole b) ∧ seen = .whole b ∧
      ∀ v ∈ s.volumes.lookup dst, v.contents = .unfinished i
  | _ => True

/-- What the task at position `i` counts on, once its commit is resolved. -/
def Holds (s : State) (i : ℕ) (t : Task) : Prop :=
  ∀ b ∈ t.build,
    match t.phase with
    | .resolving | .fallback => False
    | .compiling => ∀ d ∈ s.dirs.lookup t.short, d.url = b.url ∧ d.commit = b.commit
    | .filling (.restore _) _ => True
    | .filling job st => (∀ c ∈ s.source t job, c = .whole b) ∧ ∀ dst ∈ t.target hash job, s.Fills i b dst st
    | _ => True

end State

structure Sound (s : State) : Prop where
  holders : ∀ key, AtMostOne (fun t => t.holds hash key = true) s.tasks
  shorts : ∀ n, AtMostOne (fun t => t.inProgress = true ∧ t.short = n) s.tasks
  urls : ∀ t ∈ s.tasks, ∀ u ∈ s.tasks, hash t.request.url = hash u.request.url → t.request.url = u.request.url
  keys : ∀ b c, s.Known b → s.Known c → cacheKey hash b = cacheKey hash c → b = c
  each : Each (s.Holds hash) s.tasks
  cached : ∀ key v, s.volumes.lookup (.cache key) = some v → ∃ b, s.Backed hash key v b

theorem sound_initial : Sound hash initial where
  holders _ _ _ _ _ h := by simp [initial] at h
  shorts _ _ _ _ _ h := by simp [initial] at h
  urls _ h := by cases h
  keys _ _ h := by
    obtain ⟨t, ht, -⟩ := h
    cases ht
  each _ _ h := by simp [initial] at h
  cached _ _ h := by simp [initial] at h

variable {hash} {s : State} {i : ℕ} {t : Task} {b : Build}

theorem Task.key_of_build (h : b ∈ t.build) : t.key hash = some (cacheKey hash b) := by
  rw [Task.key, Option.mem_def.mp h, Option.map_some]

theorem Task.build_of_key {key : String} (h : t.key hash = some key) :
    ∃ b ∈ t.build, cacheKey hash b = key :=
  Option.map_eq_some_iff.mp h

theorem Task.mem_build : b ∈ t.build ↔ b.url = t.request.url ∧ b.cli = t.request.cli ∧ t.sha = some b.commit := by
  unfold Task.build
  rw [Option.mem_def, Option.map_eq_some_iff]
  constructor
  · rintro ⟨c, hc, rfl⟩
    exact ⟨rfl, rfl, hc⟩
  · rintro ⟨hurl, hcli, hsha⟩
    exact ⟨b.commit, hsha, by rw [← hurl, ← hcli]⟩

theorem Task.holds_iff {key : String} : t.holds hash key = true ↔ t.locked = true ∧ t.key hash = some key := by
  simp [Task.holds]

theorem Task.locked_of_build (hp : t.phase.isLocked = true) (h : b ∈ t.build) : t.locked = true := by
  rw [Task.locked, hp, (Task.mem_build.mp h).2.2]
  rfl

theorem Task.locked_phase {p : Phase} (hp : t.phase.isLocked = true) (h : Task.locked { t with phase := p } = true) :
    t.locked = true := by
  simp only [Task.locked, Bool.and_eq_true] at h ⊢
  exact ⟨hp, h.2⟩

/-- A save is under the lock of its key. -/
theorem Task.saving_holds (hb : b ∈ t.build) (h : t.saving = true) : t.holds hash (cacheKey hash b) = true := by
  refine Task.holds_iff.mpr ⟨?_, Task.key_of_build hb⟩
  unfold Task.saving at h
  split at h
  next hp => exact Task.locked_of_build (by rw [hp]; rfl) hb
  next hp => exact Task.locked_of_build (by rw [hp]; rfl) hb
  · cases h

/-- The cache volume of a task that holds its lock and is not saving is a whole build. -/
theorem Sound.whole (hs : Sound hash s) (hi : s.tasks[i]? = some t) (hb : b ∈ t.build) (hlocked : t.locked = true)
    (hsaving : t.saving = false) {v : Volume} (hv : s.volumes.lookup (.cache (cacheKey hash b)) = some v) :
    v.contents = .whole b := by
  obtain ⟨c, hback⟩ := hs.cached _ v hv
  have hknown : s.Known b := ⟨t, List.mem_of_getElem? hi, hb⟩
  cases hs.keys c b hback.known hknown hback.key
  rcases hback.contents with h | ⟨u, hu, hbuild, husaving⟩
  · exact h
  · obtain ⟨j, hj⟩ := List.getElem?_of_mem hu
    have ht : t.holds hash (cacheKey hash b) = true := Task.holds_iff.mpr ⟨hlocked, Task.key_of_build hb⟩
    have hij := hs.holders _ i j t u hi hj ht (Task.saving_holds hbuild husaving)
    subst hij
    cases hi.symm.trans hj
    cases hsaving.symm.trans husaving

theorem Sound.labels (hs : Sound hash s) (hknown : s.Known b) {v : Volume}
    (hv : s.volumes.lookup (.cache (cacheKey hash b)) = some v) :
    ∀ l ∈ v.labels, l.appUrlHash = hash b.url ∧ l.cliVersion = b.cli := by
  obtain ⟨c, hback⟩ := hs.cached _ v hv
  cases hs.keys c b hback.known hknown hback.key
  exact hback.labels

/-! ### A step of one task -/

theorem source_stays {volumes : Table VolumeName Volume} {dirs : Table String BuildDir} {tasks : List Task}
    {job : Job} (hjob : ∀ key, job ≠ .restore key) (hdirs : Stays s.dirs dirs t.short)
    (hsnap : job = .save → Stays s.volumes volumes (.snapshot t.short)) {c : Contents}
    (hc : c ∈ State.source ⟨volumes, dirs, tasks⟩ t job) : c ∈ s.source t job := by
  cases job with
  | restore key => exact absurd rfl (hjob key)
  | load =>
    obtain ⟨image, himage, rfl⟩ := Option.map_eq_some_iff.mp hc
    obtain ⟨d, hd, himage⟩ := Option.bind_eq_some_iff.mp himage
    simp [State.source, hdirs.lookup hd, himage]
  | save =>
    obtain ⟨v, hv, rfl⟩ := Option.map_eq_some_iff.mp hc
    simp [State.source, (hsnap rfl).lookup hv]

/-- The task can only see less of what it counts on. -/
theorem Holds.stays {s' : State} (h : s.Holds hash i t) (hdirs : Stays s.dirs s'.dirs t.short)
    (hsnap : Stays s.volumes s'.volumes (.snapshot t.short))
    (hcache : ∀ key, t.holds hash key = true → Stays s.volumes s'.volumes (.cache key)) : s'.Holds hash i t := by
  intro b hb
  have h := h b hb
  split at h
  · exact h
  · exact h
  next => exact fun d hd => h d (hdirs.lookup hd)
  · trivial
  next job st hjob hp =>
    obtain ⟨hsource, hfill⟩ := h
    refine ⟨fun c hc => hsource c (source_stays hjob hdirs (fun _ => hsnap) hc), ?_⟩
    intro dst hdst
    have hstays : Stays s.volumes s'.volumes dst := by
      cases job with
      | restore key => exact absurd rfl (hjob key)
      | load =>
        cases hdst
        exact hsnap
      | save =>
        obtain ⟨key, hkey, rfl⟩ := Option.map_eq_some_iff.mp hdst
        exact hcache key (Task.holds_iff.mpr ⟨Task.locked_of_build (by rw [hp]; rfl) hb, hkey⟩)
    have hfill := hfill dst hdst
    match st, hfill with
    | .clearing, _ | .creating, _ => trivial
    | .starting, hfill => exact fun v hv => hfill v (hstays.lookup hv)
    | .copying before seen, ⟨hbefore, hseen, hfill⟩ =>
      exact ⟨hbefore, hseen, fun v hv => hfill v (hstays.lookup hv)⟩
  · trivial

theorem Holds.ended (h : t.inProgress = false) : s.Holds hash i t := by
  have hp : t.phase = .ended := by simpa [Task.inProgress] using h
  intro b _
  rw [hp]
  trivial

section Put
variable {new : Task} {volumes : Table VolumeName Volume} {dirs : Table String BuildDir}

theorem mem_set_request (hi : s.tasks[i]? = some t) (hreq : new.request = t.request) {u : Task}
    (hu : u ∈ s.tasks.set i new) : ∃ u' ∈ s.tasks, u'.request = u.request := by
  rcases List.mem_or_eq_of_mem_set hu with hu | rfl
  · exact ⟨u, hu, rfl⟩
  · exact ⟨t, List.mem_of_getElem? hi, hreq.symm⟩

/-- Another task is still there when the one at position `i` has moved. -/
theorem mem_set_of_ne {u : Task} {j : ℕ} (hj : s.tasks[j]? = some u) (hne : j ≠ i) : u ∈ s.tasks.set i new := by
  apply List.mem_of_getElem? (i := j)
  rw [List.getElem?_set_ne (Ne.symm hne)]
  exact hj

theorem mem_set_self (hi : s.tasks[i]? = some t) : new ∈ s.tasks.set i new :=
  List.mem_of_getElem? (getElem?_set_of_some hi)

theorem known_set (hi : s.tasks[i]? = some t) (hbuild : ∀ b ∈ t.build, b ∈ new.build) (h : s.Known b) :
    State.Known ⟨volumes, dirs, s.tasks.set i new⟩ b := by
  obtain ⟨u, hu, hb⟩ := h
  obtain ⟨j, hj⟩ := List.getElem?_of_mem hu
  by_cases hji : j = i
  · subst hji
    cases hi.symm.trans hj
    exact ⟨new, mem_set_self hi, hbuild b hb⟩
  · exact ⟨u, mem_set_of_ne hj hji, hb⟩

theorem known_of_set (h : State.Known ⟨volumes, dirs, s.tasks.set i new⟩ b) : s.Known b ∨ b ∈ new.build := by
  obtain ⟨u, hu, hb⟩ := h
  rcases List.mem_or_eq_of_mem_set hu with hu | rfl
  · exact .inl ⟨u, hu, hb⟩
  · exact .inr hb

/-- The task at position `i` goes on as `new`. It has changed its own directory and snapshot
volume at most, and the cache volume whose lock it holds. -/
theorem sound_put (hs : Sound hash s) (hi : s.tasks[i]? = some t) (hreq : new.request = t.request)
    (hbuild : ∀ b ∈ t.build, b ∈ new.build)
    (hkeys : ∀ b ∈ new.build, ∀ c, s.Known c → cacheKey hash b = cacheKey hash c → b = c)
    (hprog : t.inProgress = true)
    (hlock : ∀ key, new.holds hash key = true →
      t.holds hash key = true ∨ ∀ u ∈ s.tasks, u.holds hash key = false)
    (hdirs : ∀ n, n ≠ t.short → Stays s.dirs dirs n)
    (hvols : ∀ name, name ≠ .snapshot t.short → (∀ key, t.holds hash key = true → name ≠ .cache key) →
      Stays s.volumes volumes name)
    (hholds : State.Holds hash ⟨volumes, dirs, s.tasks.set i new⟩ i new)
    (hown : ∀ key v, t.holds hash key = true → volumes.lookup (.cache key) = some v →
      ∃ b, State.Backed hash ⟨volumes, dirs, s.tasks.set i new⟩ key v b) :
    Sound hash ⟨volumes, dirs, s.tasks.set i new⟩ where
  holders key := by
    apply (hs.holders key).set
    intro hnew j u hne hj
    rcases hlock key hnew with ht | hnone
    · exact (hs.holders key).other hi ht hj hne
    · rw [hnone u (List.mem_of_getElem? hj)]
      exact nofun
  shorts n := by
    apply (hs.shorts n).set
    rintro ⟨-, hn⟩ j u hne hj
    have hshort : t.short = n := by rw [← hn, Task.short, Task.short, hreq]
    exact (hs.shorts n).other hi ⟨hprog, hshort⟩ hj hne
  urls u hu w hw h := by
    obtain ⟨u', hu', hreq'⟩ := mem_set_request hi hreq hu
    obtain ⟨w', hw', hreq''⟩ := mem_set_request hi hreq hw
    rw [← hreq', ← hreq''] at h ⊢
    exact hs.urls u' hu' w' hw' h
  keys c d hc hd h := by
    rcases known_of_set hc with hc | hc <;> rcases known_of_set hd with hd | hd
    · exact hs.keys c d hc hd h
    · exact (hkeys d hd c hc h.symm).symm
    · exact hkeys c hc d hd h
    · exact Option.some.inj (hc.symm.trans hd)
  each := by
    apply hs.each.set hholds
    intro j u hne hj hu
    cases hp : u.inProgress with
    | false => exact Holds.ended hp
    | true =>
      have hshort : u.short ≠ t.short := fun h => (hs.shorts t.short).other hi ⟨hprog, rfl⟩ hj hne ⟨hp, h⟩
      refine Holds.stays hu (hdirs _ hshort) (hvols _ (by simpa using hshort) nofun) ?_
      intro key hkey
      refine hvols _ nofun ?_
      rintro key' ht heq
      cases heq
      exact (hs.holders key).other hi ht hj hne hkey
  cached key v hv := by
    by_cases ht : t.holds hash key = true
    · exact hown key v ht hv
    · have hstays : Stays s.volumes volumes (.cache key) := by
        refine hvols _ nofun ?_
        rintro key' ht' heq
        cases heq
        exact ht ht'
      obtain ⟨c, hback⟩ := hs.cached key v (hstays.lookup hv)
      refine ⟨c, known_set hi hbuild hback.known, hback.key, hback.labels, ?_⟩
      rcases hback.contents with hwhole | ⟨u, hu, hc, husaving⟩
      · exact .inl hwhole
      · obtain ⟨j, hj⟩ := List.getElem?_of_mem hu
        have hji : j ≠ i := by
          rintro rfl
          cases hi.symm.trans hj
          rw [← hback.key] at ht
          exact ht (Task.saving_holds hc husaving)
        exact .inr ⟨u, mem_set_of_ne hj hji, hc, husaving⟩

/-- `sound_put` for a task whose commit is not concerned. -/
theorem sound_phase (hs : Sound hash s) (hi : s.tasks[i]? = some t) {p : Phase} (hprog : t.inProgress = true)
    (hlock : ∀ key, Task.holds hash key { t with phase := p } = true →
      t.holds hash key = true ∨ ∀ u ∈ s.tasks, u.holds hash key = false)
    (hdirs : ∀ n, n ≠ t.short → Stays s.dirs dirs n)
    (hvols : ∀ name, name ≠ .snapshot t.short → (∀ key, t.holds hash key = true → name ≠ .cache key) →
      Stays s.volumes volumes name)
    (hholds : State.Holds hash ⟨volumes, dirs, s.tasks.set i { t with phase := p }⟩ i { t with phase := p })
    (hown : ∀ b v, b ∈ t.build → t.locked = true → volumes.lookup (.cache (cacheKey hash b)) = some v →
      (∀ l ∈ v.labels, l.appUrlHash = hash b.url ∧ l.cliVersion = b.cli) ∧
        (v.contents = .whole b ∨ Task.saving { t with phase := p } = true)) :
    Sound hash ⟨volumes, dirs, s.tasks.set i { t with phase := p }⟩ := by
  refine sound_put hs hi rfl (fun _ h => h) ?_ hprog hlock hdirs hvols hholds ?_
  · exact fun b hb c hc h => hs.keys b c ⟨t, List.mem_of_getElem? hi, hb⟩ hc h
  · intro key v ht hv
    obtain ⟨hlocked, hkey⟩ := Task.holds_iff.mp ht
    obtain ⟨b, hb, rfl⟩ := Task.build_of_key hkey
    obtain ⟨hlabels, hcontents⟩ := hown b v hb hlocked hv
    refine ⟨b, known_set hi (fun _ h => h) ⟨t, List.mem_of_getElem? hi, hb⟩, rfl, hlabels, ?_⟩
    exact hcontents.imp_right fun hsaving => ⟨_, mem_set_self hi, hb, hsaving⟩

theorem lock_kept {p : Phase} (h : Task.locked { t with phase := p } = true → t.locked = true) (key : String)
    (hkey : Task.holds hash key { t with phase := p } = true) :
    t.holds hash key = true ∨ ∀ u ∈ s.tasks, u.holds hash key = false := by
  obtain ⟨hlocked, hkey⟩ := Task.holds_iff.mp hkey
  exact .inl (Task.holds_iff.mpr ⟨h hlocked, hkey⟩)

/-- A step outside a save leaves the cache volumes alone, or removes some. -/
theorem sound_aside (hs : Sound hash s) (hi : s.tasks[i]? = some t) {p : Phase} (hprog : t.inProgress = true)
    (hsaving : t.saving = false) (hlocked : Task.locked { t with phase := p } = true → t.locked = true)
    (hdirs : ∀ n, n ≠ t.short → Stays s.dirs dirs n)
    (hvols : ∀ name, name ≠ .snapshot t.short → Stays s.volumes volumes name)
    (hholds : State.Holds hash ⟨volumes, dirs, s.tasks.set i { t with phase := p }⟩ i { t with phase := p }) :
    Sound hash ⟨volumes, dirs, s.tasks.set i { t with phase := p }⟩ := by
  refine sound_phase hs hi hprog (lock_kept hlocked) hdirs (fun name hname _ => hvols name hname) hholds ?_
  intro b v hb hlocked hv
  have hv := (hvols (.cache _) nofun).lookup hv
  exact ⟨hs.labels ⟨t, List.mem_of_getElem? hi, hb⟩ hv, .inl (hs.whole hi hb hlocked hsaving hv)⟩

/-- A step that changes neither volumes nor directories. -/
theorem sound_keep (hs : Sound hash s) (hi : s.tasks[i]? = some t) {p : Phase} (hprog : t.inProgress = true)
    (hsaving : t.saving = false) (hlocked : Task.locked { t with phase := p } = true → t.locked = true)
    (hholds : State.Holds hash (s.put i { t with phase := p }) i { t with phase := p }) :
    Sound hash (s.put i { t with phase := p }) :=
  sound_aside hs hi hprog hsaving hlocked (fun _ _ => .refl _ _) (fun _ _ => .refl _ _) hholds

end Put

/-! ### The steps of a fill -/

section Fill
variable {keep : ℕ} {job : Job} {dst : VolumeName} {v : Volume} {tasks : List Task}

theorem target_ne (hjob : job ≠ .save) (hdst : t.target hash job = some dst) : dst = .snapshot t.short := by
  cases job with
  | save => exact absurd rfl hjob
  | restore key =>
    cases hdst
    rfl
  | load =>
    cases hdst
    rfl

theorem target_save (hb : b ∈ t.build) (hdst : t.target hash .save = some dst) : dst = .cache (cacheKey hash b) := by
  obtain ⟨key, hkey, rfl⟩ := Option.map_eq_some_iff.mp hdst
  rw [Option.some.inj ((Task.key_of_build hb).symm.trans hkey)]

theorem source_some (hb : b ∈ t.build) (hsrc : s.sourceThere t job = true) : ∃ c, s.source t job = some c := by
  have hsha : t.sha.isNone = false := by
    rw [(Task.mem_build.mp hb).2.2]
    rfl
  simpa [State.sourceThere, hsha, Option.isSome_iff_exists] using hsrc

theorem mount_eq (hsrc : s.sourceThere t job = true) : s.mount t job dst = claim s.volumes (dst, ⟨none, .empty⟩) := by
  have hmount : ∀ name, (s.volumes.lookup name).isSome = true →
      claim (claim s.volumes (name, ⟨none, .empty⟩)) (dst, ⟨none, .empty⟩) = claim s.volumes (dst, ⟨none, .empty⟩) := by
    intro name hname
    rw [claim_of_mem (x := (name, ⟨none, .empty⟩)) (AList.lookup_isSome.mp hname)]
  cases job with
  | load => rfl
  | restore key => exact hmount _ (by simpa [State.sourceThere, State.source] using hsrc)
  | save => exact hmount _ (by simpa [State.sourceThere, State.source] using hsrc)

/-- What the task counts on while its build is loaded or saved. -/
theorem Holds.fill (h : s.Holds hash i t) {st : FillStep} (hp : t.phase = .filling job st) (hjob : ∀ key, job ≠ .restore key)
    (hb : b ∈ t.build) (hdst : t.target hash job = some dst) :
    (∀ c ∈ s.source t job, c = .whole b) ∧ s.Fills i b dst st := by
  have h := h b hb
  rw [hp] at h
  cases job with
  | restore key => exact absurd rfl (hjob key)
  | load => exact ⟨h.1, h.2 dst hdst⟩
  | save => exact ⟨h.1, h.2 dst hdst⟩

theorem holds_of_fill {p : Phase} {st : FillStep} (hp : p = .filling job st)
    (h : (∀ key, job ≠ .restore key) → ∀ b ∈ t.build,
      (∀ c ∈ s.source t job, c = .whole b) ∧ ∀ dst ∈ t.target hash job, s.Fills i b dst st) :
    s.Holds hash i { t with phase := p } := by
  subst hp
  intro b hb
  cases job with
  | restore key => trivial
  | load => exact h nofun b hb
  | save => exact h nofun b hb

/-- The source of a job is not the volume that the job fills. -/
theorem source_ne (hdst : t.target hash job = some dst) : job = .save → VolumeName.snapshot t.short ≠ dst := by
  rintro rfl
  obtain ⟨key, -, rfl⟩ := Option.map_eq_some_iff.mp hdst
  exact nofun

theorem created_holds {fresh : Volume} (h : s.Holds hash i t) (hp : t.phase = .filling job .creating)
    (hdst : t.target hash job = some dst) (hfresh : fresh.contents = .empty)
    (hthere : (∀ key, job ≠ .restore key) → ∀ b ∈ t.build, ∀ v ∈ s.volumes.lookup dst,
      v.contents = .empty ∨ v.contents = .whole b) :
    State.Holds hash ⟨claim s.volumes (dst, fresh), s.dirs, tasks⟩ i { t with phase := .filling job .starting } := by
  refine holds_of_fill rfl fun hjob b hb => ⟨?_, ?_⟩
  · intro c hc
    refine (Holds.fill h hp hjob hb hdst).1 c (source_stays hjob (.refl _ _) ?_ hc)
    exact fun hsave => stays_claim (source_ne hdst hsave)
  · intro dst' hdst' v hv
    cases hdst.symm.trans hdst'
    rcases lookup_claim_cases hv with hold | ⟨-, rfl⟩
    · exact hthere hjob b hb v hold
    · exact .inl hfresh

theorem beginCopy_contents (h : v.contents = .empty ∨ v.contents = .whole b) :
    (State.beginCopy i v).contents = .unfinished i := by
  rcases h with h | h <;> simp only [State.beginCopy, h]

theorem started_holds (h : s.Holds hash i t) (hp : t.phase = .filling job .starting)
    (hsrc : s.sourceThere t job = true) (hdst : t.target hash job = some dst)
    (hv : (s.mount t job dst).lookup dst = some v) :
    State.Holds hash ⟨(s.mount t job dst).insert dst (State.beginCopy i v), s.dirs, tasks⟩ i
      { t with phase := .filling job (.copying v.contents ((s.source t job).getD .empty)) } := by
  rw [mount_eq hsrc] at hv ⊢
  refine holds_of_fill rfl fun hjob b hb => ?_
  obtain ⟨hsource, hfill⟩ := Holds.fill h hp hjob hb hdst
  have hcontents : v.contents = .empty ∨ v.contents = .whole b := by
    rcases lookup_claim_cases hv with hold | ⟨-, rfl⟩
    · exact hfill v hold
    · exact .inl rfl
  refine ⟨?_, ?_⟩
  · intro c hc
    refine hsource c (source_stays hjob (.refl _ _) ?_ hc)
    exact fun hsave => (stays_claim (source_ne hdst hsave)).trans (stays_insert (source_ne hdst hsave))
  · intro dst' hdst'
    cases hdst.symm.trans hdst'
    obtain ⟨c, hc⟩ := source_some hb hsrc
    refine ⟨hcontents, ?_, ?_⟩
    · rw [hc, Option.getD_some]
      exact hsource c hc
    · intro w hw
      rw [lookup_insert_eq hw]
      exact beginCopy_contents hcontents

/-- A copy of the build into a volume that holds nothing else ends with the build in it. -/
theorem endCopy_contents (h : s.Holds hash i t) {before seen : Contents}
    (hp : t.phase = .filling job (.copying before seen)) (hjob : ∀ key, job ≠ .restore key)
    (hsrc : s.sourceThere t job = true) (hb : b ∈ t.build) (hdst : t.target hash job = some dst)
    (hv : s.volumes.lookup dst = some v) : (s.endCopy i t job before seen v).contents = .whole b := by
  obtain ⟨hsource, hbefore, hseen, hfill⟩ := Holds.fill h hp hjob hb hdst
  obtain ⟨c, hc⟩ := source_some hb hsrc
  have hkept : v.contents = .unfinished i ∧ s.source t job = some seen :=
    ⟨hfill v hv, by rw [hc, hseen, hsource c hc]⟩
  rw [State.endCopy, if_pos hkept, hseen]
  rcases hbefore with rfl | rfl
  · rfl
  · exact if_pos rfl

/-- A step of a fill changes the volume that is filled, and no other one. -/
theorem sound_fill (hs : Sound hash s) (hi : s.tasks[i]? = some t) {st : FillStep} (hp : t.phase = .filling job st)
    (hdst : t.target hash job = some dst) {p : Phase} {volumes : Table VolumeName Volume}
    (hvols : ∀ name, name ≠ dst → Stays s.volumes volumes name)
    (hholds : State.Holds hash ⟨volumes, s.dirs, s.tasks.set i { t with phase := p }⟩ i { t with phase := p })
    (hown : job = .save → ∀ b ∈ t.build, ∀ v, volumes.lookup dst = some v →
      (∀ l ∈ v.labels, l.appUrlHash = hash b.url ∧ l.cliVersion = b.cli) ∧
        (v.contents = .whole b ∨ Task.saving { t with phase := p } = true)) :
    Sound hash ⟨volumes, s.dirs, s.tasks.set i { t with phase := p }⟩ := by
  have hprog : t.inProgress = true := by simp [Task.inProgress, hp]
  have hlocked : Task.locked { t with phase := p } = true → t.locked = true :=
    Task.locked_phase (by rw [hp]; rfl)
  by_cases hjob : job = .save
  · subst hjob
    obtain ⟨key, hkey, rfl⟩ := Option.map_eq_some_iff.mp hdst
    obtain ⟨b, hb, rfl⟩ := Task.build_of_key hkey
    refine sound_phase hs hi hprog (lock_kept hlocked) (fun _ _ => .refl _ _) ?_ hholds ?_
    · intro name _ hname
      exact hvols name (hname _ (Task.holds_iff.mpr ⟨Task.locked_of_build (by rw [hp]; rfl) hb, Task.key_of_build hb⟩))
    · intro c v hc _ hv
      cases Option.mem_unique hb hc
      exact hown rfl b hb v hv
  · have hsaving : t.saving = false := by
      unfold Task.saving
      split
      next hp' => cases hp.symm.trans hp'; exact absurd rfl hjob
      next hp' => cases hp.symm.trans hp'; exact absurd rfl hjob
      · rfl
    refine sound_aside hs hi hprog hsaving hlocked (fun _ _ => .refl _ _) ?_ hholds
    rw [← target_ne hjob hdst]
    exact hvols

theorem sound_create (hs : Sound hash s) (hi : s.tasks[i]? = some t) (hp : t.phase = .filling job .creating)
    (hdst : t.target hash job = some dst) {now : ℕ} (hcare : s.Careful hash t (.create now)) :
    Sound hash ⟨claim s.volumes (dst, ⟨t.labels hash now job, .empty⟩), s.dirs,
      s.tasks.set i { t with phase := .filling job .starting }⟩ := by
  refine sound_fill hs hi hp hdst (fun name hname => stays_claim hname) ?_ ?_
  · apply created_holds (hs.each i t hi) hp hdst rfl
    intro hjob b hb v hv
    cases job with
    | restore key => exact absurd rfl (hjob key)
    | load =>
      cases hdst
      exact hcare hp b hb v hv
    | save =>
      obtain rfl := target_save hb hdst
      refine .inr (hs.whole hi hb (Task.locked_of_build (by rw [hp]; rfl) hb) ?_ hv)
      simp [Task.saving, hp]
  · rintro rfl b hb v hv
    refine ⟨?_, .inr rfl⟩
    obtain rfl := target_save hb hdst
    rcases lookup_claim_cases hv with hold | ⟨-, rfl⟩
    · exact hs.labels ⟨t, List.mem_of_getElem? hi, hb⟩ hold
    · intro l hl
      obtain ⟨c, hc, rfl⟩ := Option.map_eq_some_iff.mp hl
      cases Option.mem_unique hb hc
      exact ⟨rfl, rfl⟩

theorem sound_start (hs : Sound hash s) (hi : s.tasks[i]? = some t) (hp : t.phase = .filling job .starting)
    (hdst : t.target hash job = some dst) (hsrc : s.sourceThere t job = true)
    (hv : (s.mount t job dst).lookup dst = some v) :
    Sound hash ⟨(s.mount t job dst).insert dst (State.beginCopy i v), s.dirs,
      s.tasks.set i { t with phase := .filling job (.copying v.contents ((s.source t job).getD .empty)) }⟩ := by
  refine sound_fill hs hi hp hdst ?_ (started_holds (hs.each i t hi) hp hsrc hdst hv) ?_
  · intro name hname
    rw [mount_eq hsrc]
    exact (stays_claim hname).trans (stays_insert hname)
  rintro rfl b hb w hw
  rw [mount_eq hsrc] at hv
  refine ⟨?_, .inr rfl⟩
  obtain rfl := target_save hb hdst
  rw [lookup_insert_eq hw]
  rcases lookup_claim_cases hv with hold | ⟨-, rfl⟩
  · have hlabels := hs.labels ⟨t, List.mem_of_getElem? hi, hb⟩ hold
    exact hlabels
  · exact nofun

theorem sound_finish (hs : Sound hash s) (hi : s.tasks[i]? = some t) {before seen : Contents}
    (hp : t.phase = .filling job (.copying before seen)) (hdst : t.target hash job = some dst)
    (hsrc : s.sourceThere t job = true) (hv : s.volumes.lookup dst = some v) :
    Sound hash ⟨s.volumes.insert dst (s.endCopy i t job before seen v), s.dirs,
      s.tasks.set i { t with phase := t.afterFill job }⟩ := by
  have hend := fun hjob b (hb : b ∈ t.build) =>
    endCopy_contents (hs.each i t hi) hp hjob hsrc hb hdst hv
  refine sound_fill hs hi hp hdst (fun name hname => stays_insert hname) ?_ ?_
  · intro b hb
    cases job with
    | restore key => trivial
    | save => trivial
    | load =>
      have hbuild : b ∈ t.build := hb
      have hafter : t.afterFill .load = .filling .save .clearing := by
        simp [Task.afterFill, (Task.mem_build.mp hbuild).2.2]
      rw [hafter]
      refine ⟨?_, fun _ _ => trivial⟩
      intro c hc
      cases hdst
      obtain ⟨w, hw, rfl⟩ := Option.map_eq_some_iff.mp hc
      rw [lookup_insert_eq hw]
      exact hend nofun b hbuild
  · rintro rfl b hb w hw
    rw [lookup_insert_eq hw]
    refine ⟨?_, .inl (hend nofun b hb)⟩
    obtain rfl := target_save hb hdst
    have hlabels := hs.labels ⟨t, List.mem_of_getElem? hi, hb⟩ hv
    exact hlabels

end Fill

end ReleaseValidation.SandboxManager.BuildCache
