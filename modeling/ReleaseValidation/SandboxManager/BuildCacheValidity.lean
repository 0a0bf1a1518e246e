import ReleaseValidation.SandboxManager.BuildCacheInvariant

/-! # When a cached build is the build of its key

Along the runs of careful steps every cache volume outside a save is a whole build of
its key, so that a lookup under the lock and a fallback find one.
-/
namespace ReleaseValidation.SandboxManager.BuildCache
open Parties Runs Tables

variable {hash : String → String} {s : State} {i : ℕ} {t : Task} {b : Build}

section Steps
variable {keep : ℕ} {s' : State} {e : Event} {a : Act}

theorem remove_stays (name name' : VolumeName) (removed : Bool) :
    Stays s.volumes (s.remove hash name removed) name' := by
  unfold State.remove
  split
  · exact stays_erase _ _ _
  · exact .refl _ _

/-- A task that has not tried to take the lock has no commit yet. -/
theorem Sound.build_none (hs : Sound hash s) (hi : s.tasks[i]? = some t)
    (hp : t.phase = .resolving ∨ t.phase = .fallback) : t.build = none := by
  rw [Option.eq_none_iff_forall_ne_some]
  intro b hb
  have h := hs.each i t hi b hb
  rcases hp with hp | hp <;> rw [hp] at h <;> exact h

theorem known_of_begin {r : Request}
    (h : State.Known { s with tasks := s.tasks ++ [⟨r, none, .resolving⟩] } b) : s.Known b := by
  obtain ⟨t, ht, hb⟩ := h
  rcases List.mem_append.mp ht with ht | ht
  · exact ⟨t, ht, hb⟩
  · cases List.mem_singleton.mp ht
    cases hb

theorem locked_build_none {p : Phase} (h : t.build = none) : Task.locked { t with phase := p } = false := by
  have hsha : t.sha = none := Option.map_eq_none_iff.mp h
  simp [Task.locked, hsha]

theorem afterFail_cases (notFound : Bool) :
    t.afterFail notFound = .ended ∨ t.afterFail notFound = .cloning ∧ t.phase.isLocked = true := by
  unfold Task.afterFail
  split
  next hp =>
    split
    · exact .inr ⟨rfl, by rw [hp]; rfl⟩
    · exact .inl rfl
  · exact .inl rfl

theorem sound_resolve {c : String} (hs : Sound hash s) (hi : s.tasks[i]? = some t) (hp : t.phase = .resolving)
    (hcare : s.Careful hash t (.resolve (some c))) :
    Sound hash (s.put i { t with sha := some c, phase := .locking }) := by
  have hnone := hs.build_none hi (.inl hp)
  refine sound_put hs hi rfl ?_ ?_ (by simp [Task.inProgress, hp]) ?_ (fun _ _ => .refl _ _)
    (fun _ _ _ => .refl _ _) (fun _ _ => trivial) ?_
  · intro b hb
    cases hnone.symm.trans hb
  · rintro b hb d ⟨u, hu, hd⟩ hkey
    cases hb
    exact (hcare u hu d hd hkey.symm).symm
  · intro key hkey
    cases (Task.holds_iff.mp hkey).1
  · intro key v hkey
    rw [Task.holds_iff, Task.locked, hp] at hkey
    cases hkey.1

/-- A lock is taken when no task holds it. -/
theorem sound_lock {key : String} (hs : Sound hash s) (hi : s.tasks[i]? = some t) (hp : t.phase = .locking)
    (hkey : t.key hash = some key) (hfree : s.tasks.any (·.holds hash key) = false) :
    Sound hash (s.put i { t with phase := .lookup }) := by
  have hidle : t.locked = false := by simp [Task.locked, hp, Phase.isLocked]
  refine sound_phase hs hi (by simp [Task.inProgress, hp]) ?_ (fun _ _ => .refl _ _)
    (fun _ _ _ => .refl _ _) (fun _ _ => trivial) ?_
  · intro key' hkey'
    obtain ⟨-, hkey'⟩ := Task.holds_iff.mp hkey'
    cases hkey.symm.trans hkey'
    refine .inr fun u hu => ?_
    simpa using List.any_eq_false.mp hfree u hu
  · intro b v _ hlocked
    cases hidle.symm.trans hlocked

theorem sound_clone {commit : String} (hs : Sound hash s) (hi : s.tasks[i]? = some t) (hp : t.phase = .cloning)
    (hcare : s.Careful hash t (.clone commit)) :
    Sound hash { s.put i { t with phase := .compiling } with
      dirs := s.dirs.insert t.short ⟨t.request.url, commit, none⟩ } := by
  refine sound_aside hs hi (by simp [Task.inProgress, hp]) (by simp [Task.saving, hp])
    (Task.locked_phase (by rw [hp]; rfl)) (fun n hn => stays_insert hn) (fun _ _ => .refl _ _) ?_
  intro b hb d hd
  obtain ⟨hurl, -, hsha⟩ := Task.mem_build.mp hb
  rw [lookup_insert_eq hd]
  exact ⟨hurl.symm, hcare b.commit hsha⟩

/-- The image is that of the clone, which is of the commit in the key. -/
theorem sound_compile {d : BuildDir} (hs : Sound hash s) (hi : s.tasks[i]? = some t) (hp : t.phase = .compiling)
    (hd : s.dirs.lookup t.short = some d) :
    Sound hash { s.put i { t with phase := .filling .load .clearing } with
      dirs := s.dirs.insert t.short { d with image := some ⟨d.url, t.request.cli, d.commit⟩ } } := by
  refine sound_aside hs hi (by simp [Task.inProgress, hp]) (by simp [Task.saving, hp])
    (Task.locked_phase (by rw [hp]; rfl)) (fun n hn => stays_insert hn) (fun _ _ => .refl _ _) ?_
  intro b hb
  refine ⟨?_, fun _ _ => trivial⟩
  intro c hc
  obtain ⟨image, himage, rfl⟩ := Option.map_eq_some_iff.mp hc
  obtain ⟨d', hd', himage⟩ := Option.bind_eq_some_iff.mp himage
  rw [lookup_insert_eq hd'] at himage
  have hcompiling := hs.each i t hi b hb
  rw [hp] at hcompiling
  obtain ⟨hurl, hcommit⟩ := hcompiling d hd
  have hcli := (Task.mem_build.mp hb).2.1
  cases himage
  rw [hurl, hcommit]
  exact congrArg (fun cli => Contents.whole ⟨b.url, cli, b.commit⟩) hcli.symm

theorem sound_clear {job : Job} {dst : VolumeName} {removed : Bool} (hs : Sound hash s) (hi : s.tasks[i]? = some t)
    (hp : t.phase = .filling job .clearing) (hdst : t.target hash job = some dst) :
    Sound hash { s.put i { t with phase := .filling job .creating } with volumes := s.remove hash dst removed } := by
  refine sound_aside hs hi (by simp [Task.inProgress, hp]) (by simp [Task.saving, hp])
    (Task.locked_phase (by rw [hp]; rfl)) (fun _ _ => .refl _ _) (fun _ _ => remove_stays _ _ _) ?_
  refine holds_of_fill rfl fun hjob b hb => ⟨?_, fun _ _ => trivial⟩
  intro c hc
  refine (Holds.fill (hs.each i t hi) hp hjob hb hdst).1 c (source_stays hjob (.refl _ _) ?_ hc)
  exact fun _ => remove_stays _ _ _

/-- A save that fails leaves no volume, or a whole one. -/
theorem sound_fail {notFound : Bool} (hs : Sound hash s) (hi : s.tasks[i]? = some t) (hprog : t.inProgress = true)
    (hcare : s.Careful hash t (.fail notFound)) : Sound hash (s.put i { t with phase := t.afterFail notFound }) := by
  have hafter := afterFail_cases (t := t) notFound
  have hholds : State.Holds hash (s.put i { t with phase := t.afterFail notFound }) i
      { t with phase := t.afterFail notFound } := by
    rcases hafter with hafter | ⟨hafter, -⟩ <;> rw [hafter] <;> exact fun _ _ => trivial
  have hlocked : Task.locked { t with phase := t.afterFail notFound } = true → t.locked = true := by
    rcases hafter with hafter | ⟨hafter, hp⟩
    · rw [hafter]
      exact nofun
    · exact Task.locked_phase hp
  refine sound_phase hs hi hprog (lock_kept hlocked) (fun _ _ => .refl _ _) (fun _ _ _ => .refl _ _) hholds ?_
  intro b v hb hlocked hv
  refine ⟨hs.labels ⟨t, List.mem_of_getElem? hi, hb⟩ hv, .inl ?_⟩
  cases hsaving : t.saving with
  | true => exact hcare hsaving b hb v hv
  | false => exact hs.whole hi hb hlocked hsaving hv

theorem stepAt_sound (h : s.stepAt hash keep i t e = some s') (hi : s.tasks[i]? = some t) (hs : Sound hash s)
    (hcare : s.Careful hash t e) : Sound hash s' := by
  cases e with
  | resolve sha =>
    simp only [State.stepAt] at h
    split at h
    next c hp =>
      split at h
      · cases h
        exact sound_resolve hs hi hp hcare
      · cases h
    next hp =>
      cases h
      refine sound_keep hs hi (by simp [Task.inProgress, hp]) (by simp [Task.saving, hp])
        (by simp [Task.locked, Phase.isLocked]) ?_
      intro b hb
      cases (hs.build_none hi (.inl hp)).symm.trans hb
    · cases h
  | fallback choice =>
    -- without a commit there is no lock to hold
    have hnolock : ∀ p, t.phase = .fallback → Task.locked { t with phase := p } = true → t.locked = true := by
      intro p hp hlocked
      cases (locked_build_none (hs.build_none hi (.inr hp))).symm.trans hlocked
    simp only [State.stepAt] at h
    split at h
    next hp =>
      cases h
      exact sound_keep hs hi (by simp [Task.inProgress, hp]) (by simp [Task.saving, hp]) (hnolock _ hp)
        (fun _ _ => trivial)
    next key hp =>
      split at h
      · cases h
        exact sound_keep hs hi (by simp [Task.inProgress, hp]) (by simp [Task.saving, hp]) (hnolock _ hp)
          (fun _ _ => trivial)
      · cases h
    · cases h
  | lock =>
    simp only [State.stepAt] at h
    split at h
    next key hp hkey =>
      split at h
      · cases h
      next hfree =>
        cases h
        exact sound_lock hs hi hp hkey (Bool.eq_false_of_not_eq_true hfree)
    · cases h
  | lookup =>
    simp only [State.stepAt] at h
    split at h
    next key hp hkey =>
      have hprog : t.inProgress = true := by simp [Task.inProgress, hp]
      have hsaving : t.saving = false := by simp [Task.saving, hp]
      have hlocked : t.phase.isLocked = true := by rw [hp]; rfl
      split at h <;> cases h
      · exact sound_keep hs hi hprog hsaving (Task.locked_phase hlocked) (fun _ _ => trivial)
      · exact sound_keep hs hi hprog hsaving (Task.locked_phase hlocked) (fun _ _ => trivial)
    · cases h
  | clone commit =>
    simp only [State.stepAt] at h
    split at h
    next hp =>
      cases h
      exact sound_clone hs hi hp hcare
    · cases h
  | compile =>
    simp only [State.stepAt] at h
    split at h
    next d hp hd =>
      cases h
      exact sound_compile hs hi hp hd
    · cases h
  | clear removed =>
    simp only [State.stepAt] at h
    split at h
    next job hp =>
      obtain ⟨dst, hdst, rfl⟩ := Option.map_eq_some_iff.mp h
      exact sound_clear hs hi hp hdst
    · cases h
  | create now =>
    simp only [State.stepAt] at h
    split at h
    next job hp =>
      obtain ⟨dst, hdst, rfl⟩ := Option.map_eq_some_iff.mp h
      exact sound_create hs hi hp hdst hcare
    · cases h
  | start =>
    simp only [State.stepAt] at h
    split at h
    next job hp =>
      obtain ⟨dst, hdst, h⟩ := Option.bind_eq_some_iff.mp h
      obtain ⟨v, hv, rfl⟩ := Option.map_eq_some_iff.mp h
      rw [State.Careful, hp] at hcare
      exact sound_start hs hi hp hdst hcare hv
    · cases h
  | finish =>
    simp only [State.stepAt] at h
    split at h
    next job before seen hp =>
      obtain ⟨dst, hdst, h⟩ := Option.bind_eq_some_iff.mp h
      obtain ⟨v, hv, rfl⟩ := Option.map_eq_some_iff.mp h
      rw [State.Careful, hp] at hcare
      exact sound_finish hs hi hp hdst hcare hv
    · cases h
  | list listed =>
    simp only [State.stepAt] at h
    split at h
    next hp =>
      cases h
      refine sound_keep hs hi (by simp [Task.inProgress, hp]) (by simp [Task.saving, hp])
        (Task.locked_phase (by rw [hp]; rfl)) ?_
      cases listed <;> exact fun _ _ => trivial
    · cases h
  | evict removed =>
    simp only [State.stepAt] at h
    split at h
    next hp =>
      cases h
      exact sound_keep hs hi (by simp [Task.inProgress, hp]) (by simp [Task.saving, hp])
        (by simp [Task.locked, Phase.isLocked]) (fun _ _ => trivial)
    next name names hp =>
      cases h
      exact sound_aside hs hi (by simp [Task.inProgress, hp]) (by simp [Task.saving, hp])
        (Task.locked_phase (by rw [hp]; rfl)) (fun _ _ => .refl _ _) (fun _ _ => remove_stays _ _ _)
        (fun _ _ => trivial)
    · cases h
  | fail notFound =>
    simp only [State.stepAt] at h
    split at h
    next hprog =>
      cases h
      exact sound_fail hs hi hprog hcare
    · cases h

theorem sound_shrink {volumes : Table VolumeName Volume} {dirs : Table String BuildDir} (hs : Sound hash s)
    (hdirs : ∀ n, Stays s.dirs dirs n) (hvols : ∀ name, Stays s.volumes volumes name) :
    Sound hash ⟨volumes, dirs, s.tasks⟩ where
  holders := hs.holders
  shorts := hs.shorts
  urls := hs.urls
  keys := hs.keys
  each i t hi := Holds.stays (hs.each i t hi) (hdirs _) (hvols _) fun _ _ => hvols _
  cached key v hv := by
    obtain ⟨b, hback⟩ := hs.cached key v ((hvols _).lookup hv)
    exact ⟨b, hback.known, hback.key, hback.labels, hback.contents⟩

theorem sound_begin {r : Request} (hs : Sound hash s)
    (hshort : ∀ u ∈ s.tasks, u.inProgress = true → u.short ≠ GarbageCollector.short r.sandboxId)
    (hurl : ∀ u ∈ s.tasks, hash u.request.url = hash r.url → u.request.url = r.url) :
    Sound hash { s with tasks := s.tasks ++ [⟨r, none, .resolving⟩] } where
  holders key := (hs.holders key).append (by simp [Task.holds, Task.locked])
  shorts n := by
    intro j k t u hj hk ht hu
    obtain ⟨rfl, rfl⟩ | hj := getElem?_append_cases hj <;> obtain ⟨rfl, rfl⟩ | hk := getElem?_append_cases hk
    · rfl
    · exact absurd (hu.2.trans ht.2.symm) (hshort u (List.mem_of_getElem? hk) hu.1)
    · exact absurd (ht.2.trans hu.2.symm) (hshort t (List.mem_of_getElem? hj) ht.1)
    · exact hs.shorts n j k t u hj hk ht hu
  urls t ht u hu h := by
    rcases List.mem_append.mp ht with ht | ht <;> rcases List.mem_append.mp hu with hu | hu
    · exact hs.urls t ht u hu h
    · cases List.mem_singleton.mp hu
      exact hurl t ht h
    · cases List.mem_singleton.mp ht
      exact (hurl u hu h.symm).symm
    · cases List.mem_singleton.mp ht
      cases List.mem_singleton.mp hu
      rfl
  keys b c hb hc := hs.keys b c (known_of_begin hb) (known_of_begin hc)
  each := hs.each.append (fun b hb => by cases hb) fun _ _ _ h => h
  cached key v hv := by
    obtain ⟨b, ⟨u, hu, hb⟩, hkey, hlabels, hcontents⟩ := hs.cached key v hv
    refine ⟨b, ⟨u, List.mem_append_left _ hu, hb⟩, hkey, hlabels, ?_⟩
    apply hcontents.imp_right
    rintro ⟨w, hw, hbuild, hsaving⟩
    exact ⟨w, List.mem_append_left _ hw, hbuild, hsaving⟩

theorem step_sound (h : step hash keep s a = some s') (hs : Sound hash s) (hcare : CarefulStep hash s a s') :
    Sound hash s' := by
  cases a with
  | begin r =>
    cases h
    exact sound_begin hs hcare.1 hcare.2
  | «at» i e =>
    obtain ⟨t, hi, ht⟩ := Option.bind_eq_some_iff.mp h
    exact stepAt_sound ht hi hs (hcare t hi)
  | drop name =>
    cases h
    exact sound_shrink hs (fun _ => .refl _ _) fun _ => remove_stays _ _ _
  | dropDir short =>
    cases h
    exact sound_shrink hs (fun _ => stays_erase _ _ _) fun _ => .refl _ _

/-- Under its lock, the lookup finds a whole build. -/
theorem lookup_valid (h : s.stepAt hash keep i t .lookup = some s') (hi : s.tasks[i]? = some t) (hs : Sound hash s)
    (hb : b ∈ t.build) {v : Volume} (hv : s.volumes.lookup (.cache (cacheKey hash b)) = some v) :
    v.contents = .whole b := by
  simp only [State.stepAt] at h
  split at h
  next hp _ => exact hs.whole hi hb (Task.locked_of_build (by rw [hp]; rfl) hb) (by simp [Task.saving, hp]) hv
  · cases h

theorem mem_labelled {url : String} {x : VolumeName × CacheLabels} (hx : x ∈ s.labelled hash url) :
    ∃ v, s.volumes.lookup x.1 = some v ∧ v.labels = some x.2 ∧ x.2.appUrlHash = hash url := by
  obtain ⟨e, he, hx⟩ := List.mem_filterMap.mp hx
  obtain ⟨l, hl, hx⟩ := Option.bind_eq_some_iff.mp hx
  split at hx
  next hurl =>
    cases hx
    exact ⟨e.2, AList.mem_lookup_iff.mpr he, hl, hurl⟩
  · cases hx

/-- The fallback selects by labels, and outside a save these are those of a whole build. -/
theorem fallback_valid {key : String} (h : s.stepAt hash keep i t (.fallback (some key)) = some s')
    (hi : s.tasks[i]? = some t) (hs : Sound hash s) (hcare : s.Careful hash t (.fallback (some key))) {v : Volume}
    (hv : s.volumes.lookup (.cache key) = some v) : ∃ commit, v.contents = .whole ⟨t.request.url, t.request.cli, commit⟩ := by
  simp only [State.stepAt] at h
  split at h
  · cases ‹some key = none›
  next key' _ heq =>
    cases heq
    split at h
    next hlatest =>
      obtain ⟨x, hx, hlatest⟩ := List.any_eq_true.mp hlatest
      obtain ⟨hx, hcli⟩ := List.mem_filter.mp hx
      have hname : x.1 = .cache key := (by simpa using hlatest : x.1 = .cache key ∧ _).1
      obtain ⟨w, hw, hl, hhash⟩ := mem_labelled hx
      rw [hname, hv, Option.some_inj] at hw
      subst hw
      obtain ⟨c, hback⟩ := hs.cached key v hv
      obtain ⟨hurl, hcli'⟩ := hback.labels x.2 hl
      obtain ⟨u, hu, hc⟩ := hback.known
      have hcurl : c.url = t.request.url := by
        rw [(Task.mem_build.mp hc).1]
        refine hs.urls u hu t (List.mem_of_getElem? hi) ?_
        rw [← (Task.mem_build.mp hc).1, ← hurl, hhash]
      have hccli : c.cli = t.request.cli := by
        rw [← hcli']
        simpa using hcli
      refine ⟨c.commit, ?_⟩
      rw [← hcurl, ← hccli]
      rcases hback.contents with hwhole | ⟨w, hw, hbuild, hsaving⟩
      · exact hwhole
      · refine absurd ?_ (hcare w hw hsaving)
        rw [Task.key_of_build hbuild, hback.key]
    · cases h
  · cases h

theorem step_hitsValid (h : step hash keep s a = some s') (hs : Sound hash s) (hcare : CarefulStep hash s a s') :
    HitsValid hash s a s' := by
  unfold HitsValid
  split
  next i =>
    intro t hi b hb v hv
    obtain ⟨t', hi', ht⟩ := Option.bind_eq_some_iff.mp h
    cases hi.symm.trans hi'
    exact lookup_valid ht hi hs hb hv
  next i key =>
    intro t hi v hv
    obtain ⟨t', hi', ht⟩ := Option.bind_eq_some_iff.mp h
    cases hi.symm.trans hi'
    exact fallback_valid ht hi hs (hcare t hi) hv
  · trivial

end Steps

/-- In every run of careful steps, a lookup that hits and a fallback that selects find a
whole build of the key, or of the application and its CLI. -/
theorem hits_valid (hash : String → String) (keep : ℕ) {as : List Act}
    (h : Always (step hash keep) (CarefulStep hash) initial as) :
    Always (step hash keep) (HitsValid hash) initial as := by
  refine always_of_invariant ?_ (sound_initial hash) h
  intro s a s' hs ht hcare
  exact ⟨step_hitsValid ht hs hcare, step_sound ht hs hcare⟩

/-- The digests of the texts that the following runs hash. -/
def digest (text : String) : String :=
  if text = "https://github.com/cartesi/echo-dapp" then "bd16cf83dcb48514"
  else if text = "https://github.com/cartesi/echo-dapp:1.5.0:0123456789abcdef0123456789abcdef01234567" then
    "f347780602e0afe5"
  else ""

def echo (sandboxId : String) : Act := .begin ⟨sandboxId, "https://github.com/cartesi/echo-dapp", "1.5.0"⟩

def head : String := "0123456789abcdef0123456789abcdef01234567"

/-- The task at position `i` finds its commit and takes the lock. -/
def locks (i : ℕ) : List Act := [.at i (.resolve (some head)), .at i .lock]

def fills (i now : ℕ) : List Act := [.at i (.clear true), .at i (.create now), .at i .start]

/-- A miss, up to the cache volume that is being filled. -/
def builds (i now : ℕ) : List Act :=
  [.at i .lookup, .at i (.clone head), .at i .compile] ++ fills i now ++ .at i .finish :: fills i now

/-- The second sandbox finds the build of the first one, and the third falls back on it. -/
def builtOnce : List Act :=
  echo "6b0f8c1e-1" :: locks 0 ++ builds 0 100 ++
    [.at 0 .finish, .at 0 (.list true), .at 0 (.evict true), echo "7c1a9d2f-2"] ++ locks 1 ++
    [.at 1 .lookup] ++ fills 1 101 ++
    [.at 1 .finish, echo "8d2bae30-3", .at 2 (.resolve none), .at 2 (.fallback (some "f347780602e0afe5"))]

theorem hits_valid_built :
    (exec (step digest 3) initial builtOnce).map (fun s => s.tasks.map Task.phase) =
        some [.ended, .ended, .filling (.restore "f347780602e0afe5") .clearing] ∧
      Always (step digest 3) (HitsValid digest) initial builtOnce :=
  ⟨by decide +kernel, hits_valid digest 3 (by decide +kernel)⟩

/-- The copy into the cache volume fails, and another sandbox looks the build up. -/
def copyFails : List Act :=
  echo "6b0f8c1e-1" :: locks 0 ++ builds 0 100 ++ [.at 0 (.fail false), echo "7c1a9d2f-2"] ++ locks 1

theorem hit_unfinished : ¬ Always (step digest 3) (HitsValid digest) initial (copyFails ++ [.at 1 .lookup]) := by
  intro h
  have hrun : (exec (step digest 3) initial copyFails).bind (fun u => (step digest 3 u (.at 1 .lookup)).bind
      fun _ => u.tasks[1]?.bind fun t => t.build.bind fun b =>
        (u.volumes.lookup (.cache (cacheKey digest b))).map Volume.contents) = some (.unfinished 0) := by decide +kernel
  obtain ⟨u, hu, hrest⟩ := Option.bind_eq_some_iff.mp hrun
  obtain ⟨s, hs, hrest⟩ := Option.bind_eq_some_iff.mp hrest
  obtain ⟨t, ht, hrest⟩ := Option.bind_eq_some_iff.mp hrest
  obtain ⟨b, hb, hrest⟩ := Option.bind_eq_some_iff.mp hrest
  obtain ⟨v, hv, hcontents⟩ := Option.map_eq_some_iff.mp hrest
  have hwhole := h.at hu hs t ht b hb v hv
  rw [hcontents] at hwhole
  cases hwhole

end ReleaseValidation.SandboxManager.BuildCache
