import ReleaseValidation.Catalog.ReleaseBodies
import ReleaseValidation.Foundations.Keysets

/-! # The eviction of old builds

After a build is saved in the cache, the application keeps the volumes with the latest stamps. The
stamps are whole seconds, read from a label of each volume; the volumes come in no order that the
code knows. Volumes of one second stay in the order of the list, so that the volume of the
build just saved may be taken for an old one; a stamp that is no number ends the pass.
-/
namespace ReleaseValidation.SandboxManager.CacheEviction
open Catalog Keysets

structure Volume where
  name : String
  labels : Option (List (String × String))
  deriving DecidableEq

inductive Err
  | valueError (text : String)
  deriving DecidableEq

section Pass
variable (ch : Characters)

/-- `(v.attrs.get("Labels") or {}).get("rvp.built_at", "0")`. -/
def stamp (v : Volume) : String := ((v.labels.getD []).lookup "rvp.built_at").getD "0"

/-- `_built_at`. -/
def builtAt (v : Volume) : Option ℤ := limitedInt ch (stamp v)

/-- `volumes.sort(key=_built_at)`. -/
def sort (volumes : List Volume) : Except Err (List Volume) :=
  match volumes.find? fun v => (builtAt ch v).isNone with
  | some v => .error (.valueError (stamp v))
  | none => .ok (byKey (fun v => (builtAt ch v).getD 0) volumes)

/-- `_evict_old_build_cache_sync` on the volumes that are listed: those that it removes. -/
def evictOldBuildCacheSync (keepN : ℕ) (volumes : List Volume) : Except Err (List Volume) :=
  if volumes.length ≤ keepN then .ok []
  else (sort ch volumes).map fun sorted => sorted.take (volumes.length - keepN)

/-- The volumes that a pass has removed, an error of it being logged by the caller. -/
def removed (keepN : ℕ) (volumes : List Volume) : List Volume :=
  (evictOldBuildCacheSync ch keepN volumes).toOption.getD []

def remaining (keepN : ℕ) (volumes : List Volume) : List Volume :=
  volumes.filter (· ∉ removed ch keepN volumes)

def MoreRecent (v w : Volume) : Prop := ∃ s ∈ builtAt ch v, ∃ t ∈ builtAt ch w, t < s

/-- The pass has kept the newest volumes, `fresh` among them. -/
structure KeepsNewest (keepN : ℕ) (volumes : List Volume) (fresh : Volume) : Prop where
  count : (remaining ch keepN volumes).length = min keepN volumes.length
  newest : ∀ v ∈ removed ch keepN volumes, ∀ w ∈ remaining ch keepN volumes, ¬ MoreRecent ch v w
  fresh : fresh ∈ remaining ch keepN volumes

/-- The stamp for the order, once every stamp is known to be a number. -/
def seconds (v : Volume) : ℤ := (builtAt ch v).getD 0

/-- How many volumes the order puts behind `fresh`: those with a later stamp, and those with its own that come after it. -/
def behind (before : List Volume) (fresh : Volume) (after : List Volume) : ℕ :=
  (before.filter (seconds ch fresh < seconds ch ·)).length + (after.filter (seconds ch fresh ≤ seconds ch ·)).length

end Pass

variable {ch : Characters} {keepN : ℕ} {volumes before after : List Volume} {fresh : Volume}

theorem removed_few (h : volumes.length ≤ keepN) : removed ch keepN volumes = [] := by
  rw [removed, evictOldBuildCacheSync, if_pos h]
  rfl

/-- A stamp that is no number ends the pass before the first removal. -/
theorem removed_unreadable (h : ∃ v ∈ volumes, builtAt ch v = none) : removed ch keepN volumes = [] := by
  obtain ⟨v, hv, hnone⟩ := h
  rw [removed, evictOldBuildCacheSync]
  split
  · rfl
  · have hfind : ∃ w, volumes.find? (fun v => (builtAt ch v).isNone) = some w :=
      Option.isSome_iff_exists.mp (List.find?_isSome.mpr ⟨v, hv, by rw [hnone]; rfl⟩)
    obtain ⟨w, hw⟩ := hfind
    rw [sort, hw]
    rfl

theorem removed_sorted (hcount : keepN < volumes.length) (h : ∀ v ∈ volumes, (builtAt ch v).isSome = true) :
    removed ch keepN volumes = (byKey (seconds ch) volumes).take (volumes.length - keepN) := by
  have hfind : volumes.find? (fun v => (builtAt ch v).isNone) = none := by
    rw [List.find?_eq_none]
    intro v hv hnone
    rw [← Option.not_isSome, h v hv] at hnone
    cases hnone
  rw [removed, evictOldBuildCacheSync, if_neg (Nat.not_le.mpr hcount), sort, hfind]
  rfl

theorem remaining_eq (h : removed ch keepN volumes = []) : remaining ch keepN volumes = volumes := by
  rw [remaining, h, List.filter_eq_self]
  exact fun v _ => decide_eq_true List.not_mem_nil

theorem filter_notMem_take {sorted : List Volume} (h : sorted.Nodup) (m : ℕ) :
    sorted.filter (· ∉ sorted.take m) = sorted.drop m := by
  have hsplit := List.take_append_drop m sorted
  have hdisjoint := (List.nodup_append.mp (hsplit.symm ▸ h)).2.2
  have htake : (sorted.take m).filter (· ∉ sorted.take m) = [] := by
    rw [List.filter_eq_nil_iff]
    exact fun v hv hnot => of_decide_eq_true hnot hv
  have hdrop : (sorted.drop m).filter (· ∉ sorted.take m) = sorted.drop m := by
    rw [List.filter_eq_self]
    exact fun v hv => decide_eq_true fun hv' => hdisjoint v hv' v hv rfl
  calc sorted.filter (· ∉ sorted.take m)
      = (sorted.take m ++ sorted.drop m).filter (· ∉ sorted.take m) := by rw [hsplit]
    _ = sorted.drop m := by rw [List.filter_append, htake, hdrop, List.nil_append]

/-- A pass over readable stamps leaves the last volumes of the order. -/
theorem remaining_sorted (hnodup : volumes.Nodup) (hcount : keepN < volumes.length)
    (h : ∀ v ∈ volumes, (builtAt ch v).isSome = true) :
    (remaining ch keepN volumes).Perm ((byKey (seconds ch) volumes).drop (volumes.length - keepN)) := by
  rw [remaining, removed_sorted hcount h, ← filter_notMem_take ((byKey_perm _ volumes).nodup_iff.mpr hnodup)]
  exact ((byKey_perm _ volumes).filter _).symm

theorem mem_drop_iff {lower upper : List Volume} (h : (lower ++ fresh :: upper).Nodup) (m : ℕ) :
    fresh ∈ (lower ++ fresh :: upper).drop m ↔ m ≤ lower.length := by
  constructor
  · intro hmem
    by_contra hm
    rw [List.drop_append, List.drop_eq_nil_of_le (Nat.le_of_not_le hm), List.nil_append] at hmem
    obtain ⟨k, hk⟩ : ∃ k, m - lower.length = k + 1 := ⟨m - lower.length - 1, by omega⟩
    rw [hk, List.drop_succ_cons] at hmem
    exact (List.nodup_cons.mp (List.nodup_append.mp h).2.1).1 (List.mem_of_mem_drop hmem)
  · intro hm
    rw [List.drop_append_of_le_length hm]
    exact List.mem_append_right _ List.mem_cons_self

/-- The saved volume stays when fewer than `keepN` are behind it. -/
theorem fresh_mem_iff (hnodup : (before ++ fresh :: after).Nodup) (hcount : keepN < (before ++ fresh :: after).length)
    (h : ∀ v ∈ before ++ fresh :: after, (builtAt ch v).isSome = true) :
    fresh ∈ remaining ch keepN (before ++ fresh :: after) ↔ behind ch before fresh after < keepN := by
  obtain ⟨lower, upper, hsort, hupper⟩ := byKey_split (seconds ch) before after fresh
  have hperm := byKey_perm (seconds ch) (before ++ fresh :: after)
  have hlength := hperm.length_eq
  have hsorted := hperm.nodup_iff.mpr hnodup
  rw [hsort] at hlength hsorted
  rw [(remaining_sorted hnodup hcount h).mem_iff, hsort, mem_drop_iff hsorted]
  rw [List.length_append, List.length_cons] at hlength
  unfold behind
  omega

theorem count_sorted (hnodup : volumes.Nodup) (hcount : keepN < volumes.length)
    (h : ∀ v ∈ volumes, (builtAt ch v).isSome = true) : (remaining ch keepN volumes).length = min keepN volumes.length := by
  rw [(remaining_sorted hnodup hcount h).length_eq, List.length_drop, (byKey_perm _ volumes).length_eq]
  omega

theorem newest_sorted (hnodup : volumes.Nodup) (hcount : keepN < volumes.length)
    (h : ∀ v ∈ volumes, (builtAt ch v).isSome = true) :
    ∀ v ∈ removed ch keepN volumes, ∀ w ∈ remaining ch keepN volumes, ¬ MoreRecent ch v w := by
  rintro v hv w hw ⟨s, hs, t, ht, hlt⟩
  rw [removed_sorted hcount h] at hv
  rw [(remaining_sorted hnodup hcount h).mem_iff] at hw
  have hsorted := byKey_sorted (seconds ch) volumes
  rw [← List.take_append_drop (volumes.length - keepN) (byKey (seconds ch) volumes)] at hsorted
  have hle : seconds ch v ≤ seconds ch w := (List.pairwise_append.mp hsorted).2.2 v hv w hw
  rw [seconds, seconds, Option.mem_def.mp hs, Option.mem_def.mp ht] at hle
  exact absurd hlt (not_lt.mpr hle)

/-- The pass keeps the newest volumes exactly when there is nothing to remove, or every stamp is a number and
fewer than `keepN` volumes are behind the saved one. -/
theorem keeps_newest_iff (ch : Characters) (keepN : ℕ) (before : List Volume) (fresh : Volume) (after : List Volume)
    (hnames : ((before ++ fresh :: after).map Volume.name).Nodup) :
    KeepsNewest ch keepN (before ++ fresh :: after) fresh ↔
      (before ++ fresh :: after).length ≤ keepN ∨
        (∀ v ∈ before ++ fresh :: after, (builtAt ch v).isSome = true) ∧ behind ch before fresh after < keepN := by
  have hnodup : (before ++ fresh :: after).Nodup := hnames.of_map _
  rcases Nat.lt_or_ge keepN (before ++ fresh :: after).length with hcount | hcount
  · by_cases hread : ∀ v ∈ before ++ fresh :: after, (builtAt ch v).isSome = true
    · rw [or_iff_right (Nat.not_le.mpr hcount), and_iff_right hread, ← fresh_mem_iff hnodup hcount hread]
      exact ⟨KeepsNewest.fresh, fun hfresh =>
        ⟨count_sorted hnodup hcount hread, newest_sorted hnodup hcount hread, hfresh⟩⟩
    · refine iff_of_false (fun hkeeps => ?_) (by rintro (h | ⟨h, -⟩); exacts [absurd h (Nat.not_le.mpr hcount), hread h])
      simp only [not_forall, Option.not_isSome_iff_eq_none] at hread
      obtain ⟨v, hv, hnone⟩ := hread
      have hkept := hkeeps.count
      rw [remaining_eq (removed_unreadable ⟨v, hv, hnone⟩), Nat.min_eq_left hcount.le] at hkept
      exact absurd hkept.symm hcount.ne
  · have hnone : removed ch keepN (before ++ fresh :: after) = [] := removed_few hcount
    have hstays := remaining_eq hnone
    refine iff_of_true ⟨?_, ?_, ?_⟩ (.inl hcount)
    · rw [hstays, Nat.min_eq_right hcount]
    · intro v hv
      rw [hnone] at hv
      cases hv
    · rw [hstays]
      exact List.mem_append_right _ List.mem_cons_self

/-! ### Two volumes -/

def volume (name stamp : String) : Volume := ⟨name, some [("rvp.built_at", stamp)]⟩

theorem earlier_removed : ([volume "a" "17", volume "b" "18"].map Volume.name).Nodup ∧
    KeepsNewest .ascii 1 [volume "a" "17", volume "b" "18"] (volume "b" "18") := by
  have hnames : ([volume "a" "17", volume "b" "18"].map Volume.name).Nodup := by decide
  exact ⟨hnames, (keeps_newest_iff .ascii 1 [volume "a" "17"] (volume "b" "18") [] hnames).mpr (.inr (by decide))⟩

/-- Of two volumes of one second the one saved last is removed, and with a stamp that is no number none is. -/
theorem saved_volume_removed :
    ¬ KeepsNewest .ascii 1 [volume "b" "18", volume "a" "18"] (volume "b" "18") ∧
      ¬ KeepsNewest .ascii 1 [volume "a" "soon", volume "b" "18"] (volume "b" "18") := by
  constructor
  · intro h
    have hleft : remaining .ascii 1 [volume "b" "18", volume "a" "18"] = [volume "a" "18"] := by decide
    exact absurd (hleft ▸ h.fresh) (by decide)
  · intro h
    have hleft : remaining .ascii 1 [volume "a" "soon", volume "b" "18"] = [volume "a" "soon", volume "b" "18"] := by decide
    exact absurd (hleft ▸ h.count) (by decide)

end ReleaseValidation.SandboxManager.CacheEviction
