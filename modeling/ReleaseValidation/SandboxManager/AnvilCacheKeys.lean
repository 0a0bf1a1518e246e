import Mathlib.Data.List.Basic
import Mathlib.Logic.Function.Basic

/-! # The keys of the chain states

The files of a cached chain state are named after the version of the contracts. Every character
that a file name should not have becomes an underscore, so that two versions have one
key if they differ in such characters only.
-/
namespace ReleaseValidation.SandboxManager.AnvilCacheKeys

/-- `[A-Za-z0-9._-]`. -/
def allowed (c : Char) : Bool :=
  (decide ('A' ≤ c) && decide (c ≤ 'Z')) || (decide ('a' ≤ c) && decide (c ≤ 'z')) ||
    (decide ('0' ≤ c) && decide (c ≤ '9')) || c == '.' || c == '_' || c == '-'

def replaced (c : Char) : Char := if allowed c then c else '_'

/-- `re.sub(r"[^A-Za-z0-9._-]", "_", raw)`. -/
def sub (raw : List Char) : List Char := raw.map replaced

/-- `ANVIL_STATE_CACHE_REV`. -/
def anvilStateCacheRev : String := "3"

/-- `contracts_version or 'devnet'`. -/
def version (contractsVersion : Option String) : String :=
  match contractsVersion with
  | some v => if v = "" then "devnet" else v
  | none => "devnet"

/-- `_anvil_cache_key`. -/
def anvilCacheKey (contractsVersion : Option String) : String :=
  String.ofList (sub ((version contractsVersion).toList ++ "-r".toList ++ anvilStateCacheRev.toList))

/-- `f"{key}.state.json"`. -/
def stateFile (key : String) : String := key ++ ".state.json"

/-- `f"{key}.addresses.json"`. -/
def addressesFile (key : String) : String := key ++ ".addresses.json"

section Cache
variable {β δ : Type}

/-- What a save leaves in the directory. -/
def save (dir : String → Option β) (key : String) (state addrs : β) : String → Option β :=
  Function.update (Function.update dir (stateFile key) (some state)) (addressesFile key) (some addrs)

/-- The state that Anvil loads and the sidecar of a hit; `read` is its parse, with the check of the addresses. -/
def lookup (read : β → Option δ) (dir : String → Option β) (key : String) : Option (β × δ) :=
  (dir (stateFile key)).bind fun state => (dir (addressesFile key)).bind fun addrs => (read addrs).map fun doc => (state, doc)

end Cache

/-- The keys and the file names of two versions differ, and no lookup for one sees what is saved for the other. -/
structure Apart (v w : Option String) : Prop where
  keys : anvilCacheKey v ≠ anvilCacheKey w
  states : stateFile (anvilCacheKey v) ≠ stateFile (anvilCacheKey w)
  addresses : addressesFile (anvilCacheKey v) ≠ addressesFile (anvilCacheKey w)
  lookups : ∀ {β δ : Type} (read : β → Option δ) (dir : String → Option β) (state addrs : β),
    lookup read (save dir (anvilCacheKey v) state addrs) (anvilCacheKey w) = lookup read dir (anvilCacheKey w)

/-- A character that stays and that no other becomes. -/
def Kept (c : Char) : Prop := allowed c = true ∧ c ≠ '_'

instance (c : Char) : Decidable (Kept c) := inferInstanceAs (Decidable (_ ∧ _))

/-- The texts have different lengths, or at some place different characters one of which is kept. -/
def Told (v w : List Char) : Prop := v.length ≠ w.length ∨ ∃ p ∈ v.zip w, p.1 ≠ p.2 ∧ (Kept p.1 ∨ Kept p.2)

instance (v w : List Char) : Decidable (Told v w) := inferInstanceAs (Decidable (_ ∨ _))

theorem replaced_eq_iff (c d : Char) : replaced c = replaced d ↔ c = d ∨ ¬ Kept c ∧ ¬ Kept d := by
  have hunderscore : allowed '_' = true := by decide
  unfold replaced Kept
  by_cases hc : allowed c = true <;> by_cases hd : allowed d = true
  · rw [if_pos hc, if_pos hd]
    constructor
    · exact .inl
    · rintro (h | ⟨hc', hd'⟩)
      · exact h
      · rw [not_and_not_right] at hc' hd'
        rw [hc' hc, hd' hd]
  · rw [if_pos hc, if_neg hd]
    constructor
    · rintro rfl
      exact .inr ⟨fun h => h.2 rfl, fun h => hd h.1⟩
    · rintro (rfl | ⟨hc', -⟩)
      · exact absurd hc hd
      · rw [not_and_not_right] at hc'
        exact hc' hc
  · rw [if_neg hc, if_pos hd]
    constructor
    · rintro rfl
      exact .inr ⟨fun h => hc h.1, fun h => h.2 rfl⟩
    · rintro (rfl | ⟨-, hd'⟩)
      · exact absurd hd hc
      · rw [not_and_not_right] at hd'
        exact (hd' hd).symm
  · rw [if_neg hc, if_neg hd]
    exact iff_of_true rfl (.inr ⟨fun h => hc h.1, fun h => hd h.1⟩)

theorem sub_eq_iff {v w : List Char} : sub v = sub w ↔ ¬ Told v w := by
  unfold sub Told
  induction v generalizing w with
  | nil => cases w <;> simp
  | cons c v ih =>
    cases w with
    | nil => simp
    | cons d w =>
      rw [List.map_cons, List.map_cons, List.cons.injEq, replaced_eq_iff, ih, List.zip_cons_cons]
      simp only [List.length_cons, List.mem_cons, exists_eq_or_imp, ne_eq, Nat.add_right_cancel_iff, not_or]
      constructor
      · rintro ⟨hfirst, hlength, hrest⟩
        exact ⟨hlength, fun h => hfirst.elim h.1 fun hkept => h.2.elim hkept.1 hkept.2, hrest⟩
      · rintro ⟨hlength, hfirst, hrest⟩
        refine ⟨?_, hlength, hrest⟩
        by_cases hcd : c = d
        · exact .inl hcd
        · exact .inr ⟨fun h => hfirst ⟨hcd, .inl h⟩, fun h => hfirst ⟨hcd, .inr h⟩⟩

theorem anvilCacheKey_eq_iff {v w : Option String} :
    anvilCacheKey v = anvilCacheKey w ↔ ¬ Told (version v).toList (version w).toList := by
  have hkey : ∀ u, anvilCacheKey u =
      String.ofList (sub (version u).toList ++ sub ("-r".toList ++ anvilStateCacheRev.toList)) := fun u => by
    unfold anvilCacheKey sub
    rw [List.append_assoc, List.map_append]
  rw [hkey v, hkey w, String.ofList_inj, List.append_cancel_right_eq, sub_eq_iff]

theorem stateFile_ne_addressesFile (key other : String) : stateFile key ≠ addressesFile other := by
  intro h
  have hends := congrArg (fun name => (String.toList name).reverse.take 9) h
  simp only [stateFile, addressesFile, String.toList_append, List.reverse_append] at hends
  rw [List.take_append_of_le_length (by decide), List.take_append_of_le_length (by decide)] at hends
  exact absurd hends (by decide)

theorem lookup_save {β δ : Type} (read : β → Option δ) (dir : String → Option β) (state addrs : β) {saved looked : String}
    (hne : saved ≠ looked) : lookup read (save dir saved state addrs) looked = lookup read dir looked := by
  have hstate : stateFile looked ≠ stateFile saved := fun h => hne (String.append_left_inj _ |>.mp h).symm
  have haddrs : addressesFile looked ≠ addressesFile saved := fun h => hne (String.append_left_inj _ |>.mp h).symm
  unfold lookup save
  rw [Function.update_of_ne (stateFile_ne_addressesFile looked saved), Function.update_of_ne hstate,
    Function.update_of_ne haddrs, Function.update_of_ne (stateFile_ne_addressesFile saved looked).symm ]

/-- Two versions have files of their own exactly when their texts are told apart. -/
theorem cache_keys_apart_iff (v w : Option String) : Apart v w ↔ Told (version v).toList (version w).toList := by
  constructor
  · intro h
    exact by_contra fun htold => h.keys (anvilCacheKey_eq_iff.mpr htold)
  · intro htold
    have hkeys : anvilCacheKey v ≠ anvilCacheKey w := fun h => anvilCacheKey_eq_iff.mp h htold
    exact {
      keys := hkeys
      states := fun h => hkeys (String.append_left_inj _ |>.mp h)
      addresses := fun h => hkeys (String.append_left_inj _ |>.mp h)
      lookups := fun read dir state addrs => lookup_save read dir state addrs hkeys }

/-- The build after a plus sign and the one after a blank have one key, and a lookup for the second finds
what the first has saved. -/
theorem versions_share_state : some "v2.0.0+a" ≠ some "v2.0.0 a" ∧ ¬ Apart (some "v2.0.0+a") (some "v2.0.0 a") := by
  refine ⟨by decide, fun h => h.keys ?_⟩
  decide

end ReleaseValidation.SandboxManager.AnvilCacheKeys
