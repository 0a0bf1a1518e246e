import ReleaseValidation.Foundations.Keysets

/-! # Views of a log that grows

A log has increasing entries. What a reader shows of it is right if it is a first part of the log;
it can be continued by the entries above its last one, or by a feed that brings the rest in order.
-/
namespace ReleaseValidation.Views
open Keysets
variable {κ : Type*} [LinearOrder κ] {log shown fed next rest new : List κ}

/-- A part of the log that leaves out none of its entries is the log. -/
theorem eq_log (hlog : log.Pairwise (· < ·)) (hpart : fed.Sublist log) (hall : ∀ i ∈ log, i ∈ fed) : fed = log :=
  List.Pairwise.eq_of_mem_iff (hlog.sublist hpart) hlog fun i => ⟨fun h => hpart.subset h, hall i⟩

/-- A reader to whom every entry has been shown shows the log. -/
theorem shown_eq_log (hlog : log.Pairwise (· < ·)) (hshown : shown <+: log) (hall : ∀ i ∈ log, i ∈ shown) :
    shown = log :=
  eq_log hlog hshown.sublist hall

/-- What is below an entry shown is shown. -/
theorem mem_of_le (hlog : log.Pairwise (· < ·)) (hshown : shown <+: log) {i j : κ} (hi : i ∈ shown) (hj : j ∈ log)
    (hle : j ≤ i) : j ∈ shown := by
  obtain ⟨rest, rfl⟩ := hshown
  rcases List.mem_append.mp hj with hj | hj
  · exact hj
  · have hlt := (List.pairwise_append.mp hlog).2.2 i hi j hj
    exact absurd hle (not_le.mpr hlt)

/-- The entries above the last one shown are the rest of the log. -/
theorem above_last_shown (hlog : log.Pairwise (· < ·)) (hshown : shown <+: log) {c : κ} (hc : shown.getLast? = some c) :
    shown ++ above id (some c) log = log := by
  obtain ⟨rest, rfl⟩ := hshown
  obtain ⟨before, rfl⟩ := List.getLast?_eq_some_iff.mp hc
  have hcons : before ++ [c] ++ rest = before ++ c :: rest := by simp
  rw [hcons] at hlog ⊢
  have hrest : above id (some c) (before ++ c :: rest) = rest := above_key hlog
  rw [hrest, hcons]

/-- A feed that has all that is not shown goes on where the reader is, if it begins with what is not shown. -/
theorem continues (hlog : log.Pairwise (· < ·)) (hshown : shown <+: log) (hfed : (next ++ rest).Sublist log)
    (hall : ∀ i ∈ log, i ∈ shown ∨ i ∈ next ++ rest) (hnext : ∀ i ∈ next, i ∉ shown) :
    shown ++ next <+: log := by
  cases next with
  | nil => simpa using hshown
  | cons i next =>
    obtain ⟨unshown, rfl⟩ := hshown
    have hsorted := hlog.sublist hfed
    have hbelow := (List.pairwise_append.mp hlog).2.2
    have hi : i ∈ unshown :=
      (List.mem_append.mp (hfed.subset List.mem_cons_self)).resolve_left (hnext i List.mem_cons_self)
    have hnot : ∀ j ∈ i :: next ++ rest, j ∉ shown := by
      intro j hj hshown
      have hlt := hbelow j hshown i hi
      rcases List.mem_cons.mp hj with rfl | hj
      · exact lt_irrefl j hlt
      · exact lt_asymm hlt (List.rel_of_pairwise_cons hsorted hj)
    have hrest : i :: next ++ rest = unshown := by
      refine List.Pairwise.eq_of_mem_iff hsorted (List.pairwise_append.mp hlog).2.1 fun j => ?_
      refine ⟨fun hj => ?_, fun hj => ?_⟩
      · exact (List.mem_append.mp (hfed.subset hj)).resolve_left (hnot j hj)
      · refine (hall j (List.mem_append_right shown hj)).resolve_left fun hs => ?_
        exact lt_irrefl j (hbelow j hs j hj)
    exact ⟨rest, by rw [List.append_assoc, hrest]⟩

/-- What has been shown is not shown again. -/
theorem not_prefix_of_mem {α : Type*} {shown next log : List α} (hlog : log.Nodup) {i : α} (hi : i ∈ shown)
    (hnext : i ∈ next) : ¬ shown ++ next <+: log := by
  intro h
  exact (List.nodup_append.mp (hlog.sublist h.sublist)).2.2 i hi i hnext rfl

/-- New entries do not make a wrong view right. -/
theorem prefix_of_prefix_append {α : Type*} {shown log new : List α} (h : shown <+: log ++ new)
    (hnew : ∀ x ∈ new, x ∉ shown) : shown <+: log := by
  rcases List.prefix_or_prefix_of_prefix h (List.prefix_append log new) with h' | ⟨more, rfl⟩
  · exact h'
  · cases more with
    | nil => simp
    | cons x more =>
      have hx : x ∈ new := ((List.prefix_append_right_inj log).mp h).subset List.mem_cons_self
      exact absurd (by simp) (hnew x hx)

end ReleaseValidation.Views
