import ReleaseValidation.Foundations.Keysets

/-! # Following a table that grows

A reader asks again and again for the next rows above the key of the last row it has read,
at most `n` at a time, while rows are added to the table. Rows are read in the order of their
keys and never twice. A row is passed over for ever if it is added below the reader's key, or
if a page ends between it and a row with the same key.
-/
namespace ReleaseValidation.Tailing
open Keysets
variable {ρ κ : Type*} [LinearOrder κ] {key : ρ → κ} {n : ℕ} {c : Option κ} {prev rows page : List ρ}

/-- A database's answer: the first `n` rows above the key, in the order of keys. -/
def Fetched (key : ρ → κ) (n : ℕ) (c : Option κ) (rows page : List ρ) : Prop :=
  ∃ rest, (page ++ rest).Perm (above key c rows) ∧ (page ++ rest).Pairwise (key · ≤ key ·) ∧ page.length ≤ n ∧
    (rest ≠ [] → page.length = n)

/-- The reader's key after a page. -/
def advance (key : ρ → κ) (c : Option κ) (page : List ρ) : Option κ :=
  match page.getLast? with
  | some r => some (key r)
  | none => c

/-- A poll: the rows of the table at its time, and the page read. -/
abbrev Poll (ρ : Type*) := List ρ × List ρ

def position (key : ρ → κ) : Option κ → List (Poll ρ) → Option κ
  | c, [] => c
  | c, p :: ps => position key (advance key c p.2) ps

/-- The rows of the table at the last poll. -/
def latest : List ρ → List (Poll ρ) → List ρ
  | prev, [] => prev
  | _, p :: ps => latest p.1 ps

omit [LinearOrder κ] in
theorem position_snoc (c : Option κ) (ps : List (Poll ρ)) (p : Poll ρ) :
    position key c (ps ++ [p]) = advance key (position key c ps) p.2 := by
  induction ps generalizing c with
  | nil => rfl
  | cons q ps ih => exact ih (advance key c q.2)

omit [LinearOrder κ] in
/-- The reader's key is that of the last row read. -/
theorem position_eq (c : Option κ) (ps : List (Poll ρ)) :
    position key c ps = ((ps.flatMap Prod.snd).getLast?.map key).or c := by
  induction ps generalizing c with
  | nil => rfl
  | cons p ps ih =>
    rw [position, ih, List.flatMap_cons, List.getLast?_append, advance]
    cases (ps.flatMap Prod.snd).getLast? with
    | some r => rfl
    | none =>
      cases p.2.getLast? with
      | some q => rfl
      | none => rfl

/-- The table only grows, and every page is fetched from it. -/
def Follows (key : ρ → κ) (n : ℕ) : Option κ → List ρ → List (Poll ρ) → Prop
  | _, _, [] => True
  | c, prev, p :: ps =>
    prev ⊆ p.1 ∧ p.1.Nodup ∧ Fetched key n c p.1 p.2 ∧ Follows key n (advance key c p.2) p.1 ps

/-- No row is added at or below the reader's key, and no page ends between rows with one key. -/
def Clean (key : ρ → κ) : Option κ → List ρ → List (Poll ρ) → Prop
  | _, _, [] => True
  | c, prev, p :: ps =>
    (∀ r ∈ p.1, r ∉ prev → ∀ k ∈ c, k < key r) ∧ (∀ q ∈ p.2.getLast?, ∀ r ∈ p.1, key r = key q → r ∈ p.2) ∧
      Clean key (advance key c p.2) p.1 ps

/-- Every row up to the reader's key has been read. -/
def Covers (key : ρ → κ) (c : Option κ) (rows read : List ρ) : Prop := ∀ r ∈ rows, ∀ k ∈ c, key r ≤ k → r ∈ read

theorem Fetched.mem (h : Fetched key n c rows page) {r : ρ} (hr : r ∈ page) : r ∈ rows ∧ ∀ k ∈ c, k < key r := by
  obtain ⟨rest, hperm, -⟩ := h
  have hmem : r ∈ above key c rows := hperm.mem_iff.mp (List.mem_append_left _ hr)
  simpa [above] using hmem

theorem Fetched.pairwise (h : Fetched key n c rows page) : page.Pairwise (key · ≤ key ·) := by
  obtain ⟨rest, -, hsorted, -⟩ := h
  exact (List.pairwise_append.mp hsorted).1

theorem Fetched.nodup (h : Fetched key n c rows page) (hrows : rows.Nodup) : page.Nodup := by
  obtain ⟨rest, hperm, -⟩ := h
  exact (List.nodup_append'.mp (hperm.nodup_iff.mpr (hrows.filter _))).1

omit [LinearOrder κ] in
theorem advance_of_getLast {q : ρ} (h : page.getLast? = some q) : advance key c page = some (key q) := by
  rw [advance, h]

/-- The rows of a page are up to the key that the reader advances to. -/
theorem Fetched.le_advance (h : Fetched key n c rows page) {r : ρ} (hr : r ∈ page) :
    ∃ k, advance key c page = some k ∧ key r ≤ k := by
  obtain ⟨front, q, rfl⟩ := (List.eq_nil_or_concat' page).resolve_left (List.ne_nil_of_mem hr)
  refine ⟨key q, advance_of_getLast (by simp), ?_⟩
  rcases List.mem_append.mp hr with hr | hr
  · exact (List.pairwise_append.mp h.pairwise).2.2 r hr q (List.mem_singleton.mpr rfl)
  · rw [List.mem_singleton.mp hr]

/-- A row below the key of a page's last row, and above the reader's, is on the page. -/
theorem Fetched.mem_of_lt (h : Fetched key n c rows page) {q r : ρ} (hq : page.getLast? = some q) (hr : r ∈ rows)
    (habove : ∀ k ∈ c, k < key r) (hlt : key r < key q) : r ∈ page := by
  obtain ⟨rest, hperm, hsorted, -⟩ := h
  have hmem : r ∈ page ++ rest := hperm.mem_iff.mpr (by simpa [above] using ⟨hr, habove⟩)
  rcases List.mem_append.mp hmem with hpage | hrest
  · exact hpage
  · have hle := (List.pairwise_append.mp hsorted).2.2 q (List.mem_of_getLast? hq) r hrest
    exact absurd hle (not_le.mpr hlt)

theorem Fetched.advance_lt (h : Fetched key n c rows page) {q : ρ} (hq : page.getLast? = some q) : ∀ k ∈ c, k < key q :=
  (h.mem (List.mem_of_getLast? hq)).2

theorem Fetched.le_position (h : Fetched key n c rows page) {k : κ} (hk : k ∈ c) :
    ∃ k', advance key c page = some k' ∧ k ≤ k' := by
  cases hq : page.getLast? with
  | none => exact ⟨k, by rw [advance, hq]; exact hk, le_refl k⟩
  | some q => exact ⟨key q, advance_of_getLast hq, (h.advance_lt hq k hk).le⟩

/-! ### Order -/

variable {ps : List (Poll ρ)}

/-- What is read lies above the key it was read from, in the order of keys, and no row is read twice. -/
theorem Follows.ordered (h : Follows key n c prev ps) :
    (∀ r ∈ ps.flatMap Prod.snd, ∀ k ∈ c, k < key r) ∧ (ps.flatMap Prod.snd).Pairwise (key · ≤ key ·) ∧
      (ps.flatMap Prod.snd).Nodup := by
  induction ps generalizing c prev with
  | nil => simp
  | cons p ps ih =>
    obtain ⟨-, hnodup, hfetch, hrest⟩ := h
    obtain ⟨habove, hsorted, hdistinct⟩ := ih hrest
    rw [List.flatMap_cons]
    have hlater : ∀ r ∈ p.2, ∀ r' ∈ ps.flatMap Prod.snd, key r < key r' := by
      intro r hr r' hr'
      obtain ⟨k, hk, hle⟩ := hfetch.le_advance hr
      exact hle.trans_lt (habove r' hr' k hk)
    refine ⟨fun r hr k hk => ?_, List.pairwise_append.mpr ⟨hfetch.pairwise, hsorted, ?_⟩, ?_⟩
    · rcases List.mem_append.mp hr with hr | hr
      · exact (hfetch.mem hr).2 k hk
      · obtain ⟨k', hk', hle⟩ := hfetch.le_position hk
        exact hle.trans_lt (habove r hr k' hk')
    · exact fun r hr r' hr' => (hlater r hr r' hr').le
    · refine List.nodup_append'.mpr ⟨hfetch.nodup hnodup, hdistinct, fun r hr hr' => ?_⟩
      exact lt_irrefl _ (hlater r hr r hr')

theorem Follows.le_position (h : Follows key n c prev ps) {k : κ} (hk : k ∈ c) : ∃ k' ∈ position key c ps, k ≤ k' := by
  induction ps generalizing c prev k with
  | nil => exact ⟨k, hk, le_refl k⟩
  | cons p ps ih =>
    obtain ⟨-, -, hfetch, hrest⟩ := h
    obtain ⟨k', hk', hle⟩ := hfetch.le_position hk
    obtain ⟨k'', hk'', hle'⟩ := ih hrest hk'
    exact ⟨k'', hk'', hle.trans hle'⟩

theorem Follows.subset_latest (h : Follows key n c prev ps) : prev ⊆ latest prev ps := by
  induction ps generalizing c prev with
  | nil => exact List.Subset.refl prev
  | cons p ps ih =>
    obtain ⟨hgrows, -, -, hrest⟩ := h
    exact List.Subset.trans hgrows (ih hrest)

/-- What is read are rows of the table, up to the reader's key. -/
theorem Follows.mem_latest (h : Follows key n c prev ps) {r : ρ} (hr : r ∈ ps.flatMap Prod.snd) :
    r ∈ latest prev ps ∧ ∃ k ∈ position key c ps, key r ≤ k := by
  induction ps generalizing c prev with
  | nil => cases hr
  | cons p ps ih =>
    obtain ⟨-, -, hfetch, hrest⟩ := h
    rcases List.mem_append.mp hr with hr | hr
    · obtain ⟨k, hk, hle⟩ := hfetch.le_advance hr
      obtain ⟨k', hk', hle'⟩ := hrest.le_position hk
      exact ⟨hrest.subset_latest (hfetch.mem hr).1, k', hk', hle.trans hle'⟩
    · exact ih hrest hr

/-! ### Completeness -/

/-- What has been read are rows of the table up to the reader's key. -/
def Reads (key : ρ → κ) (c : Option κ) (prev read : List ρ) : Prop := ∀ r ∈ read, r ∈ prev ∧ ∃ k ∈ c, key r ≤ k

section Poll
variable {read : List ρ}

theorem Reads.poll (hreads : Reads key c prev read) (hgrows : prev ⊆ rows) (hfetch : Fetched key n c rows page) :
    Reads key (advance key c page) rows (read ++ page) := by
  intro r hr
  rcases List.mem_append.mp hr with hr | hr
  · obtain ⟨hprev, k, hk, hle⟩ := hreads r hr
    obtain ⟨k', hk', hle'⟩ := hfetch.le_position hk
    exact ⟨hgrows hprev, k', hk', hle.trans hle'⟩
  · obtain ⟨k, hk, hle⟩ := hfetch.le_advance hr
    exact ⟨(hfetch.mem hr).1, k, hk, hle⟩

/-- A poll leaves no row out if none was added too low and none was cut off from its equals. -/
theorem Covers.poll (hcovers : Covers key c prev read) (hfetch : Fetched key n c rows page)
    (hlate : ∀ r ∈ rows, r ∉ prev → ∀ k ∈ c, k < key r) (hcut : ∀ q ∈ page.getLast?, ∀ r ∈ rows, key r = key q → r ∈ page) :
    Covers key (advance key c page) rows (read ++ page) := by
  have hold : ∀ r ∈ rows, ∀ k ∈ c, key r ≤ k → r ∈ read := by
    intro r hr k hk hle
    by_cases hprev : r ∈ prev
    · exact hcovers r hprev k hk hle
    · exact absurd hle (not_le.mpr (hlate r hr hprev k hk))
  intro r hr k hk hle
  cases hq : page.getLast? with
  | none =>
    rw [advance, hq] at hk
    exact List.mem_append_left _ (hold r hr k hk hle)
  | some q =>
    rw [advance_of_getLast hq] at hk
    cases hk
    by_cases habove : ∀ k ∈ c, k < key r
    · refine List.mem_append_right _ ?_
      rcases hle.eq_or_lt with heq | hlt
      · exact hcut q hq r hr heq
      · exact hfetch.mem_of_lt hq hr habove hlt
    · push Not at habove
      obtain ⟨k, hk, hle⟩ := habove
      exact List.mem_append_left _ (hold r hr k hk hle)

/-- A row that is passed over is never read. -/
theorem Follows.never_read (h : Follows key n c prev ps) {r : ρ} {k : κ} (hr : r ∈ prev) (hk : k ∈ c) (hle : key r ≤ k)
    (hread : r ∉ read) : ¬ Covers key (position key c ps) (latest prev ps) (read ++ ps.flatMap Prod.snd) := by
  intro hcovers
  obtain ⟨k', hk', hle'⟩ := h.le_position hk
  rcases List.mem_append.mp (hcovers r (h.subset_latest hr) k' hk' (hle.trans hle')) with hmem | hmem
  · exact hread hmem
  · exact absurd hle (not_le.mpr (h.ordered.1 r hmem k hk))

/-- The reader has read every row up to its key if and only if no row was added too low and no page
was cut between equals. -/
theorem Follows.covers_iff (h : Follows key n c prev ps) (hreads : Reads key c prev read)
    (hcovers : Covers key c prev read) :
    Covers key (position key c ps) (latest prev ps) (read ++ ps.flatMap Prod.snd) ↔ Clean key c prev ps := by
  induction ps generalizing c prev read with
  | nil => simpa [position, latest, Clean] using hcovers
  | cons p ps ih =>
    obtain ⟨hgrows, hnodup, hfetch, hrest⟩ := h
    rw [position, latest, List.flatMap_cons, ← List.append_assoc]
    have hnext := hreads.poll hgrows hfetch
    constructor
    · intro hall
      have hlate : ∀ r ∈ p.1, r ∉ prev → ∀ k ∈ c, k < key r := by
        intro r hr hprev k hk
        by_contra hlt
        obtain ⟨k', hk', hle'⟩ := hfetch.le_position hk
        refine hrest.never_read hr hk' ((not_lt.mp hlt).trans hle') (fun hmem => ?_) hall
        rcases List.mem_append.mp hmem with hmem | hmem
        · exact hprev (hreads r hmem).1
        · exact hlt ((hfetch.mem hmem).2 k hk)
      have hcut : ∀ q ∈ p.2.getLast?, ∀ r ∈ p.1, key r = key q → r ∈ p.2 := by
        intro q hq r hr heq
        by_contra hpage
        refine hrest.never_read hr (advance_of_getLast hq) heq.le (fun hmem => ?_) hall
        rcases List.mem_append.mp hmem with hmem | hmem
        · obtain ⟨k, hk, hle⟩ := (hreads r hmem).2
          exact absurd (heq ▸ hle) (not_le.mpr (hfetch.advance_lt hq k hk))
        · exact hpage hmem
      exact ⟨hlate, hcut, (ih hrest hnext (hcovers.poll hfetch hlate hcut)).mp hall⟩
    · rintro ⟨hlate, hcut, hclean⟩
      exact (ih hrest hnext (hcovers.poll hfetch hlate hcut)).mpr hclean

end Poll

/-- A reader who starts with nothing reads rows of the table, in the order of their keys and none of
them twice; all of those up to its key if and only if the polls are clean. -/
theorem Follows.from_start (h : Follows key n none [] ps) :
    (ps.flatMap Prod.snd).Pairwise (key · ≤ key ·) ∧ (ps.flatMap Prod.snd).Nodup ∧
      (∀ r ∈ ps.flatMap Prod.snd, r ∈ latest [] ps ∧ ∃ k ∈ position key none ps, key r ≤ k) ∧
      (Covers key (position key none ps) (latest [] ps) (ps.flatMap Prod.snd) ↔ Clean key none [] ps) := by
  obtain ⟨-, hsorted, hnodup⟩ := h.ordered
  refine ⟨hsorted, hnodup, fun r hr => h.mem_latest hr, ?_⟩
  have hreads : Reads key (none : Option κ) ([] : List ρ) [] := fun r hr => absurd hr List.not_mem_nil
  exact h.covers_iff hreads fun r hr => absurd hr List.not_mem_nil

end ReleaseValidation.Tailing
