import ReleaseValidation.Foundations.Regexes

/-! # Documents between fences

A fence is a line with a mark; it opens a text, and the part that it encloses is the shortest
one that a fence follows. A strict fence is a line that is the mark and nothing else; a loose
one may have white space behind its mark, blank lines included. Where both enclose a document,
it is the same one.
-/
namespace ReleaseValidation.Fences
open Regexes

/-- The characters that `\s` matches. -/
def white (c : Char) : Bool :=
  let n := c.toNat
  (0x09 ≤ n && n ≤ 0x0d) || (0x1c ≤ n && n ≤ 0x20) || n == 0x85 || n == 0xa0 || n == 0x1680 ||
    (0x2000 ≤ n && n ≤ 0x200a) || n == 0x2028 || n == 0x2029 || n == 0x202f || n == 0x205f || n == 0x3000

/-- `\s*\n`. -/
def blankLine : Regex Char := .seq (.many white) (.one fun c => c == '\n')

def Blank (b : List Char) : Prop := ∀ c ∈ b, white c = true

/-- `s`, if the text is `s` and a rest: the rest. -/
def strip (s text : List Char) : Option (List Char) := stripLiteral (fun c d => c == d) s text

/-- `(.*?)` up to a closing: the shortest text that one follows, and what is left behind that. -/
def upTo (closing : List Char → Option (List Char)) : List Char → Option (List Char × List Char)
  | [] => (closing []).map fun rest => ([], rest)
  | c :: s =>
    match closing (c :: s) with
    | some rest => some ([], rest)
    | none => (upTo closing s).map fun m => (c :: m.1, m.2)

/-- What is left behind the opening, in the order in which a matcher tries it, and behind a closing. -/
structure Fence where
  opening : List Char → List (List Char)
  closing : List Char → Option (List Char)

/-- The enclosed text, and what is left behind the closing. -/
def Fence.enclosed (f : Fence) (text : List Char) : Option (List Char × List Char) :=
  (f.opening text).findSome? (upTo f.closing)

section Marks
variable (mark : List Char)

/-- `^mark\n(.*?)\nmark\n`. -/
def strict : Fence where
  opening text := (strip (mark ++ ['\n']) text).toList
  closing s := strip ('\n' :: (mark ++ ['\n'])) s

/-- `^mark\s*\n(.*?)\nmark\s*\n`; where the end may close too, `\s*(?:\n|$)` is its last part. -/
def loose (endCloses : Bool) : Fence where
  opening text := (strip mark text).toList.flatMap blankLine.rests
  closing s := (strip ('\n' :: mark) s).bind fun r =>
    if endCloses && r.all white then some [] else (blankLine.rests r).head?

end Marks

theorem strip_eq_some {s text r : List Char} : strip s text = some r ↔ text = s ++ r := stripLiteral_eq_some

theorem mem_blankLine {s r : List Char} (h : r ∈ blankLine.rests s) : ∃ b, Blank b ∧ s = b ++ '\n' :: r := by
  rw [blankLine, Regex.rests_seq] at h
  obtain ⟨t, ht, hr⟩ := List.mem_flatMap.mp h
  obtain ⟨b, rfl, hb⟩ := Regex.mem_rests_many ht
  cases t with
  | nil => exact absurd hr List.not_mem_nil
  | cons c t =>
    rw [Regex.rests_one_cons] at hr
    split at hr
    next hc =>
      rw [List.mem_singleton.mp hr, beq_iff_eq.mp hc]
      exact ⟨b, hb, rfl⟩
    next => exact absurd hr List.not_mem_nil

theorem mem_blankLine_newline (r : List Char) : r ∈ blankLine.rests ('\n' :: r) := by
  rw [blankLine, Regex.rests_seq]
  refine List.mem_flatMap.mpr ⟨'\n' :: r, Regex.self_mem_rests_many _ _, ?_⟩
  rw [Regex.rests_one_cons, if_pos (beq_self_eq_true '\n')]
  exact List.mem_singleton_self r

section Shortest
variable {closing : List Char → Option (List Char)} {s y rest : List Char}

theorem upTo_split (h : upTo closing s = some (y, rest)) : ∃ t, s = y ++ t ∧ closing t = some rest := by
  induction s generalizing y with
  | nil =>
    obtain ⟨r, hr, h⟩ := Option.map_eq_some_iff.mp h
    cases h
    exact ⟨[], rfl, hr⟩
  | cons c s ih =>
    rw [upTo] at h
    split at h
    next r hr =>
      cases h
      exact ⟨c :: s, rfl, hr⟩
    next =>
      obtain ⟨m, hm, h⟩ := Option.map_eq_some_iff.mp h
      cases h
      obtain ⟨t, rfl, ht⟩ := ih hm
      exact ⟨t, rfl, ht⟩

/-- No closing stands before the one that is found. -/
theorem upTo_le (h : upTo closing s = some (y, rest)) {u t r : List Char} (hs : s = u ++ t) (ht : closing t = some r) :
    y.length ≤ u.length := by
  induction s generalizing y u with
  | nil =>
    obtain ⟨r, -, h⟩ := Option.map_eq_some_iff.mp h
    cases h
    exact Nat.zero_le _
  | cons c s ih =>
    rw [upTo] at h
    split at h
    next =>
      cases h
      exact Nat.zero_le _
    next hnone =>
      obtain ⟨m, hm, h⟩ := Option.map_eq_some_iff.mp h
      cases h
      cases u with
      | nil =>
        rw [List.nil_append] at hs
        rw [hs, ht] at hnone
        cases hnone
      | cons d u =>
        rw [List.cons_append] at hs
        exact Nat.succ_le_succ (ih hm (List.cons.inj hs).2)

theorem enclosed_of_mem {f : Fence} {text : List Char} (h : f.enclosed text = some (y, rest)) :
    ∃ s ∈ f.opening text, upTo f.closing s = some (y, rest) := List.exists_of_findSome?_eq_some h

end Shortest

section Enclosed
variable {mark text y rest : List Char}

theorem strict_enclosed (h : (strict mark).enclosed text = some (y, rest)) :
    text = mark ++ '\n' :: (y ++ '\n' :: (mark ++ '\n' :: rest)) := by
  obtain ⟨s, hs, h⟩ := enclosed_of_mem h
  obtain ⟨t, rfl, ht⟩ := upTo_split h
  rw [strip_eq_some.mp (Option.mem_toList.mp hs), strip_eq_some.mp ht]
  simp only [List.append_assoc, List.cons_append, List.nil_append]

/-- What a loose fence leaves behind its mark: blank characters, and then the end or a new line. -/
def Loose (r : List Char) : Prop := Blank r ∨ ∃ w v, Blank w ∧ r = w ++ '\n' :: v

theorem loose_closing {e : Bool} {s : List Char} (h : (loose mark e).closing s = some rest) :
    ∃ r, s = '\n' :: (mark ++ r) ∧ Loose r := by
  obtain ⟨r, hr, h⟩ := Option.bind_eq_some_iff.mp h
  refine ⟨r, strip_eq_some.mp hr, ?_⟩
  split at h
  next hend => exact .inl (List.all_eq_true.mp (Bool.and_eq_true_iff.mp hend).2)
  next =>
    obtain ⟨w, hw, hr⟩ := mem_blankLine (List.mem_of_mem_head? h)
    exact .inr ⟨w, rest, hw, hr⟩

theorem loose_closes (mark : List Char) (e : Bool) (rest : List Char) :
    ∃ r, (loose mark e).closing ('\n' :: (mark ++ '\n' :: rest)) = some r := by
  have hstrip : strip ('\n' :: mark) ('\n' :: (mark ++ '\n' :: rest)) = some ('\n' :: rest) := strip_eq_some.mpr rfl
  change ∃ r, (strip ('\n' :: mark) _).bind _ = some r
  rw [hstrip, Option.bind_some]
  split
  next => exact ⟨[], rfl⟩
  next =>
    cases hrests : blankLine.rests ('\n' :: rest) with
    | nil => exact absurd (mem_blankLine_newline rest) (by rw [hrests]; exact List.not_mem_nil)
    | cons r rs => exact ⟨r, rfl⟩

/-- A line inside what a strict fence encloses: white space up to it is no obstacle to a loose fence. -/
theorem loose_enclosed_le {e : Bool} {s u : List Char} (h : upTo (loose mark e).closing s = some (y, rest)) {r : List Char}
    (hs : s = u ++ '\n' :: (mark ++ '\n' :: r)) : y.length ≤ u.length := by
  obtain ⟨t, ht⟩ := loose_closes mark e r
  exact upTo_le h hs ht

/-- A mark in front of another, further on in the text, lies wholly before it. -/
theorem mark_before {u y r s : List Char} (hmark : '\n' ∉ mark) (hlt : y.length < u.length)
    (h : u ++ '\n' :: (mark ++ s) = y ++ '\n' :: (mark ++ r)) :
    ∃ t, u = y ++ '\n' :: (mark ++ t) ∧ r = t ++ '\n' :: (mark ++ s) := by
  obtain ⟨e, rfl, he⟩ | ⟨e, rfl, -⟩ := List.append_eq_append_iff.mp h.symm
  · cases e with
    | nil => exact absurd hlt (by rw [List.append_nil]; exact Nat.lt_irrefl _)
    | cons c e =>
      rw [List.cons_append] at he
      obtain ⟨rfl, hmid⟩ := List.cons.inj he
      obtain ⟨t, rfl, ht⟩ | ⟨x, hx, hr⟩ := List.append_eq_append_iff.mp hmid
      · exact ⟨t, rfl, ht⟩
      · cases x with
        | nil => exact ⟨[], by rw [hx, List.append_nil, List.append_nil], hr.symm⟩
        | cons d x =>
          rw [List.cons_append] at hr
          obtain ⟨rfl, -⟩ := List.cons.inj hr
          exact absurd (by rw [hx]; exact List.mem_append_right _ List.mem_cons_self) hmark
  · exact absurd hlt (by rw [List.length_append]; omega)

/-- What is loose up to a line, is so without it. -/
theorem loose_before {t x : List Char} (h : Loose (t ++ '\n' :: x)) :
    ∃ w v, t = w ++ v ∧ Blank w ∧ (v = [] ∨ v.head? = some '\n') := by
  obtain hblank | ⟨w, v, hw, h⟩ := h
  · exact ⟨t, [], (List.append_nil t).symm, fun c hc => hblank c (List.mem_append_left _ hc), .inl rfl⟩
  · obtain ⟨e, rfl, -⟩ | ⟨e, rfl, he⟩ := List.append_eq_append_iff.mp h
    · exact ⟨t, [], (List.append_nil t).symm, fun c hc => hw c (List.mem_append_left _ hc), .inl rfl⟩
    · refine ⟨w, e, rfl, hw, ?_⟩
      cases e with
      | nil => exact .inl rfl
      | cons c e =>
        rw [List.cons_append] at he
        exact .inr (congrArg some (List.cons.inj he).1.symm)

end Enclosed

/-- What is known of a decoder of single documents: white space is none, blank lines in front do not
matter unless a byte order mark follows them, and behind a mark another document begins. -/
structure Documents {β : Type*} (mark : List Char) (decode : List Char → Option β) : Prop where
  blank : ∀ b, Blank b → decode b = none
  skip : ∀ b y m, Blank b → y.head? ≠ some '\ufeff' → decode (b ++ '\n' :: y) = some m → decode y = some m
  single : ∀ u w v m, Blank w → (v = [] ∨ v.head? = some '\n') → decode (u ++ '\n' :: (mark ++ (w ++ v))) = some m →
    decode u = none

/-- A byte order mark behind blank lines. -/
def LateMark (y : List Char) : Prop := ∃ b z, Blank b ∧ y = b ++ '\n' :: '\ufeff' :: z

section Decoding
variable {β : Type*} {mark text y rest : List Char} {decode : List Char → Option β}

/-- Behind each opening of a loose fence, the document of a strict one is still there. -/
theorem strict_in_loose (hd : Documents mark decode) (hy : ¬ LateMark y) {m : β} (hm : decode y = some m) {e : Bool}
    (hs : (strict mark).enclosed text = some (y, rest)) {s : List Char} (hmem : s ∈ (loose mark e).opening text) :
    ∃ u, decode u = some m ∧ s = u ++ '\n' :: (mark ++ '\n' :: rest) := by
  obtain ⟨r, hr, hmem⟩ := List.mem_flatMap.mp hmem
  have htext := strict_enclosed hs
  rw [strip_eq_some.mp (Option.mem_toList.mp hr)] at htext
  obtain ⟨b, hb, hbs⟩ := mem_blankLine hmem
  rw [List.append_cancel_left htext] at hbs
  cases b with
  | nil => exact ⟨y, hm, (List.cons.inj hbs).2.symm⟩
  | cons c b =>
    have hblank : Blank b := fun d hd => hb d (List.mem_cons_of_mem c hd)
    obtain ⟨a, rfl, ha⟩ | ⟨a, rfl, -⟩ := List.append_eq_append_iff.mp (List.cons.inj hbs).2.symm
    · cases a with
      | nil =>
        rw [List.append_nil, hd.blank b hblank] at hm
        cases hm
      | cons d a =>
        rw [List.cons_append] at ha
        obtain ⟨rfl, htail⟩ := List.cons.inj ha
        refine ⟨a, hd.skip b a m hblank (fun hbom => hy ?_) hm, htail⟩
        obtain ⟨z, rfl⟩ := List.head?_eq_some_iff.mp hbom
        exact ⟨b, z, hblank, rfl⟩
    · rw [hd.blank y fun d hd => hblank d (List.mem_append_left _ hd)] at hm
      cases hm

/-- A strict and a loose fence that both enclose a document enclose the same one. -/
theorem document_unique (hmark : '\n' ∉ mark) (hd : Documents mark decode) {m m' : β} {e : Bool}
    {y' rest' : List Char} (hs : (strict mark).enclosed text = some (y, rest))
    (hl : (loose mark e).enclosed text = some (y', rest')) (hm : decode y = some m) (hm' : decode y' = some m')
    (hy : ¬ LateMark y) : m = m' := by
  obtain ⟨s, hmem, hup⟩ := enclosed_of_mem hl
  obtain ⟨u, hu, rfl⟩ := strict_in_loose hd hy hm hs hmem
  obtain ⟨t, ht, hclose⟩ := upTo_split hup
  obtain ⟨r, rfl, hr⟩ := loose_closing hclose
  have hle := loose_enclosed_le hup rfl
  obtain heq | hlt := Nat.eq_or_lt_of_le hle
  · obtain ⟨rfl, -⟩ := List.append_inj ht heq.symm
    exact Option.some.inj (hu.symm.trans hm')
  · -- the loose fence closes at a mark inside of the document, which then would be two
    obtain ⟨t, rfl, rfl⟩ := mark_before hmark hlt ht
    obtain ⟨w, v, rfl, hw, hv⟩ := loose_before hr
    rw [hd.single y' w v m hw hv hu] at hm'
    cases hm'

end Decoding

end ReleaseValidation.Fences
