import Mathlib.Data.String.Basic

/-! # Texts split at a character

`String.splitOn` walks over byte positions. At a separator of one character it gives the
pieces of the list of characters, in which form a text can be split by computation.
-/
namespace ReleaseValidation.Splits
open String

/-- The walk, past the pieces in `acc`, past `l`, and in a piece that begins with `m`. -/
theorem splitOnAux_of_valid (c : Char) (l m r : List Char) (acc : List String) :
    splitOnAux (ofList (l ++ m ++ r)) (ofList [c]) ⟨utf8Len l⟩ ⟨utf8Len (l ++ m)⟩ 0 acc =
      acc.reverse ++ (List.splitOnPPrepend (· == c) r m.reverse).map ofList := by
  rw [splitOnAux]
  have hextract : Pos.Raw.extract (ofList (l ++ m ++ r)) ⟨utf8Len l⟩ ⟨utf8Len (l ++ m)⟩ = ofList m := by
    rw [utf8Len_append]
    exact extract_of_valid l m r
  cases r with
  | nil =>
    rw [if_pos ((atEnd_of_valid (l ++ m) []).mpr rfl), hextract]
    simp [List.splitOnPPrepend]
  | cons d r =>
    have hget : Pos.Raw.get (ofList (l ++ m ++ d :: r)) ⟨utf8Len (l ++ m)⟩ = d := get_of_valid (l ++ m) (d :: r)
    have hsep : Pos.Raw.get (ofList [c]) 0 = c := get_of_valid [] [c]
    have hnext : Pos.Raw.next (ofList (l ++ m ++ d :: r)) ⟨utf8Len (l ++ m)⟩ = ⟨utf8Len (l ++ m ++ [d])⟩ := by
      rw [utf8Len_append (l ++ m) [d]]
      simpa using next_of_valid (l ++ m) d r
    have hone : Pos.Raw.next (ofList [c]) 0 = ⟨utf8Len [c]⟩ := next_of_valid [] c []
    have hlast : Pos.Raw.atEnd (ofList [c]) ⟨utf8Len [c]⟩ = true := (atEnd_of_valid [c] []).mpr rfl
    rw [if_neg (mt (atEnd_of_valid (l ++ m) (d :: r)).mp (List.cons_ne_nil d r)), hget, hsep, List.splitOnPPrepend]
    split
    next h =>
      have hd : d = c := by simpa using h
      have hback : Pos.Raw.unoffsetBy ⟨utf8Len (l ++ m ++ [d])⟩ ⟨utf8Len [c]⟩ = ⟨utf8Len (l ++ m)⟩ := by
        rw [hd]
        simp [Pos.Raw.unoffsetBy, utf8Len_append]
        omega
      have hrest := splitOnAux_of_valid c (l ++ m ++ [d]) [] r (ofList m :: acc)
      simp only [hnext, hone, hlast, if_true, hback, hextract]
      simpa using hrest
    next h =>
      have hback : Pos.Raw.unoffsetBy ⟨utf8Len (l ++ m)⟩ 0 = ⟨utf8Len (l ++ m)⟩ := rfl
      have hrest := splitOnAux_of_valid c l (m ++ [d]) r acc
      simp only [hback, hnext]
      simpa using hrest

theorem splitOn_char (s : String) (c : Char) : s.splitOn (ofList [c]) = (s.toList.splitOn c).map ofList := by
  have hne : (ofList [c] == "") = false := by simp
  simp only [splitOn, hne]
  simpa [List.splitOn] using splitOnAux_of_valid c [] [] s.toList []

end ReleaseValidation.Splits
