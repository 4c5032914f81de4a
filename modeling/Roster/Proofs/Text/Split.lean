import Mathlib.Data.String.Basic
import Roster.Location

/-!
# Parts of a Text

A text is split by walking over its bytes. Between marks of one character the parts are
those of the list of its characters, which can be computed from the front.

## Theorems

* `splitOn_singleton`: The parts of a text between marks of one character.
* `Location.ofString_names`: A path by the characters that spell it.
* `Location.ofString_name`: A name is a place of its own.
-/

namespace Roster

open String (utf8Len)

/-- A place behind some characters is the end of a text if nothing follows. -/
theorem atEnd_iff (l r : List Char) :
    String.Pos.Raw.atEnd (String.ofList (l ++ r)) ⟨utf8Len l⟩ = true ↔ r = [] := by
  have hlen : utf8Len l + utf8Len r ≤ utf8Len l ↔ utf8Len r = 0 := by omega
  have hsize : (String.ofList (l ++ r)).utf8ByteSize = utf8Len l + utf8Len r := by
    rw [← String.utf8Len_append]
    exact congrArg String.Pos.Raw.byteIdx (String.rawEndPos_ofList (l ++ r))
  rw [String.Pos.Raw.atEnd, decide_eq_true_iff, ge_iff_le, hsize, hlen, String.utf8Len_eq_zero]

/-- The walk with the part `m` behind it and the characters `r` before it. -/
theorem splitOnAux_singleton (c : Char) (l m r : List Char) (done : List String) :
    (String.ofList (l ++ m ++ r)).splitOnAux (String.singleton c) ⟨utf8Len l⟩
        ⟨utf8Len l + utf8Len m⟩ 0 done =
      done.reverse ++ (List.splitOnPPrepend (· == c) r m.reverse).map String.ofList := by
  induction r generalizing l m done with
  | nil =>
      have hend := (atEnd_iff (l ++ m) []).mpr rfl
      have hpart := String.extract_of_valid l m []
      rw [String.utf8Len_append] at hend
      rw [String.splitOnAux.eq_1, if_pos hend, hpart]
      simp
  | cons x r ih =>
      have hend := mt (atEnd_iff (l ++ m) (x :: r)).mp (List.cons_ne_nil _ _)
      have hpart := String.extract_of_valid l m (x :: r)
      have hget := String.get_of_valid (l ++ m) (x :: r)
      have hnext := String.next_of_valid (l ++ m) x r
      rw [String.utf8Len_append] at hend hget hnext
      -- The mark is a single character, so it is compared in one step.
      have hmark : String.Pos.Raw.get (String.singleton c) 0 = c := by
        rw [String.singleton_eq_ofList]
        exact String.get_of_valid [] [c]
      have hbehind : String.Pos.Raw.next (String.singleton c) 0 = ⟨0 + c.utf8Size⟩ := by
        rw [String.singleton_eq_ofList]
        exact String.next_of_valid [] c []
      have hlast : String.Pos.Raw.atEnd (String.singleton c) ⟨0 + c.utf8Size⟩ = true := by
        rw [String.singleton_eq_ofList]
        exact (atEnd_iff [c] []).mpr rfl
      rw [String.splitOnAux.eq_1, if_neg hend, hget, hmark, hbehind, if_pos hlast,
        List.splitOnPPrepend_cons_eq_if]
      simp only [List.headD_cons, hnext, String.Pos.Raw.unoffsetBy]
      by_cases hx : (x == c) = true
      · rw [if_pos hx, if_pos hx]
        have hsame : x = c := by simpa using hx
        -- The part ends here, and the next one begins empty behind the mark.
        have hback : utf8Len l + utf8Len m + x.utf8Size - (0 + c.utf8Size) =
            utf8Len l + utf8Len m := by
          rw [hsame]
          omega
        have hall : l ++ m ++ [x] ++ [] ++ r = l ++ m ++ x :: r := by simp
        have hlen : utf8Len (l ++ m ++ [x]) = utf8Len l + utf8Len m + x.utf8Size := by
          simp [String.utf8Len_append, Nat.add_assoc]
        have hstep := ih (l ++ m ++ [x]) [] (String.ofList m :: done)
        rw [hall, hlen] at hstep
        rw [hback, hpart]
        simpa using hstep
      · rw [if_neg hx, if_neg hx]
        -- The part grows by this character.
        have hall : l ++ (m ++ [x]) ++ r = l ++ m ++ x :: r := by simp
        have hlen : utf8Len l + utf8Len (m ++ [x]) = utf8Len l + utf8Len m + x.utf8Size := by
          simp [String.utf8Len_append, Nat.add_assoc]
        have hstep := ih l (m ++ [x]) done
        rw [hall, hlen, List.reverse_append] at hstep
        exact (congrArg (fun i => String.splitOnAux _ _ _ i 0 done) hnext).trans hstep

/-- The parts of a text between marks of one character are the parts of its characters. -/
theorem splitOn_singleton (text : String) (c : Char) :
    text.splitOn (String.singleton c) = (text.toList.splitOn c).map String.ofList := by
  have hwalk := splitOnAux_singleton c [] [] text.toList []
  rw [List.append_nil, List.nil_append, String.ofList_toList] at hwalk
  rw [String.splitOn, if_neg (by simp)]
  exact hwalk

/-- A path by the characters that spell it. -/
theorem Location.ofString_names (text : String) : (ofString text).names =
    ((text.toList.splitOn '/').map String.ofList).filter fun name => !name.isEmpty && name != "." :=
  congrArg (List.filter _) (splitOn_singleton text '/')

/-- A name is a place of its own. -/
theorem Location.ofString_name {name : String} (hslash : '/' ∉ name.toList) (hempty : name ≠ "")
    (hdot : name ≠ ".") : ofString name = { slashes := 0, names := [name] } := by
  have hnames : (ofString name).names = [name] := by
    rw [ofString_names, List.splitOn_eq_singleton hslash]
    simp [hempty, hdot]
  have hfront : name.toList.takeWhile (· == '/') = [] := by
    cases hcs : name.toList with
    | nil => rfl
    | cons c cs =>
      rw [hcs] at hslash
      simp at hslash
      simp [Ne.symm hslash.1]
  rw [← hnames, ofString, hfront]
  rfl

end Roster
