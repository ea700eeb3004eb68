import Mathlib.Data.String.Basic

/-! A text split at one character: `splitOn` undoes `intercalate`. -/

namespace DataCollectionLab.Lib

open String

theorem splitOnAux_char (c : Char) (before piece rest : List Char) (pieces : List String) :
    String.splitOnAux (ofList (before ++ piece ++ rest)) (ofList [c]) ⟨utf8Len before⟩
        ⟨utf8Len before + utf8Len piece⟩ 0 pieces =
      pieces.reverse ++ (List.splitOnPPrepend (· == c) rest piece.reverse).map ofList := by
  have mark : Pos.Raw.get (ofList [c]) 0 = c := get_of_valid [] [c]
  have passed : Pos.Raw.next (ofList [c]) 0 = ⟨c.utf8Size⟩ := by
    have next := next_of_valid [] c []
    rw [utf8Len_nil, Nat.zero_add] at next
    exact next
  have done : Pos.Raw.atEnd (ofList [c]) ⟨c.utf8Size⟩ = true := by
    rw [atEnd_iff, rawEndPos_ofList, utf8Len_cons, utf8Len_nil, Nat.zero_add]
    exact Nat.le_refl c.utf8Size
  induction rest generalizing before piece pieces with
  | nil =>
    have cut := extract_of_valid before piece []
    unfold String.splitOnAux
    rw [if_pos, cut]
    · rw [List.splitOnPPrepend_nil, List.reverse_reverse, List.reverse_cons]
      rfl
    · rw [atEnd_iff, rawEndPos_ofList, List.append_nil, utf8Len_append]
      exact Nat.le_refl (utf8Len before + utf8Len piece)
  | cons d rest ih =>
    have cut := extract_of_valid before piece (d :: rest)
    have here : Pos.Raw.get (ofList (before ++ piece ++ d :: rest)) ⟨utf8Len before + utf8Len piece⟩ = d := by
      rw [← utf8Len_append]
      exact get_of_valid (before ++ piece) (d :: rest)
    have next : Pos.Raw.next (ofList (before ++ piece ++ d :: rest)) ⟨utf8Len before + utf8Len piece⟩ =
        ⟨utf8Len before + utf8Len piece + d.utf8Size⟩ := by
      rw [← utf8Len_append]
      exact next_of_valid (before ++ piece) d rest
    unfold String.splitOnAux
    rw [if_neg, here, mark, next, passed]
    · by_cases same : (d == c) = true
      · have whole := ih (before ++ piece ++ [d]) [] (ofList piece :: pieces)
        rw [if_pos same, if_pos done]
        obtain rfl : d = c := by simpa using same
        have back : (⟨utf8Len before + utf8Len piece + d.utf8Size⟩ : Pos.Raw).unoffsetBy ⟨d.utf8Size⟩ =
            ⟨utf8Len before + utf8Len piece⟩ := by
          simp [Pos.Raw.unoffsetBy]
        simp only [utf8Len_append, utf8Len_cons, utf8Len_nil, Nat.zero_add, Nat.add_zero, List.append_nil,
          List.append_assoc, List.singleton_append] at whole
        rw [back, cut, List.append_assoc, Nat.add_assoc, whole, @List.splitOnPPrepend_cons_pos _ (· == d) _ _ _ same]
        simp
      · have more := ih before (piece ++ [d]) pieces
        have back : (⟨utf8Len before + utf8Len piece⟩ : Pos.Raw).unoffsetBy 0 = ⟨utf8Len before + utf8Len piece⟩ := by
          simp [Pos.Raw.unoffsetBy]
        rw [if_neg same, back, next, @List.splitOnPPrepend_cons_neg _ (· == c) _ _ _ (by simpa using same)]
        simpa [Nat.add_assoc] using more
    · have wide := d.utf8Size_pos
      rw [atEnd_iff, rawEndPos_ofList]
      simp only [utf8Len_append, utf8Len_cons, Pos.Raw.mk_le_mk]
      omega

theorem splitOn_char (c : Char) (text : String) : text.splitOn (ofList [c]) = (text.toList.splitOn c).map ofList := by
  have split := splitOnAux_char c [] [] text.toList []
  have nonempty : (ofList [c] == "") = false := by
    rw [beq_eq_false_iff_ne]
    intro empty
    have := congrArg String.toList empty
    simp at this
  unfold String.splitOn
  rw [nonempty]
  simpa [List.splitOn] using split

theorem splitOn_intercalate {c : Char} {pieces : List String} (some : pieces ≠ [])
    (apart : ∀ piece ∈ pieces, c ∉ piece.toList) : ((ofList [c]).intercalate pieces).splitOn (ofList [c]) = pieces := by
  rw [splitOn_char, toList_intercalate, String.toList_ofList, List.splitOn_intercalate, List.map_map]
  · simp [Function.comp_def]
  · intro letters member
    obtain ⟨piece, listed, rfl⟩ := List.mem_map.mp member
    exact apart piece listed
  · simpa using some

end DataCollectionLab.Lib
