import Mathlib.Data.List.GetD

namespace WrappedText

-- The rows of a text that is laid out in rows of width characters. A row ends as soon as it
-- is full, or at a break; the last row is the one the text would go on in.
def wrap {α : Type} (width : Nat) (breaks : α → Bool) (row : List α) : List α → List (List α)
  | [] => [row]
  | c::rest =>
    if breaks c then row::wrap width breaks [] rest
    else if row.length + 1 < width then wrap width breaks (row ++ [c]) rest
    else (row ++ [c])::wrap width breaks [] rest

def shown {α : Type} (height : Nat) (rows : List (List α)) : List (List α) := rows.drop (rows.length - height)
def cell {α : Type} (pad : α) (rows : List (List α)) (y x : Nat) : α := (rows.getD y []).getD x pad

section
variable {α : Type} {width height : Nat} {breaks : α → Bool} {pad : α} {above rows : List (List α)} {last row : List α}

theorem shown_length (rows : List (List α)) : (shown height rows).length = min rows.length height := by
  simp only [shown,List.length_drop]
  omega

theorem shown_last (above : List (List α)) (last : List α) :
    shown (height+1) (above ++ [last]) = shown height above ++ [last] := by
  simp only [shown,List.length_append,List.length_singleton]
  rw [List.drop_append_of_le_length (by omega)]
  congr 2
  omega

theorem shown_all (few : rows.length ≤ height) : shown height rows = rows := by
  simp [shown,Nat.sub_eq_zero_of_le few]

theorem shown_fewer (full : height < rows.length) : shown height rows = (shown (height+1) rows).drop 1 := by
  simp only [shown,List.drop_drop]
  congr 1
  omega

theorem cell_above (y x : Nat) (before : y < rows.length) : cell pad (rows ++ [row]) y x = cell pad rows y x := by
  rw [cell,cell,List.getD_append _ _ _ _ before]

theorem cell_last (x : Nat) (last : y = rows.length) : cell pad (rows ++ [row]) y x = row.getD x pad := by
  rw [cell,last,List.getD_append_right _ _ _ _ (Nat.le_refl _)]
  simp

theorem cell_drop (rows : List (List α)) (y x : Nat) : cell pad (rows.drop 1) y x = cell pad rows (y+1) x := by
  simp [cell,List.getD_eq_getElem?_getD]

theorem cell_below (y x : Nat) (behind : rows.length ≤ y) : cell pad rows y x = pad := by
  rw [cell,List.getD_eq_default _ _ behind]
  simp

end

end WrappedText
