import Mathlib.Data.List.Chain
import Mathlib.Data.List.GetD

namespace Slices

section
variable {α : Type}

-- The slices of a list between the places where they start; the last one goes to its end.
def slices (text : List α) : List Nat → List (List α)
  | [] => []
  | [a] => [text.drop a]
  | a::b::starts => (text.take b).drop a::slices text (b::starts)

def sliceEnd (text : List α) (starts : List Nat) (p : Nat) :
    Nat := if p + 1 < starts.length then starts.getD (p+1) 0 else text.length

def slice (text : List α) (starts : List Nat) (p : Nat) :
    List α := (text.take (sliceEnd text starts p)).drop (starts.getD p 0)

theorem slice_whole (text : List α) : slice text [0] 0 = text := List.take_length

theorem slices_length (text : List α) (starts : List Nat) : (slices text starts).length = starts.length := by
  induction starts with
  | nil => rfl
  | cons a starts ih =>
    cases starts with
    | nil => rfl
    | cons b starts => exact congrArg (· + 1) ih

theorem slices_at (text : List α) {starts : List Nat} (inside : p < starts.length) :
    (slices text starts)[p]? = some (slice text starts p) := by
  induction starts generalizing p with
  | nil => exact absurd inside (Nat.not_lt_zero _)
  | cons a starts ih =>
    cases starts with
    | nil =>
      rw [List.length_singleton] at inside
      rw [Nat.lt_one_iff.mp inside]
      simp [slices,slice,sliceEnd]
    | cons b starts =>
      cases p with
      | zero => simp [slices,slice,sliceEnd]
      | succ p =>
        rw [List.length_cons] at inside
        have next := ih (Nat.lt_of_succ_lt_succ inside)
        simpa [slices,slice,sliceEnd] using next

theorem slices_flatten (text : List α) {starts : List Nat} (ordered : (a::starts).IsChain (· ≤ ·)) :
    (slices text (a::starts)).flatten = text.drop a := by
  induction starts generalizing a with
  | nil => simp [slices]
  | cons b starts ih =>
    obtain ⟨le,rest⟩ := List.isChain_cons_cons.mp ordered
    rw [slices,List.flatten_cons,ih rest]
    obtain ⟨k,rfl⟩ := Nat.exists_eq_add_of_le le
    rw [List.drop_take,Nat.add_sub_cancel_left,← List.drop_drop,List.take_append_drop]

end

end Slices
