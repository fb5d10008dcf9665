import Mathlib.Data.List.Range
import Mathlib.Logic.Function.Basic

namespace RingBuffers

-- A circular array of size cells with a read and a write index; one cell stays free.
-- The cell that lies i places behind the read index.
def place (size read i : Nat) : Nat := if read + i < size then read + i else read + i - size

def used (size read write : Nat) : Nat := if read ≤ write then write - read else write + size - read

def contents {α : Type} (cells : Nat → α) (size read write : Nat) : List α :=
  (List.range (used size read write)).map (fun i => cells (place size read i))

section
variable {α : Type} {cells : Nat → α} {size read write : Nat}

theorem succ_mod (inside : read < size) : (read + 1) % size = if read + 1 < size then read + 1 else 0 := by
  split
  · next less => exact Nat.mod_eq_of_lt less
  · have last : read + 1 = size := by omega
    rw [last,Nat.mod_self]

theorem contents_length : (contents cells size read write).length = used size read write := by simp [contents]

theorem contents_nil_iff (inside : read < size) : contents cells size read write = [] ↔ read = write := by
  rw [← List.length_eq_zero_iff,contents_length,used]
  split <;> omega

theorem contents_pop (readInside : read < size) (writeInside : write < size) (nonempty : read ≠ write) :
    contents cells size read write = cells read :: contents cells size ((read + 1) % size) write := by
  have first : place size read 0 = read := by unfold place; split <;> omega
  have count : used size read write = used size ((read + 1) % size) write + 1 := by
    rw [succ_mod readInside]
    unfold used
    split <;> split <;> split <;> omega
  unfold contents
  rw [count,List.range_succ_eq_map,List.map_cons,List.map_map,first]
  congr 1
  apply List.map_congr_left
  intro i member
  have bound := List.mem_range.mp member
  have small : i < size := by
    rw [succ_mod readInside] at bound
    unfold used at bound
    split at bound <;> split at bound <;> omega
  have shifted : place size read (i + 1) = place size ((read + 1) % size) i := by
    rw [succ_mod readInside]
    unfold place
    split <;> split <;> split <;> omega
  exact congrArg cells shifted

theorem contents_push (readInside : read < size) (writeInside : write < size) (free : (write + 1) % size ≠ read) (x : α) :
    contents (Function.update cells write x) size read ((write + 1) % size) = contents cells size read write ++ [x] := by
  have count : used size read ((write + 1) % size) = used size read write + 1 := by
    rw [succ_mod writeInside] at free ⊢
    unfold used
    by_cases wraps : write + 1 < size
    · rw [if_pos wraps] at free ⊢
      split <;> split <;> omega
    · rw [if_neg wraps] at free ⊢
      split <;> split <;> omega
  have last : place size read (used size read write) = write := by
    unfold place used
    split <;> split <;> omega
  unfold contents
  rw [count,List.range_succ,List.map_append,List.map_singleton,last,Function.update_self]
  congr 1
  apply List.map_congr_left
  intro i member
  have bound := List.mem_range.mp member
  have other : place size read i ≠ write := by
    unfold used at bound
    unfold place
    split at bound <;> split <;> omega
  exact Function.update_of_ne other x cells

-- The next write index meets the read index exactly when all cells but one are unread.
theorem contents_full_iff (cells : Nat → α) (readInside : read < size) (writeInside : write < size) :
    (write + 1) % size = read ↔ (contents cells size read write).length + 1 = size := by
  rw [contents_length,succ_mod writeInside]
  unfold used
  split <;> split <;> omega

end

end RingBuffers
