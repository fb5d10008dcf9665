import Mathlib.Data.List.Range
import SantOS.Library.LinkedPaths
import SantOS.Fat12.Driver

namespace SantOS.Fat12
open ByteMemory LinkedPaths

-- The loops over a chain go on while 2 ≤ cluster < 0xFF8.
def Ends (c : Nat) : Prop := c < 2 ∨ 0xFF8 ≤ c

theorem not_ends : ¬ Ends c ↔ 2 ≤ c ∧ c < 0xFF8 := by
  unfold Ends
  omega

theorem runFrom_le (m : Memory) (current next runLen left : Nat) : runLen ≤ (runFrom m current next runLen left).1 := by
  induction left generalizing current next runLen with
  | zero => exact Nat.le_refl _
  | succ left ih =>
    rw [runFrom]
    split
    · exact Nat.le_of_succ_le (ih _ _ _)
    · exact Nat.le_refl _

def Consecutive (m : Memory) (c k : Nat) : Prop := ∀ j < k, getFatEntry m (c+j) = c + j + 1 ∧ c + j + 1 < 0xFF8

-- The clusters merged behind current, as long as the links are consecutive and the run is
-- shorter than 250.
theorem runFrom_spec (m : Memory) (runLen left : Nat) (two : 2 ≤ current) :
    ∃ k, runFrom m current (getFatEntry m current) runLen left = (runLen + k,getFatEntry m (current+k)) ∧
      Consecutive m current k ∧ (runLen ≤ 250 → runLen + k ≤ 250) ∧
      (250 ≤ runLen + left → runLen + k < 250 → ¬ Consecutive m (current+k) 1) := by
  induction left generalizing current runLen with
  | zero => exact ⟨0,rfl,fun j bound => absurd bound (Nat.not_lt_zero j),fun le => le,fun long short => by omega⟩
  | succ left ih =>
    rw [runFrom]
    by_cases more : getFatEntry m current = current + 1 ∧ getFatEntry m current ≥ 2 ∧ getFatEntry m current < 0xFF8 ∧ runLen < 250
    · obtain ⟨follows,_,small,short⟩ := more
      rw [if_pos ⟨follows,by omega,small,short⟩,follows]
      obtain ⟨k,ran,links,bounded,maximal⟩ := ih (runLen+1) (show 2 ≤ current + 1 by omega)
      refine ⟨k+1,?_,?_,fun _ => ?_,?_⟩
      · rw [ran,Nat.add_right_comm runLen 1 k,Nat.add_right_comm current 1 k]
        rfl
      · intro j bound
        cases j with
        | zero => exact ⟨follows,by omega⟩
        | succ j =>
          have link := links j (by omega)
          rwa [Nat.add_right_comm current 1 j] at link
      · have total := bounded (by omega)
        omega
      · intro long less
        have stopped := maximal (by omega) (by omega)
        rwa [Nat.add_right_comm current 1 k] at stopped
    · rw [if_neg more]
      refine ⟨0,rfl,fun j bound => absurd bound (Nat.not_lt_zero j),fun le => le,?_⟩
      intro _ short consecutive
      obtain ⟨follows,small⟩ := consecutive 0 (Nat.zero_lt_one)
      rw [Nat.add_zero,Nat.add_zero] at follows
      exact more ⟨follows,by omega,by omega,short⟩

theorem Consecutive.stretch {m : Memory} {stop : Nat → Prop} (consecutive : Consecutive m c k)
    (path : Path (getFatEntry m) stop c cs)
    (running : ∀ d, 2 ≤ d → d < 0xFF8 → ¬ stop d) (two : 2 ≤ c) (small : c < 0xFF8) :
    ∃ post, cs = List.range' c (k+1) ++ post ∧ Path (getFatEntry m) stop (getFatEntry m (c+k)) post := by
  induction k generalizing c cs with
  | zero =>
    cases path with
    | nil done => exact absurd done (running c two small)
    | cons _ rest => exact ⟨_,rfl,rest⟩
  | succ k ih =>
    cases path with
    | nil done => exact absurd done (running c two small)
    | @cons _ rest _ behind =>
      obtain ⟨link,below⟩ := consecutive 0 (Nat.succ_pos k)
      rw [Nat.add_zero] at link below
      rw [link] at behind
      have later : Consecutive m (c+1) k := by
        intro j bound
        have next := consecutive (j+1) (by omega)
        rwa [← Nat.add_assoc,Nat.add_right_comm c j 1] at next
      obtain ⟨post,split,tail⟩ := ih later behind (by omega) below
      refine ⟨post,?_,?_⟩
      · rw [split,← List.cons_append,← List.range'_succ]
      · rwa [Nat.add_right_comm c 1 k] at tail

end SantOS.Fat12
