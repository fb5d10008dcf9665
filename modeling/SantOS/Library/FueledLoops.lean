import Mathlib.Data.Option.Basic

namespace FueledLoops

-- A loop with a bound on the number of its rounds: out of rounds there is no result. From a
-- configuration a round leads to the next one, or it is the last.
def Next (run : α → Nat → Option β) (x y : α) : Prop := ∀ fuel, run x (fuel+1) = run y fuel
def Last (run : α → Nat → Option β) (x : α) : Prop := ∃ r, ∀ fuel, run x (fuel+1) = some r

def Halts (run : α → Nat → Option β) (x : α) : Prop := ∃ fuel, run x fuel ≠ none

section
variable {run : α → Nat → Option β} {x y : α}

theorem Halts.of_next (next : Next run x y) (halts : Halts run y) : Halts run x := by
  obtain ⟨fuel,comes⟩ := halts
  refine ⟨fuel+1,?_⟩
  rwa [next]

theorem Halts.of_last (last : Last run x) : Halts run x := by
  obtain ⟨r,result⟩ := last
  refine ⟨1,?_⟩
  rw [result]
  exact Option.some_ne_none r

theorem kept_later {run : Nat → Option β} (later : ∀ fuel r, run fuel = some r → run (fuel+1) = some r)
    (ran : run fuel = some r)
    (more : fuel ≤ fuel') : run fuel' = some r := by
  induction more with
  | refl => exact ran
  | step _ ih => exact later _ r ih

-- A measure that every round lowers bounds the rounds.
theorem comes_within (run : α → Nat → Option β) (valid : α → Prop) (measure : α → Nat)
    (lower : ∀ x, valid x → Last run x ∨ ∃ y, Next run x y ∧ valid y ∧ measure y < measure x)
    (start : valid x) (fuel : measure x < n) : run x n ≠ none := by
  induction n generalizing x with
  | zero => exact absurd fuel (Nat.not_lt_zero _)
  | succ n ih =>
    rcases lower x start with ⟨r,result⟩ | ⟨y,next,kept,less⟩
    · rw [result]
      exact Option.some_ne_none r
    · rw [next]
      exact ih kept (by omega)

-- A set of configurations that no round leaves and none of which is the last.
theorem diverges (within : α → Prop) (zero : ∀ x, run x 0 = none) (stays : ∀ x, within x → ∃ y, Next run x y ∧ within y)
    (start : within x) (n : Nat) : run x n = none := by
  induction n generalizing x with
  | zero => exact zero x
  | succ n ih =>
    obtain ⟨y,next,kept⟩ := stays x start
    rw [next]
    exact ih kept

end

end FueledLoops
