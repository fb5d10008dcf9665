import Mathlib.Data.Nat.Find
import Mathlib.Logic.Function.Iterate

namespace BlockChains

variable {α σ ρ : Type}

-- A chain of blocks of width items each. Item k stands at place k % width of the block that is
-- k / width links behind the first one, where every block up to it belongs to the chain.
def blockAt (next : α → α) (width : Nat) (x : α) (k : Nat) : α := next^[k/width] x
def On (next : α → α) (more : α → Prop) (width : Nat) (x : α) (k : Nat) : Prop := ∀ r ≤ k/width, more (next^[r] x)

section
variable {next : α → α} {more : α → Prop} {width k j : Nat} {x : α}

theorem blockAt_first (small : k < width) : blockAt next width x k = x := by
  rw [blockAt,Nat.div_eq_of_lt small]
  rfl

theorem blockAt_later (positive : 0 < width) (k : Nat) :
    blockAt next width x (k + width) = blockAt next width (next x) k := by
  rw [blockAt,blockAt,Nat.add_div_right k positive]
  exact Function.iterate_succ_apply next (k/width) x

theorem on_first (small : k < width) : On next more width x k ↔ more x := by
  rw [On,Nat.div_eq_of_lt small]
  constructor
  · intro each
    exact each 0 (Nat.le_refl 0)
  · intro here r le
    rw [Nat.le_zero.mp le]
    exact here

theorem on_later (positive : 0 < width) (k : Nat) :
    On next more width x (k + width) ↔ more x ∧ On next more width (next x) k := by
  rw [On,On,Nat.add_div_right k positive]
  constructor
  · intro each
    refine ⟨each 0 (Nat.zero_le _),fun r le => ?_⟩
    have later := each (r+1) (by omega)
    rwa [Function.iterate_succ_apply] at later
  · rintro ⟨here,each⟩ r le
    cases r with
    | zero => exact here
    | succ r =>
      rw [Function.iterate_succ_apply]
      exact each r (by omega)

theorem on_block (positive : 0 < width) (before : ∀ j < k, On next more width x j) :
    On next more width x k ↔ more (blockAt next width x k) := by
  constructor
  · intro on
    exact on (k/width) (Nat.le_refl _)
  · intro here r le
    rcases Nat.lt_or_eq_of_le le with earlier | rfl
    · have less : r*width < k := Nat.lt_of_lt_of_le (Nat.mul_lt_mul_of_pos_right earlier positive) (Nat.div_mul_le_self k width)
      exact before _ less r (by rw [Nat.mul_div_cancel r positive])
    · exact here

end

def Passes (next : α → α) (more : α → Prop) (width : Nat) (pass : α → Nat → Nat → Prop) (x : α) (b k : Nat) : Prop :=
  On next more width x k ∧ pass (blockAt next width x k) (k % width) (b + k)

-- A loop over the blocks with a loop over the items of a block in it, with a bound on the number
-- of blocks. A round ends behind the chain, or at the first item of the block that is not passed over,
-- or goes on with the next block. A loop that ends at an item may take a round more to see it.
structure Walker (next : α → α) (more : α → Prop) (width : Nat) (pass : α → Nat → Nat → Prop) (run : α → σ → Nat → Option ρ)
    (inv : α → Nat → σ → Prop) (final : α → Nat → Nat → ρ → Prop) : Prop where
  zero : ∀ x s, run x s 0 = none
  ended : ∀ x s b, inv x b s → ¬ more x → ∃ r, final x 0 b r ∧ ∀ fuel, run x s (fuel+2) = some r
  stops : ∀ x s b i, inv x b s → more x → i < width → (∀ j < i, pass x j (b+j)) → ¬ pass x i (b+i) →
    ∃ r, final x i (b+i) r ∧ ∀ fuel, run x s (fuel+2) = some r
  goesOn : ∀ x s b, inv x b s → more x → (∀ j < width, pass x j (b+j)) →
    ∃ t, inv (next x) (b+width) t ∧ ∀ fuel, run x s (fuel+1) = run (next x) t fuel

section
variable {next : α → α} {more : α → Prop} {width : Nat} {pass : α → Nat → Nat → Prop} {run : α → σ → Nat → Option ρ}
variable {inv : α → Nat → σ → Prop} {final : α → Nat → Nat → ρ → Prop} {x : α} {s : σ} {b k : Nat}

theorem passes_first (small : k < width) : Passes next more width pass x b k ↔ more x ∧ pass x k (b+k) := by
  rw [Passes,on_first small,blockAt_first small,Nat.mod_eq_of_lt small]

theorem passes_later (positive : 0 < width) (k : Nat) :
    Passes next more width pass x b (k + width) ↔ more x ∧ Passes next more width pass (next x) (b + width) k := by
  have sum : b + (k + width) = b + width + k := by omega
  rw [Passes,Passes,on_later positive,blockAt_later positive,Nat.add_mod_right,sum,and_assoc]

theorem Walker.result (walker : Walker next more width pass run inv final) (positive : 0 < width) (start : inv x b s)
    (before : ∀ j < k, Passes next more width pass x b j) (here : ¬ Passes next more width pass x b k) :
    ∃ r, final (blockAt next width x k) (k % width) (b + k) r ∧ ∀ fuel, run x s (k/width + fuel + 2) = some r := by
  induction rounds : k/width generalizing x s b k with
  | zero =>
    have small : k < width := Nat.lt_of_div_eq_zero positive rounds
    simp only [Nat.zero_add]
    rw [blockAt_first small,Nat.mod_eq_of_lt small]
    rw [passes_first small] at here
    by_cases inside : more x
    · have others : ∀ j < k, pass x j (b+j) :=
        fun j less => ((passes_first (Nat.lt_trans less small)).mp (before j less)).2
      exact walker.stops x s b k start inside small others (fun passed => here ⟨inside,passed⟩)
    · have noneBefore : k = 0 := by
        by_contra some
        exact inside ((passes_first positive).mp (before 0 (Nat.pos_of_ne_zero some))).1
      subst noneBefore
      exact walker.ended x s b start inside
  | succ n ih =>
    have large : width ≤ k := by
      by_contra less
      rw [Nat.div_eq_of_lt (Nat.lt_of_not_le less)] at rounds
      cases rounds
    obtain ⟨k,rfl⟩ := Nat.exists_eq_add_of_le' large
    rw [Nat.add_div_right k positive] at rounds
    have inside : more x := ((passes_first positive).mp (before 0 (by omega))).1
    have all : ∀ j < width, pass x j (b+j) := fun j less => ((passes_first less).mp (before j (by omega))).2
    obtain ⟨t,kept,ran⟩ := walker.goesOn x s b start inside all
    have later : ∀ j < k, Passes next more width pass (next x) (b + width) j :=
      fun j less => ((passes_later positive j).mp (before (j + width) (by omega))).2
    have stop : ¬ Passes next more width pass (next x) (b + width) k :=
      fun passed => here ((passes_later positive k).mpr ⟨inside,passed⟩)
    obtain ⟨r,last,result⟩ := ih kept later stop (Nat.succ.inj rounds)
    have sum : b + (k + width) = b + width + k := by omega
    rw [blockAt_later positive,Nat.add_mod_right,sum]
    refine ⟨r,last,fun fuel => ?_⟩
    have oneMore : n + 1 + fuel + 2 = n + fuel + 2 + 1 := by omega
    rw [oneMore,ran]
    exact result fuel

theorem first_not_passed (some : ∃ k, ¬ Passes next more width pass x b k) :
    ∃ k, (∀ j < k, Passes next more width pass x b j) ∧ ¬ Passes next more width pass x b k := by
  classical
  exact ⟨Nat.find some,fun j less => not_not.mp (Nat.find_min some less),Nat.find_spec some⟩

theorem Walker.endless (walker : Walker next more width pass run inv final) (positive : 0 < width) (start : inv x b s)
    (all : ∀ k, Passes next more width pass x b k) (fuel : Nat) : run x s fuel = none := by
  induction fuel generalizing x s b with
  | zero => exact walker.zero x s
  | succ fuel ih =>
    have inside : more x := ((passes_first positive).mp (all 0)).1
    obtain ⟨t,kept,ran⟩ := walker.goesOn x s b start inside (fun j less => ((passes_first less).mp (all j)).2)
    rw [ran]
    exact ih kept (fun k => ((passes_later positive k).mp (all (k + width))).2)

theorem Walker.hollow (walker : Walker next more 0 pass run inv final) (start : inv x b s) :
    (∃ fuel, run x s fuel ≠ none) ↔ ∃ r, ¬ more (next^[r] x) := by
  constructor
  · rintro ⟨fuel,comes⟩
    induction fuel generalizing x s with
    | zero => exact absurd (walker.zero x s) comes
    | succ fuel ih =>
      by_cases inside : more x
      · obtain ⟨t,kept,ran⟩ := walker.goesOn x s b start inside (fun j less => absurd less (Nat.not_lt_zero j))
        rw [ran] at comes
        obtain ⟨r,stop⟩ := ih kept comes
        exact ⟨r+1,stop⟩
      · exact ⟨0,inside⟩
  · rintro ⟨r,stop⟩
    induction r generalizing x s with
    | zero =>
      obtain ⟨result,_,ran⟩ := walker.ended x s b start stop
      exact ⟨2,by rw [ran 0]; exact Option.some_ne_none result⟩
    | succ r ih =>
      by_cases inside : more x
      · obtain ⟨t,kept,ran⟩ := walker.goesOn x s b start inside (fun j less => absurd less (Nat.not_lt_zero j))
        obtain ⟨fuel,comes⟩ := ih kept stop
        exact ⟨fuel+1,by rw [ran]; exact comes⟩
      · obtain ⟨result,_,ran⟩ := walker.ended x s b start inside
        exact ⟨2,by rw [ran 0]; exact Option.some_ne_none result⟩

end

end BlockChains
