import Mathlib.Order.Interval.Set.Nat
import SantOS.Library.ParallelArrays

namespace FiniteMaps
open ParallelArrays

inductive Change (κ ν : Type) where
  | nothing
  | put (key : κ) (value : ν)
  | erase (key : κ)
  | eraseAll

section
variable {κ ν α : Type} [DecidableEq κ]

def Change.apply (m : κ → Option ν) : Change κ ν → κ → Option ν
  | .nothing => m
  | .put key value => Function.update m key (some value)
  | .erase key => Function.update m key none
  | .eraseAll => fun _ => none

def Change.touches : Change κ ν → κ → Prop
  | .nothing,_ => False
  | .put key _,name => name = key
  | .erase key,name => name = key
  | .eraseAll,_ => True

noncomputable def size (m : κ → Option ν) : Nat := Set.ncard {key | m key ≠ none}

theorem apply_untouched {m : κ → Option ν} {change : Change κ ν} (untouched : ¬ change.touches key) :
    change.apply m key = m key := by
  cases change with
  | nothing => rfl
  | put other value => exact Function.update_of_ne untouched ..
  | erase other => exact Function.update_of_ne untouched ..
  | eraseAll => exact absurd trivial untouched

-- A run of commands, each of which reads the map that the one before left.
def changed (meant : (κ → Option ν) → α → Change κ ν) (m : κ → Option ν) (actions : List α) : κ → Option ν :=
  actions.foldl (fun m action => (meant m action).apply m) m

variable {meant : (κ → Option ν) → α → Change κ ν} {m : κ → Option ν}

theorem changed_append (before after : List α) :
    changed meant m (before ++ after) = changed meant (changed meant m before) after := List.foldl_append ..

theorem changed_untouched {actions : List α} {key : κ}
    (untouched : ∀ before action after, actions = before ++ action::after → ¬ (meant (changed meant m before) action).touches key) :
    changed meant m actions key = m key := by
  induction actions generalizing m with
  | nil => rfl
  | cons action actions ih =>
    have rest := @ih ((meant m action).apply m) (fun before later after same => untouched (action::before) later after (by rw [same]; rfl))
    exact rest.trans (apply_untouched (untouched [] action actions rfl))

theorem changed_last {before after : List α} {action : α} {key : κ} {value : ν}
    (puts : meant (changed meant m before) action = .put key value)
    (untouched : ∀ between later rest, after = between ++ later::rest →
      ¬ (meant (changed meant m (before ++ action::between)) later).touches key) :
    changed meant m (before ++ action::after) key = some value := by
  rw [changed_append]
  have rest : changed meant ((meant (changed meant m before) action).apply (changed meant m before)) after key =
      (meant (changed meant m before) action).apply (changed meant m before) key := by
    refine changed_untouched fun between later rest same => ?_
    have here := untouched between later rest same
    rwa [changed_append] at here
  refine rest.trans ?_
  rw [puts]
  exact Function.update_self ..

theorem size_lookup {keys : Nat → κ} {vals : Nat → ν} {count : Nat} (distinct : Distinct keys count) :
    size (lookup keys vals count) = count := by
  have used : {key | lookup keys vals count key ≠ none} = Set.image keys (Set.Iio count) := by
    ext key
    constructor
    · intro some_
      by_contra absent
      exact some_ (lookup_none fun i inside here => absent ⟨i,inside,here⟩)
    · rintro ⟨i,inside,rfl⟩
      show lookup keys vals count (keys i) ≠ none
      rw [lookup_some _ distinct inside]
      simp
  have injective : Set.InjOn keys (Set.Iio count) := fun i inside j inside' same => distinct i j inside inside' same
  rw [size,used,injective.ncard_image]
  exact Set.ncard_Iio_nat count

end

end FiniteMaps
