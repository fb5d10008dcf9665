import Mathlib.Data.List.Basic
import Mathlib.Logic.Function.Basic

namespace ArrayShifts

section
variable {α β : Type} {m : Nat → α} {pre post xs : List β}

-- The loops that make or close a gap in an array: put old new is what a cell becomes.
def raise (put : α → α → α) (m : Nat → α) (i : Nat) : Nat → Nat → α
  | 0 => m
  | left+1 => raise put (Function.update m i (put (m i) (m (i-1)))) (i-1) left

def lower (put : α → α → α) (m : Nat → α) (i : Nat) : Nat → Nat → α
  | 0 => m
  | left+1 => lower put (Function.update m i (put (m i) (m (i+1)))) (i+1) left

def Holds (R : α → β → Prop) (m : Nat → α) (xs : List β) : Prop := ∀ i x, xs[i]? = some x → R (m i) x

theorem raise_apply (put : α → α → α) (le : left ≤ i) (k : Nat) :
    raise put m i left k = if i - left < k ∧ k ≤ i then put (m k) (m (k-1)) else m k := by
  induction left generalizing m i with
  | zero => rw [raise,if_neg (by omega)]
  | succ left ih =>
    rw [raise,ih (by omega)]
    by_cases last : k = i
    · subst last
      rw [if_neg (by omega),if_pos (by omega),Function.update_self]
    · rw [Function.update_of_ne last]
      by_cases inside : i - 1 - left < k ∧ k ≤ i - 1
      · rw [if_pos inside,if_pos (by omega),Function.update_of_ne (by omega)]
      · rw [if_neg inside,if_neg (by omega)]

theorem lower_apply (put : α → α → α) (k : Nat) :
    lower put m i left k = if i ≤ k ∧ k < i + left then put (m k) (m (k+1)) else m k := by
  induction left generalizing m i with
  | zero => rw [lower,if_neg (by omega)]
  | succ left ih =>
    rw [lower,ih]
    by_cases first : k = i
    · subst first
      rw [if_neg (by omega),if_pos (by omega),Function.update_self]
    · rw [Function.update_of_ne first]
      by_cases inside : i + 1 ≤ k ∧ k < i + 1 + left
      · rw [if_pos inside,if_pos (by omega),Function.update_of_ne (by omega)]
      · rw [if_neg inside,if_neg (by omega)]

-- What holds of every cell and is kept by put holds of every cell afterwards.
theorem raise_each {P : α → Prop} (put : α → α → α) (keeps : ∀ a b, P a → P b → P (put a b)) (each : ∀ k, P (m k)) :
    ∀ k, P (raise put m i left k) := by
  induction left generalizing m i with
  | zero => exact each
  | succ left ih =>
    apply ih
    intro k
    by_cases here : k = i
    · rw [here,Function.update_self]
      exact keeps _ _ (each _) (each _)
    · rw [Function.update_of_ne here]
      exact each k

theorem lower_each {P : α → Prop} (put : α → α → α) (keeps : ∀ a b, P a → P b → P (put a b)) (each : ∀ k, P (m k)) :
    ∀ k, P (lower put m i left k) := by
  induction left generalizing m i with
  | zero => exact each
  | succ left ih =>
    apply ih
    intro k
    by_cases here : k = i
    · rw [here,Function.update_self]
      exact keeps _ _ (each _) (each _)
    · rw [Function.update_of_ne here]
      exact each k

theorem Holds.set {R : α → β → Prop} {x y : β} (holds : Holds R m (pre ++ x::post)) (cell : R v y) :
    Holds R (Function.update m pre.length v) (pre ++ y::post) := by
  intro i z found
  by_cases here : i = pre.length
  · subst here
    rw [List.getElem?_append_right (Nat.le_refl _),Nat.sub_self] at found
    cases Option.some.inj found
    rwa [Function.update_self]
  · rw [Function.update_of_ne here]
    apply holds
    by_cases left : i < pre.length
    · rwa [List.getElem?_append_left left] at found ⊢
    · obtain ⟨n,rfl⟩ : ∃ n, i = pre.length + (n+1) := ⟨i - pre.length - 1,by omega⟩
      rwa [List.getElem?_append_right (by omega),Nat.add_sub_cancel_left,List.getElem?_cons_succ] at found ⊢

theorem Holds.push {R : α → β → Prop} {y : β} (holds : Holds R m xs) (cell : R v y) :
    Holds R (Function.update m xs.length v) (xs ++ [y]) := by
  intro i z found
  by_cases old : i < xs.length
  · rw [Function.update_of_ne (by omega)]
    rw [List.getElem?_append_left old] at found
    exact holds i z found
  · rw [List.getElem?_append_right (by omega)] at found
    have last : i = xs.length := by
      have inside := (List.getElem?_eq_some_iff.mp found).1
      rw [List.length_singleton] at inside
      omega
    subst last
    rw [Nat.sub_self] at found
    cases Option.some.inj found
    rwa [Function.update_self]

theorem Holds.insert {R : α → β → Prop} {y : β} (put : α → α → α) (holds : Holds R m (pre ++ post))
    (keeps : ∀ old new x, x ∈ post → R new x → R (put old new) x) (cell : R v y) :
    Holds R (Function.update (raise put m (pre ++ post).length post.length) pre.length v) (pre ++ y::post) := by
  intro i z found
  have total : (pre ++ post).length = pre.length + post.length := List.length_append
  by_cases left : i < pre.length
  · rw [Function.update_of_ne (by omega),raise_apply _ (by omega),if_neg (by omega)]
    rw [List.getElem?_append_left left] at found
    exact holds i z (by rwa [List.getElem?_append_left left])
  · rw [List.getElem?_append_right (by omega)] at found
    by_cases here : i = pre.length
    · subst here
      rw [Nat.sub_self] at found
      cases Option.some.inj found
      rwa [Function.update_self]
    · obtain ⟨n,rfl⟩ : ∃ n, i = pre.length + (n+1) := ⟨i - pre.length - 1,by omega⟩
      rw [Nat.add_sub_cancel_left,List.getElem?_cons_succ] at found
      have inside := (List.getElem?_eq_some_iff.mp found).1
      rw [Function.update_of_ne here,raise_apply _ (by omega),if_pos (by omega)]
      refine keeps _ _ _ (List.mem_of_getElem? found) (holds _ z ?_)
      rwa [List.getElem?_append_right (by omega),show pre.length + (n+1) - 1 - pre.length = n by omega]

theorem Holds.remove {R : α → β → Prop} {y : β} (put : α → α → α) (holds : Holds R m (pre ++ y::post))
    (keeps : ∀ old new x, x ∈ post → R new x → R (put old new) x) :
    Holds R (lower put m pre.length post.length) (pre ++ post) := by
  intro i z found
  rw [lower_apply]
  by_cases left : i < pre.length
  · rw [if_neg (by omega)]
    rw [List.getElem?_append_left left] at found
    exact holds i z (by rwa [List.getElem?_append_left left])
  · obtain ⟨n,rfl⟩ : ∃ n, i = pre.length + n := ⟨i - pre.length,by omega⟩
    rw [List.getElem?_append_right (by omega),Nat.add_sub_cancel_left] at found
    have inside := (List.getElem?_eq_some_iff.mp found).1
    rw [if_pos (by omega)]
    refine keeps _ _ _ (List.mem_of_getElem? found) (holds _ z ?_)
    rwa [List.getElem?_append_right (by omega),show pre.length + n + 1 - pre.length = n + 1 by omega,
      List.getElem?_cons_succ]

end

end ArrayShifts
