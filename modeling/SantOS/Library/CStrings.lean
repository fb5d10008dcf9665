import Mathlib.Data.List.GetD
import SantOS.Library.ArrayShifts

namespace CStrings
open ArrayShifts

-- A C string is the list of its bytes without the terminating NUL.
abbrev Str := List UInt8

def bytes (s : String) : Str := s.toList.map (fun c => UInt8.ofNat c.toNat)

structure Spells (m : Nat → UInt8) (s : Str) : Prop where
  atIndex : ∀ i ≤ s.length, m i = s.getD i 0
  noNul : 0 ∉ s

def Starts (m : Nat → UInt8) (s : Str) : Prop := ∀ i < s.length, m i = s.getD i 0

-- The loops over arrays take a bound on the number of rounds.
def strlenFrom (m : Nat → UInt8) (len : Nat) : Nat → Nat
  | 0 => len
  | left+1 => if m len = 0 then len else strlenFrom m (len+1) left

def strcpyFrom (dest src : Nat → UInt8) (d s : Nat) : Nat → Nat → UInt8
  | 0 => dest
  | left+1 =>
    let dest := Function.update dest d (src s)
    if src s = 0 then dest else strcpyFrom dest src (d+1) (s+1) left

section
variable {m m' dest src : Nat → UInt8} {s a b : Str}

theorem Spells.congr (spells : Spells m s) (same : ∀ i ≤ s.length, m' i = m i) : Spells m' s :=
  ⟨fun i le => (same i le).trans (spells.atIndex i le),spells.noNul⟩

theorem Starts.push (starts : Starts m s) (b : UInt8) : Starts (Function.update m s.length b) (s ++ [b]) := by
  intro i inside
  rw [List.length_append,List.length_singleton] at inside
  by_cases last : i = s.length
  · rw [last,Function.update_self,List.getD_append_right _ _ _ _ (Nat.le_refl _),Nat.sub_self]
    rfl
  · rw [Function.update_of_ne last,List.getD_append _ _ _ _ (by omega)]
    exact starts i (by omega)

theorem Starts.ended (starts : Starts m s) (noNul : 0 ∉ s) : Spells (Function.update m s.length 0) s := by
  refine ⟨?_,noNul⟩
  intro i le
  by_cases last : i = s.length
  · rw [last,Function.update_self,List.getD_eq_default _ _ (Nat.le_refl _)]
  · rw [Function.update_of_ne last]
    exact starts i (by omega)

theorem Spells.stop (spells : Spells m s) : m s.length = 0 := by
  rw [spells.atIndex _ (Nat.le_refl _)]
  simp

theorem Spells.nonzero (spells : Spells m s) (inside : i < s.length) : m i ≠ 0 := by
  rw [spells.atIndex i (Nat.le_of_lt inside),List.getD_eq_getElem _ _ inside]
  intro zero
  exact spells.noNul (zero ▸ List.getElem_mem inside)

theorem Spells.length_le (one : Spells m a) (two : Spells m b) : a.length ≤ b.length := by
  by_contra longer
  exact one.nonzero (Nat.lt_of_not_le longer) two.stop

theorem Spells.unique (one : Spells m a) (two : Spells m b) : a = b := by
  have length := Nat.le_antisymm (one.length_le two) (two.length_le one)
  apply List.ext_getElem length
  intro i below below'
  have byte := (one.atIndex i (Nat.le_of_lt below)).symm.trans (two.atIndex i (Nat.le_of_lt below'))
  rwa [List.getD_eq_getElem _ _ below,List.getD_eq_getElem _ _ below'] at byte

theorem Spells.suffix (spells : Spells m (a ++ b)) : Spells (fun i => m (a.length + i)) b := by
  refine ⟨?_,fun zero => spells.noNul (List.mem_append_right _ zero)⟩
  intro i le
  rw [spells.atIndex _ (by rw [List.length_append]; omega),List.getD_append_right _ _ _ _ (by omega),Nat.add_sub_cancel_left]

theorem Spells.take (spells : Spells m s) (le : c ≤ s.length) : Spells (Function.update m c 0) (s.take c) := by
  refine ⟨?_,fun zero => spells.noNul (List.mem_of_mem_take zero)⟩
  rw [List.length_take_of_le le]
  intro i below
  by_cases last : i = c
  · subst last
    rw [Function.update_self,List.getD_eq_default _ _ (Nat.le_of_eq (List.length_take_of_le le))]
  · rw [Function.update_of_ne last,spells.atIndex i (by omega),List.getD_eq_getElem?_getD,List.getD_eq_getElem?_getD,
      List.getElem?_take_of_lt (by omega)]

theorem strlenFrom_eq (spells : Spells m s) (le : len ≤ s.length) (bound : s.length < len + left) :
    strlenFrom m len left = s.length := by
  induction left generalizing len with
  | zero => omega
  | succ left ih =>
    rw [strlenFrom]
    by_cases ended : len = s.length
    · rw [ended,if_pos spells.stop]
    · rw [if_neg (spells.nonzero (by omega))]
      exact ih (by omega) (by omega)

theorem strcpyFrom_apply (spells : Spells src a) (le : o ≤ a.length) (bound : a.length < o + left) (k : Nat) :
    strcpyFrom dest src d o left k = if d ≤ k ∧ k ≤ d + (a.length - o) then src (k - d + o) else dest k := by
  induction left generalizing dest d o with
  | zero => omega
  | succ left ih =>
    rw [strcpyFrom]
    have here : d - d + o = o := by omega
    by_cases ended : o = a.length
    · rw [if_pos (ended ▸ spells.stop)]
      by_cases atD : k = d
      · rw [atD,Function.update_self,if_pos (by omega),here]
      · rw [Function.update_of_ne atD,if_neg (by omega)]
    · rw [if_neg (spells.nonzero (by omega)),ih (by omega) (by omega)]
      by_cases later : d + 1 ≤ k ∧ k ≤ d + 1 + (a.length - (o+1))
      · rw [if_pos later,if_pos (by omega),show k - (d+1) + (o+1) = k - d + o by omega]
      · rw [if_neg later]
        by_cases atD : k = d
        · rw [atD,Function.update_self,if_pos (by omega),here]
        · rw [Function.update_of_ne atD,if_neg (by omega)]

theorem strcpyFrom_each {P : UInt8 → Prop} (old : ∀ k, P (dest k)) (new : ∀ k, P (src k)) :
    ∀ k, P (strcpyFrom dest src d o left k) := by
  induction left generalizing dest d o with
  | zero => exact old
  | succ left ih =>
    have stored : ∀ k, P (Function.update dest d (src o) k) := by
      intro k
      by_cases here : k = d
      · rw [here,Function.update_self]
        exact new o
      · rw [Function.update_of_ne here]
        exact old k
    rw [strcpyFrom]
    split
    · exact stored
    · exact ih stored

theorem spells_strcpy (spells : Spells src a) (bound : a.length < left) : Spells (strcpyFrom dest src 0 0 left) a := by
  refine spells.congr ?_
  intro i le
  rw [strcpyFrom_apply spells (Nat.zero_le _) (by omega),if_pos (by omega)]
  rfl

theorem spells_strcat (first : Spells dest a) (second : Spells src b) (bound : b.length < left) :
    Spells (strcpyFrom dest src a.length 0 left) (a ++ b) := by
  refine ⟨?_,fun zero => (List.mem_append.mp zero).elim first.noNul second.noNul⟩
  intro i le
  rw [List.length_append] at le
  rw [strcpyFrom_apply second (Nat.zero_le _) (by omega)]
  by_cases old : i < a.length
  · rw [if_neg (by omega),first.atIndex i (by omega),List.getD_append _ _ _ _ old]
  · rw [if_pos (by omega),List.getD_append_right _ _ _ _ (by omega),Nat.add_zero]
    exact second.atIndex _ (by omega)

theorem Spells.holds (spells : Spells m s) : Holds Eq m (s ++ [0]) := by
  intro i x found
  obtain ⟨below,rfl⟩ := List.getElem?_eq_some_iff.mp found
  rw [List.length_append,List.length_singleton] at below
  rw [spells.atIndex i (by omega)]
  by_cases inside : i < s.length
  · rw [List.getD_eq_getElem _ _ inside,List.getElem_append_left inside]
  · rw [List.getD_eq_default _ _ (by omega),List.getElem_append_right (by omega),List.getElem_singleton]

theorem Spells.of_holds (holds : Holds Eq m (s ++ [0])) (noNul : 0 ∉ s) : Spells m s := by
  refine ⟨?_,noNul⟩
  intro i le
  apply holds
  by_cases inside : i < s.length
  · rw [List.getElem?_append_left inside,List.getD_eq_getElem _ _ inside,List.getElem?_eq_getElem inside]
  · rw [List.getElem?_append_right (by omega),List.getD_eq_default _ _ (by omega),show i - s.length = 0 by omega]
    rfl

theorem spells_insert (spells : Spells m (a ++ b)) (nonzero : x ≠ 0) :
    Spells (Function.update (raise (fun _ b => b) m ((a ++ b).length + 1) (b.length + 1)) a.length x) (a ++ x::b) := by
  have holds := spells.holds
  rw [List.append_assoc] at holds
  have made := holds.insert (fun _ b => b) (fun _ _ _ _ same => same) (rfl : x = x)
  rw [← List.append_assoc,List.length_append,@List.length_append _ b] at made
  apply Spells.of_holds
  · rw [List.append_assoc]
    exact made
  · intro zero
    rcases List.mem_append.mp zero with left | right
    · exact spells.noNul (List.mem_append_left _ left)
    · rcases List.mem_cons.mp right with here | right
      · exact nonzero here.symm
      · exact spells.noNul (List.mem_append_right _ right)

theorem spells_remove (spells : Spells m (a ++ x::b)) : Spells (lower (fun _ b => b) m a.length (b.length + 1))
    (a ++ b) := by
  have holds := spells.holds
  rw [List.append_assoc,List.cons_append] at holds
  have closed := holds.remove (fun _ b => b) (fun _ _ _ _ same => same)
  rw [List.length_append,← List.append_assoc] at closed
  refine Spells.of_holds closed ?_
  intro zero
  apply spells.noNul
  rcases List.mem_append.mp zero with left | right
  · exact List.mem_append_left _ left
  · exact List.mem_append_right _ (List.mem_cons_of_mem _ right)

end

end CStrings
