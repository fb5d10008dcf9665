import SantOS.Library.ArrayShifts

namespace ParallelArrays
open ArrayShifts

section
variable {κ ν : Type} [DecidableEq κ] {keys : Nat → κ} {vals : Nat → ν} {count k : Nat} {name other : κ} {v : ν}

-- A table kept in two arrays: the first cell from i on whose key is the name.
def find (keys : Nat → κ) (name : κ) (i : Nat) : Nat → Option Nat
  | 0 => none
  | left+1 => if keys i = name then some i else find keys name (i+1) left

def lookup (keys : Nat → κ) (vals : Nat → ν) (count : Nat) (name : κ) : Option ν := (find keys name 0 count).map vals

def Distinct (keys : Nat → κ) (count : Nat) : Prop := ∀ i j, i < count → j < count → keys i = keys j → i = j

theorem find_some (found : find keys name i left = some k) : i ≤ k ∧ k < i + left ∧ keys k = name := by
  induction left generalizing i with
  | zero => cases found
  | succ left ih =>
    rw [find] at found
    split at found
    · next here =>
      cases found
      exact ⟨Nat.le_refl _,by omega,here⟩
    · obtain ⟨low,high,here⟩ := ih found
      exact ⟨by omega,by omega,here⟩

theorem find_none (missing : find keys name i left = none) (low : i ≤ k) (high : k < i + left) : keys k ≠ name := by
  induction left generalizing i with
  | zero => omega
  | succ left ih =>
    rw [find] at missing
    split at missing
    · cases missing
    · next other =>
      by_cases here : k = i
      · rw [here]
        exact other
      · exact ih missing (by omega) (by omega)

theorem find_of_key (distinct : Distinct keys count) (inside : k < count) (key : keys k = name) :
    find keys name 0 count = some k := by
  cases found : find keys name 0 count with
  | none => exact absurd key (find_none found (Nat.zero_le k) (by omega))
  | some j =>
    obtain ⟨_,high,same⟩ := find_some found
    rw [distinct j k (by omega) inside (same.trans key.symm)]

theorem find_none_of (absent : ∀ k < count, keys k ≠ name) : find keys name 0 count = none := by
  cases found : find keys name 0 count with
  | none => rfl
  | some j =>
    obtain ⟨_,high,same⟩ := find_some found
    exact absurd same (absent j (by omega))

theorem lookup_some (vals : Nat → ν) (distinct : Distinct keys count) (inside : k < count) :
    lookup keys vals count (keys k) = some (vals k) := by
  rw [lookup,find_of_key distinct inside rfl]
  rfl

theorem lookup_none (absent : ∀ k < count, keys k ≠ name) : lookup keys vals count name = none := by
  rw [lookup,find_none_of absent]
  rfl

theorem lookup_congr {keys' : Nat → κ} {vals' : Nat → ν} {count' : Nat} (one : Distinct keys count)
    (two : Distinct keys' count')
    (there : ∀ k < count, keys k = name → ∃ j < count', keys' j = name ∧ vals' j = vals k)
    (back : ∀ j < count', keys' j = name → ∃ k < count, keys k = name) :
    lookup keys' vals' count' name = lookup keys vals count name := by
  by_cases present : ∃ k < count, keys k = name
  · obtain ⟨k,inside,here⟩ := present
    obtain ⟨j,inside',here',value⟩ := there k inside here
    subst here
    rw [lookup_some vals one inside,← here',lookup_some vals' two inside',value]
  · rw [lookup_none (fun k inside here => present ⟨k,inside,here⟩),
      lookup_none (fun j inside here => present (back j inside here))]

theorem distinct_push (distinct : Distinct keys count) (missing : find keys name 0 count = none) :
    Distinct (Function.update keys count name) (count+1) := by
  have fresh : ∀ k < count, keys k ≠ name := fun k inside => find_none missing (Nat.zero_le k) (by omega)
  intro i j lowI lowJ same
  by_cases lastI : i = count
  · by_cases lastJ : j = count
    · rw [lastI,lastJ]
    · rw [lastI,Function.update_self,Function.update_of_ne lastJ] at same
      exact absurd same.symm (fresh j (by omega))
  · rw [Function.update_of_ne lastI] at same
    by_cases lastJ : j = count
    · rw [lastJ,Function.update_self] at same
      exact absurd same (fresh i (by omega))
    · rw [Function.update_of_ne lastJ] at same
      exact distinct i j (by omega) (by omega) same

theorem find_congr {keys' : Nat → κ} (same : ∀ k, i ≤ k → k < i + left → keys' k = keys k) :
    find keys' name i left = find keys name i left := by
  induction left generalizing i with
  | zero => rfl
  | succ left ih =>
    rw [find,find,same i (Nat.le_refl i) (by omega),ih (fun k low high => same k (by omega) (by omega))]

theorem find_last (keys : Nat → κ) (name : κ) (i left : Nat) :
    find keys name i (left+1) = (find keys name i left).or (if keys (i+left) = name then some (i+left) else none) := by
  induction left generalizing i with
  | zero => rfl
  | succ left ih =>
    rw [find,ih (i+1),find,Nat.add_assoc,Nat.add_comm 1 left]
    split
    · rfl
    · rfl

theorem lookup_push (missing : find keys name 0 count = none) :
    lookup (Function.update keys count name) (Function.update vals count v) (count+1) other =
      if other = name then some v else lookup keys vals count other := by
  have before : find (Function.update keys count name) other 0 count = find keys other 0 count :=
    find_congr fun k _ inside => Function.update_of_ne (by omega) ..
  rw [lookup,find_last,before,Nat.zero_add,Function.update_self]
  by_cases same : other = name
  · subst same
    rw [missing,if_pos rfl,if_pos rfl]
    exact congrArg some (Function.update_self ..)
  · rw [if_neg (Ne.symm same),if_neg same,Option.or_none,lookup]
    cases found : find keys other 0 count with
    | none => rfl
    | some k =>
      obtain ⟨_,high,_⟩ := find_some found
      exact congrArg some (Function.update_of_ne (by omega) ..)

theorem lookup_set (found : find keys name 0 count = some k) :
    lookup keys (Function.update vals k v) count other = if other = name then some v else lookup keys vals count other := by
  obtain ⟨_,_,key⟩ := find_some found
  by_cases same : other = name
  · rw [if_pos same,same,lookup,found,Option.map_some,Function.update_self]
  · rw [if_neg same,lookup,lookup]
    cases there : find keys other 0 count with
    | none => rfl
    | some j =>
      obtain ⟨_,_,here⟩ := find_some there
      refine congrArg some (Function.update_of_ne ?_ ..)
      rintro rfl
      exact same (here.symm.trans key)

theorem lower_cell {α : Type} {m : Nat → α} (i : Nat) :
    lower (fun _ b => b) m k (count-1-k) i = m (if k ≤ i ∧ i < k + (count-1-k) then i+1 else i) := by
  rw [lower_apply]
  split <;> rfl

omit [DecidableEq κ] in
theorem distinct_remove (distinct : Distinct keys count) (inside : k < count) :
    Distinct (lower (fun _ b => b) keys k (count-1-k)) (count-1) := by
  intro i j lowI lowJ same
  rw [lower_cell,lower_cell] at same
  have cells := distinct _ _ (by split <;> omega) (by split <;> omega) same
  split at cells <;> split at cells <;> omega

theorem lookup_remove (distinct : Distinct keys count) (found : find keys name 0 count = some k) :
    lookup (lower (fun _ b => b) keys k (count-1-k)) (lower (fun _ b => b) vals k (count-1-k)) (count-1) other =
      if other = name then none else lookup keys vals count other := by
  obtain ⟨_,high,key⟩ := find_some found
  rw [Nat.zero_add] at high
  have rest := distinct_remove distinct high
  by_cases same : other = name
  · rw [if_pos same]
    apply lookup_none
    intro i inside here
    rw [lower_cell] at here
    have cell := distinct _ _ (by split <;> omega) high (here.trans (same.trans key.symm))
    split at cell <;> omega
  · rw [if_neg same]
    apply lookup_congr distinct rest
    · intro j inside here
      have apart : j ≠ k := by
        rintro rfl
        exact same (here.symm.trans key)
      by_cases before : j < k
      · refine ⟨j,by omega,?_,?_⟩
        · rw [lower_cell,if_neg (by omega)]
          exact here
        · rw [lower_cell,if_neg (by omega)]
      · refine ⟨j-1,by omega,?_,?_⟩
        · rw [lower_cell,if_pos (by omega),Nat.sub_add_cancel (by omega)]
          exact here
        · rw [lower_cell,if_pos (by omega),Nat.sub_add_cancel (by omega)]
    · intro j inside here
      rw [lower_cell] at here
      exact ⟨_,by split <;> omega,here⟩

end

end ParallelArrays
