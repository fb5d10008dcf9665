import Mathlib.Data.List.Basic
import Mathlib.Data.List.Range
import Mathlib.Logic.Function.Iterate

namespace Polling

-- A wait that looks at most n times. One look answers or not, and moves the world on.
def poll (look : σ → Option α × σ) : Nat → σ → Option α × σ
  | 0,s => (none,s)
  | n+1,s =>
    match look s with
    | (some a,t) => (some a,t)
    | (none,t) => poll look n t

def rest (look : σ → Option α × σ) (k : Nat) (s : σ) : σ := (fun s => (look s).2)^[k] s

section
variable {look : σ → Option α × σ} {s : σ} {n : Nat}

theorem poll_next (silent : (look s).1 = none) : poll look (n+1) s = poll look n (look s).2 := by
  rw [poll]
  cases found : look s with
  | mk answer t =>
    rw [found] at silent
    cases silent
    rfl

theorem poll_first (answers : (look s).1 ≠ none) : poll look (n+1) s = look s := by
  rw [poll]
  cases found : look s with
  | mk answer t =>
    cases answer with
    | none => exact absurd (by rw [found]) answers
    | some a => rfl

-- A wait whose answer comes in time ends with the look that gave it. What the looks
-- before it keep still holds there.
theorem poll_finds {inv : σ → Prop} (keeps : ∀ s, inv s → inv (look s).2) (start : inv s)
    (comes : ∃ k < n, (look (rest look k s)).1 ≠ none) :
    ∃ t, inv t ∧ (look t).1 ≠ none ∧ poll look n s = look t := by
  induction n generalizing s with
  | zero => obtain ⟨k,bound,_⟩ := comes; exact absurd bound (Nat.not_lt_zero k)
  | succ n ih =>
    by_cases silent : (look s).1 = none
    · obtain ⟨k,bound,answers⟩ := comes
      cases k with
      | zero => exact absurd silent answers
      | succ k =>
        obtain ⟨t,kept,found,ends⟩ := ih (keeps s start) ⟨k,Nat.lt_of_succ_lt_succ bound,answers⟩
        exact ⟨t,kept,found,(poll_next silent).trans ends⟩
    · exact ⟨s,start,silent,poll_first silent⟩

end

def Begins (values : Nat → α) (p : Nat) : List α → Prop
  | [] => True
  | v::word => values p = v ∧ Begins values (p+1) word

section
variable {values : Nat → α} {p : Nat}

theorem begins_append (one two : List α) :
    Begins values p (one ++ two) ↔ Begins values p one ∧ Begins values (p + one.length) two := by
  induction one generalizing p with
  | nil => exact ⟨fun begins => ⟨trivial,begins⟩,fun both => both.2⟩
  | cons v one ih =>
    have place : p + 1 + one.length = p + (v::one).length := by
      rw [List.length_cons]
      omega
    rw [List.cons_append,Begins,ih,place,Begins,and_assoc]

theorem begins_values (values : Nat → α) (p n : Nat) : Begins values p ((List.range' p n).map values) := by
  induction n generalizing p with
  | zero => trivial
  | succ n ih =>
    rw [List.range'_succ,List.map_cons]
    exact ⟨rfl,ih (p+1)⟩

theorem Begins.at {word : List α} (begins : Begins values p word) (inside : i < word.length) : values (p+i) ∈ word := by
  induction word generalizing p i with
  | nil => exact absurd inside (Nat.not_lt_zero i)
  | cons v word ih =>
    obtain ⟨first,rest⟩ := begins
    cases i with
    | zero =>
      rw [Nat.add_zero,first]
      exact List.mem_cons_self
    | succ i =>
      have later := ih rest (Nat.lt_of_succ_lt_succ inside)
      rw [Nat.add_assoc,Nat.add_comm 1 i] at later
      exact List.mem_cons_of_mem _ later

theorem begins_stretch (kind : α → Prop) (n : Nat) :
    (∃ word, word.length = n ∧ (∀ v ∈ word, kind v) ∧ Begins values p word) ↔ ∀ j < n, kind (values (p+j)) := by
  constructor
  · rintro ⟨word,length,all,begins⟩ j inside
    exact all _ (begins.at (by omega))
  · intro all
    refine ⟨(List.range' p n).map values,by simp,?_,begins_values values p n⟩
    intro v member
    obtain ⟨i,range,rfl⟩ := List.mem_map.mp member
    obtain ⟨low,high⟩ := List.mem_range'_1.mp range
    have place : p + (i - p) = i := by omega
    have here := all (i-p) (by omega)
    rwa [place] at here

end

end Polling
