import Mathlib.Order.Basic

namespace Buffers

-- Bytes put in a buffer: count of them, from the place first on.
structure Write (β : Type) where
  buffer : β
  first : Nat
  count : Nat

section
variable {α β : Type}

def Write.Inside (size : β → Nat) (x : Write β) : Prop := x.first + x.count ≤ size x.buffer

instance (size : β → Nat) (x : Write β) : Decidable (x.Inside size) := inferInstanceAs (Decidable (_ ≤ _))

-- strcpy and strcat: a string with its NUL, at the start of a buffer or behind what it holds.
def stringAt (buffer : β) (s : List α) : Write β := ⟨buffer,0,s.length + 1⟩
def stringBehind (buffer : β) (held s : List α) : Write β := ⟨buffer,held.length,s.length + 1⟩

variable {size : β → Nat} {buffer : β} {held s : List α}

theorem stringAt_inside : (stringAt buffer s).Inside size ↔ s.length < size buffer := by
  rw [stringAt,Write.Inside,Nat.zero_add]
  rfl

theorem stringBehind_inside : (stringBehind buffer held s).Inside size ↔ held.length + s.length < size buffer := by
  rw [stringBehind,Write.Inside,← Nat.add_assoc]
  rfl

end

-- Events on the way to a result: they are all safe exactly when they all fit, and the result
-- is as it should be then.
structure Guarded {ε ρ : Type} (safe fits : ε → Prop) (post : ρ → Prop) (r : Option ρ) (events : List ε) : Prop where
  iff : (∀ e ∈ events, safe e) ↔ ∀ e ∈ events, fits e
  ends : (∀ e ∈ events, fits e) → ∀ x, r = some x → post x

def after {ε ρ : Type} (r : Option ρ) (next : ρ → List ε) : List ε :=
  match r with
  | none => []
  | some x => next x

section
variable {ε ρ τ : Type} {safe fits : ε → Prop} {post : ρ → Prop} {post' : τ → Prop} {r : Option ρ} {r' : Option τ} {events : List ε}

theorem guarded_none : Guarded safe fits post none [] := ⟨by simp,fun _ x absurd_ => by cases absurd_⟩

theorem guarded_some {x : ρ} (holds : post x) : Guarded safe fits post (some x) [] := by
  refine ⟨by simp,?_⟩
  intro _ y same
  cases same
  exact holds

theorem guarded_cons (event : safe e ↔ fits e) (rest : fits e → Guarded safe fits post r events) :
    Guarded safe fits post r (e::events) := by
  constructor
  · rw [List.forall_mem_cons,List.forall_mem_cons,event]
    exact and_congr_right fun fit => (rest fit).iff
  · intro all
    rw [List.forall_mem_cons] at all
    exact (rest all.1).ends all.2

theorem Guarded.bind {next : ρ → Option τ} {more : ρ → List ε} (first : Guarded safe fits post r events)
    (second : ∀ x, r = some x → post x → Guarded safe fits post' (next x) (more x)) :
    Guarded safe fits post' (r.bind next) (events ++ after r more) := by
  cases ran : r with
  | none => exact ⟨by simpa [after] using first.iff,fun _ x absurd_ => by cases absurd_⟩
  | some x =>
    have later := fun fit => second x ran (first.ends fit x ran)
    constructor
    · rw [List.forall_mem_append,List.forall_mem_append,first.iff]
      exact and_congr_right fun fit => (later fit).iff
    · intro all
      rw [List.forall_mem_append] at all
      exact (later all.1).ends all.2

theorem Guarded.imp (guarded : Guarded safe fits post r events)
    (same : ∀ y, r' = some y → ∃ x, r = some x ∧ (post x → post' y)) :
    Guarded safe fits post' r' events := by
  refine ⟨guarded.iff,?_⟩
  intro all y ended
  obtain ⟨x,ran,holds⟩ := same y ended
  exact holds (guarded.ends all x ran)

theorem guarded_parts {η : Type} (parts : η → List ε) {e : η} (guarded : Guarded safe fits post r (parts e)) :
    Guarded (fun e => ∀ x ∈ parts e, safe x) (fun e => ∀ x ∈ parts e, fits x) post r [e] := by
  constructor
  · rw [List.forall_mem_singleton,List.forall_mem_singleton]
    exact guarded.iff
  · intro all
    exact guarded.ends (List.forall_mem_singleton.mp all)

end

end Buffers
