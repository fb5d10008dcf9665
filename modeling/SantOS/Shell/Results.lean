import SantOS.Shell.Blocks

namespace SantOS.Shell
open CStrings

section
variable {σ : Type}

-- What holds of a command whenever it comes to an end.
def Ends (r : Result σ) (P : Session σ → List Out → Prop) : Prop := ∀ result t outs, r = some (result,t,outs) → P t outs

variable {P : Session σ → List Out → Prop} {r : Result σ} {s t : Session σ}

theorem ends_none : Ends none P := fun _ _ _ absurd_ => by cases absurd_

theorem ends_some (holds : P s outs) : Ends (some (result,s,outs)) P := by
  intro result' t outs' same
  cases same
  exact holds

theorem ends_done (holds : P s outs) : Ends (done s outs) P := ends_some holds

theorem ends_ite {c : Prop} [Decidable c] {r' : Result σ} (yes : Ends r P) (no : Ends r' P) :
    Ends (if c then r else r') P := by
  split
  · exact yes
  · exact no

theorem ends_if {c : Prop} [Decidable c] {r' : Result σ} (yes : c → Ends r P) (no : ¬c → Ends r' P) :
    Ends (if c then r else r') P := by
  split
  · exact yes ‹_›
  · exact no ‹_›

theorem ends_printing (ends : Ends r (fun t outs => P t (before ++ outs))) : Ends (printing before r) P := by
  intro result t outs same
  cases ran : r with
  | none =>
    rw [ran] at same
    cases same
  | some ended =>
    rw [ran] at same
    cases same
    exact ends _ _ _ ran

structure Composes (R : Session σ → Session σ → List Out → Prop) : Prop where
  quiet : ∀ s outs, (∀ o ∈ outs, isError o) → R s s outs
  trans : ∀ {s t u first second}, R s t first → R t u second → R s u (first ++ second)

variable {R : Session σ → Session σ → List Out → Prop} {run : Session σ → Str → Result σ}

theorem Composes.refl (composes : Composes R) (s : Session σ) :
    R s s [] := composes.quiet s [] (fun _ member => by cases member)

theorem ends_then {next : Session σ → Result σ} (composes : Composes R) (first : Ends r (R s))
    (second : ∀ t, Ends (next t) (R t)) :
    Ends (match r with
      | none => none
      | some (_,t,outs) => printing outs (next t)) (R s) := by
  cases ran : r with
  | none => exact ends_none
  | some ended =>
    obtain ⟨result,t,outs⟩ := ended
    refine ends_printing (fun result u more last => ?_)
    exact composes.trans (first _ _ _ ran) (second t _ _ _ last)

section
variable (composes : Composes R) (each : ∀ s line, Ends (run s line) (R s))
include composes each

theorem runLines_keep (lines : List Str) (s : Session σ) : Ends (runLines run s lines) (R s) := by
  induction lines generalizing s with
  | nil => exact ends_done (composes.refl s)
  | cons line lines ih => exact ends_then composes (each s line) ih

theorem runBlockFrom_keeps (left : Nat) (s : Session σ) (i : Nat) : Ends (runBlockFrom run s i left) (R s) := by
  induction left generalizing s i with
  | zero => exact ends_done (composes.refl s)
  | succ left ih =>
    unfold runBlockFrom
    cases s.blockLines[i]? with
    | none => exact ends_done (composes.refl s)
    | some line =>
      dsimp only
      by_cases comment : isComment line
      · rw [if_pos comment]
        exact ih s (i+1)
      · rw [if_neg comment]
        exact ends_then composes (each s line) (fun t => ih t (i+1))

theorem forIterations_keep (fuel : Nat) (s : Session σ) (down : Bool) (iter endVal : Int) :
    Ends (forIterations run s down iter endVal fuel) (R s) := by
  induction fuel generalizing s iter with
  | zero => exact ends_none
  | succ fuel ih =>
    unfold forIterations
    split
    · exact ends_then composes (runBlockFrom_keeps composes each _ s 0) (fun t => ih t _)
    · exact ends_done (composes.refl s)

theorem whileIterations_keep (left : Nat) (s : Session σ) : Ends (whileIterations run s left) (R s) := by
  induction left generalizing s with
  | zero => exact ends_done (composes.quiet s _ (by simp [isError]))
  | succ left ih =>
    unfold whileIterations
    split
    · split
      · exact ends_then composes (runBlockFrom_keeps composes each _ s 0) ih
      · exact ends_done (composes.refl s)
    · exact ends_done (composes.refl s)

theorem executeBlock_keeps (s : Session σ) : Ends (executeBlock run s) (R s) := by
  have malformed (text : Str) : Ends (done s [.error text]) (R s) := ends_done (composes.quiet s _ (by simp [isError]))
  have nothing : Ends (done s []) (R s) := ends_done (composes.refl s)
  unfold executeBlock executeFor
  dsimp only
  split
  · split
    · split
      · exact runBlockFrom_keeps composes each _ s 0
      · exact nothing
    · split
      · split
        · exact malformed _
        · exact forIterations_keep composes each _ s _ _ _
      · split
        · exact whileIterations_keep composes each _ s
        · exact nothing
  · exact malformed _

end

end

end SantOS.Shell
