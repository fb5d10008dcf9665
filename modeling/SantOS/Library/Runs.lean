namespace Runs

-- Labelled transition sequences of an arbitrary step relation. The induction
-- "preserved by a step, hence by a run" is done here once.
inductive Run {σ α : Type} (step : σ → α → σ → Prop) : σ → List α → σ → Prop where
  | nil : Run step s [] s
  | cons (first : step s a t) (rest : Run step t actions u) : Run step s (a::actions) u

variable {σ α : Type} {step : σ → α → σ → Prop} {s t u : σ} {a : α} {actions later : List α}

theorem Run.invariant {inv : σ → Prop} (path : Run step s actions t)
    (keeps : ∀ s a t, inv s → step s a t → inv t) (start : inv s) : inv t := by
  induction path with
  | nil => exact start
  | cons first _ ih => exact ih (keeps _ _ _ start first)

theorem Run.single (one : step s a t) : Run step s [a] t := .cons one .nil

theorem Run.of_single (path : Run step s [a] t) : step s a t := by
  cases path with
  | cons first rest =>
    cases rest
    exact first

theorem Run.append (left : Run step s actions t) (right : Run step t later u) :
    Run step s (actions ++ later) u := by
  induction left with
  | nil => exact right
  | cons first _ ih => exact .cons first (ih right)

-- Where every step of one system is matched by a step of the other with the same label,
-- whole runs are matched.
theorem Run.simulated {τ : Type} {spec : τ → α → τ → Prop} (path : Run step s actions t) (related : σ → τ → Prop)
    (matched : ∀ s x a t, related s x → step s a t → ∃ y, spec x a y ∧ related t y) {x : τ} (start : related s x) :
    ∃ y, Run spec x actions y ∧ related t y := by
  induction path generalizing x with
  | nil => exact ⟨x,.nil,start⟩
  | cons first _ ih =>
    obtain ⟨y,one,next⟩ := matched _ _ _ _ start first
    obtain ⟨z,later,last⟩ := ih next
    exact ⟨z,.cons one later,last⟩

-- Two deterministic systems are run side by side. Where a step keeps them related exactly under
-- a condition, they are related after every prefix exactly when the condition is met throughout.
theorem related_iff {S T E : Type} {step : S → E → S} {spec : T → E → T} {related : S → T → Prop}
    {safe : T → E → Prop} {s : S} {t : T}
    (exactly : ∀ s t e, related s t → (related (step s e) (spec t e) ↔ safe t e)) (start : related s t) (events : List E) :
    (∀ before after, events = before ++ after → related (before.foldl step s) (before.foldl spec t)) ↔
      ∀ before e after, events = before ++ e::after → safe (before.foldl spec t) e := by
  induction events generalizing s t with
  | nil =>
    constructor
    · intro _ before e after split
      simp at split
    · intro _ before after split
      obtain ⟨rfl,rfl⟩ := List.append_eq_nil_iff.mp split.symm
      exact start
  | cons e events ih =>
    constructor
    · intro tracked before d after split
      have next : related (step s e) (spec t e) := tracked [e] events rfl
      cases before with
      | nil =>
        cases split
        exact (exactly s t e start).mp next
      | cons b before =>
        cases split
        exact (ih next).mp (fun first rest same => tracked (e::first) rest (congrArg (e::·) same)) before d after rfl
    · intro safely before after split
      cases before with
      | nil => exact start
      | cons b before =>
        cases split
        have next := (exactly s t e start).mpr (safely [] e _ rfl)
        exact (ih next).mpr (fun first d rest same => safely (e::first) d rest (congrArg (e::·) same)) before after rfl

end Runs
