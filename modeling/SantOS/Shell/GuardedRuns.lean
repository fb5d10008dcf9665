import SantOS.Shell.Writes

namespace SantOS.Shell
open Buffers CStrings

section
variable {σ ε : Type} {safe fits : ε → Prop} {s t : Session σ} {r : Result σ} {events : List ε}

theorem guarded_printing {P : Int → Session σ → Prop} (outs : List Out)
    (guarded : Guarded safe fits (fun ended => P ended.1 ended.2.1) r events) :
    Guarded safe fits (fun ended => P ended.1 ended.2.1) (printing outs r) events := by
  refine guarded.imp ?_
  intro ended same
  cases ran : r with
  | none =>
    rw [ran] at same
    cases same
  | some first =>
    rw [ran] at same
    cases same
    exact ⟨first,rfl,id⟩

theorem guarded_then {P Q : Session σ → Prop} {next : Session σ → Result σ} {more : Session σ → List ε} :
    Guarded safe fits (fun ended => P ended.2.1) r events →
    (∀ t, P t → Guarded safe fits (fun ended : Int × Session σ × List Out => Q ended.2.1) (next t) (more t)) →
    Guarded safe fits (fun ended => Q ended.2.1) (match r with
      | none => none
      | some (_,t,outs) => printing outs (next t)) (events ++ after r fun ended => more ended.2.1) := by
  intro first second
  have both := first.bind (fun x _ holds => guarded_printing (P := fun _ t => Q t) x.2.2 (second x.2.1 holds))
  cases r with
  | none => exact both
  | some ended => exact both

theorem guarded_until {S : Int → Prop} [DecidablePred S] {P Q : Int → Session σ → Prop} {next : Int → Session σ → Result σ}
    {more : Session σ → List ε} :
    Guarded safe fits (fun ended => P ended.1 ended.2.1) r events →
    (∀ code t outs, r = some (code,t,outs) → S code → P code t → Q code t) →
    (∀ code t, ¬S code → P code t →
      Guarded safe fits (fun ended : Int × Session σ × List Out => Q ended.1 ended.2.1) (next code t) (more t)) →
    Guarded safe fits (fun ended : Int × Session σ × List Out => Q ended.1 ended.2.1) (match r with
      | none => none
      | some (code,t,outs) => if S code then some (code,t,outs) else printing outs (next code t))
      (events ++ after r fun ended => if S ended.1 then [] else more ended.2.1) := by
  intro first stopped second
  have both : Guarded safe fits (fun ended => Q ended.1 ended.2.1)
      (r.bind fun x => if S x.1 then some x else printing x.2.2 (next x.1 x.2.1))
      (events ++ after r fun x => if S x.1 then [] else more x.2.1) := by
    refine first.bind (fun x ran holds => ?_)
    split
    · next stops => exact guarded_some (stopped _ _ _ ran stops holds)
    · next goesOn => exact guarded_printing _ (second _ _ goesOn holds)
  cases r with
  | none => exact both
  | some ended => exact both

end

-- The loops around a command, over the events of a run: what holds of the state before and
-- behind each command holds before and behind the loop.
section
variable {σ : Type} {safe fits : Event σ → Prop} {Inv : Session σ → Prop} {s t : Session σ} {r : Result σ} {events : List (Event σ)}

abbrev Keeps (safe fits : Event σ → Prop) (Inv : Session σ → Prop) (r : Result σ) (events : List (Event σ)) : Prop :=
  Guarded safe fits (fun ended => Inv ended.2.1) r events

theorem keeps_done (holds : Inv s) (outs : List Out) : Keeps safe fits Inv (done s outs) [] := guarded_some holds

variable {run : Session σ → Str → Result σ} {each : Session σ → Str → List (Event σ)}

section
variable (lineKeeps : ∀ s, Inv s → ∀ line, Keeps safe fits Inv (run s line) (each s line))
include lineKeeps

theorem lines_keep (lines : List Str) (holds : Inv s) : Keeps safe fits Inv (runLines run s lines)
    (lineEvents run each s lines) := by
  induction lines generalizing s with
  | nil => exact keeps_done holds []
  | cons line lines ih => exact guarded_then (lineKeeps s holds line) (fun t holds => ih holds)

theorem block_from_keeps (left i : Nat) (holds : Inv s) :
    Keeps safe fits Inv (runBlockFrom run s i left) (blockEventsFrom run each s i left) := by
  induction left generalizing s i with
  | zero => exact keeps_done holds []
  | succ left ih =>
    unfold runBlockFrom blockEventsFrom
    cases s.blockLines[i]? with
    | none => exact keeps_done holds []
    | some line =>
      dsimp only
      split
      · exact ih (i+1) holds
      · exact guarded_then (lineKeeps s holds line) (fun t holds => ih (i+1) holds)

theorem for_keeps (fuel : Nat) (down : Bool) (iter endVal : Int) (holds : Inv s) :
    Keeps safe fits Inv (forIterations run s down iter endVal fuel) (forEvents run each s down iter endVal fuel) := by
  induction fuel generalizing s iter with
  | zero => exact guarded_none
  | succ fuel ih =>
    unfold forIterations forEvents
    split
    · exact guarded_then (block_from_keeps lineKeeps _ 0 holds) (fun t holds => ih _ holds)
    · exact keeps_done holds []

variable (header : ∀ s, Inv s → (safe (.header s) ↔ fits (.header s)))
include header

theorem while_keeps (left : Nat) (holds : Inv s) : Keeps safe fits Inv (whileIterations run s left)
    (whileEvents run each s left) := by
  induction left generalizing s with
  | zero => exact keeps_done holds _
  | succ left ih =>
    unfold whileIterations whileEvents
    refine guarded_cons (header s holds) (fun _ => ?_)
    rcases headerArgs s with _ | ⟨_,_ | ⟨val1,_ | ⟨op,_ | ⟨val2,_⟩⟩⟩⟩
    iterate 4 exact keeps_done holds []
    dsimp only
    split
    · exact guarded_then (block_from_keeps lineKeeps _ 0 holds) (fun t holds => ih holds)
    · exact keeps_done holds []

theorem execute_keeps (holds : Inv s) : Keeps safe fits Inv (executeBlock run s) (executeEvents run each s) := by
  refine guarded_cons (header s holds) (fun _ => ?_)
  unfold executeBlock executeFor executeForEvents
  rcases headerArgs s with _ | ⟨blockType,_ | ⟨val1,_ | ⟨op,_ | ⟨val2,_⟩⟩⟩⟩
  iterate 4 exact keeps_done holds _
  dsimp only
  split
  · split
    · exact block_from_keeps lineKeeps _ 0 holds
    · exact keeps_done holds []
  · split
    · split
      · exact keeps_done holds _
      · exact for_keeps lineKeeps _ _ _ _ holds
    · split
      · exact while_keeps lineKeeps header _ holds
      · exact keeps_done holds []

end

-- What holds at the prompt, and what the lines of a block need and leave.
structure Prompt (safe fits : Event σ → Prop) (AtPrompt InBlock : Session σ → Prop) (run : Session σ → Str → Result σ)
    (each : Session σ → Str → List (Event σ)) : Prop where
  collected : ∀ s input, safe (.collected s input) ↔ fits (.collected s input)
  header : ∀ s, InBlock s → (safe (.header s) ↔ fits (.header s))
  stored : ∀ s lines n, AtPrompt s → AtPrompt {s with blockLines := lines, blockNesting := n}
  closed : ∀ s, AtPrompt s → AtPrompt (closeBlock s)
  opened : ∀ s n, AtPrompt s → s.collectingBlock ≠ 0 → InBlock {s with blockNesting := n}
  ended : ∀ s, InBlock s → AtPrompt (closeBlock s)
  blockLine : ∀ s, InBlock s → ∀ line, Keeps safe fits InBlock (run s line) (each s line)
  typedLine : ∀ s, AtPrompt s → s.collectingBlock = 0 → ∀ line,
    Guarded safe fits (fun ended => ended.1 ≠ -100 → AtPrompt ended.2.1) (run s line) (each s line)

variable {AtPrompt InBlock : Session σ → Prop}

theorem Prompt.typeLine (prompt : Prompt safe fits AtPrompt InBlock run each) (input : Str) (holds : AtPrompt s) :
    Guarded safe fits (fun ended => ended.1 ≠ -100 → AtPrompt ended.2.1) (typeLine run s input) (typeEvents run each s input) := by
  have kept {t : Session σ} (holds : AtPrompt t) (outs : List Out) :
      Guarded safe fits (fun ended : Int × Session σ × List Out => ended.1 ≠ -100 → AtPrompt ended.2.1) (done t outs) [] :=
    guarded_some fun _ => holds
  unfold Shell.typeLine typeEvents
  split
  · exact kept holds []
  · split
    · next collecting =>
      refine guarded_cons (prompt.collected s input) (fun _ => ?_)
      unfold collectLine
      split
      · exact kept holds []
      · split
        · have executed := execute_keeps prompt.blockLine prompt.header (prompt.opened s (raisedNesting s (trimLeft input)) holds collecting)
          refine executed.imp ?_
          intro closed same
          cases ran : executeBlock run {s with blockNesting := raisedNesting s (trimLeft input)} with
          | none =>
            rw [ran] at same
            cases same
          | some ended =>
            rw [ran] at same
            cases same
            exact ⟨ended,rfl,fun holds _ => prompt.ended _ holds⟩
        · split
          · exact kept (prompt.stored _ _ _ holds) []
          · exact kept (prompt.closed _ holds) _
    · next waiting => exact prompt.typedLine s holds (not_not.mp waiting) input

theorem Prompt.typeLines (prompt : Prompt safe fits AtPrompt InBlock run each) (inputs : List Str) (holds : AtPrompt s) :
    Guarded safe fits (fun ended => ended.1 ≠ -100 → AtPrompt ended.2.1) (typeLines run s inputs) (typedEvents run each s inputs) := by
  induction inputs generalizing s with
  | nil => exact guarded_some fun _ => holds
  | cons input inputs ih =>
    have both : Guarded safe fits (fun ended : Int × Session σ × List Out => ended.1 ≠ -100 → AtPrompt ended.2.1)
        ((Shell.typeLine run s input).bind fun x => if x.1 = -100 then some (-100,x.2) else printing x.2.2 (Shell.typeLines run x.2.1 inputs))
        (typeEvents run each s input ++
          after (Shell.typeLine run s input) fun x => if x.1 = -100 then [] else typedEvents run each x.2.1 inputs) := by
      refine (prompt.typeLine input holds).bind (fun x _ holds => ?_)
      split
      · exact guarded_some fun other => absurd rfl other
      · next goesOn => exact guarded_printing (P := fun code t => code ≠ -100 → AtPrompt t) _ (ih (holds goesOn))
    unfold Shell.typeLines typedEvents
    cases ran : Shell.typeLine run s input with
    | none =>
      rw [ran] at both
      exact both
    | some ended =>
      rw [ran] at both
      exact both

end

end SantOS.Shell
