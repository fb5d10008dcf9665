import SantOS.Shell.Dispatch

namespace SantOS.Shell
open CStrings

def isExit (command : Str) : Bool := (commandArgs command).head? = some (bytes "exit")

def exits (line : Str) : Bool :=
  if hasPipe line then (segments 16 [] line).any (fun seg => isExit (trim seg)) else isExit line

section
variable {σ : Type} {k : Kernel σ} {rounds fuel : Nat} {s t : Session σ}

def Never (code : Int) (r : Result σ) : Prop := ∀ t outs, r ≠ some (code,t,outs)
def Stays (r : Result σ) : Prop := ∀ t outs, r ≠ some (-100,t,outs)

theorem never_none : Never code (none : Result σ) := fun _ _ same => by cases same

theorem never_some {code other : Int} (differs : other ≠ code) : Never code (some (other,s,outs)) := by
  intro t outs same
  cases same
  exact differs rfl

theorem never_done {code : Int} (nonzero : code ≠ 0) : Never code (done s outs) := never_some nonzero.symm

theorem never_ite {c : Prop} [Decidable c] {r r' : Result σ} (yes : Never code r) (no : Never code r') :
    Never code (if c then r else r') := by
  split
  · exact yes
  · exact no

theorem never_if {c : Prop} [Decidable c] {r r' : Result σ} (yes : c → Never code r) (no : Never code r') :
    Never code (if c then r else r') := by
  split
  · exact yes ‹_›
  · exact no

theorem printing_ended {r : Result σ} (ran : printing before r = some (code,t,outs)) : ∃ more, r = some (code,t,more) := by
  obtain ⟨⟨code,u,more⟩,same,shape⟩ := Option.map_eq_some_iff.mp ran
  cases shape
  exact ⟨more,same⟩

section
variable {code : Int} (nonzero : code ≠ 0) (noFailure : code ≠ -1)
include nonzero

theorem runLines_never {run : Session σ → Str → Result σ} (lines : List Str) (s : Session σ) :
    Never code (runLines run s lines) := by
  induction lines generalizing s with
  | nil => exact never_done nonzero
  | cons line lines ih =>
    rw [runLines]
    split
    · exact never_none
    · intro t outs ran
      obtain ⟨more,later⟩ := printing_ended ran
      exact ih _ _ _ later

include noFailure

theorem startProgram_never (filename : Str) (argv : List Str) : Never code (startProgram k s filename argv) := by
  unfold startProgram execProgram
  cases k.exec s.system (filename.take 255) argv with
  | none => exact never_none
  | some started =>
    obtain ⟨loaded,system⟩ := started
    cases loaded with
    | true => exact never_some nonzero.symm
    | false => exact never_some noFailure.symm

theorem runProgram_never (run : Session σ → Str → Result σ) (command : Str) : Never code (runProgram k run s command) := by
  unfold runProgram runScript
  dsimp only
  repeat' split
  all_goals first
    | exact never_none
    | exact never_some noFailure.symm
    | exact runLines_never nonzero _ _
    | exact startProgram_never nonzero noFailure _ _

theorem runCommand_never (command commandName : Str) (args : List Str) (noExit : commandName = bytes "exit" → code ≠ -100)
    (noRead : commandName = bytes "read" → code ≠ -200) : Never code (runCommand k rounds s command commandName args) := by
  have same {s : Session σ} {outs : List Out} : Never code (done s outs) := never_done nonzero
  have opened (kind : Nat) (usage : List Out) : Never code (openBlock kind usage s command args) := never_ite same same
  have moved : Never code (cd k s args) := by
    unfold cd
    dsimp only
    repeat' split
    all_goals first | exact never_none | exact same
  have touched : Never code (touch k s args) := by
    unfold touch
    split
    · exact never_ite same same
    · exact same
  have shown : Never code (cat k s args) := by
    unfold cat
    dsimp only
    repeat' split
    all_goals first | exact never_none | exact same
  have paged (here : commandName = bytes "read") : Never code (cmdRead k rounds s) := by
    unfold cmdRead
    repeat' split
    · exact same
    · exact never_none
    · exact never_some (noRead here).symm
  have other : Never code (otherCommand k s commandName (args.drop 1)) := by
    unfold otherCommand
    split
    · exact never_none
    · exact startProgram_never nonzero noFailure _ _
    · exact same
  unfold runCommand
  refine never_ite same (never_ite same (never_if (fun here => never_some (noExit here).symm) (never_ite moved (never_ite same ?_))))
  refine never_ite ?listed (never_ite (never_ite same same) (never_ite same (never_ite same ?_)))
  case listed =>
    split
    · exact never_none
    · exact same
  refine never_ite same (never_ite same (never_ite (opened _ _) (never_ite (opened _ _) (never_ite (opened _ _) ?_))))
  exact never_ite touched (never_ite shown (never_if paged (never_ite (never_ite same same) other)))

end

theorem runCommand_exits (args : List Str) (ran : runCommand k rounds s command commandName args = some (-100,t,outs)) :
    commandName = bytes "exit" := by
  by_contra noExit
  have stays : Stays (runCommand k rounds s command commandName args) :=
    runCommand_never (by decide) (by decide) command commandName args (fun here => absurd here noExit) (fun _ => by decide)
  exact stays _ _ ran

theorem processSingleCommand_value {run : Session σ → Str → Result σ} (nonzero : code ≠ 0) (noFailure : code ≠ -1)
    (ran : processSingleCommand k run rounds s command = some (code,t,outs)) :
    ∃ name args more, commandArgs command = name::args ∧ runCommand k rounds s command name (name::args) = some (code,t,more) := by
  obtain ⟨more,ran⟩ := printing_ended ran
  have quiet (t : Session σ) (outs : List Out) : Never code (done t outs) := never_done nonzero
  split at ran
  · exact absurd ran (runProgram_never nonzero noFailure run command _ _)
  · split at ran
    · split at ran
      · cases ran
      · exact absurd ran (quiet _ _ _ _)
    · split at ran
      · exact absurd ran (quiet _ _ _ _)
      · next name args same => exact ⟨name,args,more,same,ran⟩

theorem processSingleCommand_exits {run : Session σ → Str → Result σ}
    (ran : processSingleCommand k run rounds s command = some (-100,t,outs)) : isExit command = true := by
  obtain ⟨name,args,more,same,ran⟩ := processSingleCommand_value (by decide) (by decide) ran
  rw [isExit,same,runCommand_exits _ ran]
  rfl

theorem runSegments_exits {single : Session σ → Str → Result σ}
    (each : ∀ s command t outs, single s command = some (-100,t,outs) → isExit command = true)
    (findSegIndex : Option Nat) (segCount : Nat) (segs : List Str) (i : Nat) {result : Int} (other : result ≠ -100) (s : Session σ)
    (ran : runSegments single findSegIndex segCount i result s segs = some (-100,t,outs)) :
    segs.any (fun seg => isExit (trim seg)) = true := by
  induction segs generalizing i result s outs with
  | nil =>
    cases ran
    exact absurd rfl other
  | cons seg segs ih =>
    rw [List.any_cons,Bool.or_eq_true]
    unfold runSegments at ran
    dsimp only at ran
    split at ran
    · exact .inr (ih _ other _ ran)
    · split at ran
      · exact .inr (ih _ other _ ran)
      · split at ran
        · cases ran
        · rename_i code u more one
          split at ran
          · cases ran
            exact .inl (each _ _ _ _ one)
          · rename_i goesOn
            obtain ⟨_,later⟩ := printing_ended ran
            exact .inr (ih _ (fun same => goesOn (.inl same)) _ later)

-- Only a line that holds an exit command ends the shell.
theorem processCommand_exits (ran : processCommand k rounds fuel s line = some (-100,t,outs)) : exits line = true := by
  cases fuel with
  | zero => cases ran
  | succ fuel =>
    obtain ⟨more,ran⟩ := printing_ended ran
    unfold exits
    split at ran
    · rename_i pipe
      rw [if_pos pipe]
      unfold runPipeline at ran
      dsimp only at ran
      split at ran
      · cases ran
      · rename_i ended
        cases ran
        exact runSegments_exits (fun _ _ _ _ => processSingleCommand_exits) _ _ _ _ (by decide) _ ended
    · rename_i plain
      rw [if_neg plain]
      exact processSingleCommand_exits ran

end

end SantOS.Shell
