import SantOS.Shell.Exits
import SantOS.Shell.Writes

namespace SantOS.Shell
open Buffers CStrings

-- The name that process_single_command looks up; a program and an assignment have none.
def dispatched (command : Str) : Option Str :=
  if command.take 2 = bytes "./" ∨ command.head? = some 0x24 then none else (commandArgs command).head?

-- The search terms of a find segment, as the scan ahead and as find itself read it, and those
-- of all find segments of a line.
def givenBy (seg : Str) : List Str :=
  (if (trimLeft seg).take 5 = bytes "find " then [searchTerm ((trimLeft seg).drop 5)] else []) ++
    if dispatched (trim seg) = some (bytes "find") then [searchTerm ((trim seg).drop 5)] else []

def findTerms (command : Str) : List Str := (segments 16 [] command).flatMap givenBy

def scannedTerm (command : Str) : Str := ((findSegment 0 (segments 16 [] command)).map (fun f => searchTerm f.2)).getD []

def runsMore (findSegIndex : Option Nat) (segCount i : Nat) : List Str → Bool
  | [] => false
  | seg::rest =>
    (trim seg ≠ [] ∧ ¬(findSegIndex = some i ∧ i ≠ segCount - 1)) || runsMore findSegIndex segCount (i+1) rest

-- Where a command is run: the terms of the pipeline around it, whether it is one of the
-- segments, and whether it is the last command that the pipeline runs.
structure Place where
  terms : List Str
  segment : Bool
  last : Bool

inductive TermStep (σ : Type) where
  | single (p : Place) (s : Session σ) (command : Str)
  | pipeline (command : Str)

section
variable {σ : Type} (s : Session σ) (command : Str)

def Shows : Prop := dispatched command = some (bytes "read") ∧ s.streamLength ≠ 0

def Searches : Prop :=
  dispatched command = some (bytes "find") ∧ 2 ≤ (commandArgs command).length ∧ s.streamLength ≠ 0 ∧ searchTerm (command.drop 5) ≠ []

-- More segments follow in the pipeline, to which find leaves its term.
def PassesOn : Prop := s.piping = true ∧ s.pipeRemaining > 0

def UsedUp : Prop := Shows s command ∨ (Searches s command ∧ ¬PassesOn s) ∨ (s.findTerm = [] ∧ ¬Searches s command)

instance : Decidable (Shows s command) := inferInstanceAs (Decidable (_ ∧ _))
instance : Decidable (Searches s command) := inferInstanceAs (Decidable (_ ∧ _ ∧ _ ∧ _))
instance : Decidable (PassesOn s) := inferInstanceAs (Decidable (_ ∧ _))
instance : Decidable (UsedUp s command) := inferInstanceAs (Decidable (_ ∨ _ ∨ _))

end

section
variable {σ : Type}

def Owned : TermStep σ → Prop
  | .single p s command => Shows s command → s.findTerm = [] ∨ s.findTerm ∈ p.terms
  | .pipeline _ => True

-- A find that is no segment leaves no term of its own to the segments that follow, and the
-- last command of a pipeline uses the term up.
def Tidy : TermStep σ → Prop
  | .single p s command =>
    (p.segment = false → Searches s command → PassesOn s → searchTerm (command.drop 5) ∈ p.terms) ∧ (p.last = true → UsedUp s command)
  | .pipeline command =>
    runsMore ((findSegment 0 (segments 16 [] command)).map Prod.fst) (segments 16 [] command).length 0 (segments 16 [] command) = false →
      scannedTerm command = []

instance : ∀ e : TermStep σ, Decidable (Owned e)
  | .single _ _ _ => inferInstanceAs (Decidable (_ → _))
  | .pipeline _ => inferInstanceAs (Decidable True)

instance : ∀ e : TermStep σ, Decidable (Tidy e)
  | .single _ _ _ => inferInstanceAs (Decidable ((_ → _ → _ → _) ∧ (_ → _)))
  | .pipeline _ => inferInstanceAs (Decidable (_ → _))

variable (k : Kernel σ) (rounds : Nat)

def scriptOf (s : Session σ) (command : Str) : Option (Session σ × List Str) :=
  if command.take 2 ≠ bytes "./" then none
  else match parseArgs (command.drop 2) with
    | [] => none
    | filename::_ =>
      match k.readFile s.system filename (fun _ => 0) 7 with
      | none => none
      | some (count,header,system) =>
        if count ≤ 0 ∨ ¬(count ≥ 7 ∧ bufferString header 7 = bytes "##/sosh") then none
        else match k.readFile system filename (fun _ => 0) 4095 with
          | none => none
          | some (scriptLen,scriptBuf,system) =>
            if scriptLen ≤ 0 then none
            else some ({s with system := system},scriptLines (bufferString scriptBuf scriptLen.toNat))

section
variable (run : Session σ → Str → Result σ) (steps : Place → Session σ → Str → List (TermStep σ))

def lineTermSteps (p : Place) (s : Session σ) : List Str → List (TermStep σ)
  | [] => []
  | line::lines =>
    steps ⟨p.terms,false,p.last && lines.isEmpty⟩ s line ++ after (run s line) fun ended => lineTermSteps p ended.2.1 lines

-- The last line of a script is the last command in its place.
def singleTermSteps (p : Place) (s : Session σ) (command : Str) : List (TermStep σ) :=
  match scriptOf k s command with
  | none => [.single p s command]
  | some (_,[]) => [.single p s command]
  | some (t,line::lines) => .single {p with last := false} s command::lineTermSteps run steps p t (line::lines)

-- exit is the last command of its pipeline; at the prompt there is nothing behind it at all.
def segmentTermSteps (prompt : Bool) (terms : List Str) (findSegIndex : Option Nat) (segCount i : Nat) (s : Session σ) :
    List Str → List (TermStep σ)
  | [] => []
  | seg::rest =>
    if trim seg = [] then segmentTermSteps prompt terms findSegIndex segCount (i+1) s rest
    else
      let s := {s with pipeRemaining := segCount - i - 1}
      if findSegIndex = some i ∧ i ≠ segCount - 1 then segmentTermSteps prompt terms findSegIndex segCount (i+1) s rest
      else
        let last := !runsMore findSegIndex segCount (i+1) rest || (!prompt && isExit (trim seg))
        steps ⟨terms,true,last⟩ s (trim seg) ++ after (run s (trim seg)) fun ended =>
          if ended.1 = -100 ∨ ended.1 = -200 then []
          else segmentTermSteps prompt terms findSegIndex segCount (i+1) ended.2.1 rest

def pipelineTermSteps (prompt : Bool) (s : Session σ) (command : Str) : List (TermStep σ) :=
  let segs := segments 16 [] command
  .pipeline command::segmentTermSteps run steps prompt (findTerms command) ((findSegment 0 segs).map Prod.fst) segs.length 0
    (startPipeline s (scannedTerm command)) segs

end

def commandTermSteps : Nat → Bool → Place → Session σ → Str → List (TermStep σ)
  | 0 => fun _ _ _ _ => []
  | fuel+1 => fun prompt p s command =>
    let single := singleTermSteps k (processCommand k rounds fuel) (commandTermSteps fuel false)
    if hasPipe command then
      pipelineTermSteps (processSingleCommand k (processCommand k rounds fuel) rounds) single prompt s command
    else single p s command

def givenLine (s : Session σ) (line : Str) : List (Event σ) := [.single s line]

-- While a block runs, collecting_block is still set.
def eventTermSteps (fuel : Nat) : Event σ → List (TermStep σ)
  | .single s line => commandTermSteps k rounds fuel (s.collectingBlock = 0) ⟨[],false,false⟩ s line
  | _ => []

def termSteps (fuel : Nat) (s : Session σ) (inputs : List Str) : List (TermStep σ) :=
  (typedEvents (processCommand k rounds fuel) givenLine s inputs).flatMap (eventTermSteps k rounds fuel)

end

end SantOS.Shell
