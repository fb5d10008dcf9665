import SantOS.Shell.Dispatch

namespace SantOS.Shell
open CStrings

section
variable {σ : Type}

def isComment (line : Str) : Bool := (trimLeft line).take 2 = bytes "##"

-- The lines from the i-th on; a command can open a block anew, and none is left then.
def runBlockFrom (run : Session σ → Str → Result σ) (s : Session σ) (i : Nat) : Nat → Result σ
  | 0 => done s []
  | left+1 =>
    match s.blockLines[i]? with
    | none => done s []
    | some line =>
      if isComment line then runBlockFrom run s (i+1) left
      else match run s line with
        | none => none
        | some (_,s,outs) => printing outs (runBlockFrom run s (i+1) left)

def runBlock (run : Session σ → Str → Result σ) (s : Session σ) : Result σ := runBlockFrom run s 0 s.blockLines.length

def moreIterations (down : Bool) (iter endVal : Int) : Bool := if down then iter ≥ endVal else iter ≤ endVal

-- iter counts up to end_val or down to it, and wraps as an int does.
def forIterations (run : Session σ → Str → Result σ) (s : Session σ) (down : Bool) (iter endVal : Int) : Nat → Result σ
  | 0 => none
  | fuel+1 =>
    if moreIterations down iter endVal then
      match runBlock run s with
      | none => none
      | some (_,s,outs) =>
        printing outs (forIterations run s down (int32 (if down then iter - 1 else iter + 1)) endVal fuel)
    else done s []

def headerArgs (s : Session σ) : List Str := (tokens s.blockHeader).take 8

def maxIterations : Nat := 10000

-- The header is parsed again in each round.
def whileIterations (run : Session σ → Str → Result σ) (s : Session σ) : Nat → Result σ
  | 0 => done s [.error (bytes "Error: while loop exceeded maximum iterations (10000)\n")]
  | left+1 =>
    match headerArgs s with
    | _::val1::op::val2::_ =>
      if evaluateCondition (valueOf s.vars) val1 op val2 then
        match runBlock run s with
        | none => none
        | some (_,s,outs) => printing outs (whileIterations run s left)
      else done s []
    | _ => done s []

def executeFor (run : Session σ → Str → Result σ) (s : Session σ) (startToken endToken : Str) : Result σ :=
  let startStr := resolveValue (valueOf s.vars) startToken
  let endStr := resolveValue (valueOf s.vars) endToken
  if ¬ isNumeric startStr ∨ ¬ isNumeric endStr then
    done s [.error (bytes "Error: for loop requires numeric start and end values\n")]
  else forIterations run s (strToInt startStr > strToInt endStr) (strToInt startStr) (strToInt endStr) (2^32+1)

def executeBlock (run : Session σ → Str → Result σ) (s : Session σ) : Result σ :=
  match headerArgs s with
  | blockType::val1::op::val2::_ =>
    if blockType = bytes "if" then (if evaluateCondition (valueOf s.vars) val1 op val2 then runBlock run s else done s [])
    else if blockType = bytes "for" then executeFor run s val1 val2
    else if blockType = bytes "while" then whileIterations run s maxIterations
    else done s []
  | _ => done s [.error (bytes "Error: Malformed block header\n")]

def maxBlockLines : Nat := 8

def startsWith (keyword trimmed : Str) : Bool :=
  trimmed = keyword || trimmed.take (keyword.length + 1) = keyword ++ bytes " "

def blockStart (trimmed : Str) : Bool :=
  startsWith (bytes "if") trimmed || startsWith (bytes "for") trimmed || startsWith (bytes "while") trimmed

def endKeyword (kind : Nat) (trimmed : Str) : Bool :=
  (kind = 1 && trimmed = bytes "endif") || (kind = 2 && trimmed = bytes "endfor") || (kind = 3 && trimmed = bytes "endwhile")

def raisedNesting (s : Session σ) (trimmed : Str) : Nat := if blockStart trimmed then s.blockNesting + 1 else s.blockNesting

def isEnd (s : Session σ) (input : Str) : Bool :=
  !isComment input && endKeyword s.collectingBlock (trimLeft input) && raisedNesting s (trimLeft input) = 0

def nextNesting (s : Session σ) (trimmed : Str) : Nat :=
  if endKeyword s.collectingBlock trimmed then raisedNesting s trimmed - 1 else raisedNesting s trimmed

def closeBlock (s : Session σ) : Session σ := {s with collectingBlock := 0, blockLines := [], blockNesting := 0}

def blockTooLarge : Out := .error (bytes "Error: Block too large (max 8 lines)\n")

def collectLine (run : Session σ → Str → Result σ) (s : Session σ) (input : Str) : Result σ :=
  if isComment input then done s []
  else if isEnd s input then
    match executeBlock run {s with blockNesting := raisedNesting s (trimLeft input)} with
    | none => none
    | some (_,s,outs) => done (closeBlock s) outs
  else if s.blockLines.length < maxBlockLines then
    done {s with blockLines := s.blockLines ++ [input], blockNesting := nextNesting s (trimLeft input)} []
  else done (closeBlock s) [blockTooLarge]

-- A line typed at the prompt; shell_main returns when process_command gives -100.
def typeLine (run : Session σ → Str → Result σ) (s : Session σ) (input : Str) : Result σ :=
  if input = [] then done s []
  else if s.collectingBlock ≠ 0 then collectLine run s input
  else run s input

def typeLines (run : Session σ → Str → Result σ) (s : Session σ) : List Str → Result σ
  | [] => done s []
  | input::inputs =>
    match typeLine run s input with
    | none => none
    | some (errorCode,s,outs) =>
      if errorCode = -100 then some (-100,s,outs) else printing outs (typeLines run s inputs)

end

end SantOS.Shell
