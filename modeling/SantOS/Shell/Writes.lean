import SantOS.Library.Buffers
import SantOS.Shell.Expanders
import SantOS.Shell.IndentedLines
import SantOS.Shell.LineInput

namespace SantOS.Shell
open Buffers CStrings Templates

-- The buffers of a fixed size that the shell copies strings into.
inductive Buffer where
  | blockLine (i : Nat)
  | blockHeader
  | headerCopy
  | varval
  | varName
  | currentDirectory
  | argBuf
  | findTerm
  | searchTerm
  | outBuf

def bufferSize : Buffer → Nat
  | .blockLine i => if i < maxBlockLines then maxLineLen else 0
  | .blockHeader => maxLineLen
  | .headerCopy => maxLineLen
  | .varval => 1024
  | .varName => 64
  | .currentDirectory => 256
  | .argBuf => maxInput
  | .findTerm => 256
  | .searchTerm => 256
  | .outBuf => 4096

def valueParts : Scan → Str → List (Chunk UInt8)
  | .name name,[] => [.name name]
  | .plain,[] => []
  | .quoted,[] => []
  | .plain,c::rest =>
    if c = 0x22 then valueParts .quoted rest
    else if c = 0x24 then valueParts (.name []) rest else .char c::valueParts .plain rest
  | .quoted,c::rest => if c = 0x22 then valueParts .plain rest else .char c::valueParts .quoted rest
  | .name name,c::rest =>
    if isNameChar c then valueParts (.name (name ++ [c])) rest
    else if c = 0x22 then .name name::valueParts .quoted rest
    else if c = 0x24 then .name name::valueParts (.name []) rest else .name name::.char c::valueParts .plain rest

def rawValue (envVar : Str) : Str := (envVar.dropWhile (· ≠ 0x3D)).drop 1

def nameWrite : Chunk UInt8 → List (Write Buffer)
  | .char _ => []
  | .name name => if name = [] then [] else [stringAt .varName (name.take 63)]

def assignWrites (v : Variables) (envVar : Str) : List (Write Buffer) :=
  if 0x3D ∉ envVar ∨ assignmentName envVar = [] then []
  else
    stringAt .varval (expandValue (valueOf v) [] .plain (rawValue envVar))::
      (valueParts .plain (rawValue envVar)).flatMap nameWrite

instance (args : List Str) : Decidable (opensBlock args) := inferInstanceAs (Decidable (_ ∧ _ ∧ _))

section
variable {σ : Type} (k : Kernel σ) (rounds : Nat)

def isDirectory (s : Session σ) (target : Str) : Bool :=
  match k.findEntry s.system s.currentCluster target with
  | none => false
  | some (newCluster,isDir,_) => newCluster ≠ 0 && isDir

def cdWrites (s : Session σ) (args : List Str) : List (Write Buffer) :=
  match args with
  | _::target::_ =>
    if target = bytes "." then []
    else if target = bytes ".." then
      if s.currentDirectory = bytes "/" ∨ 0x2F ∉ s.currentDirectory then []
      else match k.findEntry s.system s.currentCluster (bytes "..") with
        | none => []
        | some _ =>
          let path := beforeLastSlash s.currentDirectory
          if path = [] then [⟨.currentDirectory,1,1⟩] else [⟨.currentDirectory,path.length,1⟩]
    else if isDirectory k s target then
      if s.currentDirectory = bytes "/" then
        [stringAt .currentDirectory (bytes "/"),stringBehind .currentDirectory (bytes "/") target]
      else
        [stringBehind .currentDirectory s.currentDirectory (bytes "/"),
          stringBehind .currentDirectory (s.currentDirectory ++ bytes "/") target]
    else []
  | _ => []

def echoWrites (s : Session σ) (command : Str) : List (Write Buffer) :=
  match substr command 6 0 with
  | none => [stringAt .outBuf ([] : Str)]
  | some result => [stringAt .outBuf (echoFrom (valueOf s.vars) [] none result)]

-- cmd_find puts the term in find_term, and ends it again where no further segment follows.
def findWrites (s : Session σ) (command : Str) (args : List Str) : List (Write Buffer) :=
  if args.length < 2 then []
  else
    let term := searchTerm (command.drop 5)
    stringAt .searchTerm term::(
      if s.streamLength = 0 ∨ term = [] then []
      else stringAt .findTerm (term.take 255)::(
        if s.piping ∧ s.pipeRemaining > 0 then [] else [stringAt .findTerm ([] : Str)]))

def commandWrites (s : Session σ) (command commandName : Str) (args : List Str) : List (Write Buffer) :=
  if commandName = bytes "cd" then cdWrites k s args
  else if commandName = bytes "echo" then echoWrites s command
  else if opensBlock args then [stringAt .blockHeader (afterStrtok command)]
  else if commandName = bytes "read" then (if s.streamLength = 0 then [] else [stringAt .findTerm ([] : Str)])
  else if commandName = bytes "find" then findWrites s command args
  else []

-- What process_single_command stores itself; the lines of a script come behind.
def singleWrites (s : Session σ) (command : Str) : List (Write Buffer) :=
  if command.take 2 = bytes "./" then [⟨.argBuf,0,((parseArgs (command.drop 2)).map fun arg => arg.length + 1).sum⟩]
  else if command.head? = some 0x24 then assignWrites s.vars (command.drop 1)
  else match commandArgs command with
    | [] => []
    | commandName::args => commandWrites k s command commandName (commandName::args)

def pipelineWrites (command : Str) : List (Write Buffer) :=
  stringAt .findTerm ([] : Str)::(
    match findSegment 0 (segments 16 [] command) with
    | none => []
    | some (_,text) => [stringAt .findTerm (searchTerm text)])

def collectedWrites (s : Session σ) (input : Str) : List (Write Buffer) :=
  if isComment input ∨ isEnd s input ∨ ¬ s.blockLines.length < maxBlockLines then []
  else [stringAt (.blockLine s.blockLines.length) input]

-- Where a run stores: a single command, a pipeline before its segments, a line that is
-- collected, a header that is copied; each with the state it meets.
inductive Event (σ : Type) where
  | single (s : Session σ) (command : Str)
  | pipeline (s : Session σ) (command : Str)
  | collected (s : Session σ) (input : Str)
  | header (s : Session σ)

def writes : Event σ → List (Write Buffer)
  | .single s command => singleWrites k s command
  | .pipeline _ command => pipelineWrites command
  | .collected s input => collectedWrites s input
  | .header s => [stringAt .headerCopy s.blockHeader]

-- The events of each loop, as the loop itself runs.
section
variable (run : Session σ → Str → Result σ) (events : Session σ → Str → List (Event σ))

def lineEvents (s : Session σ) : List Str → List (Event σ)
  | [] => []
  | line::lines => events s line ++ after (run s line) fun ended => lineEvents ended.2.1 lines

def scriptEvents (s : Session σ) (filename : Str) : List (Event σ) :=
  match k.readFile s.system filename (fun _ => 0) 4095 with
  | none => []
  | some (scriptLen,scriptBuf,system) =>
    if scriptLen ≤ 0 then []
    else lineEvents run events {s with system := system} (scriptLines (bufferString scriptBuf scriptLen.toNat))

def programEvents (s : Session σ) (command : Str) : List (Event σ) :=
  match parseArgs (command.drop 2) with
  | [] => []
  | filename::_ =>
    match k.readFile s.system filename (fun _ => 0) 7 with
    | none => []
    | some (count,header,system) =>
      if count ≤ 0 then []
      else if count ≥ 7 ∧ bufferString header 7 = bytes "##/sosh" then scriptEvents k run events {s with system := system} filename
      else []

def singleEvents (s : Session σ) (command : Str) : List (Event σ) :=
  .single s command::(if command.take 2 = bytes "./" then programEvents k run events s command else [])

def segmentEvents (findSegIndex : Option Nat) (segCount i : Nat) (s : Session σ) : List Str → List (Event σ)
  | [] => []
  | seg::rest =>
    if trim seg = [] then segmentEvents findSegIndex segCount (i+1) s rest
    else
      let s := {s with pipeRemaining := segCount - i - 1}
      if findSegIndex = some i ∧ i ≠ segCount - 1 then segmentEvents findSegIndex segCount (i+1) s rest
      else events s (trim seg) ++ after (run s (trim seg)) fun ended =>
        if ended.1 = -100 ∨ ended.1 = -200 then [] else segmentEvents findSegIndex segCount (i+1) ended.2.1 rest

def pipelineEvents (s : Session σ) (command : Str) : List (Event σ) :=
  let segs := segments 16 [] command
  let found := findSegment 0 segs
  let s' := startPipeline s ((found.map (fun f => searchTerm f.2)).getD [])
  .pipeline s command::segmentEvents run events (found.map Prod.fst) segs.length 0 s' segs

def blockEventsFrom (s : Session σ) (i : Nat) : Nat → List (Event σ)
  | 0 => []
  | left+1 =>
    match s.blockLines[i]? with
    | none => []
    | some line =>
      if isComment line then blockEventsFrom s (i+1) left
      else events s line ++ after (run s line) fun ended => blockEventsFrom ended.2.1 (i+1) left

def blockEvents (s : Session σ) : List (Event σ) := blockEventsFrom run events s 0 s.blockLines.length

def forEvents (s : Session σ) (down : Bool) (iter endVal : Int) : Nat → List (Event σ)
  | 0 => []
  | fuel+1 =>
    if moreIterations down iter endVal then
      blockEvents run events s ++ after (runBlock run s) fun ended =>
        forEvents ended.2.1 down (int32 (if down then iter - 1 else iter + 1)) endVal fuel
    else []

def whileEvents (s : Session σ) : Nat → List (Event σ)
  | 0 => []
  | left+1 =>
    .header s::(
      match headerArgs s with
      | _::val1::op::val2::_ =>
        if evaluateCondition (valueOf s.vars) val1 op val2 then
          blockEvents run events s ++ after (runBlock run s) fun ended => whileEvents ended.2.1 left
        else []
      | _ => [])

def executeForEvents (s : Session σ) (startToken endToken : Str) : List (Event σ) :=
  let startStr := resolveValue (valueOf s.vars) startToken
  let endStr := resolveValue (valueOf s.vars) endToken
  if ¬ isNumeric startStr ∨ ¬ isNumeric endStr then []
  else forEvents run events s (strToInt startStr > strToInt endStr) (strToInt startStr) (strToInt endStr) (2^32+1)

def executeEvents (s : Session σ) : List (Event σ) :=
  .header s::(
    match headerArgs s with
    | blockType::val1::op::val2::_ =>
      if blockType = bytes "if" then (if evaluateCondition (valueOf s.vars) val1 op val2 then blockEvents run events s else [])
      else if blockType = bytes "for" then executeForEvents run events s val1 val2
      else if blockType = bytes "while" then whileEvents run events s maxIterations
      else []
    | _ => [])

def collectEvents (s : Session σ) (input : Str) : List (Event σ) :=
  .collected s input::(
    if isComment input then []
    else if isEnd s input then executeEvents run events {s with blockNesting := raisedNesting s (trimLeft input)}
    else [])

def typeEvents (s : Session σ) (input : Str) : List (Event σ) :=
  if input = [] then []
  else if s.collectingBlock ≠ 0 then collectEvents run events s input
  else events s input

def typedEvents (s : Session σ) : List Str → List (Event σ)
  | [] => []
  | input::inputs => typeEvents run events s input ++ after (typeLine run s input) fun ended =>
    if ended.1 = -100 then [] else typedEvents ended.2.1 inputs

end

def commandEvents : Nat → Session σ → Str → List (Event σ)
  | 0 => fun _ _ => []
  | fuel+1 => fun s command =>
    if hasPipe command then
      pipelineEvents (processSingleCommand k (processCommand k rounds fuel) rounds)
        (singleEvents k (processCommand k rounds fuel) (commandEvents fuel)) s command
    else singleEvents k (processCommand k rounds fuel) (commandEvents fuel) s command

end

end SantOS.Shell
