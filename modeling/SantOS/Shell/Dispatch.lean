import SantOS.Shell.Commands

namespace SantOS.Shell
open CStrings

section
variable {σ : Type}

def printing (outs : List Out) (r : Result σ) : Result σ := r.map (fun (result,s,more) => (result,s,outs ++ more))

inductive ArgScan where
  | between
  | quoted (arg : Str)
  | word (arg : Str)

def argsFrom : ArgScan → Str → List Str
  | .between,[] => []
  | .quoted arg,[] => [arg]
  | .word arg,[] => [arg]
  | .between,c::rest =>
    if c = 0x20 then argsFrom .between rest
    else if c = 0x22 then argsFrom (.quoted []) rest else argsFrom (.word [c]) rest
  | .quoted arg,c::rest => if c = 0x22 then arg::argsFrom .between rest else argsFrom (.quoted (arg ++ [c])) rest
  | .word arg,c::rest => if c = 0x20 then arg::argsFrom .between rest else argsFrom (.word (arg ++ [c])) rest

def maxArgs : Nat := 16
def parseArgs (cmdStart : Str) : List Str := (argsFrom .between cmdStart).take maxArgs

def execProgram (k : Kernel σ) (s : Session σ) (filename : Str) (argv : List Str) : Result σ :=
  match k.exec s.system (filename.take 255) argv with
  | none => none
  | some (loaded,system) =>
    let s := {s with system := system}
    if loaded then some (0,s,[.text (bytes "\n" ++ filename ++ bytes " exited.\n")]) else some (-1,s,[])

def startProgram (k : Kernel σ) (s : Session σ) (filename : Str) (argv : List Str) : Result σ :=
  match execProgram k s filename argv with
  | none => none
  | some (result,s,outs) =>
    if result ≠ 0 then some (result,s,outs ++ [.error (bytes "Error: Failed to execute " ++ filename ++ bytes "\n")])
    else some (result,s,outs)

-- The lines behind the first one; empty lines are dropped.
def scriptLines (script : Str) : List Str :=
  pieces (fun c => c = 10 ∨ c = 13) [] ((script.dropWhile (· ≠ 10)).drop 1)

-- Each line in turn, whatever the one before returned.
def runLines (run : Session σ → Str → Result σ) (s : Session σ) : List Str → Result σ
  | [] => done s []
  | line::lines =>
    match run s line with
    | none => none
    | some (_,s,outs) => printing outs (runLines run s lines)

def bufferString (buffer : Nat → UInt8) (size : Nat) : Str := ((List.range size).map buffer).takeWhile (· ≠ 0)

def runScript (k : Kernel σ) (run : Session σ → Str → Result σ) (s : Session σ) (filename : Str) : Result σ :=
  match k.readFile s.system filename (fun _ => 0) 4095 with
  | none => none
  | some (scriptLen,scriptBuf,system) =>
    let s := {s with system := system}
    if scriptLen ≤ 0 then some (-1,s,[.error (bytes "Error: Failed to read script " ++ filename ++ bytes "\n")])
    else runLines run s (scriptLines (bufferString scriptBuf scriptLen.toNat))

-- A script starts with the seven bytes "##/sosh"; all else is given to exec_program.
def runProgram (k : Kernel σ) (run : Session σ → Str → Result σ) (s : Session σ) (command : Str) : Result σ :=
  match parseArgs (command.drop 2) with
  | [] => some (-1,s,[.error (bytes "Error: No program specified\n")])
  | filename::args =>
    match k.readFile s.system filename (fun _ => 0) 7 with
    | none => none
    | some (count,header,system) =>
      let s := {s with system := system}
      if count ≤ 0 then some (-1,s,[.error (bytes "Error: Failed to open " ++ filename ++ bytes "\n")])
      else if count ≥ 7 ∧ bufferString header 7 = bytes "##/sosh" then runScript k run s filename
      else startProgram k s filename (filename::args)

def toUpper (c : UInt8) : UInt8 := if 0x61 ≤ c ∧ c ≤ 0x7A then c - 32 else c

def existsOnDisk (k : Kernel σ) (s : Session σ) (name : Str) : Option (Bool × Session σ) :=
  match k.readFile s.system name (fun _ => 0) 4 with
  | none => none
  | some (count,_,system) => some (count > 0,{s with system := system})

-- The bare name first, then with ".ELF" behind it.
def programOnDisk (k : Kernel σ) (s : Session σ) (commandName : Str) : Option (Option Str × Session σ) :=
  let elfName := (commandName.take 248).map toUpper
  match existsOnDisk k s elfName with
  | none => none
  | some (true,s) => some (some elfName,s)
  | some (false,s) =>
    match existsOnDisk k s (elfName ++ bytes ".ELF") with
    | none => none
    | some (true,s) => some (some (elfName ++ bytes ".ELF"),s)
    | some (false,s) => some (none,s)

def unknownCommand (commandName : Str) : List Out :=
  [.error (bytes "Unknown command: " ++ commandName),
    .text (List.replicate (80 - (17 + commandName.length)) 0x20 ++ bytes "\n")]

def otherCommand (k : Kernel σ) (s : Session σ) (commandName : Str) (args : List Str) : Result σ :=
  match programOnDisk k s commandName with
  | none => none
  | some (some elfName,s) => startProgram k s elfName (elfName::args)
  | some (none,s) => done s (unknownCommand commandName)

def edited (s : Session σ) (r : Variables × List Out) : Result σ := done {s with vars := r.1} r.2

-- The command of the first token; the source compares the names in this order.
def runCommand (k : Kernel σ) (rounds : Nat) (s : Session σ) (command commandName : Str) (args : List Str) : Result σ :=
  if commandName = bytes "help" then done s [.text helpText]
  else if commandName = bytes "clear" then done s [.clear]
  else if commandName = bytes "exit" then some (-100,s,[.text (bytes "Exiting shell...\n")])
  else if commandName = bytes "cd" then cd k s args
  else if commandName = bytes "listvars" then done s (listvars s.vars)
  else if commandName = bytes "ls" ∨ commandName = bytes "dir" then
    match k.listDirCluster s.system s.currentCluster with
    | none => none
    | some system => done {s with system := system} []
  else if commandName = bytes "echo" then echo s command
  else if commandName = bytes "unset" then edited s (unset s.vars args)
  else if commandName.take 2 = bytes "##" then done s []
  else if commandName = bytes "add" then edited s (add s.vars args)
  else if commandName = bytes "sub" then edited s (sub s.vars args)
  else if commandName = bytes "if" then ifCommand s command args
  else if commandName = bytes "for" then forCommand s command args
  else if commandName = bytes "while" then whileCommand s command args
  else if commandName = bytes "touch" then touch k s args
  else if commandName = bytes "cat" then cat k s args
  else if commandName = bytes "read" then cmdRead k rounds s
  else if commandName = bytes "find" then findCommand s command args
  else otherCommand k s commandName (args.drop 1)

def commandArgs (command : Str) : List Str := (tokens command).take 32

-- run is process_command, which a script's lines go back to.
def processSingleCommand (k : Kernel σ) (run : Session σ → Str → Result σ) (rounds : Nat) (s : Session σ) (command : Str) :
    Result σ :=
  printing [.ran command] (
    if command.take 2 = bytes "./" then runProgram k run s command
    else if command.head? = some 0x24 then
      match assign s.vars (command.drop 1) with
      | none => none
      | some r => edited s r
    else match commandArgs command with
      | [] => done s []
      | commandName::args => runCommand k rounds s command commandName (commandName::args))

def hasPipe : Str → Bool
  | a::b::c::rest => (a = 0x20 && b = 0x3E && c = 0x20) || hasPipe (b::c::rest)
  | _ => false

-- The segments between the pipes, at most left of them; an empty last one is dropped.
def segments (left : Nat) (seg : Str) : Str → List Str
  | a::b::c::rest =>
    if left = 0 then []
    else if a = 0x20 ∧ b = 0x3E ∧ c = 0x20 then seg::segments (left-1) [] rest
    else segments left (seg ++ [a]) (b::c::rest)
  | rest => if seg ++ rest ≠ [] ∧ left > 0 then [seg ++ rest] else []

def findSegment (i : Nat) : List Str → Option (Nat × Str)
  | [] => none
  | seg::rest => if (trimLeft seg).take 5 = bytes "find " then some (i,(trimLeft seg).drop 5) else findSegment (i+1) rest

-- A find in front of the last segment was read before.
def runSegments (single : Session σ → Str → Result σ) (findSegIndex : Option Nat) (segCount i : Nat) (result : Int)
    (s : Session σ) : List Str → Result σ
  | [] => some (result,s,[])
  | seg::rest =>
    if trim seg = [] then runSegments single findSegIndex segCount (i+1) result s rest
    else
      let s := {s with pipeRemaining := segCount - i - 1}
      if findSegIndex = some i ∧ i ≠ segCount - 1 then runSegments single findSegIndex segCount (i+1) result s rest
      else match single s (trim seg) with
        | none => none
        | some (result,s,outs) =>
          if result = -100 ∨ result = -200 then some (result,s,outs)
          else printing outs (runSegments single findSegIndex segCount (i+1) result s rest)

def startPipeline (s : Session σ) (term : Str) : Session σ :=
  {s with streamLength := 0, streamBuffer := Function.update s.streamBuffer 0 0, findTerm := term, piping := true}

def runPipeline (single : Session σ → Str → Result σ) (s : Session σ) (command : Str) : Result σ :=
  let segs := segments 16 [] command
  let found := findSegment 0 segs
  let s := startPipeline s ((found.map (fun f => searchTerm f.2)).getD [])
  match runSegments single (found.map Prod.fst) segs.length 0 0 s segs with
  | none => none
  | some (result,s,outs) => some (result,{s with piping := false},outs)

-- fuel bounds how deep scripts start scripts, rounds the keys read at the pages of read.
def processCommand (k : Kernel σ) (rounds : Nat) : Nat → Session σ → Str → Result σ
  | 0 => fun _ _ => none
  | fuel+1 => fun s command =>
    printing [.given command] (
      if hasPipe command then runPipeline (processSingleCommand k (processCommand k rounds fuel) rounds) s command
      else processSingleCommand k (processCommand k rounds fuel) rounds s command)

end

end SantOS.Shell
