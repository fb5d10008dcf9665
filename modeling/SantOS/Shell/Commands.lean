import SantOS.Fat12.Driver
import SantOS.Shell.Variables

namespace SantOS.Shell
open CStrings Fat12

-- The system calls, on a system state that the shell does not look into. A call that may
-- not come back is none then; read_file fills a buffer and returns the number of bytes,
-- exec loads a program and runs it when it could be loaded.
structure Kernel (σ : Type) where
  readFile : σ → Str → (Nat → UInt8) → Nat → Option (Int × (Nat → UInt8) × σ)
  createFile : σ → Str → Int × σ
  findEntry : σ → Nat → Str → Option (Nat × Bool × σ)
  listDirCluster : σ → Nat → Option σ
  exec : σ → Str → List Str → Option (Bool × σ)
  getchar : σ → Option (UInt8 × σ)

def noDisk : Kernel Unit where
  readFile := fun _ _ buffer _ => some (-1,buffer,())
  createFile := fun _ _ => (-1,())
  findEntry := fun _ _ _ => some (0,false,())
  listDirCluster := fun _ _ => some ()
  exec := fun _ _ _ => some (false,())
  getchar := fun _ => none

def oneFile (name text : Str) : Kernel Unit :=
  {noDisk with
    readFile := fun _ filename buffer size =>
      if filename = name then
        some ((min size text.length : Nat),fun i => if i < min size text.length then text.getD i 0 else buffer i,())
      else some (-1,buffer,())}

def fat12Kernel (k : Kernel Driver) : Kernel Driver :=
  {k with
    readFile := syscallReadFile
    createFile := syscallCreateFile
    findEntry := fat12FindEntry}

-- The shell's variables. Of block_lines the first block_line_count lines are kept; a line
-- of 128 bytes or more runs over its buffer, which nothing below depends on.
structure Session (σ : Type) where
  vars : Variables
  currentDirectory : Str
  currentCluster : Nat
  streamBuffer : Nat → UInt8
  streamLength : Nat
  piping : Bool
  pipeRemaining : Nat
  findTerm : Str
  blockLines : List Str
  collectingBlock : Nat
  blockHeader : Str
  blockNesting : Nat
  system : σ

def shellStart (system : σ) : Session σ :=
  {vars := ⟨fun _ => [],fun _ => [],0⟩, currentDirectory := bytes "/", currentCluster := 0, streamBuffer := fun _ => 0,
    streamLength := 0, piping := false, pipeRemaining := 0, findTerm := [], blockLines := [], collectingBlock := 0,
    blockHeader := [], blockNesting := 0, system := system}

abbrev Result (σ : Type) := Option (Int × Session σ × List Out)

section
variable {σ : Type}

def done (s : Session σ) (outs : List Out) : Result σ := some (0,s,outs)

def stream (s : Session σ) : Str := (List.range s.streamLength).map s.streamBuffer

def helpText : Str := bytes "Available commands:
  add      - Add to numeric variable (add $VAR value)
  cat      - Print file contents (cat <file>)
  cd       - Change directory (cd ., cd .., cd <dir>)
  clear    - Clear the screen
  dir      - List directory contents (alias for ls)
  echo     - Echo text with variable expansion ($VAR)
  exit     - Exit the shell
  find     - Highlight text in stream (> find \"text\")
  help     - Show this help message
  listvars - List all defined variables
  ls       - List directory contents
  read     - Paginated text viewer (> read)
  sub      - Subtract from numeric variable (sub $VAR value)
  touch    - Create an empty file (touch <file>)
  unset    - Unset a variable (unset $VAR, unset allvars)

Piping: cmd1 > cmd2 > cmd3
  Example: cat FILE > read > find \"text\"
"

def beforeLastSlash (path : Str) : Str := ((path.reverse.dropWhile (· ≠ 0x2F)).drop 1).reverse

def cd (k : Kernel σ) (s : Session σ) (args : List Str) : Result σ :=
  match args with
  | _::target::_ =>
    if target = bytes "." then done s [.text (s.currentDirectory ++ bytes "\n")]
    else if target = bytes ".." then
      if s.currentDirectory = bytes "/" then done s [.error (bytes "Already at root directory\n")]
      else match k.findEntry s.system s.currentCluster (bytes "..") with
        | none => none
        | some (parentCluster,_,system) =>
          let s := {s with system := system}
          let s :=
            if 0x2F ∉ s.currentDirectory then s
            else
              let path := beforeLastSlash s.currentDirectory
              if path = [] then {s with currentDirectory := s.currentDirectory.take 1, currentCluster := 0}
              else {s with currentDirectory := path, currentCluster := parentCluster}
          done s [.text (s.currentDirectory ++ bytes "\n")]
    else match k.findEntry s.system s.currentCluster target with
      | none => none
      | some (newCluster,isDir,system) =>
        let s := {s with system := system}
        if newCluster = 0 then done s [.error (bytes "Directory not found: " ++ target ++ bytes "\n")]
        else if ¬ isDir then done s [.error (bytes "Not a directory: " ++ target ++ bytes "\n")]
        else
          let path := if s.currentDirectory = bytes "/" then bytes "/" ++ target
            else s.currentDirectory ++ bytes "/" ++ target
          done {s with currentDirectory := path, currentCluster := newCluster} [.text (path ++ bytes "\n")]
  | _ => done s [.error (bytes "Usage: cd <directory>\n")]

def streamBufSize : Nat := 32768

def fillStream (s : Session σ) (text : Str) : Session σ :=
  {s with
    streamBuffer := fun i => if i < text.length then text.getD i 0 else if i = text.length then 0 else s.streamBuffer i
    streamLength := text.length}

def echo (s : Session σ) (command : Str) : Result σ :=
  let outBuf := match substr command 6 0 with
    | none => []
    | some result => echoFrom (valueOf s.vars) [] none result
  if s.piping then done (fillStream s (outBuf.take (streamBufSize - 1))) []
  else done s [.text (outBuf ++ bytes "\n")]

def touch (k : Kernel σ) (s : Session σ) (args : List Str) : Result σ :=
  match args with
  | _::name::_ =>
    match k.createFile s.system name with
    | (result,system) =>
      let s := {s with system := system}
      if result ≠ 0 then done s [.error (bytes "Error: Failed to create file " ++ name ++ bytes "\n")] else done s []
  | _ => done s [.error (bytes "Usage: touch <filename>\n")]

def cat (k : Kernel σ) (s : Session σ) (args : List Str) : Result σ :=
  match args with
  | _::name::_ =>
    match k.readFile s.system name s.streamBuffer (streamBufSize - 1) with
    | none => none
    | some (result,buffer,system) =>
      let s := {s with streamBuffer := buffer, system := system}
      if result < 0 then done s [.error (bytes "Error: Failed to read file " ++ name ++ bytes "\n")]
      else
        let s := {s with streamBuffer := Function.update buffer result.toNat 0, streamLength := result.toNat}
        let text := (stream s).takeWhile (· ≠ 0)
        let newline := if (stream s).getLast? = some 10 ∨ result = 0 then [] else bytes "\n"
        if s.piping then done s [] else done s [.text (text ++ newline)]
  | _ => done s [.error (bytes "Usage: cat <filename>\n")]

def searchTerm (text : Str) : Str :=
  match trimLeft text with
  | [] => []
  | c::rest => if c = 0x22 then (rest.takeWhile (· ≠ 0x22)).take 255 else ((c::rest).takeWhile (· ≠ 0x20)).take 255

-- The stream from i on, the term marked; find and read print it.
def markedFrom (text term : Str) (i stop : Nat) : Nat → List Out
  | 0 => []
  | left+1 =>
    if i < stop then
      if term ≠ [] ∧ (text.drop i).take term.length = term then
        .marked ((text.take stop).drop i |>.take term.length)::markedFrom text term (i + term.length) stop left
      else .text ((text.drop i).take 1)::markedFrom text term (i+1) stop left
    else []

def cmdFind (s : Session σ) (term : Str) : Session σ × List Out :=
  if s.streamLength = 0 then (s,[.error (bytes "Error: No data in stream. Use cat <file> > find \"text\"\n")])
  else if term = [] then (s,[.error (bytes "Error: No search term provided\n")])
  else
    let term := term.take 255
    if s.piping ∧ s.pipeRemaining > 0 then ({s with findTerm := term},[])
    else
      let newline := if (stream s).getLast? = some 10 then [] else [.text (bytes "\n")]
      ({s with findTerm := []},markedFrom (stream s) term 0 s.streamLength s.streamLength ++ newline)

def findCommand (s : Session σ) (command : Str) (args : List Str) : Result σ :=
  if args.length < 2 then done s [.error (bytes "Usage: find \"text to find\"\n")]
  else match cmdFind s (searchTerm (command.drop 5)) with
    | (s,outs) => done s outs

def pageCols : Nat := 80
def pageRows : Nat := 22

-- Where the pages start, behind the first; at most 1024 pages.
def pageStartsFrom (i col row pages : Nat) : Str → List Nat
  | [] => []
  | c::rest =>
    if pages < 1024 then
      let (col,row) := if c = 10 then (0,row+1) else if col + 1 ≥ pageCols then (0,row+1) else (col+1,row)
      if row ≥ pageRows then (i+1)::pageStartsFrom (i+1) 0 0 (pages+1) rest
      else pageStartsFrom (i+1) col row pages rest
    else []

def pageStarts (text : Str) : List Nat := 0::pageStartsFrom 0 0 0 1 text

-- The pages until Q or ESC; a key is awaited at each, for at most the given number of rounds.
def showPages (k : Kernel σ) (text term : Str) (starts : List Nat) (page : Nat) (system : σ) : Nat → Option (σ × List Out)
  | 0 => none
  | left+1 =>
    let start := starts.getD page 0
    let stop := if page + 1 < starts.length then starts.getD (page+1) 0 else text.length
    match k.getchar system with
    | none => none
    | some (key,system) =>
      let shown := .clear::markedFrom text term start stop (stop - start)
      if key = 0x71 ∨ key = 0x51 ∨ key = 27 then some (system,shown)
      else
        let page := if key = 0x02 then (if page + 1 < starts.length then page + 1 else page)
          else if key = 0x01 then page - 1 else page
        match showPages k text term starts page system left with
        | none => none
        | some (system,outs) => some (system,shown ++ outs)

def cmdRead (k : Kernel σ) (rounds : Nat) (s : Session σ) : Result σ :=
  if s.streamLength = 0 then done s [.error (bytes "Error: No data in stream. Use cat <file> > read\n")]
  else match showPages k (stream s) s.findTerm (pageStarts (stream s)) 0 s.system rounds with
    | none => none
    | some (system,outs) => some (-200,{s with findTerm := [], streamLength := 0, system := system},outs ++ [.clear])

-- if and while take any three further words, for has "to" between its bounds.
def openBlock (kind : Nat) (usage : List Out) (s : Session σ) (command : Str) (args : List Str) : Result σ :=
  if args.length < 4 ∨ (kind = 2 ∧ args.getD 2 [] ≠ bytes "to") then done s usage
  else done {s with blockHeader := afterStrtok command, collectingBlock := kind, blockLines := [], blockNesting := 0} []

def operators : Out := .error (bytes "Operators: <, >, <=, >=, =, <>\n")

def ifCommand (s : Session σ) (command : Str) (args : List Str) : Result σ :=
  openBlock 1 [.error (bytes "Usage: if <val1> <op> <val2>\n"),operators] s command args
def forCommand (s : Session σ) (command : Str) (args : List Str) : Result σ :=
  openBlock 2 [.error (bytes "Usage: for <start> to <end>\n")] s command args
def whileCommand (s : Session σ) (command : Str) (args : List Str) : Result σ :=
  openBlock 3 [.error (bytes "Usage: while <val1> <op> <val2>\n"),operators] s command args

end

end SantOS.Shell
