import SantOS.Library.CStrings
import SantOS.Library.FueledLoops

namespace SantOS.Sasm
open CStrings

abbrev rexW : UInt8 := 0x48
abbrev rexB : UInt8 := 0x41
abbrev opMovRmReg : UInt8 := 0x89
abbrev opPushReg : UInt8 := 0x50
abbrev opPopReg : UInt8 := 0x58
abbrev opRet : UInt8 := 0xC3
abbrev modDirect : UInt8 := 0x03

def makeModrm (mod reg rm : UInt8) : UInt8 := mod <<< 6 ||| (reg &&& 7) <<< 3 ||| rm &&& 7

def needsRex (reg : UInt8) : Bool := reg ≥ 8

-- In the order of their numbers, RAX = 0 to R15 = 15.
def registerNames : List Str :=
  ["rax","rcx","rdx","rbx","rsp","rbp","rsi","rdi","r8","r9","r10","r11","r12","r13","r14","r15"].map bytes

def parseRegister (name : Str) : Option UInt8 := (registerNames.idxOf? name).map UInt8.ofNat

inductive Message where
  | line (line : Str) (lineNum : Nat)
  | invalidRegister (lineNum : Nat) (token : Str)
  | invalidOperands (lineNum : Nat)
  | malformed (lineNum : Nat) (instr : Str)
deriving DecidableEq

def isBlank (c : UInt8) : Bool := c = 0x20 || c = 0x09
def isSeparator (c : UInt8) : Bool := isBlank c || c = 0x2C

def word (p : Str) : Str := p.takeWhile (fun c => !isSeparator c)
def afterWord (p : Str) : Str := (p.dropWhile (fun c => !isSeparator c)).tail

def operands : Nat → Str → List Str
  | 0,_ => []
  | left+1,p =>
    match p.dropWhile isSeparator with
    | [] => []
    | c::p => word (c::p)::operands left (afterWord (c::p))

-- The mnemonic and at most three operands. The mnemonic may be empty.
def tokens (line : Str) : List Str :=
  let p := line.dropWhile isBlank
  word p::operands 3 (afterWord p)

-- What a line comes to: bytes, a message behind which the next line follows, or the
-- `continue` on an invalid register.
inductive Encoded where
  | code (bytes : List UInt8)
  | error (message : Nat → Message)
  | invalid (token : Str)

def encodeStack (opcode : UInt8) (token : Str) : Encoded :=
  match parseRegister token with
  | none => .invalid token
  | some reg => .code ((if needsRex reg then [rexB] else []) ++ [opcode + (reg &&& 7)])

def encodeMov (first second : Str) : Encoded :=
  match parseRegister first,parseRegister second with
  | some dst,some src =>
    .code [(rexW ||| if needsRex src then 0x04 else 0) ||| if needsRex dst then 0x01 else 0,
      opMovRmReg,makeModrm modDirect src dst]
  | _,_ => .error .invalidOperands

def encode (tokens : List Str) : Encoded :=
  let instr := tokens.headD []
  if instr = bytes "ret" then .code [opRet]
  else if instr = bytes "push" ∧ tokens.length = 2 then encodeStack opPushReg (tokens.getD 1 [])
  else if instr = bytes "pop" ∧ tokens.length = 2 then encodeStack opPopReg (tokens.getD 1 [])
  else if instr = bytes "mov" ∧ tokens.length = 3 then encodeMov (tokens.getD 1 []) (tokens.getD 2 [])
  else .error (fun lineNum => .malformed lineNum instr)

-- line_start is the text from there on, up to the NUL behind the file's bytes.
structure State where
  lineStart : Str
  lineNum : Nat
  code : List UInt8
  printed : List Message

def isText (c : UInt8) : Bool := c ≠ 0 && c ≠ 0x0A && c ≠ 0x0D

def wholeLine (text : Str) : Str := text.takeWhile isText
def lineCopy (text : Str) : Str := (wholeLine text).take 255

def skipByte (c : UInt8) : Str → Str
  | [] => []
  | d::rest => if d = c then rest else d::rest

def nextLine (text : Str) : Str := skipByte 0x0A (skipByte 0x0D (text.dropWhile isText))

def isSkipped (line : Str) : Bool := line.isEmpty || line.headD 0 = 0x3B || line.headD 0 = 0x23

def State.print (s : State) (message : Message) : State := {s with printed := s.printed ++ [message]}
def State.advance (s : State) (bytes : List UInt8) : State :=
  {s with lineStart := nextLine s.lineStart, lineNum := s.lineNum + 1, code := s.code ++ bytes}

-- `while (*line_start)`. An empty line, a comment and an invalid register go back to the test
-- with line_start where it was.
def assembleFrom (s : State) : Nat → Option State
  | 0 => none
  | fuel+1 =>
    if s.lineStart.headD 0 = 0 then some s
    else
      let line := lineCopy s.lineStart
      let s := s.print (.line line s.lineNum)
      if isSkipped line then assembleFrom s fuel
      else
        match encode (tokens line) with
        | .code bytes => assembleFrom (s.advance bytes) fuel
        | .error message => assembleFrom ((s.print (message s.lineNum)).advance []) fuel
        | .invalid token => assembleFrom (s.print (.invalidRegister s.lineNum token)) fuel

def assemble (text : Str) (fuel : Nat) : Option State := assembleFrom ⟨text,1,[],[]⟩ fuel

example : (assemble (bytes "push r9\x0Amov rax, rbx\x0Aret") 4).map State.code = some [0x41,0x51,0x48,0x89,0xD8,0xC3] := by decide

end SantOS.Sasm
