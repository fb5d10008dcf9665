import SantOS.Library.ParallelArrays
import SantOS.Shell.Text

namespace SantOS.Shell
open ArrayShifts CStrings ParallelArrays

structure Variables where
  names : Nat → Str
  values : Nat → Str
  variableCount : Nat

def findVariable (v : Variables) (name : Str) : Option Nat := find v.names name 0 v.variableCount

def valueOf (v : Variables) (name : Str) : Option Str := (findVariable v name).map v.values

-- The readers see the variables through their values only.
def resolveValue (value : Str → Option Str) (token : Str) : Str :=
  match token with
  | [] => []
  | c::name => if c = 0x24 then (value name).getD [] else c::name

def compareValues (val1 op val2 : Str) : Bool :=
  let (n1,n2) := if isNumeric val1 && isNumeric val2 then (strToInt val1,strToInt val2) else (strcmp val1 val2,0)
  if op = bytes "<" then n1 < n2
  else if op = bytes ">" then n1 > n2
  else if op = bytes "<=" then n1 ≤ n2
  else if op = bytes ">=" then n1 ≥ n2
  else if op = bytes "=" then n1 = n2
  else if op = bytes "<>" then n1 ≠ n2
  else false

def evaluateCondition (value : Str → Option Str) (val1Raw op val2Raw : Str) : Bool :=
  compareValues (resolveValue value val1Raw) op (resolveValue value val2Raw)

-- Where the scan of a value stands: in plain text, between quotes, or in the name behind
-- a dollar sign.
inductive Scan where
  | plain
  | quoted
  | name (name : Str)

-- The value of an assignment; var_name holds at most 63 bytes, and a dollar sign without a
-- name is dropped.
def appendValue (value : Str → Option Str) (varval name : Str) : Str := varval ++ (value (name.take 63)).getD []

def expandPlain (varval : Str) (c : UInt8) : Str × Scan :=
  if c = 0x22 then (varval,.quoted) else if c = 0x24 then (varval,.name []) else (varval ++ [c],.plain)

def expandValue (value : Str → Option Str) (varval : Str) (scan : Scan) : Str → Str
  | [] => match scan with
    | .name (c::name) => appendValue value varval (c::name)
    | _ => varval
  | c::rest => match scan with
    | .plain => let next := expandPlain varval c
      expandValue value next.1 next.2 rest
    | .quoted => if c = 0x22 then expandValue value varval .plain rest else expandValue value (varval ++ [c]) .quoted rest
    | .name name =>
      if isNameChar c then expandValue value varval (.name (name ++ [c])) rest
      else
        let next := expandPlain (if name = [] then varval else appendValue value varval name) c
        expandValue value next.1 next.2 rest

-- The text echo prints; a value that does not fit out_buf is left out.
def outLimit : Nat := 4095

def echoChar (out : Str) (c : UInt8) : Str := if out.length < outLimit then out ++ [c] else out

def echoName (value : Str → Option Str) (out name : Str) : Str :=
  if name = [] then echoChar out 0x24
  else match value name with
    | some text => if out.length + text.length < outLimit then out ++ text else out
    | none => out

def echoFrom (value : Str → Option Str) (out : Str) (name : Option Str) : Str → Str
  | [] => match name with
    | some name => echoName value out name
    | none => out
  | c::rest => match name with
    | some read =>
      if isNameChar c then echoFrom value out (some (read ++ [c])) rest
      else
        let out := echoName value out read
        if c = 0x24 then echoFrom value out (some []) rest else echoFrom value (echoChar out c) none rest
    | none => if c = 0x24 then echoFrom value out (some []) rest else echoFrom value (echoChar out c) none rest

def invalidAssignment : Out := .error (bytes "Error: Invalid variable assignment syntax\n")

def hasAppend : Str → Bool
  | [] => false
  | c::rest => (c = 0x2B && rest.head? = some 0x3D) || hasAppend rest

def assignmentName (envVar : Str) : Str :=
  let varname := envVar.takeWhile (· ≠ 0x3D)
  if hasAppend envVar ∧ varname.getLast? = some 0x2B then varname.dropLast else varname

-- An assignment, without its leading dollar sign. Without a string behind it substr gives
-- NULL, which the code goes on to read.
def assign (v : Variables) (envVar : Str) : Option (Variables × List Out) :=
  if envVar = [] then none
  else if 0x3D ∉ envVar then some (v,[invalidAssignment])
  else
    let varname := assignmentName envVar
    if varname = [] then some (v,[invalidAssignment])
    else
      let varval := expandValue (valueOf v) [] .plain ((envVar.dropWhile (· ≠ 0x3D)).drop 1)
      match findVariable v varname with
      | none =>
        if v.variableCount ≥ 32 then some (v,[.error (bytes "Error: Maximum number of variables reached\n")])
        else some (⟨Function.update v.names v.variableCount varname,Function.update v.values v.variableCount varval,
          v.variableCount + 1⟩,[])
      | some i =>
        let newValue := if hasAppend envVar then v.values i ++ varval else varval
        some ({v with values := Function.update v.values i newValue},[])

def unsetName (arg : Str) : Str := if arg.head? = some 0x24 then arg.drop 1 else arg

def closeGap (m : Nat → Str) (i count : Nat) : Nat → Str := lower (fun _ b => b) m i (count-1-i)

def unset (v : Variables) (args : List Str) : Variables × List Out :=
  match args with
  | _::arg::_ =>
    if arg = bytes "allvars" then ({v with variableCount := 0},[.text (bytes "All variables cleared\n")])
    else
      let varName := unsetName arg
      match findVariable v varName with
      | some i => (⟨closeGap v.names i v.variableCount,closeGap v.values i v.variableCount,v.variableCount - 1⟩,
          [.text (bytes "Variable " ++ varName ++ bytes " cleared\n")])
      | none => (v,[.error (bytes "Variable " ++ varName ++ bytes " not found\n")])
  | _ => (v,[.error (bytes "Usage: unset <varname|allvars>\n")])

def changeBy (usage : Str) (op : Int → Int → Int) (v : Variables) (args : List Str) : Variables × List Out :=
  match args with
  | _::varToken::valToken::_ =>
    if varToken.head? ≠ some 0x24 then (v,[.error (bytes "Error: First argument must be a variable ($VAR)\n")])
    else
      let varName := varToken.drop 1
      match findVariable v varName with
      | none => (v,[.error (bytes "Error: Variable " ++ varName ++ bytes " not found\n")])
      | some idx =>
        if ¬ isNumeric (v.values idx) then
          (v,[.error (bytes "Error: Variable " ++ varName ++ bytes " is not numeric (" ++ v.values idx ++ bytes ")\n")])
        else
          let operand := resolveValue (valueOf v) valToken
          if ¬ isNumeric operand then (v,[.error (bytes "Error: Value is not numeric (" ++ operand ++ bytes ")\n")])
          else
            let result := int32 (op (strToInt (v.values idx)) (strToInt operand))
            ({v with values := Function.update v.values idx (intToStr result)},[])
  | _ => (v,[.error usage])

def add : Variables → List Str → Variables × List Out := changeBy (bytes "Usage: add $VAR value\n") (· + ·)
def sub : Variables → List Str → Variables × List Out := changeBy (bytes "Usage: sub $VAR value\n") (· - ·)

def listvars (v : Variables) : List Out :=
  if v.variableCount = 0 then [.text (bytes "No variables defined\n")]
  else
    let maxLen := ((List.range v.variableCount).map (fun i => (v.names i).length)).foldl max 0
    (List.range v.variableCount).map (fun i =>
      .text (v.names i ++ List.replicate (maxLen - (v.names i).length) 0x20 ++ bytes " = " ++ v.values i ++ bytes "\n"))

end SantOS.Shell
