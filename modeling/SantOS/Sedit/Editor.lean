import SantOS.Fat12.Driver
import SantOS.Library.ArrayShifts
import SantOS.Library.CStrings

namespace SantOS.Sedit
open ArrayShifts ByteMemory CStrings Fat12

def maxLines : Nat := 1000
def maxLineLen : Nat := 256
def screenCols : Nat := 80
def screenRows : Nat := 24

def keyLeft : Int := 0x01
def keyRight : Int := 0x02
def keyUp : Int := 0x03
def keyDown : Int := 0x04

-- The rows of the two-dimensional array; a string in a row ends within MAX_LINE_LEN bytes.
abbrev Row := Nat → UInt8
abbrev Rows := Nat → Row

def strlen (row : Row) : Nat := strlenFrom row 0 maxLineLen
def strcpy (dest src : Row) : Row := strcpyFrom dest src 0 0 maxLineLen
def strcat (dest src : Row) : Row := strcpyFrom dest src (strlen dest) 0 maxLineLen

structure Editor where
  lines : Rows
  lineCount : Nat
  cursorRow : Nat
  cursorCol : Nat
  scrollRow : Nat
  scrollCol : Nat
  modified : Bool
  filename : Str

-- The differences are taken where they are not negative.
def ensureCursorVisible (e : Editor) : Editor :=
  let e := if e.cursorRow < e.scrollRow then {e with scrollRow := e.cursorRow} else e
  let e := if e.cursorRow ≥ e.scrollRow + screenRows - 1 then {e with scrollRow := e.cursorRow + 2 - screenRows} else e
  let e := if e.cursorCol < e.scrollCol then {e with scrollCol := e.cursorCol} else e
  if e.cursorCol ≥ e.scrollCol + screenCols - 1 then {e with scrollCol := e.cursorCol + 2 - screenCols} else e

def clampCursorCol (e : Editor) : Editor :=
  let len := strlen (e.lines e.cursorRow)
  if e.cursorCol > len then {e with cursorCol := len} else e

def pressUp (e : Editor) : Editor :=
  if e.cursorRow > 0 then ensureCursorVisible (clampCursorCol {e with cursorRow := e.cursorRow - 1}) else e

def pressDown (e : Editor) : Editor :=
  if e.cursorRow < e.lineCount - 1 then
    ensureCursorVisible (clampCursorCol {e with cursorRow := e.cursorRow + 1})
  else e

def pressLeft (e : Editor) : Editor :=
  if e.cursorCol > 0 then ensureCursorVisible {e with cursorCol := e.cursorCol - 1}
  else if e.cursorRow > 0 then
    ensureCursorVisible {e with cursorRow := e.cursorRow - 1, cursorCol := strlen (e.lines (e.cursorRow - 1))}
  else e

def pressRight (e : Editor) : Editor :=
  let len := strlen (e.lines e.cursorRow)
  if e.cursorCol < len then ensureCursorVisible {e with cursorCol := e.cursorCol + 1}
  else if e.cursorRow < e.lineCount - 1 then
    ensureCursorVisible {e with cursorRow := e.cursorRow + 1, cursorCol := 0}
  else e

def shiftLinesDown (lines : Rows) (i left : Nat) : Rows := raise strcpy lines i left

def shiftLinesUp (lines : Rows) (i left : Nat) : Rows := lower strcpy lines i left

def enter (e : Editor) : Editor :=
  if e.lineCount < maxLines then
    let lines := shiftLinesDown e.lines e.lineCount (e.lineCount - (e.cursorRow + 1))
    let lines := Function.update lines (e.cursorRow + 1)
      (strcpy (lines (e.cursorRow + 1)) (fun i => lines e.cursorRow (e.cursorCol + i)))
    let lines := Function.update lines e.cursorRow (Function.update (lines e.cursorRow) e.cursorCol 0)
    ensureCursorVisible {e with
      lines := lines, lineCount := e.lineCount + 1, cursorRow := e.cursorRow + 1, cursorCol := 0, modified := true}
  else e

def shiftLeft (row : Row) (i left : Nat) : Row := lower (fun _ b => b) row i left

def shiftRight (row : Row) (i left : Nat) : Row := raise (fun _ b => b) row i left

def backspace (e : Editor) : Editor :=
  if e.cursorCol > 0 then
    let row := e.lines e.cursorRow
    let row := shiftLeft row (e.cursorCol - 1) (strlen row - (e.cursorCol - 1))
    ensureCursorVisible {e with
      lines := Function.update e.lines e.cursorRow row, cursorCol := e.cursorCol - 1, modified := true}
  else if e.cursorRow > 0 then
    let prevLen := strlen (e.lines (e.cursorRow - 1))
    let curLen := strlen (e.lines e.cursorRow)
    if prevLen + curLen < maxLineLen then
      let lines := Function.update e.lines (e.cursorRow - 1)
        (strcat (e.lines (e.cursorRow - 1)) (e.lines e.cursorRow))
      let lines := shiftLinesUp lines e.cursorRow (e.lineCount - 1 - e.cursorRow)
      let lines := Function.update lines (e.lineCount - 1) (Function.update (lines (e.lineCount - 1)) 0 0)
      ensureCursorVisible {e with
        lines := lines, lineCount := e.lineCount - 1, cursorRow := e.cursorRow - 1, cursorCol := prevLen,
        modified := true}
    else e
  else e

def insertChar (e : Editor) (c : UInt8) : Editor :=
  let row := e.lines e.cursorRow
  let len := strlen row
  if len < maxLineLen - 1 then
    let row := shiftRight row (len + 1) (len + 1 - e.cursorCol)
    ensureCursorVisible {e with
      lines := Function.update e.lines e.cursorRow (Function.update row e.cursorCol c),
      cursorCol := e.cursorCol + 1, modified := true}
  else e

-- char buf[32768] of save_file, filled up to sizeof(buf) - 2.
def saveLimit : Nat := 32768 - 2

def saveLine (row : Row) (j : Nat) (buf : Str) : Nat → Str
  | 0 => buf
  | left+1 => if buf.length < saveLimit then saveLine row (j+1) (buf ++ [row j]) left else buf

def saveLines (lines : Rows) (i : Nat) (buf : Str) : Nat → Str
  | 0 => buf
  | left+1 =>
    if buf.length < saveLimit then
      saveLines lines (i+1) (saveLine (lines i) 0 buf (strlen (lines i)) ++ [10]) left
    else buf

def flatten (e : Editor) : Str := saveLines e.lines 0 [] e.lineCount

def saveFile (e : Editor) (disk : Driver) : Option (Int × Editor × Driver) :=
  if e.filename = [] then some (-1,e,disk)
  else
    let buf := flatten e
    match syscallWriteFile disk e.filename (fun i => buf.getD i 0) buf.length with
    | none => none
    | some (result,disk) =>
      if result > 0 then some (0,{e with modified := false},disk) else some (-1,e,disk)

-- A store behind the array has no meaning.
def store (lines : Rows) (r c : Nat) (v : UInt8) : Option Rows :=
  if r < maxLines ∧ c < maxLineLen then some (Function.update lines r (Function.update (lines r) c v)) else none

def parseFrom (lines : Rows) (lineCount col : Nat) : Str → Option (Rows × Nat × Nat)
  | [] => some (lines,lineCount,col)
  | b::rest =>
    if lineCount < maxLines then
      if b = 10 then
        match store lines lineCount col 0 with
        | none => none
        | some lines => parseFrom lines (lineCount+1) 0 rest
      else if b = 13 then parseFrom lines lineCount col rest
      else if col < maxLineLen - 1 then
        match store lines lineCount col b with
        | none => none
        | some lines => parseFrom lines lineCount (col+1) rest
      else parseFrom lines lineCount col rest
    else some (lines,lineCount,col)

def parseLines (lines : Rows) (buf : Str) : Option (Rows × Nat) :=
  match parseFrom lines 0 0 buf with
  | none => none
  | some (lines,lineCount,col) =>
    let last := if col > 0 ∨ buf.getLast? = some 10 then
        (store lines lineCount col 0).map (fun lines => (lines,lineCount+1))
      else some (lines,lineCount)
    match last with
    | none => none
    | some (lines,lineCount) =>
      if lineCount = 0 then (store lines 0 0 0).map (fun lines => (lines,1)) else some (lines,lineCount)

def loadFile (e : Editor) (fname : Str) (disk : Driver) : Option (Int × Editor × Driver) :=
  match syscallReadFile disk fname (fun _ => 0) (32768 - 1) with
  | none => none
  | some (result,buf,disk) =>
    if result < 0 then some (-1,e,disk)
    else match parseLines e.lines ((List.range result.toNat).map buf) with
      | none => none
      | some (lines,lineCount) => some (0,{e with lines := lines, lineCount := lineCount},disk)

-- What the key loop does with c; none for a key it ignores.
def edit (e : Editor) (c : Int) : Option Editor :=
  if c = keyUp then some (pressUp e)
  else if c = keyDown then some (pressDown e)
  else if c = keyLeft then some (pressLeft e)
  else if c = keyRight then some (pressRight e)
  else if c = 10 ∨ c = 13 then some (enter e)
  else if c = 8 ∨ c = 127 then some (backspace e)
  else if 32 ≤ c ∧ c ≤ 126 then some (insertChar e (UInt8.ofInt c))
  else none

structure Session where
  editor : Editor
  disk : Driver
  statusMsg : Str
  cursorPos : UInt8 × UInt8
  running : Bool

def cursorPlace (e : Editor) : UInt8 × UInt8 :=
  (UInt8.ofInt ((e.cursorCol : Int) - e.scrollCol),UInt8.ofInt ((e.cursorRow : Int) - e.scrollRow))

-- Of the screen only the place of the cursor is kept.
def redrawScreen (s : Session) : Session := {s with cursorPos := cursorPlace s.editor}

def press (s : Session) (c : Int) : Option Session :=
  let s := {s with statusMsg := []}
  if c = 17 then some {s with running := false}
  else if c = 19 then
    if s.editor.filename = [] then some (redrawScreen {s with statusMsg := bytes "No filename! Use: sedit <file>"})
    else match saveFile s.editor s.disk with
      | none => none
      | some (result,e,disk) =>
        let msg := if result = 0 then bytes "Saved!" else bytes "Save FAILED!"
        some (redrawScreen {s with editor := e, disk := disk, statusMsg := msg})
  else match edit s.editor c with
    | some e => some (redrawScreen {s with editor := e})
    | none => some s

-- The main loop on the keys getchar returns; after Ctrl+Q none is read any more.
def keyLoop (s : Session) : List Int → Option Session
  | [] => some s
  | c::keys => if s.running then (press s c).bind (keyLoop · keys) else some s

def emptyEditor : Editor := ⟨fun _ _ => 0,1,0,0,0,0,false,[]⟩

def main (arg : Option Str) (disk : Driver) : Option Session :=
  match arg with
  | none => some (redrawScreen ⟨emptyEditor,disk,[],(0,0),true⟩)
  | some arg =>
    let e := {emptyEditor with filename := arg.take 63}
    match loadFile e e.filename disk with
    | none => none
    | some (result,loaded,disk) =>
      let e := if result ≠ 0 then e else loaded
      some (redrawScreen ⟨e,disk,[],(0,0),true⟩)

end SantOS.Sedit
