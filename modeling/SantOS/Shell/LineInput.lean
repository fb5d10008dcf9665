import SantOS.Shell.Blocks

namespace SantOS.Shell
open ArrayShifts CStrings

def maxInput : Nat := 256
def historySize : Nat := 10

def keyLeft : UInt8 := 0x01
def keyRight : UInt8 := 0x02
def keyUp : UInt8 := 0x03
def keyDown : UInt8 := 0x04
def cursorLeft : UInt8 := 0x1D

structure History where
  history : Nat → Nat → UInt8
  historyCount : Nat
  historyWrite : Nat

-- The line being typed; out is what was put on the screen for it.
structure Line where
  input : Nat → UInt8
  len : Nat
  cursor : Nat
  histNav : Int
  out : Str

-- The line as a prompt begins; the bytes of the last one are still in the array.
def newLine (input : Nat → UInt8) : Line := ⟨Function.update input 0 0,0,0,-1,[]⟩

def noHistory : History := ⟨fun _ _ => 0,0,0⟩

def keyBackspace (s : Line) : Line :=
  if s.cursor > 0 then
    let input := lower (fun _ b => b) s.input (s.cursor - 1) (s.len - 1 - (s.cursor - 1))
    let input := Function.update input (s.len - 1) 0
    {s with
      input := input, len := s.len - 1, cursor := s.cursor - 1,
      out := s.out ++ [0x08] ++ (List.range' (s.cursor - 1) (s.len - 1 - (s.cursor - 1))).map input ++ bytes " " ++
        List.replicate (s.len - 1 - (s.cursor - 1) + 1) cursorLeft}
  else s

def pressLeft (s : Line) : Line := if s.cursor > 0 then {s with cursor := s.cursor - 1, out := s.out ++ [cursorLeft]} else s

def pressRight (s : Line) : Line := if s.cursor < s.len then {s with cursor := s.cursor + 1, out := s.out ++ [s.input s.cursor]} else s

def eraseInput (s : Line) : Str :=
  List.replicate s.cursor cursorLeft ++ List.replicate s.len 0x20 ++ List.replicate s.len cursorLeft

def loadEntry (h : History) (s : Line) : Line :=
  let idx := (Int.tmod (h.historyWrite - 1 - s.histNav + historySize) historySize).toNat
  let input := strcpyFrom s.input (h.history idx) 0 0 maxInput
  let len := strlenFrom input 0 maxInput
  {s with input := input, len := len, cursor := len, out := s.out ++ eraseInput s ++ (List.range len).map input}

def pressUp (h : History) (s : Line) : Line :=
  if h.historyCount > 0 then
    if s.histNav = -1 then loadEntry h {s with histNav := 0}
    else if s.histNav < h.historyCount - 1 then loadEntry h {s with histNav := s.histNav + 1}
    else s
  else s

def pressDown (h : History) (s : Line) : Line :=
  if s.histNav ≥ 0 then
    if s.histNav - 1 < 0 then
      {s with input := Function.update s.input 0 0, len := 0, cursor := 0, histNav := s.histNav - 1, out := s.out ++ eraseInput s}
    else loadEntry h {s with histNav := s.histNav - 1}
  else s

def insertKey (s : Line) (c : UInt8) : Line :=
  if s.len < maxInput - 1 then
    let input := Function.update (raise (fun _ b => b) s.input s.len (s.len - s.cursor)) s.cursor c
    let input := Function.update input (s.len + 1) 0
    {s with
      input := input, len := s.len + 1, cursor := s.cursor + 1,
      out := s.out ++ (List.range' s.cursor (s.len + 1 - s.cursor)).map input ++ List.replicate (s.len - s.cursor) cursorLeft}
  else s

-- A key other than Enter; those that are neither printable nor known are ignored.
def pressKey (h : History) (s : Line) (c : UInt8) : Line :=
  if c = 0x08 ∨ c = 0x7F then keyBackspace s
  else if c = keyLeft then pressLeft s
  else if c = keyRight then pressRight s
  else if c = keyUp then pressUp h s
  else if c = keyDown then pressDown h s
  else if 0x20 ≤ c ∧ c ≤ 0x7E then insertKey s c
  else s

-- Enter ends the line with a NUL and puts it in the history unless it is empty.
def enterLine (s : Line) : Nat → UInt8 := Function.update s.input s.len 0

def addHistory (h : History) (s : Line) : History :=
  if s.len > 0 then
    ⟨Function.update h.history h.historyWrite (strcpyFrom (h.history h.historyWrite) (enterLine s) 0 0 maxInput),
      if h.historyCount < historySize then h.historyCount + 1 else h.historyCount,(h.historyWrite + 1) % historySize⟩
  else h

-- What a run over keys leaves: the lines that were entered and those the loop left without
-- an Enter, the history, and the line being typed.
structure Typed where
  entered : List Str
  dropped : List Str
  history : History
  line : Line

-- The two loops of shell_main over the keys typed at its prompts: the inner one ends behind
-- an Enter, or when the line has no room for a further byte.
def typeKeys (h : History) (s : Line) : List UInt8 → Typed
  | [] => ⟨[],[],h,s⟩
  | c::keys =>
    if c = 0x0A then
      let rest := typeKeys (addHistory h s) (newLine (enterLine s)) keys
      {rest with entered := bufferString (enterLine s) maxInput::rest.entered}
    else
      let s := pressKey h s c
      if s.len < maxInput - 1 then typeKeys h s keys
      else
        let rest := typeKeys h (newLine s.input) keys
        {rest with dropped := bufferString s.input maxInput::rest.dropped}

def shellMain (run : Session σ → Str → Result σ) (s : Session σ) (keys : List UInt8) : Result σ :=
  typeLines run s (typeKeys noHistory (newLine (fun _ => 0)) keys).entered

end SantOS.Shell
