import SantOS.Library.CStrings
import SantOS.Library.RingBuffers

namespace SantOS.Keyboard
open CStrings

def bufferSize : Nat := 256

-- US QWERTY scan code set 1; 0 stands for a key without a character.
def scancodeToAscii : List UInt8 :=
  [0,27] ++ bytes "1234567890-=" ++ [8,9] ++ bytes "qwertyuiop[]" ++ [10,0] ++ bytes "asdfghjkl;'`" ++ [0] ++
    bytes "\\zxcvbnm,./" ++ [0] ++ bytes "*" ++ [0] ++ bytes " " ++ List.replicate 1 0 ++ List.replicate 10 0 ++
    List.replicate 5 0 ++ bytes "-" ++ List.replicate 3 0 ++ bytes "+" ++ List.replicate 5 0 ++ List.replicate 3 0 ++
    List.replicate 2 0

def scancodeToAsciiShift : List UInt8 :=
  [0,27] ++ bytes "!@#$%^&*()_+" ++ [8,9] ++ bytes "QWERTYUIOP\x7b\x7d" ++ [10,0] ++ bytes "ASDFGHJKL:\"~" ++ [0] ++
    bytes "|ZXCVBNM<>?"

structure State where
  keyboardBuffer : Nat → UInt8
  bufferRead : Nat
  bufferWrite : Nat
  shiftPressed : Bool
  ctrlPressed : Bool
  e0Prefix : Bool

def asciiOf (k : State) (scancode : UInt8) : UInt8 :=
  if k.e0Prefix then
    if scancode = 0x4B then 0x01
    else if scancode = 0x4D then 0x02
    else if scancode = 0x48 then 0x03
    else if scancode = 0x50 then 0x04
    else 0
  else if scancode.toNat < scancodeToAscii.length then
    if k.ctrlPressed then
      let base := scancodeToAscii.getD scancode.toNat 0
      if 0x61 ≤ base ∧ base ≤ 0x7A then base - 0x61 + 1 else 0
    else if k.shiftPressed ∧ scancode.toNat < scancodeToAsciiShift.length then
      scancodeToAsciiShift.getD scancode.toNat 0
    else scancodeToAscii.getD scancode.toNat 0
  else 0

-- Add to the buffer if valid; a character that finds the ring full is dropped.
def addToBuffer (k : State) (ascii : UInt8) : State :=
  if ascii ≠ 0 then
    let nextWrite := (k.bufferWrite + 1) % bufferSize
    if nextWrite ≠ k.bufferRead then
      {k with keyboardBuffer := Function.update k.keyboardBuffer k.bufferWrite ascii, bufferWrite := nextWrite}
    else k
  else k

def keyboardHandler (k : State) (scancode : UInt8) : State :=
  if scancode = 0xE0 then {k with e0Prefix := true}
  else if scancode = 0x2A ∨ scancode = 0x36 then {k with shiftPressed := true, e0Prefix := false}
  else if scancode = 0xAA ∨ scancode = 0xB6 then {k with shiftPressed := false, e0Prefix := false}
  else if scancode = 0x1D ∧ ¬ k.e0Prefix then {k with ctrlPressed := true, e0Prefix := false}
  else if scancode = 0x9D then {k with ctrlPressed := false, e0Prefix := false}
  else if scancode &&& 0x80 ≠ 0 then {k with e0Prefix := false}
  else addToBuffer {k with e0Prefix := false} (asciiOf k scancode)

def offered (k : State) (scancode : UInt8) : UInt8 :=
  if scancode = 0xE0 then 0
  else if scancode = 0x2A ∨ scancode = 0x36 then 0
  else if scancode = 0xAA ∨ scancode = 0xB6 then 0
  else if scancode = 0x1D ∧ ¬ k.e0Prefix then 0
  else if scancode = 0x9D then 0
  else if scancode &&& 0x80 ≠ 0 then 0
  else asciiOf k scancode

end SantOS.Keyboard
