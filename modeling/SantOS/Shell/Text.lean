import Mathlib.Algebra.Group.Nat.Defs
import Mathlib.Data.Int.Order.Basic
import SantOS.Library.CStrings

namespace SantOS.Shell
open CStrings

-- int arithmetic keeps 32 bits.
def int32 (x : Int) : Int := Int.bmod x (2^32)

def isDigit (c : UInt8) : Bool := 0x30 ≤ c && c ≤ 0x39

def isNumeric : Str → Bool
  | [] => false
  | c::rest => let digits := if c = 0x2D then rest else c::rest
    !digits.isEmpty && digits.all isDigit

def digitsToInt (digits : Str) : Int := digits.foldl (fun result c => int32 (result*10 + ((c.toNat : Int) - 0x30))) 0

def strToInt : Str → Int
  | [] => 0
  | c::rest => if c = 0x2D then int32 (-digitsToInt rest) else digitsToInt (c::rest)

-- The digits from the last one on; an int has at most ten.
def lowDigits (val : Int) : Nat → Str
  | 0 => []
  | left+1 => if val > 0 then UInt8.ofInt (0x30 + val % 10)::lowDigits (val / 10) left else []

-- The negation of the least int is itself, and no digit of it is written.
def intToStr (val : Int) : Str :=
  let size := if val < 0 then int32 (-val) else val
  let buf := if size = 0 then bytes "0" else lowDigits size 10
  (if val < 0 then buf ++ bytes "-" else buf).reverse

def strcmp : Str → Str → Int
  | [],[] => 0
  | [],b::_ => -(b.toNat : Int)
  | a::_,[] => (a.toNat : Int)
  | a::s,b::t => if a = b then strcmp s t else (a.toNat : Int) - (b.toNat : Int)

-- Positive one-based indices only; finish 0 stands for the end of the string.
def substr (input : Str) (start finish : Nat) : Option Str :=
  if start < 1 ∨ start > input.length then none
  else if finish = 0 then some (input.drop (start-1))
  else if finish < start ∨ finish > input.length then none
  else some ((input.drop (start-1)).take (finish - start + 1))

-- The nonempty pieces between the bytes of one kind; word is the piece read so far.
def pieces (isBreak : UInt8 → Bool) (word : Str) : Str → List Str
  | [] => if word = [] then [] else [word]
  | c::s =>
    if isBreak c then (if word = [] then pieces isBreak [] s else word::pieces isBreak [] s)
    else pieces isBreak (word ++ [c]) s

def tokens (s : Str) : List Str := pieces (· = 0x20) [] s

-- What the string reads like after the first strtok: a NUL stands behind the first token.
def afterStrtok (s : Str) : Str :=
  s.takeWhile (· = 0x20) ++ (s.dropWhile (· = 0x20)).takeWhile (· ≠ 0x20)

def trimLeft (s : Str) : Str := s.dropWhile (· = 0x20)
def trim (s : Str) : Str := ((trimLeft s).reverse.dropWhile (· = 0x20)).reverse

def isNameChar (c : UInt8) : Bool :=
  (0x61 ≤ c && c ≤ 0x7A) || (0x41 ≤ c && c ≤ 0x5A) || (0x30 ≤ c && c ≤ 0x39) || c = 0x5F

-- What the shell prints: plain text, a message in light red, a found term. given and ran
-- are no output: they record the lines process_command and process_single_command get.
inductive Out where
  | text (s : Str)
  | error (s : Str)
  | marked (s : Str)
  | clear
  | given (command : Str)
  | ran (command : Str)

def isError : Out → Bool
  | .error _ => true
  | _ => false

end SantOS.Shell
