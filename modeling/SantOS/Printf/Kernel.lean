import SantOS.Library.FormatStrings
import SantOS.Shell.Numbers

namespace SantOS.Printf
open CStrings Decimals FormatStrings
open Shell (int32 isDigit digitsToInt)

-- What va_arg reads: the words of the arguments in turn and the strings they point to.
-- print_float is what the kernel writes of a long double with a precision.
structure Arguments where
  word : Nat → UInt64
  stringAt : UInt64 → Str
  printFloat : Nat → Int → Str

def Arguments.int (args : Arguments) (n : Nat) : Int := int32 (args.word n).toNat
def Arguments.unsigned (args : Arguments) (n : Nat) : Nat := (args.word n).toNat % 2^32
def Arguments.char (args : Arguments) (n : Nat) : UInt8 := (args.word n).toUInt8
def Arguments.text (args : Arguments) (n : Nat) : Str := args.stringAt (args.word n)

def printSigned (num : Int) : Str :=
  if num = 0 then bytes "0"
  else
    let size := if num < 0 then int32 (-num) else num
    (if num < 0 then bytes "-" else []) ++ (peel 10 decimalSign 10 size.toNat).reverse

def hexSign (d : Nat) : UInt8 := (bytes "0123456789ABCDEF").getD d 0

def printUnsigned (num base : Nat) : Str := if num = 0 then bytes "0" else (peel base hexSign 32 num).reverse

def countDigits : Nat → Nat → Int
  | 0,_ => 0
  | left+1,temp => if temp = 0 then 0 else 1 + countDigits left (temp / 10)

def signedLength (num : Int) : Int :=
  let temp := if num < 0 then int32 (-num) else num
  (if temp = 0 then 1 else if num < 0 then 1 else 0) + countDigits 10 temp.toNat

structure Conversion where
  leftAlign : Bool
  width : Int
  precision : Int

-- The putc calls of a conversion, what it adds to count and how many arguments it takes.
structure Effect where
  out : Str
  count : Int
  taken : Nat

def padding (width len : Int) : Str := if width > len then List.replicate (width - len).toNat 0x20 else []

def padded (c : Conversion) (len : Int) (text : Str) : Str :=
  if c.leftAlign then text ++ padding c.width len else padding c.width len ++ text

def convert (args : Arguments) (c : Conversion) (n : Nat) (letter : UInt8) : Effect :=
  if letter = 0x73 then
    let out := padded c (int32 (args.text n).length) (args.text n)
    ⟨out,out.length,1⟩
  else if letter = 0x63 then ⟨[args.char n],1,1⟩
  else if letter = 0x64 then
    let len := signedLength (args.int n)
    ⟨padded c len (printSigned (args.int n)),(padding c.width len).length + 1,1⟩
  else if letter = 0x66 then ⟨args.printFloat n c.precision,1,1⟩
  else if letter = 0x78 then ⟨printUnsigned (args.unsigned n) 16,1,1⟩
  else if letter = 0x75 then ⟨printUnsigned (args.unsigned n) 10,1,1⟩
  else if letter = 0x25 then ⟨[0x25],1,0⟩
  else ⟨[0x25,letter],2,0⟩

-- A run over a format: where it stands, the next argument, the putc calls so far, count and
-- the places of the format it has read.
structure State where
  i : Nat
  next : Nat
  out : Str
  count : Int
  reads : List Nat

def start : State := ⟨0,0,[],0,[]⟩

def State.take (s : State) (i : Nat) (effect : Effect) (reads : List Nat) : State :=
  ⟨i,s.next + effect.taken,s.out ++ effect.out,int32 (s.count + effect.count),reads ++ s.reads⟩

def numberFrom (format : Nat → UInt8) : Nat → Nat → Int → Option (Int × Nat × List Nat)
  | 0,_,_ => none
  | fuel+1,i,number =>
    if isDigit (format i) then
      (numberFrom format fuel (i+1) (int32 (number*10 + (((format i).toNat : Int) - 0x30)))).map
        (fun (number,j,reads) => (number,j,i::reads))
    else some (number,i,[i])

def parseConversion (format : Nat → UInt8) (fuel i : Nat) : Option (Conversion × Nat × List Nat) :=
  let leftAlign := format i == 0x2D
  match numberFrom format fuel (if leftAlign then i+1 else i) 0 with
  | none => none
  | some (width,j,reads) =>
    if format j = 0x2E then
      (numberFrom format fuel (j+1) 0).map (fun (precision,k,more) => (⟨leftAlign,width,precision⟩,k,i::reads ++ more))
    else some (⟨leftAlign,width,6⟩,j,i::reads)

-- The NUL behind an unfinished conversion is a letter like any other to the switch.
def vprintfFrom (format : Nat → UInt8) (args : Arguments) : Nat → State → Option State
  | 0,_ => none
  | fuel+1,s =>
    if format s.i = 0 then some {s with reads := s.i::s.reads}
    else if format s.i = 0x25 then
      match parseConversion format fuel (s.i+1) with
      | none => none
      | some (c,j,reads) => vprintfFrom format args fuel (s.take (j+1) (convert args c s.next (format j)) (s.i::reads))
    else vprintfFrom format args fuel (s.take (s.i+1) ⟨[format s.i],1,0⟩ [s.i])

def vprintfInternal (format : Nat → UInt8) (args : Arguments) (fuel : Nat) :
    Option State := vprintfFrom format args fuel start

structure Options where
  leftAlign : Bool
  width : Str
  precision : Option Str

def point (precision : Option Str) : Str := (precision.map (fun digits => 0x2E::digits)).getD []

@[simp] theorem point_none : point none = [] := rfl
@[simp] theorem point_some (digits : Str) : point (some digits) = 0x2E::digits := rfl

def Options.text (o : Options) : Str := (if o.leftAlign then [0x2D] else []) ++ (o.width ++ point o.precision)

structure Options.Formed (o : Options) : Prop where
  width : ∀ c ∈ o.width, isDigit c = true
  precision : ∀ digits, o.precision = some digits → ∀ c ∈ digits, isDigit c = true

def Options.conversion (o : Options) : Conversion := ⟨o.leftAlign,digitsToInt o.width,(o.precision.map digitsToInt).getD 6⟩

def Parts (parts : Str) : Prop := ∃ o : Options, o.Formed ∧ parts = o.text

end SantOS.Printf
