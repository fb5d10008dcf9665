import SantOS.Library.ByteMemory
import SantOS.Printf.Conversions

namespace SantOS.Printf
open ByteMemory CStrings Decimals FormatStrings
open Shell (int32)

def lowerSign (d : Nat) : UInt8 := UInt8.ofNat (if d < 10 then 0x30 + d else 0x61 + d - 10)

-- A uint64_t has at most twenty digits.
def printUint (val base : Nat) : Str := if val = 0 then bytes "0" else (peel base lowerSign 20 val).reverse

def printInt (val : Int) : Str := if val < 0 then bytes "-" ++ printUint ((-val) % 2^64).toNat 10 else printUint val.toNat 10

def printStr (args : Arguments) (n : Nat) : Str := if args.word n = 0 then bytes "(null)" else args.text n

-- Neither flags nor a width: the byte behind the percent sign decides.
def convertPlain (args : Arguments) (n : Nat) (letter : UInt8) : Effect :=
  if letter = 0x63 then ⟨[args.char n],1,1⟩
  else if letter = 0x73 then ⟨printStr args n,1,1⟩
  else if letter = 0x64 ∨ letter = 0x69 then ⟨printInt (args.int n),1,1⟩
  else if letter = 0x75 then ⟨printUint (args.unsigned n) 10,1,1⟩
  else if letter = 0x78 then ⟨printUint (args.unsigned n) 16,1,1⟩
  else if letter = 0x70 then ⟨bytes "0x" ++ printUint (args.word n).toNat 16,1,1⟩
  else if letter = 0x25 then ⟨[0x25],1,0⟩
  else ⟨[0x25,letter],1,0⟩

def formatFrom (format : Nat → UInt8) (args : Arguments) : Nat → State → Option State
  | 0,_ => none
  | fuel+1,s =>
    if format s.i = 0 then some {s with reads := s.i::s.reads}
    else if format s.i = 0x25 then
      formatFrom format args fuel (s.take (s.i+2) (convertPlain args s.next (format (s.i+1))) [s.i+1,s.i])
    else formatFrom format args fuel (s.take (s.i+1) ⟨[format s.i],1,0⟩ [s.i])

def printf (format : Nat → UInt8) (args : Arguments) (fuel : Nat) : Option State := formatFrom format args fuel start

def sprintf (m : Memory) (str : Nat) (format : Nat → UInt8) (args : Arguments) (fuel : Nat) : Option (State × Memory) :=
  (formatFrom format args fuel start).map (fun s => (s,blit m str (s.out.length + 1) (fun i => s.out.getD i 0)))

section
variable {format : Nat → UInt8} {args : Arguments}

theorem plain_reads (ran : formatFrom format args fuel s = some t) : s.i ∈ t.reads ∧ ∀ j ∈ s.reads, j ∈ t.reads := by
  induction fuel generalizing s with
  | zero => cases ran
  | succ fuel ih =>
    have through {s' : State} (later : s'.i ∈ t.reads ∧ ∀ j ∈ s'.reads, j ∈ t.reads) (here : s.i ∈ s'.reads)
        (old : ∀ j ∈ s.reads, j ∈ s'.reads) : s.i ∈ t.reads ∧ ∀ j ∈ s.reads, j ∈ t.reads :=
      ⟨later.2 _ here,fun j member => later.2 j (old j member)⟩
    rw [formatFrom] at ran
    split at ran
    · cases ran
      exact ⟨List.mem_cons_self,fun j member => List.mem_cons_of_mem _ member⟩
    · split at ran
      · exact through (ih ran) (by simp [State.take]) (fun j member => by simp [State.take,member])
      · exact through (ih ran) (by simp [State.take]) (fun j member => by simp [State.take,member])

def NoParts (parts : Str) : Prop := parts = []

variable (args) in
theorem step_letter (here : Stands format s.i [0x25,letter]) (fuel : Nat) :
    formatFrom format args (fuel+1) s = formatFrom format args fuel (s.take (s.i+2) (convertPlain args s.next letter) [s.i+1,s.i]) := by
  obtain ⟨mark,last,_⟩ := here
  rw [formatFrom,mark,if_neg (by decide),if_pos rfl,last]

variable (args) in
theorem step_other (here : format s.i = c) (noNul : c ≠ 0) (noMark : c ≠ 0x25) (fuel : Nat) :
    formatFrom format args (fuel+1) s = formatFrom format args fuel (s.take (s.i+1) ⟨[c],1,0⟩ [s.i]) := by
  rw [formatFrom,here,if_neg noNul,if_neg noMark]

end

end SantOS.Printf
