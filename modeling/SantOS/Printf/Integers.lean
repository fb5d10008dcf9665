import SantOS.Printf.Terminators

namespace SantOS.Printf
open ByteMemory CStrings Decimals FormatStrings
open Shell (int32 Fits32 isDigit digitsToInt isDigit_iff digitsToInt_value)

theorem int32_small (x : Int) : Fits32 (int32 x) := by
  have low := @Int.le_bmod x (2^32) (by decide)
  have high := @Int.bmod_lt x (2^32) (by decide)
  unfold Fits32 int32
  omega

theorem peel_length (base : Nat) (sign : Nat → UInt8) (left n : Nat) : (peel base sign left n).length ≤ left := by
  induction left generalizing n with
  | zero => exact Nat.le_refl _
  | succ left ih =>
    rw [peel]
    split
    · exact Nat.zero_le _
    · exact Nat.succ_le_succ (ih _)

theorem count_peeled (left n : Nat) : countDigits left n = (peel 10 decimalSign left n).length := by
  induction left generalizing n with
  | zero => rfl
  | succ left ih =>
    rw [countDigits,peel]
    split
    · rfl
    · rw [ih,List.length_cons]
      omega

theorem peeled_digits (fits : n < 10^left) : (if n = 0 then bytes "0" else (peel 10 decimalSign left n).reverse) = numeral 10 decimalSign n := by
  split
  · next zero =>
    rw [zero]
    rfl
  · next positive => exact peeled_numeral (by decide) positive fits

theorem negated (small : Fits32 n) (notLeast : n ≠ -2^31) : (if n < 0 then int32 (-n) else n) = n.natAbs := by
  obtain ⟨low,high⟩ := small
  split
  · rw [Fits32.same ⟨by omega,by omega⟩]
    omega
  · omega

theorem printSigned_decimal (small : Fits32 n) (notLeast : n ≠ -2^31) : printSigned n = decimal n := by
  obtain ⟨low,high⟩ := small
  rw [printSigned,negated ⟨low,high⟩ notLeast]
  dsimp only
  have digits := @peeled_digits n.natAbs 10 (by omega)
  by_cases zero : n = 0
  · rw [zero]
    rfl
  · rw [if_neg (by omega)] at digits
    rw [if_neg zero,Int.toNat_natCast,digits,decimal]
    rfl

theorem signedLength_decimal (small : Fits32 n) (notLeast : n ≠ -2^31) : signedLength n = (decimal n).length := by
  rw [signedLength,negated small notLeast,Int.toNat_natCast,count_peeled]
  obtain ⟨low,high⟩ := small
  have digits := @peeled_digits n.natAbs 10 (by omega)
  by_cases zero : n = 0
  · rw [zero]
    rfl
  · rw [if_neg (by omega)] at digits
    have length := congrArg List.length digits
    rw [List.length_reverse] at length
    rw [if_neg (by omega),decimal,List.length_append,length]
    split <;> simp

theorem decimal_length (small : Fits32 n) : (decimal n).length ≤ 11 := by
  obtain ⟨low,high⟩ := small
  have digits := congrArg List.length (@peeled_digits n.natAbs 10 (by omega))
  have bound : (numeral 10 decimalSign n.natAbs).length ≤ 10 := by
    rw [← digits]
    split
    · decide
    · rw [List.length_reverse]
      exact peel_length _ _ _ _
  rw [decimal,List.length_append]
  split
  · exact Nat.add_le_add (Nat.le_refl 1) bound
  · exact Nat.add_le_add (Nat.zero_le 1) bound

-- A field of a printed line: at least width characters, with the spaces on one side.
def field (leftAlign : Bool) (width : Nat) (text : Str) :
    Str := if leftAlign then text.rightpad width 0x20 else text.leftpad width 0x20

theorem field_length (leftAlign : Bool) (width : Nat) (text : Str) :
    (field leftAlign width text).length = max width text.length := by
  cases leftAlign
  · exact List.length_leftpad
  · exact List.length_rightpad

theorem field_member (leftAlign : Bool) (width : Nat) (text : Str) (visible : c ≠ 0x20) :
    c ∈ field leftAlign width text ↔ c ∈ text := by
  cases leftAlign <;> simp [field,List.leftpad,List.rightpad,visible]

theorem field_zero (leftAlign : Bool) (text : Str) : field leftAlign 0 text = text := by
  cases leftAlign <;> simp [field,List.leftpad,List.rightpad]

theorem padded_field (c : Conversion) (text : Str) : padded c text.length text = field c.leftAlign c.width.toNat text := by
  have spaces : padding c.width text.length = List.replicate (c.width.toNat - text.length) 0x20 := by
    unfold padding
    split
    · congr 1
      omega
    · rw [Nat.sub_eq_zero_of_le (by omega)]
      rfl
  rw [padded,field,spaces]
  rfl

def Prints (run : Nat → Option State) (out : Str) : Prop := ∃ bound, ∀ fuel ≥ bound, ∃ t, run fuel = some t ∧ t.out = out

theorem Prints.unique (one : Prints run out) (other : Prints run out') : out = out' := by
  obtain ⟨bound,ends⟩ := one
  obtain ⟨bound',ends'⟩ := other
  obtain ⟨t,ran,same⟩ := ends (max bound bound') (Nat.le_max_left _ _)
  obtain ⟨t',ran',same'⟩ := ends' (max bound bound') (Nat.le_max_right _ _)
  rw [ran] at ran'
  cases ran'
  exact same.symm.trans same'

section
variable {format : Nat → UInt8} (args : Arguments)

theorem kernel_prints {o : Options} (formed : o.Formed) (stops : ¬Parts (o.text ++ [letter]))
    (spells : Spells format (0x25::(o.text ++ [letter]))) :
    Prints (vprintfInternal format args) (convert args o.conversion 0 letter).out := by
  have here := spells_stands spells
  rw [stands_append] at here
  refine ⟨o.text.length + 3,?_⟩
  intro fuel enough
  obtain ⟨fuel,rfl⟩ : ∃ left, fuel = left + 1 + 1 := ⟨fuel - 2,by omega⟩
  have more : o.text.length < fuel + 1 := by omega
  obtain ⟨reads,ran,_⟩ := step_conversion args (s := start) formed here.1 stops more
  have nul : format (start.i + o.text.length + 2) = 0 := by
    have last := here.2.1
    simpa [start,Nat.add_assoc] using last
  exact ⟨_,by rw [vprintfInternal,ran,vprintfFrom,State.take,if_pos nul],rfl⟩

theorem user_prints (spells : Spells format [0x25,letter]) :
    Prints (printf format args) (convertPlain args 0 letter).out := by
  have here := spells_stands spells
  rw [stands_append _ [0]] at here
  refine ⟨2,?_⟩
  intro fuel enough
  obtain ⟨fuel,rfl⟩ : ∃ left, fuel = left + 1 + 1 := ⟨fuel - 2,by omega⟩
  have nul : format (start.i + 2) = 0 := here.2.1
  exact ⟨_,by rw [printf,step_letter args here.1,formatFrom,State.take,if_pos nul],rfl⟩

end

theorem printInt_decimal (small : Fits32 n) : printInt n = decimal n := by
  obtain ⟨low,high⟩ := small
  have lower (d : Nat) (digit : d < 10) : lowerSign d = decimalSign d := by rw [lowerSign,if_pos digit,decimalSign]
  have digits (v : Nat) (fits : v < 10^20) : printUint v 10 = numeral 10 decimalSign v := by
    rw [printUint,peel_digits (by decide) fits,numeral,List.map_congr_left fun d member => lower d (Nat.digits_lt_base (by decide) member)]
    rfl
  rw [printInt,decimal]
  split
  · have magnitude : ((-n) % 2^64).toNat = n.natAbs := by omega
    rw [magnitude,digits _ (by omega)]
    rfl
  · have magnitude : n.toNat = n.natAbs := by omega
    rw [magnitude,digits _ (by omega)]
    rfl

def decimalOptions (leftAlign : Bool) (width : Str) : Options := ⟨leftAlign,width,none⟩
def decimalFormat (leftAlign : Bool) (width : Str) : Str := 0x25::((decimalOptions leftAlign width).text ++ [0x64])

theorem decimal_field_iff (args : Arguments) (leftAlign : Bool) (width : Str) {format : Nat → UInt8}
    (digits : ∀ c ∈ width, isDigit c = true)
    (spells : Spells format (decimalFormat leftAlign width)) :
    Prints (vprintfInternal format args) (field leftAlign (value width) (decimal (args.int 0))) ↔
      args.int 0 ≠ -2^31 ∧ value width < 2^31 := by
  have small := int32_small (args.word 0).toNat
  change Fits32 (args.int 0) at small
  have printed := kernel_prints args (o := decimalOptions leftAlign width) ⟨digits,by simp [decimalOptions]⟩
    (ends_parts (by simp [PartByte,isDigit]) _) spells
  have parsed : (decimalOptions leftAlign width).conversion.width = int32 (value width) :=
    digitsToInt_value fun c member => (isDigit_iff c).mp (digits c member)
  have bound := int32_small (value width)
  by_cases least : args.int 0 = -2^31
  · refine iff_of_false ?_ (fun holds => holds.1 least)
    intro claimed
    have same := printed.unique claimed
    have lone : (convert args (decimalOptions leftAlign width).conversion 0 0x64).out =
        field leftAlign (int32 (value width)).toNat (bytes "-") := by
      have dash := padded_field (decimalOptions leftAlign width).conversion (bytes "-")
      rw [parsed] at dash
      rw [convert,least]
      exact dash
    have digit : (0x32 : UInt8) ∈ field leftAlign (value width) (decimal (-2^31)) :=
      (field_member _ _ _ (by decide)).mpr (by decide)
    rw [← least,← same,lone,field_member _ _ _ (by decide)] at digit
    exact absurd digit (by decide)
  · have out : (convert args (decimalOptions leftAlign width).conversion 0 0x64).out =
        field leftAlign (int32 (value width)).toNat (decimal (args.int 0)) := by
      have justified := padded_field (decimalOptions leftAlign width).conversion (decimal (args.int 0))
      rw [parsed] at justified
      change padded _ (signedLength (args.int 0)) (printSigned (args.int 0)) = _
      rw [signedLength_decimal small least,printSigned_decimal small least]
      exact justified
    rw [out] at printed
    constructor
    · intro claimed
      refine ⟨least,?_⟩
      have lengths := congrArg List.length (printed.unique claimed)
      rw [field_length,field_length] at lengths
      have short := decimal_length small
      obtain ⟨_,high⟩ := bound
      omega
    · rintro ⟨_,fits⟩
      have itself : (int32 (value width)).toNat = value width := by
        rw [Fits32.same ⟨by omega,by omega⟩,Int.toNat_natCast]
      rwa [itself] at printed

theorem user_decimal (args : Arguments) : (convertPlain args 0 0x64).out = decimal (args.int 0) := by
  have small : Fits32 (args.int 0) := int32_small _
  have out : (convertPlain args 0 0x64).out = printInt (args.int 0) := by simp [convertPlain]
  rw [out,printInt_decimal small]

-- The kernel negates the number as an int, and the loop over the digits of the least one is
-- not entered; a width from 2^31 on wraps around. User space widens the number first.
theorem printed_decimals_iff (args : Arguments) :
    (∀ format leftAlign width, (∀ c ∈ width, isDigit c = true) → Spells format (decimalFormat leftAlign width) →
      (Prints (vprintfInternal format args) (field leftAlign (value width) (decimal (args.int 0))) ↔
        args.int 0 ≠ -2^31 ∧ value width < 2^31)) ∧
    ∀ format, Spells format (bytes "%d") →
      Prints (printf format args) (decimal (args.int 0)) ∧
      (∀ m str, Prints (fun fuel => (sprintf m str format args fuel).map Prod.fst) (decimal (args.int 0))) ∧
      ((∃ out, Prints (vprintfInternal format args) out ∧ Prints (printf format args) out) ↔ args.int 0 ≠ -2^31) := by
  refine ⟨fun format leftAlign width digits spells => decimal_field_iff args leftAlign width digits spells,?_⟩
  intro format spells
  change Spells format [0x25,0x64] at spells
  have user := user_prints args spells
  rw [user_decimal] at user
  refine ⟨user,?_,?_⟩
  · intro m str
    rw [sprintf_run]
    exact user
  · have kernel := decimal_field_iff args false [] (by simp) spells
    have empty : value [] = 0 := rfl
    rw [empty,field_zero,and_iff_left (by decide)] at kernel
    refine Iff.trans ⟨?_,fun printed => ⟨_,printed,user⟩⟩ kernel
    rintro ⟨other,printed,same⟩
    rw [same.unique user] at printed
    exact printed

theorem printed_decimals_iff_five :
    Prints (vprintfInternal (literal (bytes "%5d")) ⟨fun _ => 42,fun _ => [],fun _ _ => []⟩) (bytes "   42") := by
  have printed := (printed_decimals_iff ⟨fun _ => 42,fun _ => [],fun _ _ => []⟩).1 (literal (bytes "%5d")) false (bytes "5") (by simp [bytes,isDigit])
    (literal_spells _ (by decide))
  have text : field false (value (bytes "5")) (decimal 42) = bytes "   42" := by decide
  have given : (⟨fun _ => 42,fun _ => [],fun _ _ => []⟩ : Arguments).int 0 = 42 := by decide
  rw [given,text] at printed
  exact printed.mpr ⟨by decide,by decide⟩

def leastArgument : Arguments := ⟨fun _ => 0x80000000,fun _ => [],fun _ _ => []⟩

theorem least_int_misprinted :
    ¬Prints (vprintfInternal (literal (bytes "%d")) leastArgument) (bytes "-2147483648") ∧
    Prints (printf (literal (bytes "%d")) leastArgument) (bytes "-2147483648") := by
  have spells : Spells (literal (bytes "%d")) [0x25,0x64] := literal_spells (bytes "%d") (by decide)
  have given : leastArgument.int 0 = -2^31 := by decide
  have text : decimal (-2^31) = bytes "-2147483648" := by decide
  have kernel := decimal_field_iff leastArgument false [] (by simp) spells
  have user := user_prints leastArgument spells
  have empty : value [] = 0 := rfl
  rw [empty,field_zero,given,text] at kernel
  rw [user_decimal,given,text] at user
  exact ⟨fun printed => (kernel.mp printed).1 rfl,user⟩

end SantOS.Printf
