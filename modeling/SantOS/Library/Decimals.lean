import Mathlib.Data.Nat.Digits.Lemmas

namespace Decimals

-- Numerals as printing loops write them: sign gives the byte of a digit, and the digits
-- are peeled from the last one on. The places of n are Mathlib's Nat.digits.
def numeral (base : Nat) (sign : Nat → UInt8) (n : Nat) : List UInt8 :=
  if n = 0 then [sign 0] else ((Nat.digits base n).map sign).reverse

def peel (base : Nat) (sign : Nat → UInt8) : Nat → Nat → List UInt8
  | 0,_ => []
  | left+1,n => if n = 0 then [] else sign (n % base)::peel base sign left (n / base)

def decimalSign (d : Nat) : UInt8 := UInt8.ofNat (0x30 + d)

def decimal (v : Int) : List UInt8 := (if v < 0 then [0x2D] else []) ++ numeral 10 decimalSign v.natAbs

def IsDecimal (c : UInt8) : Prop := 0x30 ≤ c ∧ c ≤ 0x39

def value (digits : List UInt8) : Nat := digits.foldl (fun n c => n*10 + (c.toNat - 0x30)) 0

section
variable {base : Nat} {sign : Nat → UInt8}

theorem peel_digits (large : 1 < base) (fits : n < base^left) : peel base sign left n = (Nat.digits base n).map sign := by
  induction left generalizing n with
  | zero =>
    rw [Nat.pow_zero] at fits
    rw [Nat.lt_one_iff.mp fits,Nat.digits_zero]
    rfl
  | succ left ih =>
    by_cases zero : n = 0
    · rw [zero,Nat.digits_zero]
      simp [peel]
    · have rest : n / base < base^left := Nat.div_lt_of_lt_mul (by rwa [Nat.mul_comm,← Nat.pow_succ])
      rw [peel,if_neg zero,ih rest,Nat.digits_eq_cons_digits_div large zero]
      rfl

theorem numeral_nonempty (base : Nat) (sign : Nat → UInt8) (n : Nat) : numeral base sign n ≠ [] := by
  unfold numeral
  split
  · simp
  · next positive => simpa [Nat.digits_ne_nil_iff_ne_zero] using positive

theorem peeled_numeral (large : 1 < base) (positive : n ≠ 0) (fits : n < base^left) :
    (peel base sign left n).reverse = numeral base sign n := by
  rw [numeral,if_neg positive,peel_digits large fits]

end

theorem decimalSign_value (small : d < 10) : (decimalSign d).toNat = 0x30 + d := by
  rw [decimalSign,UInt8.toNat_ofNat_of_lt' (Nat.lt_of_lt_of_le (Nat.add_lt_add_left small _) (by decide))]

theorem decimalSign_digit (small : d < 10) : IsDecimal (decimalSign d) := by
  rw [IsDecimal,UInt8.le_iff_toNat_le,UInt8.le_iff_toNat_le,decimalSign_value small]
  exact ⟨Nat.le_add_right _ _,Nat.add_le_add_left (Nat.le_of_lt_succ small) 0x30⟩

theorem numeral_digits (n : Nat) : ∀ c ∈ numeral 10 decimalSign n, IsDecimal c := by
  intro c member
  unfold numeral at member
  split at member
  · rw [List.mem_singleton.mp member]
    exact decimalSign_digit (by decide)
  · obtain ⟨d,digit,rfl⟩ := List.mem_map.mp (List.mem_reverse.mp member)
    exact decimalSign_digit (Nat.digits_lt_base (by decide) digit)

theorem value_append (digits : List UInt8) (c : UInt8) : value (digits ++ [c]) = value digits*10 + (c.toNat - 0x30) := by
  simp [value]

theorem value_reversed (small : ∀ d ∈ digits, d < 10) :
    value ((digits.map decimalSign).reverse) = Nat.ofDigits 10 digits := by
  induction digits with
  | nil => rfl
  | cons d digits ih =>
    rw [List.map_cons,List.reverse_cons,value_append,ih fun e member => small e (List.mem_cons_of_mem _ member),
      decimalSign_value (small d List.mem_cons_self),Nat.add_sub_cancel_left,Nat.ofDigits_cons]
    omega

theorem value_numeral (n : Nat) : value (numeral 10 decimalSign n) = n := by
  unfold numeral
  split
  · next zero =>
    rw [zero]
    rfl
  · rw [value_reversed fun d member => Nat.digits_lt_base (by decide) member,Nat.ofDigits_digits]

theorem decimal_nonnegative (positive : 0 ≤ v) : decimal v = numeral 10 decimalSign v.natAbs := by
  rw [decimal,if_neg (Int.not_lt.mpr positive)]
  rfl

theorem decimal_negative (negative : v < 0) : decimal v = 0x2D::numeral 10 decimalSign v.natAbs := by
  rw [decimal,if_pos negative]
  rfl

end Decimals
