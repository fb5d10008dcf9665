import SantOS.Library.Decimals
import SantOS.Shell.QuotedValues

namespace SantOS.Shell
open CStrings Decimals

def Fits32 (v : Int) : Prop := -2^31 ≤ v ∧ v < 2^31

theorem Fits32.same (small : Fits32 v) : int32 v = v := by
  obtain ⟨low,high⟩ := small
  exact Int.bmod_eq_of_le_mul_two (by omega) (by omega)

theorem int32_add (x y : Int) : int32 (int32 x + y) = int32 (x + y) := Int.bmod_add_bmod
theorem int32_mul (x y : Int) : int32 (int32 x * y) = int32 (x * y) := Int.bmod_mul_bmod

theorem int32_neg (x : Int) : int32 (-int32 x) = int32 (-x) := by
  rw [Int.neg_eq_neg_one_mul,Int.neg_eq_neg_one_mul x]
  exact Int.mul_bmod_bmod

theorem isDigit_iff (c : UInt8) : isDigit c = true ↔ IsDecimal c := by simp [isDigit,IsDecimal]

-- The digits wrap around at 32 bits, however many there are.
theorem digitsToInt_value (digits : ∀ c ∈ text, IsDecimal c) : digitsToInt text = int32 (value text) := by
  induction text using List.reverseRecOn with
  | nil => rfl
  | append_singleton text c ih =>
    have low : 0x30 ≤ c.toNat := (digits c (by simp)).1
    have before := ih fun d member => digits d (List.mem_append_left _ member)
    rw [digitsToInt] at before ⊢
    rw [List.foldl_append,List.foldl_cons,List.foldl_nil,before,value_append]
    calc int32 (int32 (value text)*10 + ((c.toNat : Int) - 0x30))
        = int32 (int32 (int32 (value text)*10) + ((c.toNat : Int) - 0x30)) := (int32_add _ _).symm
      _ = int32 ((value text : Int)*10 + ((c.toNat : Int) - 0x30)) := by rw [int32_mul,int32_add]
      _ = int32 ((value text*10 + (c.toNat - 0x30) : Nat) : Int) := by
        congr 1
        omega

theorem lowDigits_peel (n left : Nat) : lowDigits n left = peel 10 decimalSign left n := by
  induction left generalizing n with
  | zero => rfl
  | succ left ih =>
    rw [lowDigits,peel]
    by_cases zero : n = 0
    · rw [if_pos zero,if_neg (by simp [zero])]
    · rw [if_neg zero,if_pos (by omega)]
      have last : UInt8.ofInt (0x30 + (n : Int) % 10) = decimalSign (n % 10) := by
        have byte : (0x30 + (n : Int) % 10) % 2^8 = ((0x30 + n % 10 : Nat) : Int) := by omega
        rw [UInt8.ofInt,byte,Int.toNat_natCast,decimalSign]
      rw [last]
      exact congrArg (List.cons _) (ih (n / 10))

theorem numeral_numeric (n : Nat) : (numeral 10 decimalSign n).all isDigit = true := by
  rw [List.all_eq_true]
  exact fun c member => (isDigit_iff c).mpr (numeral_digits n c member)

theorem numeral_head (n : Nat) : ∃ c rest, numeral 10 decimalSign n = c::rest ∧ IsDecimal c := by
  cases same : numeral 10 decimalSign n with
  | nil => exact absurd same (numeral_nonempty _ _ _)
  | cons c rest => exact ⟨c,rest,rfl,numeral_digits n c (by rw [same]; exact List.mem_cons_self)⟩

theorem digit_no_minus (digit : IsDecimal c) : c ≠ 0x2D := by
  rintro rfl
  exact absurd digit.1 (by decide)

theorem decimal_numeric (v : Int) : isNumeric (decimal v) = true := by
  obtain ⟨c,rest,same,digit⟩ := numeral_head v.natAbs
  have all := numeral_numeric v.natAbs
  by_cases negative : v < 0
  · rw [decimal_negative negative,isNumeric,if_pos rfl,all,same]
    rfl
  · rw [decimal_nonnegative (Int.not_lt.mp negative)]
    rw [same] at all ⊢
    rw [isNumeric,if_neg (digit_no_minus digit),all]
    rfl

theorem decimal_read (small : Fits32 v) : strToInt (decimal v) = v := by
  obtain ⟨c,rest,same,digit⟩ := numeral_head v.natAbs
  have read : digitsToInt (numeral 10 decimalSign v.natAbs) = int32 v.natAbs := by
    rw [digitsToInt_value (numeral_digits _),value_numeral]
  by_cases negative : v < 0
  · rw [decimal_negative negative,strToInt,if_pos rfl,read]
    have opposite : (v.natAbs : Int) = -v := by omega
    rw [opposite,int32_neg,Int.neg_neg,small.same]
  · have itself : (v.natAbs : Int) = v := by omega
    rw [decimal_nonnegative (Int.not_lt.mp negative)]
    rw [same] at read ⊢
    rw [strToInt,if_neg (digit_no_minus digit),read,itself,small.same]

theorem intToStr_decimal (small : Fits32 v) (notLeast : v ≠ -2^31) : intToStr v = decimal v := by
  obtain ⟨low,high⟩ := small
  have fits : v.natAbs < 10^10 := by omega
  have size : (if v < 0 then int32 (-v) else v) = v.natAbs := by
    split
    · rw [Fits32.same ⟨by omega,by omega⟩]
      omega
    · omega
  have digits : (if (v.natAbs : Int) = 0 then bytes "0" else lowDigits v.natAbs 10).reverse = numeral 10 decimalSign v.natAbs := by
    by_cases zero : v.natAbs = 0
    · rw [zero]
      rfl
    · rw [if_neg (by omega),lowDigits_peel,peeled_numeral (by decide) zero fits]
  rw [intToStr,size]
  split
  · next negative =>
    rw [List.reverse_append,digits,decimal_negative negative]
    rfl
  · next positive => rw [digits,decimal_nonnegative (Int.not_lt.mp positive)]

theorem intToStr_least : intToStr (-2^31) = bytes "-" := by decide

theorem intToStr_least_ne (v : Int) : intToStr (-2^31) ≠ decimal v := by
  intro same
  have numeric := decimal_numeric v
  rw [← same,intToStr_least] at numeric
  revert numeric
  decide

theorem intToStr_decimal_iff (small : Fits32 v) : intToStr v = decimal v ↔ v ≠ -2^31 := by
  refine ⟨?_,intToStr_decimal small⟩
  rintro same rfl
  exact intToStr_least_ne _ same

theorem round_trip_iff (small : Fits32 v) : (isNumeric (intToStr v) = true ∧ strToInt (intToStr v) = v) ↔ v ≠ -2^31 := by
  constructor
  · rintro ⟨numeric,_⟩ rfl
    rw [intToStr_least] at numeric
    revert numeric
    decide
  · intro notLeast
    rw [intToStr_decimal small notLeast]
    exact ⟨decimal_numeric v,decimal_read small⟩

def changeCommand (command name : Str) (b : Int) : Str := command ++ 0x20::(0x24::name ++ 0x20::decimal b)

theorem decimal_no_space (v : Int) : 0x20 ∉ decimal v := by
  intro member
  rw [decimal] at member
  rcases List.mem_append.mp member with sign | places
  · split at sign
    · exact absurd (List.mem_singleton.mp sign) (by decide)
    · cases sign
  · exact absurd (numeral_digits _ _ places).1 (by decide)

theorem decimal_nonempty (v : Int) : decimal v ≠ [] := by
  rw [decimal]
  exact List.append_ne_nil_of_right_ne_nil _ (numeral_nonempty _ _ _)

theorem no_breaks {word : Str} (spaceless : 0x20 ∉ word) : ∀ c ∈ word, decide (c = 0x20) = false := by
  intro c member
  rw [decide_eq_false_iff_not]
  rintro rfl
  exact spaceless member

theorem changeCommand_args {command name : Str} (word : 0x20 ∉ command) (some_ : command ≠ [])
    (spaceless : 0x20 ∉ name) (b : Int) :
    commandArgs (changeCommand command name b) = [command,0x24::name,decimal b] := by
  have token : 0x20 ∉ 0x24::name := fun member => (List.mem_cons.mp member).elim (absurd · (by decide)) spaceless
  rw [commandArgs,tokens,changeCommand,pieces_cut (no_breaks word) rfl,List.nil_append,if_neg some_,
    pieces_cut (no_breaks token) rfl,List.nil_append,if_neg (by simp),
    pieces_word (no_breaks (decimal_no_space b)),List.nil_append,if_neg (decimal_nonempty b)]
  rfl

theorem resolve_decimal (value : Str → Option Str) (v : Int) : resolveValue value (decimal v) = decimal v := by
  have noDollar : ∀ c rest, decimal v = c::rest → c ≠ 0x24 := by
    rintro c rest same rfl
    have digits := numeral_numeric v.natAbs
    have numeric := decimal_numeric v
    rw [same,isNumeric,if_neg (by decide)] at numeric
    simp [isDigit] at numeric
  cases same : decimal v with
  | nil => rfl
  | cons c rest => rw [resolveValue,if_neg (noDollar c rest same)]

variable {op : Int → Int → Int}

theorem changeBy_decimals (usage command : Str) (found : findVariable v name = some i) (held : v.values i = decimal a)
    (smallA : Fits32 a)
    (smallB : Fits32 b) : changeBy usage op v [command,0x24::name,decimal b] =
      ({v with values := Function.update v.values i (intToStr (int32 (op a b)))},[]) := by
  have numeric (x : Int) : ¬¬isNumeric (decimal x) = true := not_not.mpr (decimal_numeric x)
  rw [changeBy,if_neg (by simp)]
  simp only [List.drop_succ_cons,List.drop_zero,found]
  rw [held,if_neg (numeric a),resolve_decimal,if_neg (numeric b),decimal_read smallA,decimal_read smallB]

section
variable {σ : Type} (k : Kernel σ) (run : Session σ → Str → Result σ) (rounds : Nat) {s : Session σ} {name : Str}

theorem run_change (kind : command = bytes "add" ∧ op = (· + ·) ∨ command = bytes "sub" ∧ op = (· - ·))
    (spaceless : 0x20 ∉ name)
    (held : valueOf s.vars name = some (decimal a)) (smallA : Fits32 a) (smallB : Fits32 b) :
    ∃ w, processSingleCommand k run rounds s (changeCommand command name b) =
        done {s with vars := w} [.ran (changeCommand command name b)] ∧
      valueOf w name = some (intToStr (int32 (op a b))) := by
  obtain ⟨i,found,there⟩ := Option.map_eq_some_iff.mp held
  have args : commandArgs (changeCommand command name b) = [command,0x24::name,decimal b] := by
    rcases kind with ⟨rfl,_⟩ | ⟨rfl,_⟩
    · exact changeCommand_args (by decide) (by decide) spaceless b
    · exact changeCommand_args (by decide) (by decide) spaceless b
  obtain ⟨_,noDot,noDollar⟩ := command_no_prefix args (by rcases kind with ⟨rfl,_⟩ | ⟨rfl,_⟩ <;> decide)
    (by rcases kind with ⟨rfl,_⟩ | ⟨rfl,_⟩ <;> decide)
  refine ⟨⟨s.vars.names,Function.update s.vars.values i (intToStr (int32 (op a b))),s.vars.variableCount⟩,?_,?_⟩
  · rw [processSingleCommand,if_neg noDot,if_neg noDollar,args]
    have ran : runCommand k rounds s (changeCommand command name b) command [command,0x24::name,decimal b] =
        edited s ({s.vars with values := Function.update s.vars.values i (intToStr (int32 (op a b)))},[]) := by
      rcases kind with ⟨rfl,rfl⟩ | ⟨rfl,rfl⟩
      · exact congrArg (edited s) (changeBy_decimals _ _ found there smallA smallB)
      · exact congrArg (edited s) (changeBy_decimals _ _ found there smallA smallB)
    dsimp only
    rw [ran]
    rfl
  · rw [valueOf]
    change (findVariable s.vars name).map (Function.update s.vars.values i _) = _
    rw [found,Option.map_some,Function.update_self]

-- add leaves the form of the sum, and sub behind it the old one again.
def AddsThenRestores (s : Session σ) (name : Str) (a b : Int) : Prop :=
  ∃ result t outs, processSingleCommand k run rounds s (changeCommand (bytes "add") name b) = some (result,t,outs) ∧
    valueOf t.vars name = some (decimal (a + b)) ∧
    Leaves (processSingleCommand k run rounds t (changeCommand (bytes "sub") name b)) name (decimal a)

theorem adds_then_restores_iff (spaceless : 0x20 ∉ name) (held : valueOf s.vars name = some (decimal a)) (smallA : Fits32 a)
    (smallB : Fits32 b) (smallSum : Fits32 (a + b)) :
    AddsThenRestores k run rounds s name a b ↔ a ≠ -2^31 ∧ a + b ≠ -2^31 := by
  obtain ⟨w,added,sum⟩ := run_change k run rounds (.inl ⟨rfl,rfl⟩) spaceless held smallA smallB
  rw [smallSum.same] at sum
  have restored (printed : valueOf w name = some (decimal (a + b))) :
      ∃ u outs, processSingleCommand k run rounds {s with vars := w} (changeCommand (bytes "sub") name b) =
        done {s with vars := u} outs ∧ valueOf u name = some (intToStr a) := by
    obtain ⟨u,ran,value⟩ := run_change k run rounds (s := {s with vars := w}) (.inr ⟨rfl,rfl⟩) spaceless printed smallSum smallB
    rw [Int.add_sub_cancel,smallA.same] at value
    exact ⟨u,_,ran,value⟩
  constructor
  · rintro ⟨result,t,outs,ran,printed,result',u,outs',ran',value⟩
    rw [added] at ran
    cases ran
    change valueOf w name = some (decimal (a + b)) at printed
    obtain ⟨u',outs,ran,value'⟩ := restored printed
    rw [ran] at ran'
    cases ran'
    change valueOf u' name = some (decimal a) at value
    rw [value'] at value
    rw [sum] at printed
    exact ⟨(intToStr_decimal_iff smallA).mp (Option.some.inj value),(intToStr_decimal_iff smallSum).mp (Option.some.inj printed)⟩
  · rintro ⟨aPrints,sumPrints⟩
    rw [intToStr_decimal smallSum sumPrints] at sum
    obtain ⟨u,outs,ran,value⟩ := restored sum
    rw [intToStr_decimal smallA aPrints] at value
    exact ⟨_,_,_,added,sum,_,_,_,ran,value⟩

end

-- The least int is the one integer whose form cannot be read back: -val is itself again,
-- and the loop over the digits is not entered.
theorem decimals_kept_iff (v : Int) (small : Fits32 v) :
    ((isNumeric (intToStr v) = true ∧ strToInt (intToStr v) = v) ↔ v ≠ -2^31) ∧
    ∀ (σ : Type) (k : Kernel σ) run rounds (s : Session σ) name b, 0x20 ∉ name → valueOf s.vars name = some (decimal v) →
      Fits32 b → Fits32 (v + b) → (AddsThenRestores k run rounds s name v b ↔ v ≠ -2^31 ∧ v + b ≠ -2^31) :=
  ⟨round_trip_iff small,fun _ k run rounds _ _ _ spaceless held smallB smallSum =>
    adds_then_restores_iff k run rounds spaceless held small smallB smallSum⟩

theorem decimals_kept_iff_five :
    ((isNumeric (intToStr 5) = true ∧ strToInt (intToStr 5) = 5) ↔ (5 : Int) ≠ -2^31) ∧
    AddsThenRestores noDisk (fun s _ => done s []) 0 {shellStart () with vars := ⟨fun _ => bytes "X",fun _ => bytes "5",1⟩} (bytes "X") 5 (-7) :=
  ⟨(decimals_kept_iff 5 ⟨by decide,by decide⟩).1,
    ((decimals_kept_iff 5 ⟨by decide,by decide⟩).2 Unit noDisk _ 0 _ (bytes "X") (-7) (by decide) (by decide) ⟨by decide,by decide⟩
      ⟨by decide,by decide⟩).mpr ⟨by decide,by decide⟩⟩

theorem least_int_lost :
    ¬(isNumeric (intToStr (-2^31)) = true ∧ strToInt (intToStr (-2^31)) = -2^31) ∧
    ¬AddsThenRestores noDisk (fun s _ => done s []) 0
      {shellStart () with vars := ⟨fun _ => bytes "X",fun _ => bytes "-2147483647",1⟩} (bytes "X") (-2147483647) (-1) := by
  refine ⟨by decide,?_⟩
  intro restores
  have held : valueOf ⟨fun _ => bytes "X",fun _ => bytes "-2147483647",1⟩ (bytes "X") = some (decimal (-2147483647)) := by
    decide
  exact ((adds_then_restores_iff noDisk _ 0 (by decide) held ⟨by decide,by decide⟩ ⟨by decide,by decide⟩
    ⟨by decide,by decide⟩).mp restores).2 (by decide)

end SantOS.Shell
