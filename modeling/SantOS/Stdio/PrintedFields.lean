import SantOS.Stdio.RoundTrip

namespace SantOS.Stdio
open ByteMemory CStrings Decimals FormatStrings Printf Vga
open Shell (Fits32 isDigit isDigit_iff)

inductive Value where
  | int (n : Int)
  | word (text : Str)

def Value.field : Value → Field
  | .int n => .number (n < 0) (numeral 10 decimalSign n.natAbs)
  | .word text => .word text

-- The values that can be read back. The digits of the least int overflow before its sign is
-- looked at, and a word ends at the first blank.
def Value.Plain : Value → Prop
  | .int n => -2^31 < n ∧ n < 2^31
  | .word text => text ≠ [] ∧ ∀ c ∈ text, blank c = false ∧ Printable c

def Value.Given (args : Arguments) (n : Nat) : Value → Prop
  | .int v => args.int n = v
  | .word text => args.word n ≠ 0 ∧ args.text n = text

def Value.Held (m : Memory) (ptr : Nat) : Value → Prop
  | .int n => load m ptr 4 = (n % 2^32).toNat
  | .word text => Spells (fun i => m (ptr+i)) text

def Entry.shown (e : Entry) : Str := e.gap ++ e.field.text

theorem printable_no_rub (drawn : Printable c) : rubs c = false := by
  have other := drawn.plain.2.2.1
  have top := drawn.2
  refine Bool.or_eq_false_iff.mpr ⟨decide_eq_false other,decide_eq_false ?_⟩
  rintro rfl
  exact absurd top (by decide)

theorem decimal_signed (n : Int) : signedValue (n < 0) (numeral 10 decimalSign n.natAbs) = n := by
  rw [signedValue,value_numeral]
  by_cases negative : n < 0
  · rw [if_pos (decide_eq_true negative)]
    omega
  · rw [if_neg (by simpa using negative)]
    omega

theorem decimal_text (n : Int) : minus (n < 0) ++ numeral 10 decimalSign n.natAbs = decimal n := by
  by_cases negative : n < 0
  · rw [decimal_negative negative,decide_eq_true negative]
    rfl
  · rw [decimal_nonnegative (Int.not_lt.mp negative),decide_eq_false negative]
    rfl

theorem Value.held_field {v : Value} (held : v.field.Held m ptr) : v.Held m ptr := by
  cases v with
  | int n =>
    have number : signedValue (n < 0) (numeral 10 decimalSign n.natAbs) = n := decimal_signed n
    change load m ptr 4 = _ at held
    rwa [number] at held
  | word text => exact held

theorem decimal_types (above : -2^31 < n) (below : n < 2^31) (noDigit : isDigit stop = false) :
    Types stop (Value.int n).field (Value.int n).field.text := by
  have digits : ∀ c ∈ numeral 10 decimalSign n.natAbs, isDigit c = true :=
    fun c member => (isDigit_iff c).mpr (numeral_digits _ c member)
  have noRub : ∀ c ∈ numeral 10 decimalSign n.natAbs, rubs c = false :=
    fun c member => printable_no_rub (digit_facts (digits c member)).2.2
  have short := decimal_length ⟨Int.le_of_lt above,below⟩
  rw [decimal,List.length_append] at short
  have same : corrected 31 (numeral 10 decimalSign n.natAbs) = numeral 10 decimalSign n.natAbs :=
    corrected_plain noRub (by rw [List.length_nil]; omega)
  have typed : Types stop (.number (n < 0) (corrected 31 (numeral 10 decimalSign n.natAbs)))
      (minus (n < 0) ++ numeral 10 decimalSign n.natAbs) := by
    refine .number _ (fun c member => .inr (digits c member)) ?_ ?_ noDigit
    · rw [same]
      exact numeral_nonempty _ _ _
    · rw [same,value_numeral]
      omega
  rw [same] at typed
  exact typed

theorem Value.Plain.types {v : Value} (plain : v.Plain) (noDigit : isDigit stop = false)
    (ends : (blank stop || stop = 0) = true) :
    Types stop v.field v.field.text := by
  cases v with
  | int n => exact decimal_types plain.1 plain.2 noDigit
  | word text =>
    obtain ⟨some_,all⟩ := plain
    have same : corrected text.length text = text :=
      corrected_plain (fun c member => printable_no_rub (all c member).2) (by rw [List.length_nil]; omega)
    have typed : Types stop (.word (corrected text.length text)) text :=
      .word some_ (fun c member => ⟨(all c member).1,.inr (all c member).2⟩) ends
    rw [same] at typed
    exact typed

section
variable {format : Nat → UInt8} {args : Arguments}

variable (args) in
theorem print_gap {gap : Str} (all : ∀ c ∈ gap, blank c = true) (s : State) (here : Stands format s.i gap) :
    ∃ t, (∀ fuel, formatFrom format args (fuel + gap.length) s = formatFrom format args fuel t) ∧
      t.i = s.i + gap.length ∧ t.next = s.next ∧ t.out = s.out ++ gap := by
  induction gap generalizing s with
  | nil => exact ⟨s,fun _ => rfl,rfl,rfl,(List.append_nil _).symm⟩
  | cons c gap ih =>
    have first := all c List.mem_cons_self
    have nonzero : c ≠ 0 := by rintro rfl; exact absurd first (by decide)
    have noMark : c ≠ 0x25 := by rintro rfl; exact absurd first (by decide)
    obtain ⟨t,ran,place,next,out⟩ := ih (fun c member => all c (List.mem_cons_of_mem _ member)) (s.take (s.i+1) ⟨[c],1,0⟩ [s.i]) here.2
    refine ⟨t,fun fuel => ?_,?_,next,?_⟩
    · rw [List.length_cons,← Nat.add_assoc,step_other args here.1 nonzero noMark]
      exact ran fuel
    · rw [place,List.length_cons]
      exact Nat.add_right_comm ..
    · rw [out]
      exact List.append_assoc ..

theorem convert_value {v : Value} (given : v.Given args n) : convertPlain args n v.field.letter = ⟨v.field.text,1,1⟩ := by
  cases v with
  | int v =>
    have small : Fits32 (args.int n) := int32_small _
    have number : printInt (args.int n) = (Value.int v).field.text :=
      (printInt_decimal small).trans ((congrArg decimal given).trans (decimal_text v).symm)
    have chosen : convertPlain args n 0x64 = ⟨printInt (args.int n),1,1⟩ := by simp [convertPlain]
    exact chosen.trans (by rw [number])
  | word text =>
    obtain ⟨pointer,spelled⟩ := given
    have string : printStr args n = text := by rw [printStr,if_neg pointer,spelled]
    have chosen : convertPlain args n 0x73 = ⟨printStr args n,1,1⟩ := by simp [convertPlain]
    exact chosen.trans (by rw [string]; rfl)

variable (args) in
theorem format_entries {entries : List Entry} (blanks : ∀ e ∈ entries, ∀ c ∈ e.gap, blank c = true)
    (k : Nat) (given : ∀ i (inside : i < entries.length), ∃ v : Value, entries[i].field = v.field ∧ v.Given args (k+i))
    {s : State} (next : s.next = k)
    (here : Stands format s.i (entries.flatMap Entry.form ++ [0])) :
    ∃ t, (∀ fuel, formatFrom format args (fuel + 1 + rounds entries) s = some t) ∧ t.out = s.out ++ entries.flatMap Entry.shown := by
  induction entries generalizing s k with
  | nil =>
    refine ⟨{s with reads := s.i::s.reads},fun fuel => ?_,(List.append_nil _).symm⟩
    rw [rounds,List.map_nil,List.sum_nil,Nat.add_zero,formatFrom,here.1,if_pos rfl]
  | cons e entries ih =>
    rw [List.flatMap_cons,List.append_assoc,stands_append,Entry.form,stands_append] at here
    obtain ⟨⟨gapHere,fieldHere⟩,restHere⟩ := here
    obtain ⟨t,ran,place,next_,out⟩ := print_gap args (blanks e List.mem_cons_self) s gapHere
    have first : convertPlain args t.next e.field.letter = ⟨e.field.text,1,1⟩ := by
      obtain ⟨v,same,argument⟩ := given 0 (Nat.succ_pos _)
      change e.field = v.field at same
      rw [next_,next,same]
      exact convert_value argument
    rw [← place] at fieldHere
    have behind : s.i + (e.gap ++ [0x25,e.field.letter]).length = t.i + 2 := by
      rw [List.length_append,place]
      rfl
    rw [behind] at restHere
    obtain ⟨u,rest,out_⟩ := ih (fun e member => blanks e (List.mem_cons_of_mem _ member)) (k+1)
      (fun i inside => by
        have later := given (i+1) (Nat.succ_lt_succ inside)
        rwa [show k + (i+1) = k + 1 + i by omega] at later)
      (s := t.take (t.i+2) ⟨e.field.text,1,1⟩ [t.i+1,t.i]) (by rw [← next,← next_]; rfl) restHere
    refine ⟨u,fun fuel => ?_,?_⟩
    · have all : fuel + 1 + rounds (e::entries) = fuel + 1 + rounds entries + 1 + e.gap.length := by
        simp only [rounds,List.map_cons,List.sum_cons]
        omega
      rw [all,ran,step_letter args fieldHere,first]
      exact rest fuel
    · rw [out_,List.flatMap_cons]
      change (t.out ++ e.field.text) ++ _ = _
      rw [out,Entry.shown]
      simp only [List.append_assoc]

end

def line (gap : Str) (v : Value) : List Value → List Entry
  | [] => [⟨v.field,gap,[],v.field.text,0x0A⟩]
  | w::values => ⟨v.field,gap,[],v.field.text,0x20⟩::line [0x20] w values

theorem line_fields (gap : Str) (v : Value) (values : List Value) :
    (line gap v values).map Entry.field = (v::values).map Value.field := by
  induction values generalizing gap v with
  | nil => rfl
  | cons w values ih =>
    rw [line,List.map_cons,ih]
    rfl

theorem line_length (gap : Str) (v : Value) (values : List Value) : (line gap v values).length = (v::values).length := by
  have lengths := congrArg List.length (line_fields gap v values)
  rwa [List.length_map,List.length_map] at lengths

theorem line_field {gap : Str} {v : Value} {values : List Value} (inside : i < (v::values).length)
    (inside' : i < (line gap v values).length) :
    (line gap v values)[i].field = (v::values)[i].field := by
  have mapped : ((line gap v values).map Entry.field)[i]? = ((v::values).map Value.field)[i]? := by rw [line_fields]
  rw [List.getElem?_map,List.getElem?_map,List.getElem?_eq_getElem inside',List.getElem?_eq_getElem inside] at mapped
  exact Option.some.inj mapped

theorem line_blanks {gap : Str} (all : ∀ c ∈ gap, blank c = true) (v : Value) (values : List Value) :
    ∀ e ∈ line gap v values, ∀ c ∈ e.gap, blank c = true := by
  induction values generalizing gap v with
  | nil => exact List.forall_mem_singleton.mpr all
  | cons w values ih => exact List.forall_mem_cons.mpr ⟨all,ih space_blank w⟩

theorem line_typed {gap : Str} (all : ∀ c ∈ gap, blank c = true) {v : Value} {values : List Value}
    (plain : ∀ w ∈ v::values, w.Plain) :
    ∀ e ∈ line gap v values, e.Typed := by
  induction values generalizing gap v with
  | nil =>
    refine List.forall_mem_singleton.mpr ⟨all,none_blank,rfl,?_⟩
    exact (plain v List.mem_cons_self).types rfl rfl
  | cons w values ih =>
    refine List.forall_mem_cons.mpr ⟨⟨all,none_blank,rfl,?_⟩,?_⟩
    · exact (plain v List.mem_cons_self).types rfl rfl
    · exact ih space_blank fun u member => plain u (List.mem_cons_of_mem _ member)

theorem line_spent (gap : Str) (v : Value) (values : List Value) :
    gap ++ (line gap v values).flatMap Entry.spent = (line gap v values).flatMap Entry.shown ++ [0x0A] := by
  induction values generalizing gap v with
  | nil => simp [line,Entry.spent,Entry.shown]
  | cons w values ih =>
    have rest := ih [0x20] w
    rw [line,List.flatMap_cons,List.flatMap_cons,List.append_assoc,← rest]
    simp [Entry.spent,Entry.shown]

-- What printf prints on a line, typed again, is read back by scanf with the same format.
theorem scanf_reads_printf {format : Nat → UInt8} {args : Arguments} {v : Value} {values : List Value}
    (plain : ∀ w ∈ v::values, w.Plain)
    (given : ∀ i (inside : i < (v::values).length), (v::values)[i].Given args i)
    (here : Stands format 0 ((line [] v values).flatMap Entry.form ++ [0]))
    {pointers : Nat → Nat} (apart : Apart pointers (line [] v values)) (m : Memory) (keys : Str) :
    ∃ out, Prints (printf format args) out ∧
      ∃ bound t, (∀ fuel > bound, scanf format pointers m (out ++ 0x0A::keys) fuel = some t) ∧ t.count = (v::values).length ∧
        t.keys = keys ∧ ∀ i (inside : i < (v::values).length), (v::values)[i].Held t.memory (pointers i) := by
  have length := line_length [] v values
  have arguments : ∀ i (inside : i < (line [] v values).length), ∃ w : Value, (line [] v values)[i].field = w.field ∧ w.Given args (0+i) := by
    intro i inside
    rw [length] at inside
    refine ⟨(v::values)[i],line_field inside (length ▸ inside),?_⟩
    rw [Nat.zero_add]
    exact given i inside
  obtain ⟨u,printed,out⟩ := format_entries args (line_blanks none_blank v values) 0 arguments (s := start) rfl here
  obtain ⟨t,ran,reads⟩ := scan_typed (line_typed none_blank plain) apart m keys here
  have text : start.out ++ (line [] v values).flatMap Entry.shown = (line [] v values).flatMap Entry.shown := rfl
  rw [text] at out
  have typed := line_spent [] v values
  rw [List.nil_append] at typed
  refine ⟨_,⟨1 + rounds (line [] v values),fun fuel enough => ⟨u,?_,out⟩⟩,((line [] v values).flatMap Entry.form).length,t,?_,
    reads.count.trans length,reads.keys,?_⟩
  · obtain ⟨more,rfl⟩ : ∃ more, fuel = more + 1 + rounds (line [] v values) := ⟨fuel - 1 - rounds (line [] v values),by omega⟩
    exact printed more
  · intro fuel enough
    rw [typed,List.append_assoc] at ran
    exact ran fuel enough
  · intro i inside
    have held := reads.held i (length ▸ inside)
    rw [line_field inside (length ▸ inside)] at held
    exact Value.held_field held

def twoArguments : Arguments := ⟨fun n => if n = 0 then 0xFFFFFFF9 else 0x1000,fun _ => [0x61,0x62],fun _ _ => []⟩

theorem scanf_reads_printf_two :
    ∃ out, Prints (printf (literal (bytes "%d %s")) twoArguments) out ∧
      ∃ bound t, (∀ fuel > bound, scanf (literal (bytes "%d %s")) (fun i => 0x100 + 8*i) (fun _ => 0) (out ++ 0x0A::[]) fuel = some t) ∧
        t.count = 2 ∧ t.keys = [] ∧
        ∀ i (inside : i < [Value.int (-7),.word [0x61,0x62]].length),
          [Value.int (-7),.word [0x61,0x62]][i].Held t.memory (0x100 + 8*i) := by
  have spells : Spells (literal (bytes "%d %s")) ((line [] (.int (-7)) [.word [0x61,0x62]]).flatMap Entry.form) :=
    literal_spells (bytes "%d %s") (by decide)
  have plain : ∀ v ∈ [Value.int (-7),.word [0x61,0x62]], v.Plain := by
    refine List.forall_mem_cons.mpr ⟨⟨by decide,by decide⟩,List.forall_mem_singleton.mpr ⟨List.cons_ne_nil _ _,?_⟩⟩
    intro c member
    rcases List.mem_cons.mp member with rfl | last
    · exact ⟨rfl,by decide,by decide⟩
    · rw [List.mem_singleton.mp last]
      exact ⟨rfl,by decide,by decide⟩
  have small : ∀ e ∈ line [] (.int (-7)) [.word [0x61,0x62]], e.area ≤ 8 := by decide
  refine scanf_reads_printf plain ?_ (spells_stands spells) (spread_apart small) (fun _ => 0) []
  intro i inside
  rcases i with _ | _ | i
  · exact (by decide : twoArguments.int 0 = -7)
  · exact ⟨by decide,rfl⟩
  · exact absurd inside (by simp)

end SantOS.Stdio
