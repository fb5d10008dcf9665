import SantOS.Printf.Integers
import SantOS.Stdio.Echoes

namespace SantOS.Stdio
open ByteMemory CStrings Decimals FormatStrings Printf Vga
open Shell (int32 isDigit isDigit_iff digitsToInt digitsToInt_value Fits32)

-- A field as scanf knows it: a number by its sign and its digits, or a word.
inductive Field where
  | number (negative : Bool) (digits : Str)
  | word (text : Str)

def minus (negative : Bool) : Str := if negative then [0x2D] else []

def signedValue (negative : Bool) (digits : Str) : Int := if negative then -(value digits : Int) else value digits

def Field.letter : Field → UInt8
  | .number _ _ => 0x64
  | .word _ => 0x73

def Field.text : Field → Str
  | .number negative digits => minus negative ++ digits
  | .word text => text

def Field.Held (m : Memory) (ptr : Nat) : Field → Prop
  | .number negative digits => load m ptr 4 = (signedValue negative digits % 2^32).toNat
  | .word text => Spells (fun i => m (ptr+i)) text

-- A field in a format behind blanks, and the keys typed for it: blanks, the keys of the
-- field with their corrections, and the key that ends it.
structure Entry where
  field : Field
  gap : Str
  blanks : Str
  keys : Str
  stop : UInt8

def Entry.form (e : Entry) : Str := e.gap ++ [0x25,e.field.letter]
def Entry.spent (e : Entry) : Str := e.blanks ++ (e.keys ++ [e.stop])

-- The bytes at the pointer that the field may change.
def Entry.area (e : Entry) : Nat :=
  match e.field with
  | .number _ _ => 4
  | .word _ => e.keys.length + 1

inductive Types (stop : UInt8) : Field → Str → Prop where
  | number (negative : Bool) (all : ∀ c ∈ keys, rubs c = true ∨ isDigit c = true) (someDigit : corrected 31 keys ≠ [])
      (fits : value (corrected 31 keys) < 2^31) (noDigit : isDigit stop = false) :
      Types stop (.number negative (corrected 31 keys)) (minus negative ++ keys)
  | word (someKey : keys ≠ []) (all : ∀ c ∈ keys, blank c = false ∧ (rubs c = true ∨ Printable c))
      (ends : (blank stop || stop = 0) = true) : Types stop (.word (corrected keys.length keys)) keys

structure Entry.Typed (e : Entry) : Prop where
  gap : ∀ c ∈ e.gap, blank c = true
  blanks : ∀ c ∈ e.blanks, blank c = true
  noRub : rubs e.stop = false
  types : Types e.stop e.field e.keys

structure After (pointers : Nat → Nat) (e : Entry) (rest : Str) (s t : Scan) : Prop where
  place : t.i = s.i + e.form.length
  next : t.next = s.next + 1
  keys : t.keys = rest
  count : t.count = s.count + 1
  held : e.field.Held t.memory (pointers s.next)
  others : ∀ a, (a < pointers s.next ∨ pointers s.next + e.area ≤ a) → t.memory a = s.memory a
  echo : ∃ echo, t.echo = s.echo ++ echo ∧ Echoes echo e.field.text e.keys.length

theorem digit_facts (digit : isDigit c = true) : blank c = false ∧ c ≠ 0x2D ∧ Printable c := by
  unfold isDigit at digit
  simp only [Bool.and_eq_true,decide_eq_true_eq] at digit
  obtain ⟨low,high⟩ := digit
  simp only [blank,Printable,UInt8.le_iff_toNat_le,← UInt8.toNat_inj,Bool.or_eq_false_iff,decide_eq_false_iff_not,ne_eq] at low high ⊢
  simp at low high ⊢
  omega

theorem rub_facts (rub : rubs c = true) : blank c = false ∧ c ≠ 0x2D ∧ c ≠ 0 := by
  rcases Bool.or_eq_true_iff.mp rub with eight | delete
  · rw [show c = 8 by simpa using eight]; decide
  · rw [show c = 127 by simpa using delete]; decide

theorem printable_facts (drawn : Printable c) : c ≠ 0 := by
  rintro rfl
  exact absurd drawn.1 (by decide)

theorem none_blank : ∀ c ∈ ([] : Str), blank c = true := fun _ member => absurd member List.not_mem_nil

theorem space_blank : ∀ c ∈ [(0x20 : UInt8)], blank c = true := List.forall_mem_singleton.mpr rfl

theorem Types.first (types : Types stop f keys) : ∃ c more, keys = c::more ∧ blank c = false := by
  cases types with
  | @number keys negative all someDigit fits noDigit =>
    cases keys with
    | nil => exact absurd rfl someDigit
    | cons c keys =>
      unfold minus
      split
      · exact ⟨0x2D,c::keys,rfl,by decide⟩
      · refine ⟨c,keys,rfl,?_⟩
        exact (all c List.mem_cons_self).elim (fun rub => (rub_facts rub).1) (fun digit => (digit_facts digit).1)
  | word someKey all ends =>
    obtain ⟨c,more,same⟩ := List.exists_cons_of_ne_nil someKey
    exact ⟨c,more,same,(all c (by rw [same]; exact List.mem_cons_self)).1⟩

theorem corrected_plain {limit : Nat} {keys : Str} (noRub : ∀ c ∈ keys, rubs c = false)
    (room : text.length + keys.length ≤ limit) :
    keys.foldl (pressed limit) text = text ++ keys := by
  induction keys generalizing text with
  | nil => rw [List.append_nil]; rfl
  | cons c keys ih =>
    rw [List.length_cons] at room
    have step : pressed limit text c = text ++ [c] := by
      rw [pressed,noRub c List.mem_cons_self,if_neg (by decide),if_pos (by omega)]
    rw [List.foldl_cons,step,ih (fun c member => noRub c (List.mem_cons_of_mem _ member))
      (by rw [List.length_append,List.length_singleton]; omega),List.append_assoc]
    rfl

theorem typed_members {limit : Nat} {keys text : Str} (member : c ∈ keys.foldl (pressed limit) text) :
    c ∈ text ∨ c ∈ keys ∧ rubs c = false := by
  induction keys generalizing text with
  | nil => exact .inl member
  | cons b keys ih =>
    rcases ih member with inside | ⟨later,noRub⟩
    · unfold pressed at inside
      split at inside
      · exact .inl (List.mem_of_mem_dropLast inside)
      · next noRub =>
        split at inside
        · rcases List.mem_append.mp inside with old | last
          · exact .inl old
          · rw [List.mem_singleton.mp last]
            exact .inr ⟨List.mem_cons_self,Bool.not_eq_true _ ▸ noRub⟩
        · exact .inl inside
    · exact .inr ⟨List.mem_cons_of_mem _ later,noRub⟩

theorem corrected_digits {keys : Str} (all : ∀ c ∈ keys, rubs c = true ∨ isDigit c = true) :
    ∀ c ∈ corrected 31 keys, isDigit c = true := by
  intro c member
  rcases typed_members member with none | ⟨inside,noRub⟩
  · cases none
  · exact (all c inside).resolve_left (by rw [noRub]; decide)

theorem minus_echoes (negative : Bool) : Echoes (minus negative) (minus negative) (minus negative).length := by
  cases negative with
  | false => exact Echoes.nothing
  | true =>
    have drawn : ∀ c ∈ [(0x2D : UInt8)], rubs c = true ∨ Printable c := by
      intro c member
      rw [List.mem_singleton.mp member]
      exact .inr ⟨by decide,by decide⟩
    exact typed_echoes 1 drawn

theorem number_value {digits : Str} (all : ∀ c ∈ digits, isDigit c = true) (fits : value digits < 2^31) (negative : Bool) :
    (if negative = true then int32 (-digitsToInt digits) else digitsToInt digits) = signedValue negative digits := by
  have plain : Fits32 (value digits) := ⟨by omega,by omega⟩
  have read : digitsToInt digits = value digits :=
    (digitsToInt_value fun c member => (isDigit_iff c).mp (all c member)).trans plain.same
  rw [read]
  cases negative with
  | false => rfl
  | true => exact Fits32.same ⟨by omega,by omega⟩

-- Only the sign itself is read as one: no other key in front of a number is a minus.
theorem sign_read {keys : Str} (negative : Bool) (all : ∀ c ∈ keys, rubs c = true ∨ isDigit c = true)
    (lone : negative = false → keys = [] → stop ≠ 0x2D) (rest : Str) :
    ((minus negative ++ keys) ++ stop::rest).head? = some 0x2D ↔ negative = true := by
  cases negative with
  | true => exact ⟨fun _ => rfl,fun _ => rfl⟩
  | false =>
    cases keys with
    | nil =>
      have other := lone rfl rfl
      simp [minus,other]
    | cons c keys =>
      have other : c ≠ 0x2D :=
        (all c List.mem_cons_self).elim (fun rub => (rub_facts rub).2.1) (fun digit => (digit_facts digit).2.1)
      simp [minus,other]

-- %d reads the sign, the digits with their corrections and the key that ends them, and goes
-- on if a digit is left.
theorem scanInt_read {keys : Str} (negative : Bool) (all : ∀ c ∈ keys, rubs c = true ∨ isDigit c = true)
    (lone : negative = false → keys = [] → stop ≠ 0x2D) (noRub : rubs stop = false) (noDigit : isDigit stop = false)
    (ptr : Nat) (s : Scan) (rest : Str) :
    scanInt ptr {s with keys := (minus negative ++ keys) ++ stop::rest} = some (
      if (corrected 31 keys).length = 0 then
        (false,{s with keys := rest,echo := s.echo ++ (minus negative ++ echoed 31 [] keys)})
      else
        let number := if negative = true then int32 (-digitsToInt (corrected 31 keys)) else digitsToInt (corrected 31 keys)
        (true,{s with
          keys := rest
          echo := s.echo ++ (minus negative ++ echoed 31 [] keys)
          memory := store s.memory ptr 4 (number % 2^32).toNat
          count := s.count + 1})) := by
  have loop := readDigits_spec all noRub noDigit [] (s.echo ++ minus negative) rest
  rw [List.append_assoc s.echo] at loop
  unfold scanInt
  dsimp only
  simp only [sign_read negative all lone rest]
  cases negative with
  | true =>
    have signText : minus true = [0x2D] := rfl
    rw [signText] at loop ⊢
    rw [if_pos rfl,if_pos rfl,List.append_assoc,List.singleton_append,List.tail_cons,loop,Option.map_some]
    rfl
  | false =>
    have signText : minus false = [] := rfl
    rw [signText,List.append_nil] at loop
    rw [signText,List.nil_append,if_neg (by decide),if_neg (by decide),loop,Option.map_some]
    rfl

theorem scanInt_spec {digits keys : Str} (types : Types stop (.number negative digits) keys) (noRub : rubs stop = false)
    (ptr : Nat) (s : Scan) (rest : Str) :
    ∃ echo, scanInt ptr {s with keys := keys ++ stop::rest} = some (true,{s with
        keys := rest
        echo := s.echo ++ echo
        memory := store s.memory ptr 4 (signedValue negative digits % 2^32).toNat
        count := s.count + 1}) ∧ Echoes echo (minus negative ++ digits) keys.length := by
  cases types with
  | @number keys negative all someDigit fits noDigit =>
    have long : ¬ (corrected 31 keys).length = 0 := fun empty => someDigit (List.length_eq_zero_iff.mp empty)
    have lone : negative = false → keys = [] → stop ≠ 0x2D := fun _ noKey => absurd (by rw [noKey]; rfl) someDigit
    have number := number_value (corrected_digits all) fits negative
    have shown := (minus_echoes negative).append (Nat.le_refl _) (typed_echoes 31 (fun c member =>
      (all c member).imp id (fun digit => (digit_facts digit).2.2)))
    refine ⟨minus negative ++ echoed 31 [] keys,?_,by rw [List.length_append]; exact shown⟩
    rw [scanInt_read negative all lone noRub noDigit,if_neg long,number]

-- Keys that come to no number: whatever is typed, no digit is left when another key comes.
structure NoNumber (stop : UInt8) (negative : Bool) (keys : Str) : Prop where
  all : ∀ c ∈ keys, rubs c = true ∨ isDigit c = true
  empty : corrected 31 keys = []
  noRub : rubs stop = false
  noDigit : isDigit stop = false
  lone : negative = false → keys = [] → blank stop = false ∧ stop ≠ 0x2D

theorem NoNumber.first (none : NoNumber stop negative keys) (rest : Str) :
    ∃ c more, (minus negative ++ keys) ++ stop::rest = c::more ∧ blank c = false := by
  cases negative with
  | true => exact ⟨0x2D,keys ++ stop::rest,rfl,by decide⟩
  | false =>
    cases keys with
    | nil => exact ⟨stop,rest,rfl,(none.lone rfl rfl).1⟩
    | cons c keys =>
      refine ⟨c,keys ++ stop::rest,rfl,?_⟩
      exact (none.all c List.mem_cons_self).elim (fun rub => (rub_facts rub).1) (fun digit => (digit_facts digit).1)

theorem scanInt_stops (none : NoNumber stop negative keys) (ptr : Nat) (s : Scan) (rest : Str) :
    scanInt ptr {s with keys := (minus negative ++ keys) ++ stop::rest} =
      some (false,{s with keys := rest,echo := s.echo ++ (minus negative ++ echoed 31 [] keys)}) := by
  rw [scanInt_read negative none.all (fun plain noKey => (none.lone plain noKey).2) none.noRub none.noDigit,none.empty]
  rfl

theorem scanString_spec {text keys : Str} (types : Types stop (.word text) keys) (noRub : rubs stop = false)
    (ptr : Nat) (s : Scan) (rest : Str) :
    ∃ echo m, scanString ptr {s with keys := keys ++ stop::rest} = some (true,{s with
        keys := rest
        echo := s.echo ++ echo
        memory := m
        count := s.count + 1}) ∧ Echoes echo text keys.length ∧ Spells (fun i => m (ptr+i)) text ∧
      ∀ a, a < ptr ∨ ptr + (keys.length + 1) ≤ a → m a = s.memory a := by
  cases types with
  | word someKey all ends =>
    have nonzero : ∀ c ∈ keys, c ≠ 0 := fun c member =>
      (all c member).2.elim (fun rub => (rub_facts rub).2.2) printable_facts
    have empty : Starts (fun i => s.memory (ptr+i)) [] := fun i inside => absurd inside (Nat.not_lt_zero i)
    obtain ⟨m,ran,starts,outside⟩ := readWord_spec (fun c member => ⟨(all c member).1,nonzero c member⟩) noRub ends empty
      (Nat.le_of_eq (Nat.zero_add _)) s.echo rest
    change readWord ptr 0 s.memory s.echo _ = _ at ran
    rw [List.length_nil,Nat.add_zero] at outside
    have short := typed_length keys.length keys []
    rw [List.length_nil,Nat.zero_add] at short
    refine ⟨echoed keys.length [] keys,Function.update m (ptr + (corrected keys.length keys).length) 0,?_,
      typed_echoes _ (fun c member => (all c member).2),?_,?_⟩
    · rw [scanString,ran]
      rfl
    · have shifted : (fun i => Function.update m (ptr + (corrected keys.length keys).length) 0 (ptr+i)) =
          Function.update (fun i => m (ptr+i)) (corrected keys.length keys).length 0 := by
        funext i
        by_cases same : i = (corrected keys.length keys).length
        · rw [same,Function.update_self,Function.update_self]
        · rw [Function.update_of_ne (by omega),Function.update_of_ne same]
      rw [shifted]
      refine starts.ended ?_
      intro zero
      rcases typed_members zero with none | ⟨member,_⟩
      · cases none
      · exact nonzero 0 member rfl
    · intro a apart
      have inside : (corrected keys.length keys).length ≤ keys.length := short
      rw [Function.update_of_ne (by omega)]
      exact outside a (by omega)

theorem scanLetter_spec {e : Entry} (typed : e.Typed) (pointers : Nat → Nat) (s : Scan) (rest : Str) :
    ∃ t, scanLetter pointers e.field.letter {s with keys := e.keys ++ e.stop::rest} = some (true,t) ∧ t.i = s.i ∧
      t.next = s.next + 1 ∧ t.keys = rest ∧ t.count = s.count + 1 ∧ e.field.Held t.memory (pointers s.next) ∧
      (∀ a, (a < pointers s.next ∨ pointers s.next + e.area ≤ a) → t.memory a = s.memory a) ∧
      ∃ echo, t.echo = s.echo ++ echo ∧ Echoes echo e.field.text e.keys.length := by
  obtain ⟨field,gap,blanks,keys,stop⟩ := e
  obtain ⟨_,_,noRub,types⟩ := typed
  dsimp only at noRub types ⊢
  cases field with
  | number negative digits =>
    obtain ⟨echo,ran,shown⟩ := scanInt_spec types noRub (pointers s.next) {s with next := s.next + 1} rest
    refine ⟨_,ran,rfl,rfl,rfl,rfl,?_,fun a apart => store_outside _ apart,echo,rfl,shown⟩
    have word : (signedValue negative digits % 2^32).toNat < 256^4 := by omega
    exact (load_store_same ..).trans (Nat.mod_eq_of_lt word)
  | word text =>
    obtain ⟨echo,m,ran,shown,spells,outside⟩ := scanString_spec types noRub (pointers s.next) {s with next := s.next + 1} rest
    exact ⟨_,ran,rfl,rfl,rfl,rfl,spells,outside,echo,rfl,shown⟩

theorem scan_gap {format : Nat → UInt8} {pointers : Nat → Nat} {gap : Str} (all : ∀ c ∈ gap, blank c = true) (s : Scan)
    (here : Stands format s.i gap) (fuel : Nat) :
    scanFrom format pointers (fuel + gap.length) s = scanFrom format pointers fuel {s with i := s.i + gap.length} := by
  induction gap generalizing s with
  | nil => rfl
  | cons c gap ih =>
    obtain ⟨first,later⟩ := here
    have here := all c List.mem_cons_self
    have nonzero : c ≠ 0 := by rintro rfl; exact absurd here (by decide)
    have noMark : c ≠ 0x25 := by rintro rfl; exact absurd here (by decide)
    have rest := ih (fun c member => all c (List.mem_cons_of_mem _ member)) {s with i := s.i + 1} later
    rw [List.length_cons,← Nat.add_assoc,scanFrom,first,if_neg nonzero,if_neg noMark,if_pos here,rest]
    simp only [Nat.add_assoc,Nat.add_comm 1]

theorem scan_entry {format : Nat → UInt8} {e : Entry} (typed : e.Typed) (pointers : Nat → Nat) {s : Scan}
    (here : Stands format s.i e.form) (keys : s.keys = e.spent ++ rest) :
    ∃ t, After pointers e rest s t ∧
      ∀ fuel, scanFrom format pointers (fuel + 1 + e.gap.length) s = scanFrom format pointers fuel t := by
  obtain ⟨gapHere,mark,letter,_⟩ := (stands_append e.gap _).mp here
  obtain ⟨first,more,same,noBlank⟩ := typed.types.first
  have skipped : skipBlanks s.keys = some (e.keys ++ e.stop::rest) := by
    rw [keys,Entry.spent,List.append_assoc,List.append_assoc,same]
    exact skipBlanks_spec typed.blanks noBlank _
  obtain ⟨t,ran,i,next,left_,count,held,others,echo⟩ :=
    scanLetter_spec typed pointers {s with i := s.i + e.gap.length + 2} rest
  refine ⟨t,⟨?_,next,left_,count,held,others,echo⟩,fun fuel => ?_⟩
  · rw [i,Entry.form,List.length_append]
    rfl
  · rw [scan_gap typed.gap s gapHere,scanFrom,mark,if_neg (by decide),if_pos rfl]
    change (skipBlanks s.keys).bind _ = _
    rw [skipped,Option.bind_some,letter]
    change (scanLetter pointers e.field.letter {s with i := s.i + e.gap.length + 2,keys := e.keys ++ e.stop::rest}).bind _ = _
    rw [ran]
    rfl

theorem Field.Held.keep {m t : Memory} {e : Entry} (typed : e.Typed) (held : e.field.Held m ptr)
    (same : ∀ a, ptr ≤ a → a < ptr + e.area → t a = m a) : e.field.Held t ptr := by
  obtain ⟨field,gap,blanks,keys,stop⟩ := e
  obtain ⟨_,_,_,types⟩ := typed
  dsimp only at types same held ⊢
  cases types with
  | number =>
    refine Eq.trans (load_congr fun i inside => ?_) held
    exact same _ (Nat.le_add_right _ _) (Nat.add_lt_add_left inside ptr)
  | word someKey all ends =>
    have short := typed_length keys.length keys []
    rw [List.length_nil,Nat.zero_add] at short
    have inside : (corrected keys.length keys).length ≤ keys.length := short
    exact Spells.congr held fun i le => same _ (Nat.le_add_right _ _) (by simp only [Entry.area]; omega)

theorem Entry.Typed.text_short {e : Entry} (typed : e.Typed) : e.field.text.length ≤ e.keys.length := by
  obtain ⟨field,gap,blanks,keys,stop⟩ := e
  obtain ⟨_,_,_,types⟩ := typed
  dsimp only at types ⊢
  cases types with
  | @number keys negative all someDigit fits noDigit =>
    have short := typed_length 31 keys []
    rw [List.length_nil,Nat.zero_add] at short
    change (minus negative ++ _).length ≤ _
    rw [List.length_append,List.length_append]
    exact Nat.add_le_add_left short _
  | word someKey all ends =>
    have short := typed_length keys.length keys []
    rw [List.length_nil,Nat.zero_add] at short
    exact short

def Apart (pointers : Nat → Nat) (entries : List Entry) : Prop :=
  ∀ i j (one : i < entries.length) (two : j < entries.length), i ≠ j →
    pointers i + entries[i].area ≤ pointers j ∨ pointers j + entries[j].area ≤ pointers i

theorem spread_apart {entries : List Entry} (small : ∀ e ∈ entries, e.area ≤ size) :
    Apart (fun i => base + size*i) entries := by
  have before : ∀ i j (one : i < entries.length), i < j → base + size*i + entries[i].area ≤ base + size*j := by
    intro i j one below
    have room := small _ (List.getElem_mem one)
    have further := Nat.mul_le_mul_left size (Nat.succ_le_of_lt below)
    rw [Nat.mul_succ] at further
    omega
  intro i j one two other
  rcases Nat.lt_or_gt_of_ne other with below | above
  · exact .inl (before i j one below)
  · exact .inr (before j i two above)

def rounds (entries : List Entry) : Nat := (entries.map fun e => 1 + e.gap.length).sum

theorem rounds_length (entries : List Entry) : rounds entries ≤ (entries.flatMap Entry.form).length := by
  induction entries with
  | nil => exact Nat.le_refl _
  | cons e entries ih =>
    rw [rounds,List.map_cons,List.sum_cons,List.flatMap_cons,List.length_append,Entry.form,List.length_append]
    change (entries.map _).sum ≤ _ at ih
    have pair : [0x25,e.field.letter].length = 2 := rfl
    omega

theorem scan_entries {format : Nat → UInt8} {pointers : Nat → Nat} {entries : List Entry} (typed : ∀ e ∈ entries, e.Typed)
    (k : Nat) (apart : Apart (fun i => pointers (k+i)) entries) {s : Scan} (next : s.next = k)
    (here : Stands format s.i (entries.flatMap Entry.form)) (keys : s.keys = entries.flatMap Entry.spent ++ rest) :
    ∃ t, (∀ fuel, scanFrom format pointers (fuel + rounds entries) s = scanFrom format pointers fuel t) ∧
      t.i = s.i + (entries.flatMap Entry.form).length ∧ t.count = s.count + entries.length ∧ t.keys = rest ∧
      (∀ i (inside : i < entries.length), entries[i].field.Held t.memory (pointers (k+i))) ∧
      (∀ a, (∀ i (inside : i < entries.length), a < pointers (k+i) ∨ pointers (k+i) + entries[i].area ≤ a) → t.memory a = s.memory a) ∧
      ∃ echo, t.echo = s.echo ++ echo ∧
        Echoes echo (entries.flatMap (fun e => e.field.text)) (entries.map (fun e => e.keys.length)).sum := by
  induction entries generalizing s k with
  | nil =>
    exact ⟨s,fun _ => rfl,rfl,rfl,keys,fun i no => absurd no (Nat.not_lt_zero i),fun _ _ => rfl,[],(List.append_nil _).symm,Echoes.nothing⟩
  | cons e entries ih =>
    have first := typed e List.mem_cons_self
    rw [List.flatMap_cons,stands_append] at here
    rw [List.flatMap_cons,List.append_assoc] at keys
    obtain ⟨t,after,step⟩ := scan_entry first pointers here.1 keys
    have place : ∀ i, k + 1 + i = k + (i+1) := fun i => by omega
    have apart' : Apart (fun i => pointers (k+1+i)) entries := by
      intro i j one two other
      simp only [place]
      exact apart (i+1) (j+1) (Nat.succ_lt_succ one) (Nat.succ_lt_succ two) (by omega)
    obtain ⟨u,ran,behind,count,left_,held,others,echo,echoed_,shown⟩ :=
      ih (fun e member => typed e (List.mem_cons_of_mem _ member))
      (k+1) apart' (by rw [after.next,next]) (by rw [after.place]; exact here.2) after.keys
    obtain ⟨one,echoedOne,shownOne⟩ := after.echo
    refine ⟨u,fun fuel => ?_,?_,?_,left_,?_,?_,one ++ echo,?_,?_⟩
    · have all : fuel + rounds (e::entries) = fuel + rounds entries + 1 + e.gap.length := by
        simp only [rounds,List.map_cons,List.sum_cons]
        omega
      rw [all,step]
      exact ran fuel
    · rw [behind,after.place,List.flatMap_cons,List.length_append,Nat.add_assoc]
    · rw [count,after.count,List.length_cons]
      omega
    · intro i inside
      cases i with
      | zero =>
        have here := after.held
        rw [next] at here
        refine Field.Held.keep first here fun a low high => others a fun i inside => ?_
        have away := apart 0 (i+1) (Nat.succ_pos _) (Nat.succ_lt_succ inside) (by omega)
        simp only [List.getElem_cons_zero,List.getElem_cons_succ,Nat.add_zero] at away
        simp only [List.getElem_cons_zero,Nat.add_zero] at low high
        rw [place]
        omega
      | succ i =>
        have later := held i (Nat.lt_of_succ_lt_succ inside)
        rw [place] at later
        exact later
    · intro a away
      refine (others a fun i inside => ?_).trans (after.others a ?_)
      · rw [place]
        exact away (i+1) (Nat.succ_lt_succ inside)
      · rw [next]
        exact away 0 (Nat.succ_pos _)
    · rw [echoed_,echoedOne,List.append_assoc s.echo]
    · rw [List.flatMap_cons,List.map_cons,List.sum_cons]
      exact shownOne.append first.text_short shown

-- What a call of scanf has done with the fields: their number, what stands behind the
-- pointers, the keys that are left, and a screen that shows the fields and the last echo.
structure Reads (pointers : Nat → Nat) (m : Memory) (entries : List Entry) (rest last : Str) (t : Scan) : Prop where
  count : t.count = entries.length
  keys : t.keys = rest
  held : ∀ i (inside : i < entries.length), entries[i].field.Held t.memory (pointers i)
  others : ∀ a, (∀ i (inside : i < entries.length), a < pointers i ∨ pointers i + entries[i].area ≤ a) → t.memory a = m a
  echo : ∃ echo, t.echo = echo ++ last ∧
    Echoes echo (entries.flatMap (fun e => e.field.text)) (entries.map (fun e => e.keys.length)).sum

section Calls
variable {format : Nat → UInt8} {pointers : Nat → Nat} {entries : List Entry} (typed : ∀ e ∈ entries, e.Typed)
  (apart : Apart pointers entries) (m : Memory) (rest : Str)
include typed apart

theorem scan_started (here : Stands format 0 (entries.flatMap Entry.form)) :
    ∃ t, (∀ fuel, scanf format pointers m (entries.flatMap Entry.spent ++ rest) (fuel + rounds entries) = scanFrom format pointers fuel t) ∧
      t.i = (entries.flatMap Entry.form).length ∧ Reads pointers m entries rest [] t := by
  have same : (fun i => pointers (0+i)) = pointers := funext fun i => congrArg pointers (Nat.zero_add i)
  obtain ⟨t,ran,place,count,left_,held,others,echo⟩ := scan_entries typed 0 (by rw [same]; exact apart)
    (s := ⟨0,0,entries.flatMap Entry.spent ++ rest,[],m,0⟩) rfl here rfl
  simp only [Nat.zero_add] at place count held others
  exact ⟨t,ran,place,count,left_,held,others,by simpa using echo⟩

theorem scan_typed (here : Stands format 0 (entries.flatMap Entry.form ++ [0])) :
    ∃ t, (∀ fuel > (entries.flatMap Entry.form).length, scanf format pointers m (entries.flatMap Entry.spent ++ rest) fuel = some t) ∧
      Reads pointers m entries rest [0x0A] t := by
  rw [stands_append] at here
  obtain ⟨t,ran,place,reads⟩ := scan_started typed apart m rest here.1
  obtain ⟨echo,same,shown⟩ := reads.echo
  rw [List.append_nil] at same
  refine ⟨{t with echo := t.echo ++ [0x0A]},fun fuel enough => ?_,reads.count,reads.keys,reads.held,reads.others,echo,by rw [same],shown⟩
  have bound := rounds_length entries
  have nul : format t.i = 0 := by
    have last := here.2.1
    rwa [Nat.zero_add,← place] at last
  obtain ⟨more,rfl⟩ : ∃ more, fuel = more + 1 + rounds entries := ⟨fuel - 1 - rounds entries,by omega⟩
  rw [ran,scanFrom,nul,if_pos rfl]

-- A conversion %d without a digit ends the call: the fields before it are read, nothing is
-- stored for it, and the newline is left out.
theorem scanf_stops {gap blanks keys : Str} (here : Stands format 0 (entries.flatMap Entry.form ++ (gap ++ [0x25,0x64])))
    (gapBlank : ∀ c ∈ gap, blank c = true) (allBlank : ∀ c ∈ blanks, blank c = true) (none : NoNumber stop negative keys) :
    ∃ t, (∀ fuel > (entries.flatMap Entry.form).length + gap.length,
        scanf format pointers m (entries.flatMap Entry.spent ++ (blanks ++ ((minus negative ++ keys) ++ stop::rest))) fuel = some t) ∧
      Reads pointers m entries rest (minus negative ++ echoed 31 [] keys) t := by
  rw [stands_append] at here
  obtain ⟨t,ran,place,reads⟩ := scan_started typed apart m (blanks ++ ((minus negative ++ keys) ++ stop::rest)) here.1
  obtain ⟨echo,same,shown⟩ := reads.echo
  rw [List.append_nil] at same
  have behind := here.2
  rw [Nat.zero_add,← place,stands_append] at behind
  obtain ⟨gapHere,mark,letter,_⟩ := behind
  obtain ⟨c,more,first,noBlank⟩ := none.first rest
  have skipped : skipBlanks t.keys = some ((minus negative ++ keys) ++ stop::rest) := by
    rw [reads.keys,first]
    exact skipBlanks_spec allBlank noBlank more
  refine ⟨{t with i := t.i + gap.length + 2,next := t.next + 1,keys := rest,echo := t.echo ++ (minus negative ++ echoed 31 [] keys)},
    fun fuel enough => ?_,reads.count,rfl,reads.held,reads.others,echo,by rw [same],shown⟩
  have bound := rounds_length entries
  obtain ⟨more_,rfl⟩ : ∃ more_, fuel = more_ + 1 + gap.length + rounds entries :=
    ⟨fuel - 1 - gap.length - rounds entries,by omega⟩
  rw [ran,scan_gap gapBlank t gapHere,scanFrom,mark,if_neg (by decide),if_pos rfl]
  change (skipBlanks t.keys).bind _ = _
  rw [skipped,Option.bind_some,letter]
  change (scanInt (pointers t.next) {t with i := t.i + gap.length + 2,next := t.next + 1,keys := (minus negative ++ keys) ++ stop::rest}).bind _ = _
  rw [scanInt_stops none (pointers t.next) {t with i := t.i + gap.length + 2,next := t.next + 1}]
  rfl

end Calls

theorem scanf_stops_at_letter :
    ∃ t, (∀ fuel > 3, scanf (literal (bytes "%d %d")) (fun i => 0x100 + 4*i) (fun _ => 0) [0x37,0x20,0x2D,0x78] fuel = some t) ∧
      Reads (fun i => 0x100 + 4*i) (fun _ => 0) [⟨.number false [0x37],[],[],[0x37],0x20⟩] [] [0x2D] t := by
  have spells : Spells (literal (bytes "%d %d")) [0x25,0x64,0x20,0x25,0x64] := literal_spells (bytes "%d %d") (by decide)
  have here := ((stands_append [0x25,0x64,0x20,0x25,0x64] [0]).mp (spells_stands spells)).1
  have digits : ∀ c ∈ [(0x37 : UInt8)], rubs c = true ∨ isDigit c = true := List.forall_mem_singleton.mpr (.inr rfl)
  have number : Types 0x20 (.number false [0x37]) [0x37] := .number false digits (List.cons_ne_nil _ _) (by decide) rfl
  have typed : ∀ e ∈ [(⟨.number false [0x37],[],[],[0x37],0x20⟩ : Entry)], e.Typed :=
    List.forall_mem_singleton.mpr ⟨none_blank,none_blank,rfl,number⟩
  have none : NoNumber 0x78 true [] := ⟨fun c member => absurd member List.not_mem_nil,rfl,rfl,rfl,fun plain => absurd plain (by decide)⟩
  have small : ∀ e ∈ [(⟨.number false [0x37],[],[],[0x37],0x20⟩ : Entry)], e.area ≤ 4 :=
    List.forall_mem_singleton.mpr (Nat.le_refl 4)
  exact scanf_stops typed (spread_apart small) (fun _ => 0) [] here space_blank none_blank none

-- However often a key is typed and rubbed out again, the fields are those that the corrected
-- keys mean, and the row of the screen shows just them, one behind the other.
theorem scanf_reads_typed {format : Nat → UInt8} {pointers : Nat → Nat} {entries : List Entry}
    (typed : ∀ e ∈ entries, e.Typed)
    (apart : Apart pointers entries) (here : Stands format 0 (entries.flatMap Entry.form ++ [0])) (m : Memory) (rest : Str) :
    ∃ t, (∀ fuel > (entries.flatMap Entry.form).length, scanf format pointers m (entries.flatMap Entry.spent ++ rest) fuel = some t) ∧
      Reads pointers m entries rest [0x0A] t ∧
      ∀ s : Screen, s.cursorY < 25 → s.cursorX + (entries.map (fun e => e.keys.length)).sum < 80 →
        ∃ u, t.echo.foldl vgaPutchar s = vgaPutchar u 0x0A ∧
          Line s u (entries.flatMap (fun e => e.field.text)) (entries.map (fun e => e.keys.length)).sum := by
  obtain ⟨t,ran,reads⟩ := scan_typed typed apart m rest here
  obtain ⟨echo,same,shown⟩ := reads.echo
  refine ⟨t,ran,reads,fun s row room => ⟨echo.foldl vgaPutchar s,?_,shown s row room⟩⟩
  rw [same,List.foldl_append]
  rfl

def correctedEntries : List Entry :=
  [⟨.number true [0x34,0x32],[],[0x20],[0x2D,0x34,0x33,0x08,0x32],0x0A⟩,⟨.word [0x61,0x62],[0x20],[],[0x61,0x78,0x7F,0x62],0x20⟩]

theorem scanf_reads_typed_corrected :
    ∃ t, (∀ fuel > 5, scanf (literal (bytes "%d %s")) (fun i => 0x100 + 8*i) (fun _ => 0)
        (correctedEntries.flatMap Entry.spent ++ []) fuel = some t) ∧
      Reads (fun i => 0x100 + 8*i) (fun _ => 0) correctedEntries [] [0x0A] t := by
  have spells : Spells (literal (bytes "%d %s")) (correctedEntries.flatMap Entry.form) :=
    literal_spells (bytes "%d %s") (by decide)
  have typed : ∀ e ∈ correctedEntries, e.Typed := by
    have digits : ∀ c ∈ [(0x34 : UInt8),0x33,0x08,0x32], rubs c = true ∨ isDigit c = true := by
      intro c member
      simp only [List.mem_cons,List.not_mem_nil,or_false] at member
      rcases member with rfl | rfl | rfl | rfl
      · exact .inr rfl
      · exact .inr rfl
      · exact .inl rfl
      · exact .inr rfl
    have letters : ∀ c ∈ [(0x61 : UInt8),0x78,0x7F,0x62], blank c = false ∧ (rubs c = true ∨ Printable c) := by
      intro c member
      simp only [List.mem_cons,List.not_mem_nil,or_false] at member
      rcases member with rfl | rfl | rfl | rfl
      · exact ⟨rfl,.inr ⟨by decide,by decide⟩⟩
      · exact ⟨rfl,.inr ⟨by decide,by decide⟩⟩
      · exact ⟨rfl,.inl rfl⟩
      · exact ⟨rfl,.inr ⟨by decide,by decide⟩⟩
    have number : Types 0x0A (.number true [0x34,0x32]) [0x2D,0x34,0x33,0x08,0x32] :=
      .number true digits (List.cons_ne_nil _ _) (by decide) rfl
    have word : Types 0x20 (.word [0x61,0x62]) [0x61,0x78,0x7F,0x62] := .word (List.cons_ne_nil _ _) letters rfl
    exact List.forall_mem_cons.mpr ⟨⟨none_blank,space_blank,rfl,number⟩,
      List.forall_mem_singleton.mpr ⟨space_blank,none_blank,rfl,word⟩⟩
  have small : ∀ e ∈ correctedEntries, e.area ≤ 8 := by decide
  obtain ⟨t,ran,reads,_⟩ := scanf_reads_typed typed (spread_apart small) (spells_stands spells) (fun _ => 0) []
  exact ⟨t,ran,reads⟩

end SantOS.Stdio
