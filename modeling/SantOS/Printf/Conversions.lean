import SantOS.Printf.Kernel

namespace SantOS.Printf
open CStrings Decimals FormatStrings
open Shell (int32 isDigit digitsToInt)

section
variable {format : Nat → UInt8} {args : Arguments}

theorem numberFrom_digits (digits : ∀ c ∈ ds, isDigit c = true) (here : Stands format i ds)
    (stop : isDigit (format (i + ds.length)) = false) (enough : ds.length < fuel) (number : Int) :
    numberFrom format fuel i number = some (ds.foldl (fun result c => int32 (result*10 + ((c.toNat : Int) - 0x30))) number,
      i + ds.length,List.range' i (ds.length + 1)) := by
  induction ds generalizing i fuel number with
  | nil =>
    cases fuel with
    | zero => exact absurd enough (Nat.not_lt_zero _)
    | succ fuel =>
      rw [numberFrom,if_neg (by rw [List.length_nil,Nat.add_zero] at stop; rw [stop]; decide)]
      rfl
  | cons c ds ih =>
    cases fuel with
    | zero => exact absurd enough (Nat.not_lt_zero _)
    | succ fuel =>
      obtain ⟨first,later⟩ := here
      have place : i + 1 + ds.length = i + (ds.length + 1) := by omega
      have rest := @ih (i+1) fuel (fun d member => digits d (List.mem_cons_of_mem _ member)) later (by rwa [place])
        (Nat.lt_of_succ_lt_succ enough) (int32 (number*10 + ((c.toNat : Int) - 0x30)))
      rw [numberFrom,first,if_pos (digits c List.mem_cons_self),rest,place]
      rfl

structure Ends (o : Options) (letter : UInt8) : Prop where
  noDigit : isDigit letter = false
  noPoint : o.precision = none → letter ≠ 0x2E
  noFlag : o.text = [] → letter ≠ 0x2D

theorem Options.Formed.ends {o : Options} (formed : o.Formed) (stops : ¬Parts (o.text ++ [letter])) : Ends o letter := by
  obtain ⟨leftAlign,width,precision⟩ := o
  have longer {digits : Str} (all : ∀ c ∈ digits, isDigit c = true) (digit : isDigit letter = true) :
      ∀ c ∈ digits ++ [letter], isDigit c = true := by
    intro c member
    rcases List.mem_append.mp member with old | new
    · exact all c old
    · rwa [List.mem_singleton.mp new]
  refine ⟨?_,?_,?_⟩
  · by_contra digit
    rw [Bool.not_eq_false] at digit
    cases precision with
    | none =>
      refine stops ⟨⟨leftAlign,width ++ [letter],none⟩,⟨longer formed.width digit,by simp⟩,?_⟩
      simp [Options.text]
    | some digits =>
      refine stops ⟨⟨leftAlign,width,some (digits ++ [letter])⟩,⟨formed.width,?_⟩,?_⟩
      · intro more same
        cases same
        exact longer (formed.precision digits rfl) digit
      · simp [Options.text]
  · rintro none rfl
    cases none
    refine stops ⟨⟨leftAlign,width,some []⟩,⟨formed.width,?_⟩,?_⟩
    · intro more same
      cases same
      simp
    · simp [Options.text]
  · rintro empty rfl
    exact stops ⟨⟨true,[],none⟩,⟨by simp,by simp⟩,by rw [empty]; rfl⟩

theorem Options.Formed.flag {o : Options} (formed : o.Formed) (here : Stands format i o.text)
    (ends : Ends o (format (i + o.text.length))) : (format i == 0x2D) = o.leftAlign := by
  obtain ⟨leftAlign,width,precision⟩ := o
  have digitNoFlag (c : UInt8) (digit : isDigit c = true) : c ≠ 0x2D := by
    rintro rfl
    exact absurd digit (by decide)
  cases leftAlign with
  | true =>
    have first : format i = 0x2D := here.1
    rw [first]
    rfl
  | false =>
    have other : format i ≠ 0x2D := by
      cases width with
      | cons c width =>
        have first : format i = c := here.1
        rw [first]
        exact digitNoFlag c (formed.width c List.mem_cons_self)
      | nil =>
        cases precision with
        | none => exact ends.noFlag rfl
        | some digits =>
          have first : format i = 0x2E := here.1
          rw [first]
          decide
    simpa using other

theorem parse_options {o : Options} (formed : o.Formed) (here : Stands format i o.text)
    (ends : Ends o (format (i + o.text.length))) (enough : o.text.length < fuel) :
    ∃ reads, parseConversion format fuel i = some (o.conversion,i + o.text.length,reads) ∧ ∀ j ∈ reads, j ≤ i + o.text.length := by
  have flag := formed.flag here ends
  have text : o.text = (if o.leftAlign then [0x2D] else []) ++ (o.width ++ point o.precision) := rfl
  rw [text,stands_append,stands_append] at here
  obtain ⟨_,width,behindWidth⟩ := here
  have from_ : i + (if o.leftAlign then [0x2D] else ([] : Str)).length = if o.leftAlign then i+1 else i := by
    split <;> rfl
  rw [from_] at width behindWidth
  have within (last extra : Nat) (sum : last = (if o.leftAlign then i+1 else i) + o.width.length) (total : last + extra = i + o.text.length) :
      ∀ j ∈ i::List.range' (if o.leftAlign then i+1 else i) (o.width.length + 1), j ≤ i + o.text.length := by
    intro j member
    rcases List.mem_cons.mp member with rfl | inside
    · exact Nat.le_add_right _ _
    · have range := List.mem_range'_1.mp inside
      omega
  cases same : o.precision with
  | none =>
    rw [same,point_none,List.append_nil] at text
    have place : (if o.leftAlign then i+1 else i) + o.width.length = i + o.text.length := by
      rw [text,List.length_append,← Nat.add_assoc,from_]
    have short : o.width.length < fuel := by
      rw [text,List.length_append] at enough
      omega
    have read := numberFrom_digits formed.width width (by rw [place]; exact ends.noDigit) short 0
    refine ⟨_,?_,within _ 0 rfl place⟩
    rw [parseConversion,flag,read]
    dsimp only
    rw [place,if_neg (ends.noPoint same),Options.conversion,same]
    rfl
  | some digits =>
    rw [same,point_some] at text behindWidth
    obtain ⟨dot,behind⟩ := behindWidth
    have place : (if o.leftAlign then i+1 else i) + o.width.length + (1 + digits.length) = i + o.text.length := by
      rw [text,List.length_append,List.length_append,List.length_cons,← from_]
      omega
    have short : o.width.length < fuel ∧ digits.length < fuel := by
      rw [text,List.length_append,List.length_append,List.length_cons] at enough
      omega
    have read := numberFrom_digits formed.width width (by rw [dot]; decide) short.1 0
    have more := numberFrom_digits (formed.precision digits same) behind
      (by rw [Nat.add_assoc,place]; exact ends.noDigit) short.2 0
    refine ⟨(i::List.range' (if o.leftAlign then i+1 else i) (o.width.length + 1)) ++
      List.range' ((if o.leftAlign then i+1 else i) + o.width.length + 1) (digits.length + 1),?_,?_⟩
    · rw [parseConversion,flag,read]
      dsimp only
      rw [if_pos dot,more,Nat.add_assoc,place,Options.conversion,same]
      rfl
    · intro j member
      rcases List.mem_append.mp member with before | after
      · exact within _ _ rfl place j before
      · have range := List.mem_range'_1.mp after
        omega

def PartByte (c : UInt8) : Prop := c = 0x2D ∨ c = 0x2E ∨ isDigit c = true

theorem part_bytes (known : Parts parts) : ∀ c ∈ parts, PartByte c := by
  obtain ⟨⟨leftAlign,width,precision⟩,formed,rfl⟩ := known
  intro c member
  rw [Options.text] at member
  rcases List.mem_append.mp member with flag | rest
  · cases leftAlign with
    | true => exact .inl (List.mem_singleton.mp flag)
    | false => cases flag
  · rcases List.mem_append.mp rest with width_ | point_
    · exact .inr (.inr (formed.width c width_))
    · cases precision with
      | none => cases point_
      | some digits =>
        rcases List.mem_cons.mp point_ with dot | digit
        · exact .inr (.inl dot)
        · exact .inr (.inr (formed.precision digits rfl c digit))

theorem ends_parts (other : ¬PartByte letter) (parts : Str) : ¬Parts (parts ++ [letter]) :=
  fun known => other (part_bytes known letter (by simp))

variable (args) in
theorem step_plain (here : format s.i = c) (noNul : c ≠ 0) (noMark : c ≠ 0x25) (fuel : Nat) :
    vprintfFrom format args (fuel+1) s = vprintfFrom format args fuel (s.take (s.i+1) ⟨[c],1,0⟩ [s.i]) := by
  rw [vprintfFrom,here,if_neg noNul,if_neg noMark]

variable (args) in
theorem step_conversion {o : Options} (formed : o.Formed) (here : Stands format s.i (0x25::(o.text ++ [letter])))
    (stops : ¬Parts (o.text ++ [letter])) (enough : o.text.length < fuel) :
    ∃ reads, vprintfFrom format args (fuel+1) s =
        vprintfFrom format args fuel (s.take (s.i + o.text.length + 2) (convert args o.conversion s.next letter) reads) ∧
      ∀ j ∈ reads, j < s.i + o.text.length + 2 := by
  obtain ⟨mark,behind⟩ := here
  rw [stands_append] at behind
  obtain ⟨parts,last⟩ := behind
  have letter_ : format (s.i + 1 + o.text.length) = letter := last.1
  obtain ⟨reads,parsed,within⟩ := parse_options formed parts (by rw [letter_]; exact formed.ends stops) enough
  refine ⟨s.i::reads,?_,?_⟩
  · have place : s.i + 1 + o.text.length + 1 = s.i + o.text.length + 2 := by omega
    rw [vprintfFrom,mark,if_neg (by decide),if_pos rfl,parsed]
    dsimp only
    rw [letter_,place]
  · intro j member
    rcases List.mem_cons.mp member with rfl | inside
    · omega
    · have last := within j inside
      omega

theorem vprintf_reads (ran : vprintfFrom format args fuel s = some t) : s.i ∈ t.reads ∧ ∀ j ∈ s.reads, j ∈ t.reads := by
  induction fuel generalizing s with
  | zero => cases ran
  | succ fuel ih =>
    have through {s' : State} (later : s'.i ∈ t.reads ∧ ∀ j ∈ s'.reads, j ∈ t.reads) (here : s.i ∈ s'.reads)
        (old : ∀ j ∈ s.reads, j ∈ s'.reads) : s.i ∈ t.reads ∧ ∀ j ∈ s.reads, j ∈ t.reads :=
      ⟨later.2 _ here,fun j member => later.2 j (old j member)⟩
    rw [vprintfFrom] at ran
    split at ran
    · cases ran
      exact ⟨List.mem_cons_self,fun j member => List.mem_cons_of_mem _ member⟩
    · split at ran
      · split at ran
        · cases ran
        · exact through (ih ran) (by simp [State.take]) (fun j member => by simp [State.take,member])
      · exact through (ih ran) (by simp [State.take]) (fun j member => by simp [State.take,member])

end

end SantOS.Printf
