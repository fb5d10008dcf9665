import SantOS.Fat12.HandleNames

namespace SantOS.Fat12
open ByteMemory CStrings

structure ShortName (base ext : Str) : Prop where
  named : 1 ≤ base.length
  baseFits : base.length ≤ 8
  extFits : ext.length ≤ 3
  noSpace : ∀ c ∈ base ++ ext, c ≠ 0x20
  noDot : ∀ c ∈ base ++ ext, c ≠ 0x2E
  noNul : ∀ c ∈ base ++ ext, c ≠ 0

def fields (base ext : Str) : List UInt8 := padded base 8 ++ padded ext 3

def dotted (base ext : Str) : Str := base ++ if ext = [] then [] else 0x2E::ext

def lowerCase (c : UInt8) : Prop := 0x61 ≤ c ∧ c ≤ 0x7A

section
variable {base ext field rest : Str} {m : Memory}

theorem upper_other (other : ¬lowerCase c) : upper c = c := if_neg other

theorem upper_ne (other : d < 0x41) (same : c ≠ d) : upper c ≠ d := by
  intro now
  rcases upper_cases c with kept | ⟨letter,_⟩
  · exact same (kept.symm.trans now)
  · rw [now] at letter
    exact absurd other (UInt8.not_lt.mpr letter)

theorem map_upper_ne (other : d < 0x41) (all : ∀ c ∈ field, c ≠ d) : ∀ c ∈ field.map upper, c ≠ d := by
  intro c member
  obtain ⟨b,inside,rfl⟩ := List.mem_map.mp member
  exact upper_ne other (all b inside)

theorem ShortName.capitals (short : ShortName base ext) : ShortName (base.map upper) (ext.map upper) where
  named := by rw [List.length_map]; exact short.named
  baseFits := by rw [List.length_map]; exact short.baseFits
  extFits := by rw [List.length_map]; exact short.extFits
  noSpace := by rw [← List.map_append]; exact map_upper_ne (by decide) short.noSpace
  noDot := by rw [← List.map_append]; exact map_upper_ne (by decide) short.noDot
  noNul := by rw [← List.map_append]; exact map_upper_ne (by decide) short.noNul

theorem dotted_upper (base ext : Str) : (dotted base ext).map upper = dotted (base.map upper) (ext.map upper) := by
  have dot : upper 0x2E = 0x2E := by decide
  cases ext with
  | nil => simp [dotted]
  | cons c ext => simp [dotted,dot]

theorem trimmed_padded (noSpace : ∀ c ∈ field, c ≠ 0x20) (width : Nat) : trimmed (padded field width) = field := by
  rw [trimmed,padded,List.takeWhile_append_of_pos (by simpa using noSpace)]
  cases width - field.length with
  | zero => simp
  | succ n => simp [List.replicate_succ]

-- The field that is formatted is the field that was padded.
theorem fileName_fields (short : ShortName base ext) : fileName (fields base ext) = dotted base ext := by
  have baseSpace : ∀ c ∈ base, c ≠ 0x20 := fun c member => short.noSpace c (List.mem_append_left _ member)
  have extSpace : ∀ c ∈ ext, c ≠ 0x20 := fun c member => short.noSpace c (List.mem_append_right _ member)
  have eight : (padded base 8).length = 8 := padded_length short.baseFits
  have first : (fields base ext).take 8 = padded base 8 := List.take_left' eight
  have second : (fields base ext).drop 8 = padded ext 3 := List.drop_left' eight
  have letter : (fields base ext).getD 8 0 = (padded ext 3).getD 0 0 := by
    rw [fields,List.getD_append_right _ _ _ _ (Nat.le_of_eq eight),eight]
  rw [fileName,dottedExtension,first,second,letter,trimmed_padded baseSpace,trimmed_padded extSpace]
  cases ext with
  | nil => rfl
  | cons c ext =>
    have noPad : (padded (c::ext) 3).getD 0 0 ≠ 0x20 := extSpace c List.mem_cons_self
    rw [if_neg noPad]
    rfl

theorem takeField_whole (dotted : Bool) (noNul : ∀ c ∈ field, c ≠ 0) (noDot : ∀ c ∈ field, c ≠ 0x2E)
    (ends : rest = [] ∨ dotted = true ∧ ∃ ext, rest = 0x2E::ext) (fits : field.length ≤ width) :
    takeField dotted (field ++ rest) width = (field.map upper,rest) := by
  induction field generalizing width with
  | nil =>
    rcases ends with rfl | ⟨rfl,ext,rfl⟩
    · rfl
    · cases width with
      | zero => rfl
      | succ width => exact if_pos (.inr ⟨rfl,rfl⟩)
  | cons c field ih =>
    cases width with
    | zero => cases fits
    | succ width =>
      have later := ih (fun d member => noNul d (List.mem_cons_of_mem _ member)) (fun d member => noDot d (List.mem_cons_of_mem _ member))
        (Nat.le_of_succ_le_succ fits)
      have inside : ¬(c = 0 ∨ dotted = true ∧ c = 0x2E) := by
        rintro (nul | ⟨_,dot⟩)
        · exact noNul c List.mem_cons_self nul
        · exact noDot c List.mem_cons_self dot
      rw [List.cons_append,takeField,if_neg inside,later]
      rfl

theorem name83_dotted (short : ShortName base ext) : name83 (dotted base ext) = fields (base.map upper) (ext.map upper) := by
  have baseNul : ∀ c ∈ base, c ≠ 0 := fun c member => short.noNul c (List.mem_append_left _ member)
  have baseDot : ∀ c ∈ base, c ≠ 0x2E := fun c member => short.noDot c (List.mem_append_left _ member)
  have extNul : ∀ c ∈ ext, c ≠ 0 := fun c member => short.noNul c (List.mem_append_right _ member)
  have extDot : ∀ c ∈ ext, c ≠ 0x2E := fun c member => short.noDot c (List.mem_append_right _ member)
  cases ext with
  | nil =>
    have name := takeField_whole true baseNul baseDot (.inl rfl) short.baseFits
    rw [dotted,if_pos rfl,name83,name]
    rfl
  | cons c ext =>
    have name := takeField_whole true baseNul baseDot (.inr ⟨rfl,c::ext,rfl⟩) short.baseFits
    have extension := takeField_whole false extNul extDot (.inl rfl) short.extFits
    rw [List.append_nil] at extension
    rw [dotted,if_neg (List.cons_ne_nil _ _),name83,name]
    simp only [extension]
    rfl

theorem formatted_fields (short : ShortName base ext) (a : Nat) (output : Memory) (entry : entryName m a = fields base ext) :
    Spells (formatFilename m a output) (dotted base ext) := by
  have noNul : 0 ∉ entryName m a := by
    rw [entry]
    intro member
    rcases List.mem_append.mp member with base | ext
    · exact padded_no_nul (fun inside => short.noNul 0 (List.mem_append_left _ inside) rfl) 8 base
    · exact padded_no_nul (fun inside => short.noNul 0 (List.mem_append_right _ inside) rfl) 3 ext
  have spells := formatFilename_spells a output noNul
  rwa [entry,fileName_fields short] at spells

-- The eleven bytes are listed under a name that is converted to them again, and a filename
-- comes back in capitals.
theorem names_round_trip (base ext : Str) (short : ShortName base ext) (m : Memory) (a : Nat) (output : Memory) :
    ((∀ c ∈ base ++ ext, ¬lowerCase c) → entryName m a = fields base ext →
      Spells (formatFilename m a output) (dotted base ext) ∧ name83 (dotted base ext) = entryName m a) ∧
    (entryName m a = name83 (dotted base ext) → Spells (formatFilename m a output) ((dotted base ext).map upper)) := by
  constructor
  · intro capital entry
    refine ⟨formatted_fields short a output entry,?_⟩
    have same (field : Str) (inside : ∀ c ∈ field, c ∈ base ++ ext) : field.map upper = field :=
      (List.map_congr_left fun c member => upper_other (capital c (inside c member))).trans (List.map_id field)
    rw [name83_dotted short,entry,same base fun c => List.mem_append_left ext,same ext fun c => List.mem_append_right base]
  · intro entry
    rw [name83_dotted short] at entry
    rw [dotted_upper]
    exact formatted_fields short.capitals a output entry

theorem names_round_trip_hi : ∃ m : Memory, entryName m 0 = name83 (bytes "Hi.c") ∧
    Spells (formatFilename m 0 m) (bytes "HI.C") ∧ name83 (bytes "HI.C") = entryName m 0 := by
  have capitals : ShortName [0x48,0x49] [0x43] := by constructor <;> simp
  have mixed : ShortName [0x48,0x69] [0x63] := by constructor <;> simp
  have entry : entryName (fun i => (bytes "HI      C  ").getD i 0) 0 = fields [0x48,0x49] [0x43] := by decide
  have converted : entryName (fun i => (bytes "HI      C  ").getD i 0) 0 = name83 (bytes "Hi.c") := by decide
  refine ⟨_,converted,(names_round_trip _ _ mixed _ _ _).2 converted,((names_round_trip _ _ capitals _ 0 (fun _ => 0)).1 ?_ entry).2⟩
  simp [lowerCase]

end

end SantOS.Fat12
