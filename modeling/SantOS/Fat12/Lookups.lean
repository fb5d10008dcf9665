import SantOS.Fat12.Scans

namespace SantOS.Fat12
open ByteMemory

theorem takeField_length (dotted : Bool) (f : List UInt8) (width : Nat) : (takeField dotted f width).1.length ≤ width := by
  induction f generalizing width with
  | nil => exact Nat.zero_le _
  | cons c rest ih =>
    cases width with
    | zero => exact Nat.le_refl _
    | succ width =>
      rw [takeField]
      split
      · exact Nat.zero_le _
      · exact Nat.succ_le_succ (ih width)

theorem padded_length {field : List UInt8} {width : Nat} (short : field.length ≤ width) :
    (padded field width).length = width := by
  rw [padded,List.length_append,List.length_replicate]
  omega

theorem name83_length (f : List UInt8) : (name83 f).length = 11 := by
  have name := padded_length (takeField_length true f 8)
  have ext : ∀ rest, (padded (takeField false rest 3).1 3).length = 3 :=
    fun rest => padded_length (takeField_length false rest 3)
  rw [name83,List.length_append,name]
  split
  · rw [ext]
  · rfl

theorem upper_cases (c : UInt8) : upper c = c ∨ (0x41 ≤ upper c ∧ upper c ≤ 0x5A) := by
  rw [upper]
  split
  · next range =>
    right
    obtain ⟨low,high⟩ := range
    simp only [UInt8.le_iff_toNat_le] at low high ⊢
    have small := UInt8.toNat_sub_of_le c 32 (by rw [UInt8.le_iff_toNat_le]; exact Nat.le_trans (by decide) low)
    rw [small]
    have a : (0x61 : UInt8).toNat = 97 := rfl
    have z : (0x7A : UInt8).toNat = 122 := rfl
    have s : (32 : UInt8).toNat = 32 := rfl
    have A : (0x41 : UInt8).toNat = 65 := rfl
    have Z : (0x5A : UInt8).toNat = 90 := rfl
    omega
  · exact .inl rfl

theorem name83_head (f : List UInt8) : ∃ c rest, name83 f = c::rest ∧ c ≠ 0 ∧ c ≠ 0x2E ∧
    (f.head? ≠ some 0xE5 → c ≠ 0xE5) := by
  rw [name83]
  cases f with
  | nil => exact ⟨0x20,_,rfl,by decide,by decide,fun _ => by decide⟩
  | cons c rest =>
    rw [takeField]
    by_cases stop : c = 0 ∨ (true = true ∧ c = 0x2E)
    · rw [if_pos stop]
      exact ⟨0x20,_,rfl,by decide,by decide,fun _ => by decide⟩
    · rw [if_neg stop]
      refine ⟨upper c,_,rfl,?_,?_,?_⟩
      · intro zero
        rcases upper_cases c with same | range
        · exact stop (.inl (same ▸ zero))
        · rw [zero] at range
          exact absurd range.1 (by decide)
      · intro dot
        rcases upper_cases c with same | range
        · exact stop (.inr ⟨rfl,same ▸ dot⟩)
        · rw [dot] at range
          exact absurd range.1 (by decide)
      · intro allowed deleted
        rcases upper_cases c with same | range
        · exact allowed (by rw [List.head?_cons,← same,deleted])
        · rw [deleted] at range
          exact absurd range.2 (by decide)

theorem entryName_head (m : Memory) (a : Nat) : (entryName m a).head? = some (m a) := rfl

-- A signed char is never 0xE5.
theorem signed_ne (b : UInt8) : signed b ≠ 0xE5 := by
  have bound := b.toNat_lt
  unfold signed
  split <;> omega

-- Filenames for which a converted name is no deleted mark.
def Nameable (f : List UInt8) : Prop := f.head? ≠ some 0xE5

instance : DecidablePred Nameable := fun _ => inferInstanceAs (Decidable (_ ≠ _))

theorem Nameable.first_byte (nameable : Nameable f) (same : entryName m a = name83 f) : Live m a := by
  obtain ⟨c,rest,shape,nonzero,_,undeleted⟩ := name83_head f
  have head := entryName_head m a
  rw [same,shape,List.head?_cons,Option.some.injEq] at head
  exact ⟨by rw [← head]; exact nonzero,by rw [← head]; exact undeleted nameable⟩

theorem proper_name (f : List UInt8) : name83 f ≠ dotName ∧ name83 f ≠ dotdotName := by
  obtain ⟨c,rest,shape,_,nodot,_⟩ := name83_head f
  rw [shape]
  exact ⟨fun same => nodot (List.cons.inj same).1,fun same => nodot (List.cons.inj same).1⟩

theorem editProbe_hit : editProbe name m a = .hit ↔ Live m a ∧ entryName m a = name := by
  rw [editProbe,Live]
  by_cases zero : m a = 0
  · rw [if_pos zero]
    exact ⟨fun no => (by cases no),fun yes => absurd zero yes.1.1⟩
  rw [if_neg zero]
  by_cases deleted : m a = 0xE5
  · rw [if_pos deleted]
    exact ⟨fun no => (by cases no),fun yes => absurd deleted yes.1.2⟩
  rw [if_neg deleted]
  by_cases same : entryName m a = name
  · rw [if_pos same]
    exact ⟨fun _ => ⟨⟨zero,deleted⟩,same⟩,fun _ => rfl⟩
  · rw [if_neg same]
    exact ⟨fun no => (by cases no),fun yes => absurd yes.2 same⟩

theorem editProbe_stop : editProbe name m a = .stop ↔ m a = 0 := by
  rw [editProbe]
  by_cases zero : m a = 0
  · rw [if_pos zero]
    exact ⟨fun _ => zero,fun _ => rfl⟩
  · rw [if_neg zero]
    refine ⟨fun no => ?_,fun yes => absurd yes zero⟩
    split at no
    · cases no
    · split at no <;> cases no

theorem openProbe_hit : openProbe name m a = .hit ↔ m a ≠ 0 ∧ entryName m a = name := by
  rw [openProbe]
  by_cases zero : m a = 0
  · rw [if_pos zero]
    exact ⟨fun no => (by cases no),fun yes => absurd zero yes.1⟩
  rw [if_neg zero,if_neg (signed_ne _)]
  by_cases same : entryName m a = name
  · rw [if_pos same]
    exact ⟨fun _ => ⟨zero,same⟩,fun _ => rfl⟩
  · rw [if_neg same]
    exact ⟨fun no => (by cases no),fun yes => absurd yes.2 same⟩

theorem openProbe_stop : openProbe name m a = .stop ↔ m a = 0 := by
  rw [openProbe]
  by_cases zero : m a = 0
  · rw [if_pos zero]
    exact ⟨fun _ => zero,fun _ => rfl⟩
  · rw [if_neg zero,if_neg (signed_ne _)]
    refine ⟨fun no => ?_,fun yes => absurd yes zero⟩
    split at no <;> cases no

theorem editProbe_skip (skip : openProbe name m a = .skip) : editProbe name m a = .skip := by
  cases probe : editProbe name m a with
  | skip => rfl
  | stop =>
    rw [openProbe_stop.mpr (editProbe_stop.mp probe)] at skip
    cases skip
  | hit =>
    obtain ⟨live,same⟩ := editProbe_hit.mp probe
    rw [openProbe_hit.mpr ⟨live.1,same⟩] at skip
    cases skip

theorem createProbe_hit : createProbe m a = .hit ↔ ¬ Live m a := by
  rw [createProbe,Live]
  by_cases free : m a = 0 ∨ m a = 0xE5
  · rw [if_pos free]
    exact ⟨fun _ live => free.elim live.1 live.2,fun _ => rfl⟩
  · rw [if_neg free]
    refine ⟨fun no => (by cases no),fun dead => absurd ⟨?_,?_⟩ dead⟩
    · exact fun zero => free (.inl zero)
    · exact fun deleted => free (.inr deleted)

theorem createProbe_stop : createProbe m a ≠ .stop := by
  rw [createProbe]
  split <;> decide

-- The root slot a name resolves to: the first live entry of that name, with no end mark
-- before it.
structure Resolves (s : Driver) (name : List UInt8) (k : Nat) : Prop where
  inside : k < 16*s.rootSectors
  hit : editProbe name s.disk (s.slot k) = .hit
  before : ∀ j < k, editProbe name s.disk (s.slot j) = .skip

theorem Resolves.unique (one : Resolves s name k) (two : Resolves s name j) : k = j := by
  rcases Nat.lt_trichotomy k j with less | same | more
  · have skipped := two.before k less
    rw [one.hit] at skipped
    cases skipped
  · exact same
  · have skipped := one.before j more
    rw [two.hit] at skipped
    cases skipped

theorem Resolves.live (found : Resolves s name k) : Live s.disk (s.slot k) := (editProbe_hit.mp found.hit).1
theorem Resolves.named (found : Resolves s name k) : entryName s.disk (s.slot k) = name := (editProbe_hit.mp found.hit).2
theorem Resolves.slot_mem (found : Resolves s name k) : s.slot k ∈ s.rootSlots :=
  Mount.slot_mem found.inside

theorem Resolves.unmarked (found : Resolves s name k) : ∀ j < k, s.disk (s.slot j) ≠ 0 := by
  intro j before zero
  have skipped := found.before j before
  rw [editProbe_stop.mpr zero] at skipped
  cases skipped

-- open also takes a deleted entry whose eleven bytes are the converted name. Only a name
-- that starts with 0xE5 can meet one.
def Undeleted (s : Driver) (f : List UInt8) : Prop :=
  ∀ k < 16*s.rootSectors, (∀ j < k, s.disk (s.slot j) ≠ 0) → entryName s.disk (s.slot k) = name83 f →
    s.disk (s.slot k) ≠ 0xE5

theorem Nameable.undeleted (nameable : Nameable f) (s : Driver) : Undeleted s f :=
  fun _ _ _ same => (nameable.first_byte same).2

def RegularOrAbsent (s : Driver) (f : List UInt8) : Prop :=
  ∀ k, Resolves s (name83 f) k → attributes s.disk (s.slot k) &&& 0x08 = 0 ∧ ¬ IsDirectory s.disk (s.slot k)

theorem Resolves.owns (found : Resolves s (name83 f) k) (regular : RegularOrAbsent s f) : Owns s.disk (s.slot k) :=
  ⟨found.live,(regular k found).1,by rw [found.named]; exact proper_name f⟩

theorem Resolves.owner (found : Resolves s (name83 f) k) (regular : RegularOrAbsent s f) : Owner s (s.slot k) :=
  ⟨⟨_,.root,found.slot_mem⟩,found.owns regular⟩

end SantOS.Fat12
