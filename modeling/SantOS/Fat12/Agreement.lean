import SantOS.Fat12.WellFormed

namespace SantOS.Fat12
open ByteMemory

def Scan.slot : Scan → Option Nat
  | .found sector idx _ => some (16*sector + idx)
  | _ => none

-- The slots the four lookups take for a name; none is "not found" or a failed read.
def openSlot (s : Driver) (f : List UInt8) : Option Nat := (scanRoot (openProbe (name83 f)) s 0 s.rootSectors).1.slot
def findSlot (s : Driver) (f : List UInt8) : Option Nat := (scanRoot (openProbe (name83 f)) s 0 s.rootSectors).1.slot
def updateSlot (s : Driver) (f : List UInt8) : Option Nat := (scanRoot (editProbe (name83 f)) s 0 s.rootSectors).1.slot
def deleteSlot (s : Driver) (f : List UInt8) : Option Nat := (scanRoot (editProbe (name83 f)) s 0 s.rootSectors).1.slot

section
variable {s : Driver} {f name : List UInt8} {probe : Memory → Nat → Probe} {k : Nat}

-- The slot a search of the root directory ends at: the first the probe does not skip, when
-- the reads up to its sector succeed.
structure Taken (probe : Memory → Nat → Probe) (s : Driver) (k : Nat) : Prop where
  inside : k < 16*s.rootSectors
  hit : probe s.disk (s.slot k) = .hit
  before : ∀ j < k, probe s.disk (s.slot j) = .skip
  clear : ∀ i ≤ k/16, s.faults i = false

theorem scan_slot_iff (here : Local probe) (s : Driver) (k : Nat) :
    (scanRoot probe s 0 s.rootSectors).1.slot = some k ↔ Taken probe s k := by
  have scanned := scanRoot_spec here s s.rootSectors
  generalize scanRoot probe s 0 s.rootSectors = outcome at scanned
  cases scanned with
  | found j buffer inside hit before copied clear =>
    have place : 16*(j/16) + j%16 = j := by omega
    simp only [Scan.slot,place,Option.some.injEq]
    constructor
    · rintro rfl
      exact ⟨inside,hit,before,clear⟩
    · intro taken
      rcases Nat.lt_trichotomy j k with less | same | more
      · cases hit.symm.trans (taken.before j less)
      · exact same
      · cases taken.hit.symm.trans (before k more)
  | missing j le clear unmatched =>
    simp only [Scan.slot,reduceCtorEq,false_iff]
    intro taken
    obtain ⟨i,less,stop⟩ := unmatched k taken.inside taken.hit
    cases stop.symm.trans (taken.before i less)
  | error j lt fault before =>
    simp only [Scan.slot,reduceCtorEq,false_iff]
    intro taken
    by_cases early : k < 16*j
    · cases taken.hit.symm.trans (before k early)
    · cases fault.symm.trans (taken.clear j (by omega))

theorem slot_without_faults (here : Local probe)
    (taken : (scanRoot probe {s with faults := faults} 0 s.rootSectors).1.slot = some k) :
    (scanRoot probe {s with faults := fun _ => false} 0 s.rootSectors).1.slot = some k := by
  obtain ⟨inside,hit,before,_⟩ := (scan_slot_iff here {s with faults := faults} k).mp taken
  exact (scan_slot_iff here {s with faults := fun _ => false} k).mpr ⟨inside,hit,before,fun _ _ => rfl⟩

theorem scan_taken (here : Local probe) (taken : (scanRoot probe s 0 s.rootSectors).1.slot = some k) :
    ∃ buffer, scanRoot probe s 0 s.rootSectors = (.found (k/16) (k%16) buffer,s.after (k/16+1)) ∧
      ∀ i < 512, buffer i = s.disk (s.rootByte + k/16*512 + i) := by
  have scanned := scanRoot_spec here s s.rootSectors
  generalize scanRoot probe s 0 s.rootSectors = outcome at scanned taken
  cases scanned with
  | missing => cases taken
  | error => cases taken
  | found j buffer inside hit before copied clear =>
    have same : j = k := by
      have place := Option.some.inj taken
      omega
    subst same
    exact ⟨buffer,rfl,copied⟩

theorem scan_nothing (here : Local probe) (nothing : (scanRoot probe s 0 s.rootSectors).1.slot = none) :
    ∃ j, scanRoot probe s 0 s.rootSectors = (.missing,s.after j) ∨ scanRoot probe s 0 s.rootSectors = (.error,s.after j) := by
  have scanned := scanRoot_spec here s s.rootSectors
  generalize scanRoot probe s 0 s.rootSectors = outcome at scanned nothing
  cases scanned with
  | found => cases nothing
  | missing j => exact ⟨j,.inl rfl⟩
  | error j => exact ⟨j+1,.inr rfl⟩

theorem open_takes (taken : openSlot s f = some k) (file : File) : ∃ h, fat12Open s f file = (0,h,s.after (k/16+1)) ∧
    h.size = fileSize s.disk (s.slot k) ∧ h.firstCluster = firstClusterLow s.disk (s.slot k) := by
  obtain ⟨buffer,ran,copied⟩ := scan_taken (openProbe_local _) taken
  rw [fat12Open,ran]
  exact ⟨_,rfl,fileSize_shift (copied_entry copied),firstCluster_shift (copied_entry copied)⟩

theorem open_nothing (nothing : openSlot s f = none) (file : File) : ∃ j, fat12Open s f file = (-1,file,s.after j) := by
  obtain ⟨j,ran | ran⟩ := scan_nothing (openProbe_local _) nothing
  all_goals
    rw [fat12Open,ran]
    exact ⟨j,rfl⟩

theorem find_takes (taken : findSlot s f = some k) : ∃ t, fat12FindEntry s 0 f =
    some (firstClusterLow s.disk (s.slot k),decide (attributes s.disk (s.slot k) &&& 0x10 ≠ 0),t) := by
  obtain ⟨buffer,ran,copied⟩ := scan_taken (openProbe_local _) taken
  have flags : attributes buffer (k%16*32) = attributes s.disk (s.slot k) := copied_entry copied 11 (by decide)
  rw [fat12FindEntry,if_pos rfl,ran]
  dsimp only
  rw [firstCluster_shift (copied_entry copied),flags]
  exact ⟨_,rfl⟩

theorem find_nothing (nothing : findSlot s f = none) : ∃ j, fat12FindEntry s 0 f = some (0,false,s.after j) := by
  obtain ⟨j,ran | ran⟩ := scan_nothing (openProbe_local _) nothing
  all_goals
    rw [fat12FindEntry,if_pos rfl,ran]
    exact ⟨j,rfl⟩

theorem update_takes (clear : s.Clear) (taken : updateSlot s f = some k) (newSize : Nat) :
    ∃ t, fat12UpdateSize s f newSize = (0,t) ∧ fileSize t.disk (s.slot k) = newSize % 2^32 ∧
      ∀ x, (x < s.slot k + 28 ∨ s.slot k + 32 ≤ x) → t.disk x = s.disk x := by
  obtain ⟨buffer,ran,copied⟩ := scan_taken (editProbe_local _) taken
  have kept : ∀ i < 512, (i < k%16*32 ∨ k%16*32 + 32 ≤ i) → store buffer (k%16*32+28) 4 newSize i = buffer i :=
    fun i _ away => store_outside buffer (by omega)
  obtain ⟨d,wrote,outside,entry⟩ := write_slot (clear 0) copied kept
  rw [fat12UpdateSize,ran,clear.after_eq]
  dsimp only
  rw [wrote]
  refine ⟨_,rfl,?_,?_⟩
  · refine (fileSize_shift entry).trans ?_
    exact load_store_same buffer (k%16*32+28) 4 newSize
  · intro x away
    by_cases slot : s.slot k ≤ x ∧ x < s.slot k + 32
    · have atX := entry (x - s.slot k) (by omega)
      have before := copied_entry copied (x - s.slot k) (by omega)
      rw [Nat.add_sub_of_le slot.1] at atX before
      exact atX.trans ((store_outside buffer (by omega)).trans before)
    · exact outside x (by omega)

theorem update_nothing (nothing : updateSlot s f = none) (newSize : Nat) :
    ∃ j, fat12UpdateSize s f newSize = (-1,s.after j) := by
  obtain ⟨j,ran | ran⟩ := scan_nothing (editProbe_local _) nothing
  all_goals
    rw [fat12UpdateSize,ran]
    exact ⟨j,rfl⟩

theorem delete_takes (shape : Geometry s.toMount) (clear : s.Clear) (taken : deleteSlot s f = some k)
    (ran : fat12Delete s f = some (v,t)) : v = 0 ∧ t.disk (s.slot k) = 0xE5 := by
  have deleted := delete_spec shape f
  have resolves : Resolves s (name83 f) k := by
    obtain ⟨inside,hit,before,_⟩ := (scan_slot_iff (editProbe_local _) s k).mp taken
    exact ⟨inside,hit,before⟩
  rw [ran] at deleted
  generalize outcome : some (v,t) = result at deleted
  cases deleted with
  | stuck => cases outcome
  | missing j absent => exact absurd resolves (absent k)
  | error n j fault => cases fault.symm.trans (clear n)
  | exposed j freed t n _ _ _ _ _ fault => cases fault.symm.trans (clear n)
  | done j freed t found _ _ _ _ mark =>
    cases outcome
    rw [resolves.unique found]
    exact ⟨rfl,mark⟩

theorem delete_nothing (nothing : deleteSlot s f = none) : ∃ j, fat12Delete s f = some (-1,s.after j) := by
  obtain ⟨j,ran | ran⟩ := scan_nothing (editProbe_local _) nothing
  all_goals
    rw [fat12Delete,ran]
    exact ⟨j,rfl⟩

end

-- The name's eleven bytes first occur in a deleted slot that open can read up to.
structure DeletedFirst (s : Driver) (f : List UInt8) (k : Nat) : Prop where
  inside : k < 16*s.rootSectors
  unmarked : ∀ j < k, s.disk (s.slot j) ≠ 0
  first : ∀ j < k, entryName s.disk (s.slot j) ≠ name83 f
  named : entryName s.disk (s.slot k) = name83 f
  deleted : s.disk (s.slot k) = 0xE5
  clear : ∀ i ≤ k/16, s.faults i = false

theorem openProbe_skip : openProbe name m a = .skip ↔ m a ≠ 0 ∧ entryName m a ≠ name := by
  cases probe : openProbe name m a with
  | skip =>
    refine ⟨fun _ => ⟨fun zero => ?_,fun same => ?_⟩,fun _ => rfl⟩
    · cases probe.symm.trans (openProbe_stop.mpr zero)
    · by_cases zero : m a = 0
      · cases probe.symm.trans (openProbe_stop.mpr zero)
      · cases probe.symm.trans (openProbe_hit.mpr ⟨zero,same⟩)
  | stop => simp [openProbe_stop.mp probe]
  | hit => simp [(openProbe_hit.mp probe).2]

section
variable {s : Driver} {f name : List UInt8} {k : Nat}

theorem Taken.edit (taken : Taken (openProbe name) s k) (live : s.disk (s.slot k) ≠ 0xE5) : Taken (editProbe name) s k := by
  obtain ⟨nonzero,same⟩ := openProbe_hit.mp taken.hit
  exact ⟨taken.inside,editProbe_hit.mpr ⟨⟨nonzero,live⟩,same⟩,fun j less => editProbe_skip (taken.before j less),taken.clear⟩

theorem Taken.deleted_first (taken : Taken (openProbe (name83 f)) s k) (deleted : s.disk (s.slot k) = 0xE5) :
    DeletedFirst s f k := by
  obtain ⟨_,same⟩ := openProbe_hit.mp taken.hit
  exact ⟨taken.inside,fun j less => (openProbe_skip.mp (taken.before j less)).1,
    fun j less => (openProbe_skip.mp (taken.before j less)).2,same,deleted,taken.clear⟩

theorem DeletedFirst.taken (first : DeletedFirst s f k) : Taken (openProbe (name83 f)) s k := by
  refine ⟨first.inside,openProbe_hit.mpr ⟨?_,first.named⟩,fun j less => openProbe_skip.mpr ⟨first.unmarked j less,first.first j less⟩,first.clear⟩
  rw [first.deleted]
  decide

theorem Taken.opened (taken : Taken (editProbe (name83 f)) s k) (noneFirst : ∀ j, ¬ DeletedFirst s f j) :
    Taken (openProbe (name83 f)) s k := by
  obtain ⟨live,same⟩ := editProbe_hit.mp taken.hit
  have unmarked : ∀ j < k, s.disk (s.slot j) ≠ 0 := by
    intro j less zero
    cases (editProbe_stop.mpr zero).symm.trans (taken.before j less)
  have passed : ∀ j < k, entryName s.disk (s.slot j) ≠ name83 f := by
    intro j
    induction j using Nat.strong_induction_on with
    | _ j earlier =>
      intro less named
      have dead : s.disk (s.slot j) = 0xE5 := by
        by_contra other
        cases (editProbe_hit.mpr ⟨⟨unmarked j less,other⟩,named⟩).symm.trans (taken.before j less)
      exact noneFirst j ⟨Nat.lt_trans less taken.inside,fun i lower => unmarked i (Nat.lt_trans lower less),
        fun i lower => earlier i lower (Nat.lt_trans lower less),named,dead,fun i le => taken.clear i (by omega)⟩
  exact ⟨taken.inside,openProbe_hit.mpr ⟨live.1,same⟩,fun j less => openProbe_skip.mpr ⟨unmarked j less,passed j less⟩,taken.clear⟩

end

-- The lookups take one slot, or all find nothing, unless the name first occurs in a deleted
-- slot: open and find_entry compare a signed char with 0xE5 and take that one.
theorem lookups_agree_iff (s : Driver) (f : List UInt8) :
    (findSlot s f = openSlot s f ∧ updateSlot s f = openSlot s f ∧ deleteSlot s f = openSlot s f) ↔
      ∀ k, ¬ DeletedFirst s f k := by
  have opens (k : Nat) : openSlot s f = some k ↔ Taken (openProbe (name83 f)) s k := scan_slot_iff (openProbe_local _) s k
  have edits (k : Nat) : updateSlot s f = some k ↔ Taken (editProbe (name83 f)) s k := scan_slot_iff (editProbe_local _) s k
  constructor
  · rintro ⟨_,same,_⟩ k first
    have opened := (opens k).mpr first.taken
    rw [← same] at opened
    have live := (editProbe_hit.mp ((edits k).mp opened).hit).1
    exact live.2 first.deleted
  · intro noneFirst
    have same : updateSlot s f = openSlot s f := by
      refine Option.ext (fun k => ?_)
      rw [opens,edits]
      refine ⟨fun taken => taken.opened noneFirst,fun taken => taken.edit (fun deleted => ?_)⟩
      exact noneFirst k (taken.deleted_first deleted)
    exact ⟨rfl,same,same⟩

def stale : Driver :=
  {blank with disk := fun x => if x < 19*512 then 0 else [0xE5,0x42,0x43,0x20,0x20,0x20,0x20,0x20,0x20,0x20,0x20,0x20].getD (x - 19*512) 0}

theorem deleted_entry_opened : openSlot stale [0xE5,0x42,0x43] = some 0 ∧ deleteSlot stale [0xE5,0x42,0x43] = none ∧
    (fat12Open stale [0xE5,0x42,0x43] .fresh).1 = 0 ∧ (fat12Delete stale [0xE5,0x42,0x43]).map Prod.fst = some (-1) := by
  decide +kernel

end SantOS.Fat12
