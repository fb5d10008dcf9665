import SantOS.Fat12.EntryKinds
import SantOS.Fat12.RoundTrip

namespace SantOS.Fat12
open ByteMemory LinkedPaths

-- WRITE_FILE of the data to the file in root slot k reports all of its bytes, the entry's
-- size becomes their number, and READ_FILE gives them back and nothing else.
def Replaced (s : Driver) (f : List UInt8) (k : Nat) (data : Memory) (size : Nat) : Prop :=
  ∃ t, syscallWriteFile s f data size = some ((size : Int),t) ∧ fileSize t.disk (s.slot k) = size ∧ ReadsBack t f data size

section
variable {s : Driver} {f : List UInt8} {k : Nat}

theorem Resolves.nameable (found : Resolves s (name83 f) k) : Nameable f := by
  intro deleted
  obtain ⟨live,named⟩ := editProbe_hit.mp found.hit
  cases f with
  | nil => cases deleted
  | cons c rest =>
    simp only [List.head?_cons,Option.some.injEq] at deleted
    subst deleted
    have head := entryName_head s.disk (s.slot k)
    rw [named] at head
    have first : (name83 (0xE5::rest)).head? = some 0xE5 := by
      unfold name83 takeField padded
      rfl
    rw [first,Option.some.injEq] at head
    exact live.2 head.symm

theorem Resolves.regular_only (found : Resolves s (name83 f) k)
    (regular : attributes s.disk (s.slot k) &&& 0x08 = 0 ∧ ¬ IsDirectory s.disk (s.slot k)) : RegularOrAbsent s f := by
  intro j other
  rw [other.unique found]
  exact regular

theorem Resolves.opened (found : Resolves s (name83 f) k) (clear : s.Clear) :
    ∃ h, fat12Open s f .fresh = (0,h,s.after (k/16+1)) ∧ h.size = fileSize s.disk (s.slot k) ∧
      h.firstCluster = firstClusterLow s.disk (s.slot k) := by
  have opened := open_spec (found.nameable.undeleted s) .fresh
  generalize fat12Open s f .fresh = outcome at opened
  cases opened with
  | missing j le absent => exact absurd found (absent k)
  | error j lt fault =>
    rw [clear j] at fault
    cases fault
  | found j h resolves _ size first =>
    have same := resolves.unique found
    subst same
    exact ⟨h,rfl,size,first⟩

-- Without data, or without a cluster to start with, the handle takes nothing and the entry
-- stays as it is.
theorem idle_write (found : Resolves s (name83 f) k) (clear : s.Clear) (small : size < 2^32)
    (idle : size = 0 ∨ firstClusterLow s.disk (s.slot k) = 0) (data : Memory) :
    syscallWriteFile s f data size = some (0,s.after (k/16+1)) := by
  obtain ⟨h,opened,_,first⟩ := found.opened clear
  have wrote : fat12Write (s.after (k/16+1)) h data size = some (0,s.after (k/16+1)) := by
    rcases idle with empty | zero
    · subst empty
      unfold fat12Write
      rw [writeFrom,if_neg (fun goes => absurd goes.1 (Nat.lt_irrefl 0))]
      rfl
    · exact empty_write _ (first.trans zero) data size
  unfold syscallWriteFile
  rw [Nat.mod_eq_of_lt small,opened]
  dsimp only
  rw [if_neg (not_not.mpr rfl),writeAndUpdate,wrote]
  rfl

theorem empty_reads_back (found : Resolves s (name83 f) k) (clear : s.Clear)
    (length : fileSize s.disk (s.slot k) = 0) (data : Memory) : ReadsBack s f data 0 := by
  intro m buf
  obtain ⟨h,opened,size,_⟩ := found.opened clear
  have empty : h.size = 0 := size.trans length
  have amount (n : Nat) : (if h.size < n then h.size else n) = 0 := by
    rw [empty]
    split <;> omega
  unfold syscallReadFile
  rw [opened]
  dsimp only
  rw [if_neg (not_not.mpr rfl),amount,fat12Read,if_neg (Nat.not_lt_zero _),readFrom,
    if_neg (fun goes => absurd goes.1 (Nat.lt_irrefl 0)),Nat.zero_min]
  exact ⟨buf,s.after (k/16+1),rfl,fun i bound => absurd bound (Nat.not_lt_zero i)⟩

theorem Resolves.replaces (found : Resolves s (name83 f) k) (volume : WellFormed s)
    (one : s.bootSector.sectorsPerCluster = 1) (clear : s.Clear) (regular : RegularOrAbsent s f)
    (chain : EntryChain s (s.slot k) cs) (enough : Room s cs size) (positive : 0 < size)
    (nonzero : firstClusterLow s.disk (s.slot k) ≠ 0) (data : Memory) : Replaced s f k data size := by
  have small := enough.small volume.shape one chain.length_lt
  obtain ⟨h,opened,_,first⟩ := found.opened clear
  have chain' : EntryChain (s.after (k/16+1)) ((s.after (k/16+1)).slot k) cs := chain
  obtain ⟨v,t,ran,back,success⟩ := (resolves_after.mpr found).round_trip volume.shape volume.sound.after one clear.after found.nameable
    regular.after first chain' enough data
  have all := success positive nonzero
  subst all
  obtain ⟨_,length,reads⟩ := back (by omega)
  unfold Replaced syscallWriteFile
  rw [Nat.mod_eq_of_lt (by omega),opened]
  dsimp only
  rw [if_neg (not_not.mpr rfl),ran]
  exact ⟨t,rfl,length,reads⟩

end

-- With one sector in a cluster, as on 1.44MB floppies, a regular root file on a volume with
-- enough room: what it held is replaced by the data exactly when there is something to
-- write and a cluster to start with, or nothing to write and nothing to forget.
theorem data_replaced_iff (s : Driver) (f : List UInt8) (k size : Nat) (volume : WellFormed s)
    (one : s.bootSector.sectorsPerCluster = 1) (clear : s.Clear) (found : Resolves s (name83 f) k)
    (regular : attributes s.disk (s.slot k) &&& 0x08 = 0 ∧ ¬ IsDirectory s.disk (s.slot k))
    (room : ∀ cs, EntryChain s (s.slot k) cs → Room s cs size) (data : Memory) :
    Replaced s f k data size ↔
      (0 < size ∧ firstClusterLow s.disk (s.slot k) ≠ 0) ∨ (size = 0 ∧ fileSize s.disk (s.slot k) = 0) := by
  have only := found.regular_only regular
  obtain ⟨cs,chain⟩ := volume.sound.chained _ (found.owner only)
  have enough := room cs chain
  have small := enough.small volume.shape one chain.length_lt
  constructor
  · rintro ⟨t,ran,length,_⟩
    rcases Nat.eq_zero_or_pos size with empty | positive
    · rw [idle_write found clear (by omega) (.inl empty)] at ran
      cases ran
      exact .inr ⟨empty,by rw [← empty]; exact length⟩
    · refine .inl ⟨positive,fun zero => ?_⟩
      rw [idle_write found clear (by omega) (.inr zero)] at ran
      have noneLeft : (0 : Int) = size := (Prod.mk.inj (Option.some.inj ran)).1
      omega
  · rintro (⟨positive,nonzero⟩ | ⟨empty,length⟩)
    · exact found.replaces volume one clear only chain enough positive nonzero data
    · subst empty
      exact ⟨s.after (k/16+1),idle_write found clear (by omega) (.inl rfl) data,length,
        empty_reads_back (resolves_after.mpr found) clear.after length data⟩

theorem data_replaced_iff_new_file : ∃ t, (∃ h, fat12Create blank [0x41] .fresh = (0,h,t)) ∧ Replaced t [0x41] 0 UInt8.ofNat 600 := by
  obtain ⟨h,u,ran,made,table,entry,_⟩ := blank_create [0x41]
  have created := create_spec floppy_geometry (s := blank) [0x41] .fresh
  rw [ran] at created
  have volume := created.well_formed blank_well_formed (fun _ => rfl) (by decide)
    ⟨2,floppy_in_volume (by decide) (by decide),blank_fat 2⟩
  have found : Resolves u (name83 [0x41]) 0 :=
    made.first (by decide) (fun j resolves => absurd rfl resolves.live.1)
  have room : ∀ cs, EntryChain u (u.slot 0) cs → Room u cs 600 := fun cs _ => blank_create_room made table cs
  have first : firstClusterLow u.disk (u.slot 0) = 2 := by
    rw [made.mount]
    exact entry
  exact ⟨u,⟨h,ran⟩,(data_replaced_iff u [0x41] 0 600 volume (by rw [made.mount]; rfl) (created.clear (fun _ => rfl)) found
    (made.regular (blank_regular _) 0 found) room UInt8.ofNat).mpr (.inl ⟨by decide,by rw [first]; decide⟩)⟩

def emptyFile : Driver := {oneEntry 0x20 0 with fatBuffer := fun _ => 0}

theorem emptyFile_fat (c : Nat) : emptyFile.fat c = 0 := blank_fat c

theorem emptyFile_first : firstClusterLow emptyFile.disk (emptyFile.slot 0) = 0 := by decide +kernel

theorem emptyFile_used (member : a ∈ emptyFile.rootSlots) (used : emptyFile.disk a ≠ 0) : a = emptyFile.slot 0 := by
  obtain ⟨k,_,rfl⟩ := Mount.mem_rootSlots.mp member
  cases k with
  | zero => unfold Mount.slot; rfl
  | succ k =>
    have root : emptyFile.rootByte = 19*512 := by unfold Mount.rootByte; rfl
    refine absurd ?_ used
    show (if emptyFile.rootByte + 32*(k+1) < 19*512 then (0 : UInt8) else _) = 0
    rw [root,if_neg (by omega)]
    exact List.getD_eq_default _ _ (by simp only [List.length_cons,List.length_nil]; omega)

theorem emptyFile_directory (directory : Directory emptyFile slots) : slots = emptyFile.rootSlots := by
  induction directory with
  | root => rfl
  | @sub slots a cs parent member owns dir chain ih =>
    rw [ih] at member
    rw [emptyFile_used member owns.live.1] at dir
    have plain : attributes emptyFile.disk (emptyFile.slot 0) &&& 0x10 = 0 := by decide +kernel
    exact absurd plain dir

theorem emptyFile_owner (owner : Owner emptyFile a) : a = emptyFile.slot 0 := by
  obtain ⟨⟨slots,directory,member⟩,owns⟩ := owner
  rw [emptyFile_directory directory] at member
  exact emptyFile_used member owns.live.1

theorem emptyFile_chain (owner : Owner emptyFile a) (chain : EntryChain emptyFile a cs) : cs = [] := by
  rw [emptyFile_owner owner] at chain
  exact chain.unique (.inl ⟨emptyFile_first,rfl⟩)

theorem emptyFile_well_formed : WellFormed emptyFile := by
  refine ⟨floppy_geometry,⟨?_,?_,?_⟩,?_,?_,?_,?_⟩
  · intro a owner
    rw [emptyFile_owner owner]
    exact ⟨[],.inl ⟨emptyFile_first,rfl⟩⟩
  · intro a cs owner chain c member
    rw [emptyFile_chain owner chain] at member
    cases member
  · intro a b cs ds one other apart
    exact absurd ((emptyFile_owner one).trans (emptyFile_owner other).symm) apart
  · intro a cs owner chain c member
    rw [emptyFile_chain owner chain] at member
    cases member
  · intro slots directory
    rw [emptyFile_directory directory]
    refine (rootSlots_sorted _).imp_of_mem ?_
    intro a b inA inB less _
    by_contra used
    have later := emptyFile_used inB used
    obtain ⟨k,_,place⟩ := Mount.mem_rootSlots.mp inA
    unfold Mount.slot at later
    omega
  · exact fun c _ used => absurd (emptyFile_fat c) used
  · intro i bound
    have start : emptyFile.fatByte = 512 := by unfold Mount.fatByte; rfl
    have inside : i < 9*512 := bound
    show (if emptyFile.fatByte + i < 19*512 then (0 : UInt8) else _) = 0
    rw [if_pos (by omega)]

-- One byte for the file: the call reports nothing written and the file stays empty.
theorem empty_file_not_replaced : WellFormed emptyFile ∧ emptyFile.toMount = floppy ∧ emptyFile.Clear ∧
    Resolves emptyFile (name83 [0x44]) 0 ∧ attributes emptyFile.disk (emptyFile.slot 0) = 0x20 ∧
    (∀ cs, EntryChain emptyFile (emptyFile.slot 0) cs → Room emptyFile cs 1) ∧
    ¬ Replaced emptyFile [0x44] 0 (fun _ => 0x41) 1 := by
  have hit : editProbe (name83 [0x44]) emptyFile.disk (emptyFile.slot 0) = .hit := by decide +kernel
  have found : Resolves emptyFile (name83 [0x44]) 0 := ⟨by decide,hit,fun j less => absurd less (Nat.not_lt_zero j)⟩
  have clear : emptyFile.Clear := fun _ => rfl
  refine ⟨emptyFile_well_formed,rfl,clear,found,by decide +kernel,?_,?_⟩
  · intro cs _
    refine ⟨[2],by decide,?_,?_⟩
    · intro c member
      rw [List.mem_singleton.mp member]
      exact ⟨floppy_in_volume (by decide) (by decide),emptyFile_fat 2⟩
    · rw [clusterBytes_one (v := emptyFile.toMount) rfl]
      show 1 ≤ (cs.length + 1)*512
      omega
  · rintro ⟨t,ran,_⟩
    rw [idle_write found clear (by decide) (.inr emptyFile_first)] at ran
    cases ran

end SantOS.Fat12
