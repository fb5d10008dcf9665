import SantOS.Fat12.CheckedDriver
import SantOS.Fat12.ClusterRuns
import SantOS.Fat12.Writing
import SantOS.Library.Runs

namespace SantOS.Fat12
open ByteMemory LinkedPaths Runs

def EntryIn (v : Mount) (c : Nat) : Prop := InTable v (c + c/2 + 1)

theorem EntryIn.below {v : Mount} (inside : EntryIn v c) (le : d ≤ c) : EntryIn v d := by
  unfold EntryIn InTable at *
  omega

theorem getChecked_in {v : Mount} (inside : EntryIn v c) (m : Memory) :
    getChecked v m c = some (getFatEntry m c) := if_pos inside

theorem setChecked_in {v : Mount} (inside : EntryIn v c) (m : Memory) (value : Nat) :
    setChecked v m c value = some (setFatEntry m c value) :=
  if_pos inside

-- A free entry in the table ends the search for one before the table does.
theorem findFreeFrom_in {v : Mount} (m : Memory) (inside : EntryIn v e) (free : getFatEntry m e = 0) (low : cluster ≤ e)
    (high : e < cluster + left) : findFreeFromChecked v m cluster left = some (findFreeFrom m cluster left) := by
  induction left generalizing cluster with
  | zero => omega
  | succ left ih =>
    rw [findFreeFromChecked,findFreeFrom,getChecked_in (inside.below low)]
    simp only [Option.bind_eq_bind,Option.bind_some]
    by_cases here : getFatEntry m cluster = 0
    · rw [if_pos here,if_pos here]
    · have later : cluster ≠ e := fun same => here (same ▸ free)
      rw [if_neg here,if_neg here]
      exact ih (by omega) (by omega)

theorem EntryIn.small {v : Mount} (inside : EntryIn v e) : e < 0xFF0 := by
  unfold EntryIn InTable at inside
  omega

theorem find_free_in {v : Mount} (m : Memory) (inside : EntryIn v e) (free : getFatEntry m e = 0) (two : 2 ≤ e) :
    findFreeChecked v m = some (findFreeCluster m) ∧ findFreeCluster m ≠ 0 ∧ 2 ≤ findFreeCluster m ∧
      EntryIn v (findFreeCluster m) := by
  have small := inside.small
  refine ⟨findFreeFrom_in m inside free two (by omega),?_⟩
  rcases findFreeCluster_spec m with ⟨_,taken⟩ | ⟨low,_,_,taken⟩
  · exact absurd free (taken e two small)
  · refine ⟨by omega,low,inside.below ?_⟩
    by_contra later
    exact taken e two (by omega) free

theorem writeFatFrom_in (s : Driver) (buffered : s.bootSector.sectorsPerFat ≤ 9)
    (within : i + left ≤ s.bootSector.sectorsPerFat) :
    writeFatFromChecked s i left = some (writeFatFrom s i left) := by
  induction left generalizing s i with
  | zero => rfl
  | succ left ih =>
    have inside : InTable s.toMount (i*512 + 511) := by
      unfold InTable
      omega
    rw [writeFatFromChecked,writeFatFrom,if_pos inside]
    cases state : s.faults 0 with
    | true =>
      rw [write_fault state]
      rfl
    | false =>
      rw [write_clear state]
      exact ih _ buffered (by show i + 1 + left ≤ s.bootSector.sectorsPerFat; omega)

theorem write_fat_in (s : Driver) (m : Memory) (buffered : s.bootSector.sectorsPerFat ≤ 9) :
    writeFatChecked {s with fatBuffer := m} = some (writeFatTable {s with fatBuffer := m}) :=
  writeFatFrom_in {s with fatBuffer := m} buffered (Nat.le_of_eq (Nat.zero_add _))

theorem scanRoot_in (probe : Memory → Nat → Probe) (s : Driver)
    (within : s.rootDirStartSector + sector + left ≤ s.dataStartSector) :
    scanRootChecked probe s sector left = some (scanRoot probe s sector left) := by
  induction left generalizing s sector with
  | zero => rfl
  | succ left ih =>
    rw [scanRootChecked,scanRoot,if_pos (by omega)]
    obtain ⟨r,buffer,j,ran⟩ := fdc_read_after s (s.rootDirStartSector + sector) 1 (fun _ => 0) 0
    rw [ran]
    dsimp only
    by_cases failed : r ≠ 0
    · rw [if_pos failed,if_pos failed]
    · rw [if_neg failed,if_neg failed]
      generalize scanSector probe buffer 0 16 = outcome
      obtain ⟨found,idx⟩ := outcome
      cases found with
      | hit => rfl
      | stop => rfl
      | skip => exact ih _ (by show s.rootDirStartSector + (sector+1) + left ≤ s.dataStartSector; omega)

inductive Reach (s : Driver) (c : Nat) : Nat → Prop where
  | start (running : ¬ Ends c) : Reach s c c
  | link (reach : Reach s c d) (running : ¬ Ends (s.fat d)) : Reach s c (s.fat d)

def Follows (s : Driver) (c : Nat) : Prop := ∀ d, Reach s c d → EntryIn s.toMount d

-- A set of clusters of the table that the links do not leave.
structure Closed (v : Mount) (m : Memory) (set : Nat → Prop) : Prop where
  inside : ∀ d, set d → EntryIn v d
  links : ∀ d, set d → Ends (getFatEntry m d) ∨ set (getFatEntry m d)

theorem Follows.closed {s : Driver} (follows : Follows s c) :
    Closed s.toMount s.fatBuffer (Reach s c) ∧ (Ends c ∨ Reach s c c) := by
  refine ⟨⟨follows,fun d reach => ?_⟩,?_⟩
  · by_cases ended : Ends (s.fat d)
    · exact .inl ended
    · exact .inr (.link reach ended)
  · by_cases ended : Ends c
    · exact .inl ended
    · exact .inr (.start ended)

section
variable {v : Mount} {m : Memory} {s : Driver} {set : Nat → Prop} {c : Nat}

theorem Closed.free (closed : Closed v m set) (d : Nat) : Closed v (setFatEntry m d 0) set := by
  refine ⟨closed.inside,fun e member => ?_⟩
  by_cases same : e = d
  · rw [same,get_set_same]
    exact .inl (.inl (by decide))
  · rw [get_set_other m 0 same]
    exact closed.links e member

theorem freeChain_in (closed : Closed v m set) (member : Ends c ∨ set c) (fuel : Nat) :
    freeChainChecked v m c fuel = some (freeChain m c fuel) := by
  induction fuel generalizing m c with
  | zero => rfl
  | succ fuel ih =>
    rw [freeChainChecked,freeChain]
    by_cases goes : 2 ≤ c ∧ c < 0xFF8
    · have here := member.resolve_left (not_ends.mpr goes)
      rw [if_pos goes,if_pos goes,getChecked_in (closed.inside c here),setChecked_in (closed.inside c here)]
      exact ih (closed.free c) (closed.links c here)
    · rw [if_neg goes,if_neg goes]

theorem runFrom_in (closed : Closed v m set) (member : Ends next ∨ set next) (current runLen left : Nat) :
    runFromChecked v m current next runLen left = some (runFrom m current next runLen left) ∧
      (Ends (runFrom m current next runLen left).2 ∨ set (runFrom m current next runLen left).2) := by
  induction left generalizing current next runLen with
  | zero => exact ⟨rfl,member⟩
  | succ left ih =>
    rw [runFromChecked,runFrom]
    by_cases more : next = current + 1 ∧ next ≥ 2 ∧ next < 0xFF8 ∧ runLen < 250
    · have here := member.resolve_left (not_ends.mpr ⟨more.2.1,more.2.2.1⟩)
      rw [if_pos more,if_pos more,getChecked_in (closed.inside next here)]
      exact ih (closed.links next here) next (runLen+1)
    · rw [if_neg more,if_neg more]
      exact ⟨rfl,member⟩

theorem readFrom_in (closed : Closed s.toMount s.fatBuffer set) (member : Ends c ∨ set c) (buffer : Memory)
    (size b fuel : Nat) :
    readFromChecked s buffer size b c fuel = some (readFrom s buffer size b c fuel) := by
  induction fuel generalizing s buffer b c with
  | zero => rfl
  | succ fuel ih =>
    rw [readFromChecked,readFrom]
    by_cases goes : b < size ∧ 2 ≤ c ∧ c < 0xFF8
    · have here := member.resolve_left (not_ends.mpr goes.2)
      obtain ⟨checked,onward⟩ := runFrom_in closed (closed.links c here) c 1 250
      rw [if_pos goes,if_pos goes,getChecked_in (closed.inside c here)]
      simp only [Option.bind_eq_bind,Option.bind_some]
      rw [checked]
      generalize runFrom s.fatBuffer c (getFatEntry s.fatBuffer c) 1 250 = run at onward
      obtain ⟨runLen,next⟩ := run
      simp only [Option.bind_some]
      generalize (if runLen*s.bootSector.sectorsPerCluster > (size - b + 511) % 2^32 / 512 then (size - b + 511) % 2^32 / 512
        else runLen*s.bootSector.sectorsPerCluster) = total
      obtain ⟨r,out,j,read⟩ := fdc_read_after s (s.clusterSector c) (total % 2^8) buffer b
      rw [read]
      dsimp only
      by_cases failed : r ≠ 0
      · rw [if_pos failed,if_pos failed]
      · rw [if_neg failed,if_neg failed]
        exact ih (s := s.after j) closed onward _ _
    · rw [if_neg goes,if_neg goes]

theorem searchCluster_after (probe : Memory → Nat → Probe) (s : Driver) (sector left : Nat) :
    ∃ r j, searchCluster probe s sector left = (r,s.after j) := by
  induction left generalizing s sector with
  | zero => exact ⟨.further,0,rfl⟩
  | succ left ih =>
    rw [searchCluster]
    obtain ⟨r,buffer,j,ran⟩ := fdc_read_after s sector 1 (fun _ => 0) 0
    rw [ran]
    dsimp only
    by_cases failed : r ≠ 0
    · rw [if_pos failed]
      exact ⟨.ended,j,rfl⟩
    · rw [if_neg failed]
      generalize scanSector probe buffer 0 16 = outcome
      obtain ⟨found,idx⟩ := outcome
      cases found with
      | hit => exact ⟨.found idx buffer,j,rfl⟩
      | stop => exact ⟨.ended,j,rfl⟩
      | skip =>
        obtain ⟨r,k,later⟩ := ih (s.after j) (sector+1)
        exact ⟨r,j+k,by rw [← Driver.after_after]; exact later⟩

theorem listSectors_after (probe : Memory → Nat → Probe) (s : Driver) (sector left : Nat) :
    ∃ r lines j, listSectors probe s sector left = (r,lines,s.after j) := by
  induction left generalizing s sector with
  | zero => exact ⟨none,[],0,rfl⟩
  | succ left ih =>
    rw [listSectors]
    obtain ⟨r,buffer,j,ran⟩ := fdc_read_after s sector 1 (fun _ => 0) 0
    rw [ran]
    dsimp only
    by_cases failed : r ≠ 0
    · rw [if_pos failed]
      exact ⟨some (-1),[],j,rfl⟩
    · rw [if_neg failed]
      generalize listSector probe buffer 0 16 = outcome
      obtain ⟨lines,ended⟩ := outcome
      cases ended with
      | true => exact ⟨some 0,lines,j,rfl⟩
      | false =>
        obtain ⟨r,more,k,later⟩ := ih (s.after j) (sector+1)
        rw [later,Driver.after_after]
        exact ⟨r,_,j+k,rfl⟩

theorem searchChain_in (probe : Memory → Nat → Probe) (closed : Closed s.toMount s.fatBuffer set)
    (member : Ends c ∨ set c) (fuel : Nat) :
    searchChainChecked probe s c fuel = some (searchChain probe s c fuel) := by
  induction fuel generalizing s c with
  | zero => rfl
  | succ fuel ih =>
    rw [searchChainChecked,searchChain]
    by_cases goes : 2 ≤ c ∧ c < 0xFF8
    · have here := member.resolve_left (not_ends.mpr goes)
      obtain ⟨r,j,ran⟩ := searchCluster_after probe s (s.clusterSector c) s.bootSector.sectorsPerCluster
      rw [if_pos goes,if_pos goes,ran]
      cases r with
      | ended => rfl
      | found idx buffer => rfl
      | further =>
        have inside : EntryIn (s.after j).toMount c := closed.inside c here
        dsimp only
        rw [getChecked_in inside]
        exact ih (s := s.after j) closed (closed.links c here)
    · rw [if_neg goes,if_neg goes]

theorem listChain_in (closed : Closed s.toMount s.fatBuffer set) (member : Ends c ∨ set c) (printed : List Line)
    (fuel : Nat) :
    listChainChecked s c printed fuel = some (listChain s c printed fuel) := by
  induction fuel generalizing s c printed with
  | zero => rfl
  | succ fuel ih =>
    rw [listChainChecked,listChain]
    by_cases goes : 2 ≤ c ∧ c < 0xFF8
    · have here := member.resolve_left (not_ends.mpr goes)
      obtain ⟨r,lines,j,ran⟩ := listSectors_after dirListProbe s (s.clusterSector c) s.bootSector.sectorsPerCluster
      rw [if_pos goes,if_pos goes,ran]
      cases r with
      | some result => rfl
      | none =>
        have inside : EntryIn (s.after j).toMount c := closed.inside c here
        dsimp only
        rw [getChecked_in inside]
        exact ih (s := s.after j) closed (closed.links c here) _
    · rw [if_neg goes,if_neg goes]

-- fat12_write looks for a free cluster behind a link of at least 0xFF8 or 0.
def Extends (c : Nat) : Prop := 0xFF8 ≤ c ∨ c = 0

-- Where the chain from c on is too short for n bytes, free entries of the table take the rest.
def TableRoom (v : Mount) (m : Memory) (c n : Nat) : Prop :=
  ∀ cs, Path (getFatEntry m) Extends c cs → (∀ d ∈ cs, 2 ≤ d) → cs.length*(512*v.bootSector.sectorsPerCluster) < n →
    ∃ free : List Nat, free.Nodup ∧ (∀ e ∈ free, 2 ≤ e ∧ EntryIn v e ∧ getFatEntry m e = 0 ∧ e ∉ cs) ∧
      n ≤ (cs.length + free.length)*(512*v.bootSector.sectorsPerCluster)

theorem TableRoom.next (room : TableRoom v m c n) (two : 2 ≤ c) (small : c < 0xFF8) :
    TableRoom v m (getFatEntry m c) (n - 512*v.bootSector.sectorsPerCluster) := by
  intro cs path real short
  have running : ¬ Extends c := by
    unfold Extends
    omega
  have length : (c::cs).length*(512*v.bootSector.sectorsPerCluster) =
      cs.length*(512*v.bootSector.sectorsPerCluster) + 512*v.bootSector.sectorsPerCluster := by
    rw [List.length_cons,Nat.add_mul,Nat.one_mul]
  obtain ⟨free,distinct,available,enough⟩ := room (c::cs) (.cons running path)
    (fun d member => (List.mem_cons.mp member).elim (fun same => same ▸ two) (real d)) (by omega)
  refine ⟨free,distinct,fun e member => ?_,?_⟩
  · obtain ⟨low,inside,zero,other⟩ := available e member
    exact ⟨low,inside,zero,fun later => other (List.mem_cons_of_mem _ later)⟩
  · rw [List.length_cons,Nat.add_right_comm,Nat.add_mul _ 1,Nat.one_mul] at enough
    omega

def linked (m : Memory) (c e : Nat) : Memory := setFatEntry (setFatEntry m c e) e 0xFFF

theorem linked_last (m : Memory) (c e : Nat) : getFatEntry (linked m c e) e = 0xFFF := get_set_same _ e 0xFFF

theorem linked_other (other : d ≠ e) (apart : d ≠ c) : getFatEntry (linked m c e) d = getFatEntry m d := by
  rw [linked,get_set_other _ _ other,get_set_other _ _ apart]

theorem linked_link (other : c ≠ e) (small : e < 0xFF0) : getFatEntry (linked m c e) c = e := by
  rw [linked,get_set_other _ _ other,get_set_same]
  omega

theorem Closed.extend (closed : Closed v m set) (inside : EntryIn v e) :
    Closed v (linked m c e) (fun d => set d ∨ d = e) := by
  have small := inside.small
  refine ⟨fun d member => member.elim (closed.inside d) (fun same => same ▸ inside),fun d member => ?_⟩
  by_cases last : d = e
  · rw [last,linked_last]
    exact .inl (.inr (by decide))
  · by_cases first : d = c
    · subst first
      rw [linked_link last small]
      exact .inr (.inr rfl)
    · rw [linked_other last first]
      exact (closed.links d (member.resolve_right last)).imp_right .inl

theorem TableRoom.extend (room : TableRoom v m c n) (two : 2 ≤ c) (small : c < 0xFF8) (full : Extends (getFatEntry m c))
    (more : 512*v.bootSector.sectorsPerCluster < n) :
    (findFreeChecked v m = some (findFreeCluster m) ∧ findFreeCluster m ≠ 0 ∧ 2 ≤ findFreeCluster m ∧
      EntryIn v (findFreeCluster m)) ∧
    TableRoom v (linked m c (findFreeCluster m)) (findFreeCluster m) (n - 512*v.bootSector.sectorsPerCluster) := by
  have running : ¬ Extends c := by
    unfold Extends
    omega
  obtain ⟨free,distinct,available,enough⟩ := room [c] (.cons running (.nil full))
    (fun d member => List.mem_singleton.mp member ▸ two) (by rw [List.length_singleton,Nat.one_mul]; exact more)
  rw [List.length_singleton,Nat.add_mul,Nat.one_mul] at enough
  have first : ∃ e ∈ free, True := by
    cases free with
    | nil =>
      rw [List.length_nil,Nat.zero_mul] at enough
      omega
    | cons e rest => exact ⟨e,List.mem_cons_self ..,trivial⟩
  obtain ⟨e,member,_⟩ := first
  obtain ⟨low,inside,zero,_⟩ := available e member
  have found := find_free_in m inside zero low
  refine ⟨found,?_⟩
  generalize findFreeCluster m = x at found
  obtain ⟨_,nonzero,twoX,insideX⟩ := found
  intro cs path real short
  have one : cs = [x] := by
    cases path with
    | nil done =>
      have large := insideX.small
      unfold Extends at done
      omega
    | cons _ rest =>
      rw [linked_last] at rest
      cases rest with
      | nil _ => rfl
      | cons stop _ => exact absurd (.inl (by decide)) stop
  subst one
  refine ⟨free.erase x,distinct.erase x,fun d inErase => ?_,?_⟩
  · have other : d ≠ x := fun same => distinct.not_mem_erase (same ▸ inErase)
    obtain ⟨lowD,insideD,zeroD,apart⟩ := available d (List.mem_of_mem_erase inErase)
    have apart : d ≠ c := fun same => apart (same ▸ List.mem_singleton_self d)
    exact ⟨lowD,insideD,(linked_other other apart).trans zeroD,fun same => other (List.mem_singleton.mp same)⟩
  · have count : free.length ≤ 1 + (free.erase x).length := by
      rw [List.length_erase]
      split <;> omega
    have bytes : free.length*(512*v.bootSector.sectorsPerCluster) ≤
        (1 + (free.erase x).length)*(512*v.bootSector.sectorsPerCluster) := Nat.mul_le_mul_right _ count
    rw [List.length_singleton]
    omega

theorem writeFrom_in (closed : Closed s.toMount s.fatBuffer set) (member : Ends c ∨ set c)
    (buffered : s.bootSector.sectorsPerFat ≤ 9)
    (buffer : Memory) (le : b ≤ size) (room : TableRoom s.toMount s.fatBuffer c (size - b)) (fuel : Nat) :
    writeFromChecked s buffer size b c fuel = some (writeFrom s buffer size b c fuel) := by
  induction fuel generalizing s b c set with
  | zero => rfl
  | succ fuel ih =>
    rw [writeFromChecked,writeFrom]
    by_cases goes : b < size ∧ 2 ≤ c ∧ c < 0xFF8
    · have here := member.resolve_left (not_ends.mpr goes.2)
      rw [if_pos goes,if_pos goes]
      have wrote := writeCluster_spec s buffer size (s.clusterSector c) 0 b s.bootSector.sectorsPerCluster le
      generalize writeCluster s buffer size (s.clusterSector c) 0 b s.bootSector.sectorsPerCluster = outcome at wrote
      obtain ⟨r,b',u⟩ := outcome
      have mount : u.toMount = s.toMount := wrote.mount
      have table : u.fatBuffer = s.fatBuffer := wrote.table
      dsimp only
      by_cases failed : r ≠ 0
      · rw [if_pos failed,if_pos failed]
      have count : b' = min size (b + 512*s.bootSector.sectorsPerCluster) := by
        rcases wrote.result with ⟨minus,_⟩ | ⟨_,count,_⟩
        · exact absurd (minus.trans_ne minus_one) failed
        · exact count
      rw [if_neg failed,if_neg failed,mount,table,getChecked_in (closed.inside c here)]
      simp only [Option.bind_eq_bind,Option.bind_some]
      by_cases full : b' < size ∧ (getFatEntry s.fatBuffer c ≥ 0xFF8 ∨ getFatEntry s.fatBuffer c = 0)
      · have rest : size - b' = size - b - 512*s.bootSector.sectorsPerCluster := by omega
        obtain ⟨⟨search,nonzero,two,inside⟩,later⟩ := room.extend goes.2.1 goes.2.2 full.2 (by omega)
        rw [if_pos full,if_pos full,search]
        simp only [Option.bind_some]
        rw [if_neg nonzero,if_neg nonzero,setChecked_in (closed.inside c here)]
        simp only [Option.bind_some]
        rw [setChecked_in inside]
        simp only [Option.bind_some]
        have written := writeFatTable_spec ⟨s.toMount,linked s.fatBuffer c (findFreeCluster s.fatBuffer),u.disk,u.faults⟩
        have checked := write_fat_in ⟨s.toMount,s.fatBuffer,u.disk,u.faults⟩ (linked s.fatBuffer c (findFreeCluster s.fatBuffer)) buffered
        unfold linked at written checked
        rw [checked]
        simp only [Option.bind_some]
        generalize writeFatTable _ = outcome at written
        obtain ⟨r',v⟩ := outcome
        have mountV : v.toMount = s.toMount := written.mount
        have tableV : v.fatBuffer = linked s.fatBuffer c (findFreeCluster s.fatBuffer) := written.buffer
        dsimp only
        by_cases unsaved : r' ≠ 0
        · rw [if_pos unsaved,if_pos unsaved]
        · rw [if_neg unsaved,if_neg unsaved]
          have onward : Closed v.toMount v.fatBuffer (fun d => set d ∨ d = findFreeCluster s.fatBuffer) := by
            rw [mountV,tableV]
            exact closed.extend inside
          refine ih onward (.inr (.inr rfl)) ?_ (by omega) ?_
          · rw [mountV]
            exact buffered
          · rw [mountV,tableV,rest]
            exact later
      · rw [if_neg full,if_neg full]
        by_cases more : b' < size
        · have rest : size - b' = size - b - 512*s.bootSector.sectorsPerCluster := by omega
          have onward : Closed u.toMount u.fatBuffer set := by
            rw [mount,table]
            exact closed
          have link : Ends (getFatEntry s.fatBuffer c) ∨ set (getFatEntry s.fatBuffer c) := closed.links c here
          refine ih onward link ?_ (by omega) ?_
          · rw [mount]
            exact buffered
          · rw [mount,table,rest]
            exact room.next goes.2.1 goes.2.2
        · cases fuel with
          | zero => rfl
          | succ fuel => rw [writeFromChecked,writeFrom,if_neg (fun goes => more goes.1),if_neg (fun goes => more goes.1)]
    · rw [if_neg goes,if_neg goes]

theorem writeFrom_mount (le : b ≤ size) (ran : writeFrom s buffer size b c fuel = some (r,t)) : t.toMount = s.toMount := by
  have stored : ∀ u b c, b ≤ size →
      (writeCluster u buffer size (u.clusterSector c) 0 b u.bootSector.sectorsPerCluster).2.2.toMount = u.toMount :=
    fun u b c le => (writeCluster_spec u buffer size (u.clusterSector c) 0 b u.bootSector.sectorsPerCluster le).mount
  refine writeFrom_preserves (fun u => u.toMount = s.toMount) ?_ ?_ le (fun _ => rfl) (fun _ => stored s b c le) ran
  · exact fun u b c le same => (stored u b c le).trans same
  · exact fun u c same _ _ => (writeFatTable_spec _).mount.trans same

end

-- The calls of the driver. A directory walk is looked at up to a number of rounds.
inductive DriverCall where
  | openFile (f : List UInt8) (file : File)
  | updateSize (f : List UInt8) (newSize : Nat)
  | create (f : List UInt8) (file : File)
  | delete (f : List UInt8)
  | read (file : File) (buffer : Memory) (size : Nat)
  | write (file : File) (buffer : Memory) (size : Nat)
  | findEntry (dirCluster : Nat) (name : List UInt8) (rounds : Nat)
  | listDir (cluster rounds : Nat)

def DriverCall.Takes (s t : Driver) : DriverCall → Prop
  | .openFile f file => (fat12Open s f file).2.2 = t
  | .updateSize f newSize => (fat12UpdateSize s f newSize).2 = t
  | .create f file => (fat12Create s f file).2.2 = t
  | .delete f => ∃ r, fat12Delete s f = some (r,t)
  | .read file buffer size => ∃ r out, fat12Read s file buffer size = some (r,out,t)
  | .write file buffer size => ∃ r, fat12Write s file buffer size = some (r,t)
  | .findEntry c name rounds =>
    if c = 0 then (scanRoot (openProbe (name83 name)) s 0 s.rootSectors).2 = t
    else ∃ r, searchChain (openProbe (name83 name)) s c rounds = some (r,t)
  | .listDir c rounds => ∃ r lines, fat12ListDir s c rounds = some (r,lines,t)

-- No check fails: the checked call does what the call does.
def DriverCall.InBounds (s : Driver) : DriverCall → Prop
  | .openFile f file => fat12OpenChecked s f file = some (fat12Open s f file)
  | .updateSize f newSize => fat12UpdateSizeChecked s f newSize = some (fat12UpdateSize s f newSize)
  | .create f file => fat12CreateChecked s f file = some (fat12Create s f file)
  | .delete f => fat12DeleteChecked s f = some (fat12Delete s f)
  | .read file buffer size => fat12ReadChecked s file buffer size = some (fat12Read s file buffer size)
  | .write file buffer size => fat12WriteChecked s file buffer size = some (fat12Write s file buffer size)
  | .findEntry c name rounds =>
    if c = 0 then
      scanRootChecked (openProbe (name83 name)) s 0 s.rootSectors = some (scanRoot (openProbe (name83 name)) s 0 s.rootSectors)
    else searchChainChecked (openProbe (name83 name)) s c rounds = some (searchChain (openProbe (name83 name)) s c rounds)
  | .listDir c rounds =>
    c ≠ 0 → listChainChecked s c (listingHeader "Directory contents:") rounds =
      some (listChain s c (listingHeader "Directory contents:") rounds)

-- The chain a call follows has its entries in the table, and where it takes a free cluster
-- the table has one.
def DriverCall.Suits (s : Driver) : DriverCall → Prop
  | .openFile _ _ => True
  | .updateSize _ _ => True
  | .create _ _ => (∃ k < 16*s.rootSectors, createProbe s.disk (s.slot k) = .hit) →
      ∃ e, 2 ≤ e ∧ EntryIn s.toMount e ∧ s.fat e = 0
  | .delete f => ∀ k, Taken (editProbe (name83 f)) s k → Follows s (firstClusterLow s.disk (s.slot k))
  | .read file _ _ => Follows s (file.firstCluster % 2^16)
  | .write file _ size => Follows s (file.firstCluster % 2^16) ∧ TableRoom s.toMount s.fatBuffer (file.firstCluster % 2^16) size
  | .findEntry c _ _ => Follows s c
  | .listDir c _ => Follows s c

-- A volume whose FAT fits fat_buffer and whose root directory takes no more sectors of 512
-- bytes than of bytes_per_sector.
structure LayoutFits (v : Mount) : Prop where
  buffered : v.bootSector.sectorsPerFat ≤ 9
  root : v.rootDirStartSector + v.rootSectors ≤ v.dataStartSector

section
variable {s t : Driver}

theorem scanRoot_after {probe : Memory → Nat → Probe} (here : Local probe) (s : Driver) :
    ∃ r j, scanRoot probe s 0 s.rootSectors = (r,s.after j) ∧
      ∀ sector idx buffer, r = .found sector idx buffer → ∃ k, Taken probe s k ∧
        ∀ i < 32, buffer (idx*32 + i) = s.disk (s.slot k + i) := by
  have scanned := scanRoot_spec here s s.rootSectors
  generalize scanRoot probe s 0 s.rootSectors = outcome at scanned
  cases scanned with
  | found k buffer inside hit before copied clear =>
    refine ⟨_,_,rfl,fun sector idx buffer' same => ?_⟩
    cases same
    exact ⟨k,⟨inside,hit,before,clear⟩,copied_entry copied⟩
  | missing j => exact ⟨_,_,rfl,fun sector idx buffer same => (by cases same)⟩
  | error j => exact ⟨_,_,rfl,fun sector idx buffer same => (by cases same)⟩

theorem LayoutFits.scan (fits : LayoutFits s.toMount) (probe : Memory → Nat → Probe) :
    scanRootChecked probe s 0 s.rootSectors = some (scanRoot probe s 0 s.rootSectors) :=
  scanRoot_in probe s fits.root

theorem LayoutFits.create (fits : LayoutFits s.toMount) (suits : DriverCall.Suits s (.create f file)) :
    DriverCall.InBounds s (.create f file) := by
  show fat12CreateChecked s f file = some (fat12Create s f file)
  obtain ⟨r,j,ran,finds⟩ := scanRoot_after createProbe_local s
  rw [fat12CreateChecked,fat12Create,fits.scan,ran]
  simp only [Option.bind_eq_bind,Option.bind_some]
  cases r with
  | missing => rfl
  | error => rfl
  | found sector idx buffer =>
    obtain ⟨k,taken,_⟩ := finds sector idx buffer rfl
    obtain ⟨e,two,inside,free⟩ := suits ⟨k,taken.inside,taken.hit⟩
    have found : findFreeChecked (s.after j).toMount (s.after j).fatBuffer = some (findFreeCluster (s.after j).fatBuffer) ∧
        findFreeCluster (s.after j).fatBuffer ≠ 0 ∧ 2 ≤ findFreeCluster (s.after j).fatBuffer ∧
        EntryIn (s.after j).toMount (findFreeCluster (s.after j).fatBuffer) := find_free_in s.fatBuffer inside free two
    have buffered : (s.after j).bootSector.sectorsPerFat ≤ 9 := fits.buffered
    generalize s.after j = u at found buffered
    obtain ⟨search,nonzero,_,insideX⟩ := found
    dsimp only
    rw [search]
    simp only [Option.bind_some]
    rw [if_neg nonzero,if_neg nonzero,setChecked_in insideX]
    simp only [Option.bind_some]
    rw [write_fat_in _ _ buffered]
    simp only [Option.bind_some]
    split
    · rfl
    · split <;> rfl

theorem LayoutFits.delete (fits : LayoutFits s.toMount) (suits : DriverCall.Suits s (.delete f)) :
    DriverCall.InBounds s (.delete f) := by
  show fat12DeleteChecked s f = some (fat12Delete s f)
  obtain ⟨r,j,ran,finds⟩ := scanRoot_after (editProbe_local (name83 f)) s
  rw [fat12DeleteChecked,fat12Delete,fits.scan,ran]
  simp only [Option.bind_eq_bind,Option.bind_some]
  cases r with
  | missing => rfl
  | error => rfl
  | found sector idx buffer =>
    obtain ⟨k,taken,copied⟩ := finds sector idx buffer rfl
    have follows := suits k taken
    rw [← firstCluster_shift copied] at follows
    obtain ⟨closed,member⟩ := follows.closed
    have freed : freeChainChecked (s.after j).toMount (s.after j).fatBuffer (firstClusterLow buffer (idx*32)) 0x1000 =
        some (freeChain (s.after j).fatBuffer (firstClusterLow buffer (idx*32)) 0x1000) := freeChain_in closed member 0x1000
    have buffered : (s.after j).bootSector.sectorsPerFat ≤ 9 := fits.buffered
    generalize s.after j = u at freed buffered
    dsimp only
    rw [freed]
    simp only [Option.bind_some]
    cases freeChain u.fatBuffer (firstClusterLow buffer (idx*32)) 0x1000 with
    | none => rfl
    | some m =>
      dsimp only
      rw [write_fat_in _ _ buffered]
      simp only [Option.bind_some]
      split
      · rfl
      · split <;> rfl

theorem LayoutFits.in_bounds (fits : LayoutFits s.toMount) (call : DriverCall) (suits : call.Suits s) : call.InBounds s := by
  cases call with
  | openFile f file =>
    show fat12OpenChecked s f file = some (fat12Open s f file)
    rw [fat12OpenChecked,fat12Open,fits.scan]
    generalize scanRoot (openProbe (name83 f)) s 0 s.rootSectors = outcome
    obtain ⟨result,t⟩ := outcome
    cases result <;> rfl
  | updateSize f newSize =>
    show fat12UpdateSizeChecked s f newSize = some (fat12UpdateSize s f newSize)
    rw [fat12UpdateSizeChecked,fat12UpdateSize,fits.scan]
    generalize scanRoot (editProbe (name83 f)) s 0 s.rootSectors = outcome
    obtain ⟨result,t⟩ := outcome
    cases result <;> rfl
  | create f file => exact fits.create suits
  | delete f => exact fits.delete suits
  | read file buffer size =>
    obtain ⟨closed,member⟩ := Follows.closed suits
    exact readFrom_in closed member buffer _ 0 _
  | write file buffer size =>
    obtain ⟨closed,member⟩ := suits.1.closed
    exact writeFrom_in closed member fits.buffered buffer (Nat.zero_le size) suits.2 (size+1)
  | findEntry c name rounds =>
    obtain ⟨closed,member⟩ := Follows.closed suits
    show if c = 0 then _ else _
    split
    · exact fits.scan _
    · exact searchChain_in _ closed member rounds
  | listDir c rounds =>
    obtain ⟨closed,member⟩ := Follows.closed suits
    exact fun _ => listChain_in closed member _ rounds

theorem readFrom_after (ran : readFrom s buffer size b c fuel = some (r,out,t)) : ∃ j, t = s.after j := by
  induction fuel generalizing s buffer b c with
  | zero => cases ran
  | succ fuel ih =>
    rw [readFrom] at ran
    split at ran
    · generalize runFrom s.fatBuffer c (getFatEntry s.fatBuffer c) 1 250 = run at ran
      obtain ⟨runLen,next⟩ := run
      dsimp only at ran
      generalize (if runLen*s.bootSector.sectorsPerCluster > (size - b + 511) % 2^32 / 512 then (size - b + 511) % 2^32 / 512
        else runLen*s.bootSector.sectorsPerCluster) = total at ran
      obtain ⟨r',out',j,read⟩ := fdc_read_after s (s.clusterSector c) (total % 2^8) buffer b
      rw [read] at ran
      dsimp only at ran
      split at ran
      · cases ran
        exact ⟨j,rfl⟩
      · obtain ⟨k,rfl⟩ := ih ran
        exact ⟨j+k,Driver.after_after s j k⟩
    · cases ran
      exact ⟨0,rfl⟩

theorem searchChain_after (ran : searchChain probe s c fuel = some (r,t)) : ∃ j, t = s.after j := by
  induction fuel generalizing s c with
  | zero => cases ran
  | succ fuel ih =>
    rw [searchChain] at ran
    split at ran
    · obtain ⟨found,j,visited⟩ := searchCluster_after probe s (s.clusterSector c) s.bootSector.sectorsPerCluster
      rw [visited] at ran
      cases found with
      | further =>
        obtain ⟨k,rfl⟩ := ih ran
        exact ⟨j+k,Driver.after_after s j k⟩
      | ended =>
        cases ran
        exact ⟨j,rfl⟩
      | found idx buffer =>
        cases ran
        exact ⟨j,rfl⟩
    · cases ran
      exact ⟨0,rfl⟩

theorem listChain_after (ran : listChain s c printed fuel = some (r,lines,t)) : ∃ j, t = s.after j := by
  induction fuel generalizing s c printed with
  | zero => cases ran
  | succ fuel ih =>
    rw [listChain] at ran
    split at ran
    · obtain ⟨result,more,j,visited⟩ := listSectors_after dirListProbe s (s.clusterSector c) s.bootSector.sectorsPerCluster
      rw [visited] at ran
      cases result with
      | none =>
        obtain ⟨k,rfl⟩ := ih ran
        exact ⟨j+k,Driver.after_after s j k⟩
      | some value =>
        cases ran
        exact ⟨j,rfl⟩
    · cases ran
      exact ⟨0,rfl⟩

theorem write_sectors_mount (s : Driver) (lba count : Nat) (buffer : Memory) (offset : Nat) :
    (fdcWriteSectors s lba count buffer offset).2.toMount = s.toMount := by
  rw [fdcWriteSectors]
  split <;> rfl

theorem write_fat_mount (s : Driver) (m : Memory) : (writeFatTable {s with fatBuffer := m}).2.toMount = s.toMount :=
  (writeFatTable_spec {s with fatBuffer := m}).mount

theorem create_mount (s : Driver) (f : List UInt8) (file : File) : (fat12Create s f file).2.2.toMount = s.toMount := by
  obtain ⟨r,j,ran,_⟩ := scanRoot_after createProbe_local s
  rw [fat12Create,ran]
  cases r with
  | missing => rfl
  | error => rfl
  | found sector idx buffer =>
    dsimp only
    split
    · rfl
    · have saved := write_fat_mount (s.after j) (setFatEntry (s.after j).fatBuffer (findFreeCluster (s.after j).fatBuffer) 0xFFF)
      split
      · exact saved
      · split <;> exact (write_sectors_mount _ _ _ _ _).trans saved

theorem delete_mount (ran : fat12Delete s f = some (r,t)) : t.toMount = s.toMount := by
  obtain ⟨found,j,scanned,_⟩ := scanRoot_after (editProbe_local (name83 f)) s
  rw [fat12Delete,scanned] at ran
  cases found with
  | missing =>
    cases ran
    rfl
  | error =>
    cases ran
    rfl
  | found sector idx buffer =>
    dsimp only at ran
    split at ran
    · cases ran
    · rename_i m _
      have saved := write_fat_mount (s.after j) m
      split at ran
      · cases ran
        exact saved
      · split at ran
        · cases ran
          exact (write_sectors_mount _ _ _ _ _).trans saved
        · cases ran
          exact (write_sectors_mount _ _ _ _ _).trans saved

theorem open_mount (s : Driver) (f : List UInt8) (file : File) : (fat12Open s f file).2.2.toMount = s.toMount := by
  obtain ⟨r,j,ran,_⟩ := scanRoot_after (openProbe_local (name83 f)) s
  rw [fat12Open,ran]
  cases r <;> rfl

theorem update_mount (s : Driver) (f : List UInt8) (newSize : Nat) :
    (fat12UpdateSize s f newSize).2.toMount = s.toMount := by
  obtain ⟨r,j,ran,_⟩ := scanRoot_after (editProbe_local (name83 f)) s
  rw [fat12UpdateSize,ran]
  cases r with
  | missing => rfl
  | error => rfl
  | found sector idx buffer =>
    dsimp only
    split <;> exact write_sectors_mount _ _ _ _ _

theorem list_mount (ran : fat12ListDir s c rounds = some (r,lines,t)) : t.toMount = s.toMount := by
  rw [fat12ListDir] at ran
  split at ran
  · obtain ⟨result,more,j,visited⟩ := listSectors_after rootListProbe s s.rootDirStartSector s.rootSectors
    rw [fat12ListRoot,visited] at ran
    cases ran
    rfl
  · obtain ⟨j,rfl⟩ := listChain_after ran
    rfl

theorem DriverCall.Takes.mount (call : DriverCall) (takes : call.Takes s t) : t.toMount = s.toMount := by
  cases call with
  | openFile f file =>
    have takes : (fat12Open s f file).2.2 = t := takes
    exact takes ▸ open_mount s f file
  | updateSize f newSize =>
    have takes : (fat12UpdateSize s f newSize).2 = t := takes
    exact takes ▸ update_mount s f newSize
  | create f file =>
    have takes : (fat12Create s f file).2.2 = t := takes
    exact takes ▸ create_mount s f file
  | delete f =>
    obtain ⟨r,ran⟩ := takes
    exact delete_mount ran
  | read file buffer size =>
    obtain ⟨r,out,ran⟩ := takes
    obtain ⟨j,rfl⟩ := readFrom_after ran
    rfl
  | write file buffer size =>
    obtain ⟨r,ran⟩ := takes
    exact writeFrom_mount (Nat.zero_le size) ran
  | findEntry c name rounds =>
    have takes : if c = 0 then (scanRoot (openProbe (name83 name)) s 0 s.rootSectors).2 = t
      else ∃ r, searchChain (openProbe (name83 name)) s c rounds = some (r,t) := takes
    split at takes
    · obtain ⟨r,j,ran,_⟩ := scanRoot_after (openProbe_local (name83 name)) s
      rw [ran] at takes
      exact takes ▸ rfl
    · obtain ⟨r,ran⟩ := takes
      obtain ⟨j,rfl⟩ := searchChain_after ran
      rfl
  | listDir c rounds =>
    obtain ⟨r,lines,ran⟩ := takes
    exact list_mount ran

theorem read_fat_in (ran : readFatTable s = (0,t)) (fits : LayoutFits t.toMount) : readFatChecked s = some (0,t) := by
  have mount : t.toMount = s.toMount := (readFatTable_spec ran).1
  have buffered := fits.buffered
  rw [mount] at buffered
  have inside : ∀ i < s.bootSector.sectorsPerFat % 2^8, InTable s.toMount (i*512 + 511) := by
    intro i bound
    unfold InTable
    omega
  rw [readFatChecked,if_pos inside,ran]

theorem init_in_bounds (ran : fat12Init s = (0,t)) (fits : LayoutFits t.toMount) : fat12InitChecked s = some (0,t) := by
  rw [fat12Init] at ran
  rw [fat12InitChecked]
  generalize fdcReadSectors s 0 1 (fun _ => 0) 0 = outcome at ran ⊢
  obtain ⟨r,buffer,u⟩ := outcome
  dsimp only at ran ⊢
  by_cases failed : r ≠ 0
  · rw [if_pos failed] at ran
    cases ran
  rw [if_neg failed] at ran ⊢
  by_cases invalid : (bootSectorOf buffer).bytesPerSector = 0 ∨ (bootSectorOf buffer).sectorsPerCluster = 0
  · rw [if_pos invalid] at ran
    cases ran
  rw [if_neg invalid] at ran ⊢
  exact read_fat_in ran fits

-- The calls use no byte outside fat_buffer and the FAT's sectors, and scan no sector behind
-- the root directory, in every state that such calls lead to.
theorem table_in_bounds (ran : fat12Init s = (0,v)) (fits : LayoutFits v.toMount) :
    fat12InitChecked s = some (0,v) ∧
    ∀ calls t, Run (fun s (call : DriverCall) t => call.Suits s ∧ call.Takes s t) v calls t →
      ∀ call : DriverCall, call.Suits t → call.InBounds t := by
  refine ⟨init_in_bounds ran fits,fun calls t history call suits => ?_⟩
  have mount : t.toMount = v.toMount :=
    history.invariant (fun s call t before step => (DriverCall.Takes.mount call step.2).trans before) rfl
  rw [← mount] at fits
  exact fits.in_bounds call suits

end

theorem table_in_bounds_new_file : DriverCall.InBounds (fat12Init unmounted).2 (.create [0x41] .fresh) := by
  have result : (fat12Init unmounted).1 = 0 := by decide +kernel
  have ran : fat12Init unmounted = (0,(fat12Init unmounted).2) := Prod.ext result rfl
  have fits : LayoutFits (fat12Init unmounted).2.toMount := ⟨by decide +kernel,by decide +kernel⟩
  have free : (fat12Init unmounted).2.fat 2 = 0 := by decide +kernel
  have inside : InTable (fat12Init unmounted).2.toMount 4 := by decide +kernel
  exact (table_in_bounds ran fits).2 [] _ .nil (.create [0x41] .fresh) (fun _ => ⟨2,by decide,inside,free⟩)

-- 12 sectors per FAT are loaded into a buffer for 9; with a full table the search for a free
-- cluster goes on behind it; with sectors of 1024 bytes the root directory is scanned into the
-- data region.
def twelveSectors : Driver := ⟨floppy,fun _ => 0,Function.update formatted 22 12,fun _ => false⟩
def fullTable : Driver := ⟨floppy,fun _ => 0xFF,fun _ => 0,fun _ => false⟩
def largeSectors : Driver := ⟨floppy,fun _ => 0,fun i => if i < 512 then Function.update formatted 12 4 i else 0x78,fun _ => false⟩

theorem index_outside_table : ((fat12Init twelveSectors).1 = 0 ∧ (fat12InitChecked twelveSectors).isNone) ∧
    (Accepted fullTable.toMount ∧ (fat12CreateChecked fullTable [0x41] .fresh).isNone) ∧
    ((fat12Init largeSectors).1 = 0 ∧ (fat12CreateChecked (fat12Init largeSectors).2 [0x41] .fresh).isNone) :=
  ⟨by decide +kernel,⟨floppy_accepted,by decide +kernel⟩,by decide +kernel⟩

end SantOS.Fat12
