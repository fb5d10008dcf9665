import Mathlib.Data.List.TakeWhile
import SantOS.Fat12.Agreement
import SantOS.Fat12.PlainReads
import SantOS.Heap.Allocator
import SantOS.Shell.Text

namespace SantOS.Loader
open ByteMemory CStrings Fat12 KernelHeap

def ptLoad : Nat := 1

def eEntry (m : Memory) (a : Nat) : Nat := load m (a+24) 8
def ePhoff (m : Memory) (a : Nat) : Nat := load m (a+32) 8
def ePhnum (m : Memory) (a : Nat) : Nat := load m (a+56) 2
def pType (m : Memory) (a : Nat) : Nat := load m a 4
def pOffset (m : Memory) (a : Nat) : Nat := load m (a+8) 8
def pVaddr (m : Memory) (a : Nat) : Nat := load m (a+16) 8
def pFilesz (m : Memory) (a : Nat) : Nat := load m (a+32) 8
def pMemsz (m : Memory) (a : Nat) : Nat := load m (a+40) 8

def hasMagic (m : Memory) (a : Nat) : Bool := m a = 0x7F ∧ m (a+1) = 0x45 ∧ m (a+2) = 0x4C ∧ m (a+3) = 0x46

-- The byte loops of a segment read the sizes from its header again at every round; a
-- uint64_t takes at most 2^64 of them.
def copySegment (m : Memory) (ph dest src j : Nat) : Nat → Memory
  | 0 => m
  | left+1 =>
    if j < pFilesz m ph then
      copySegment (Function.update m ((dest+j) % 2^64) (m ((src+j) % 2^64))) ph dest src (j+1) left
    else m

def zeroSegment (m : Memory) (ph dest j : Nat) : Nat → Memory
  | 0 => m
  | left+1 => if j < pMemsz m ph then zeroSegment (Function.update m ((dest+j) % 2^64) 0) ph dest (j+1) left else m

def loadSegments (m : Memory) (elfBuffer ph i : Nat) : Nat → Memory
  | 0 => m
  | left+1 =>
    if i < ePhnum m elfBuffer then
      let header := (ph + i*56) % 2^64
      if pType m header = ptLoad then
        let dest := pVaddr m header
        let src := (elfBuffer + pOffset m header) % 2^64
        let m := copySegment m header dest src 0 (2^64)
        let m := zeroSegment m header dest (pFilesz m header) (2^64)
        loadSegments m elfBuffer ph (i+1) left
      else loadSegments m elfBuffer ph (i+1) left
    else m

def inPlace (m : Memory) (a : Nat) (buffer : Memory) : Memory := fun i => if a ≤ i then buffer (i-a) else m i

def loadProgram (s : Driver) (h : Heap) (filename : Str) : Option (Nat × Heap × Driver) :=
  match fat12Open s filename .fresh with
  | (r,file,s) =>
    if r ≠ 0 then some (0,h,s)
    else
      let allocSize := (file.size + 511) % 2^32 &&& (2^32 - 512)
      match malloc h allocSize with
      | none => none
      | some (elfBuffer,h) =>
        if elfBuffer = 0 then some (0,h,s)
        else
          match fat12Read s file (fun i => h.memory (elfBuffer+i)) file.size with
          | none => none
          | some (bytesRead,buffer,s) =>
            let h := {h with memory := inPlace h.memory elfBuffer buffer}
            if bytesRead < 0 ∨ bytesRead.toNat ≠ file.size then some (0,free h elfBuffer,s)
            else if ¬ hasMagic h.memory elfBuffer then some (0,free h elfBuffer,s)
            else
              let ph := (elfBuffer + ePhoff h.memory elfBuffer) % 2^64
              let h := {h with memory := loadSegments h.memory elfBuffer ph 0 (2^16)}
              some (eEntry h.memory elfBuffer,free h elfBuffer,s)

def sameString (filename : Str) (literal : String) : Bool := Shell.strcmp (filename.takeWhile (· ≠ 0)) (bytes literal) = 0

-- The checks of SYSCALL_EXEC_PROGRAM before it calls load_program; each failing one
-- prints a message, and the call returns 0.
def execAdmits (s : Driver) (filename : Str) : Option (Bool × Driver) :=
  if sameString filename "SHELL.ELF" ∨ sameString filename "shell.elf" then some (false,s)
  else
    match fat12Open s filename .fresh with
    | (r,file,s) =>
      if r ≠ 0 then some (false,s)
      else
        match fat12Read s file (fun _ => 0) 4 with
        | none => none
        | some (bytesRead,header,s) =>
          if bytesRead ≠ 4 then some (false,s)
          else if ¬ hasMagic header 0 then some (false,s)
          else some (true,s)

def syscallExecProgram (s : Driver) (h : Heap) (filename : Str) : Option (Nat × Heap × Driver) :=
  match execAdmits s filename with
  | none => none
  | some (false,s) => some (0,h,s)
  | some (true,s) => loadProgram s h filename

theorem strcmp_zero {a b : Str} (plain : ∀ c ∈ a, c ≠ 0) (literal : ∀ c ∈ b, c ≠ 0) : Shell.strcmp a b = 0 ↔ a = b := by
  induction a generalizing b with
  | nil =>
    cases b with
    | nil => simp [Shell.strcmp]
    | cons c b =>
      have nonzero := literal c List.mem_cons_self
      have positive : c.toNat ≠ 0 := fun zero => nonzero (UInt8.toNat_inj.mp zero)
      simp [Shell.strcmp,positive]
  | cons c a ih =>
    have nonzero := plain c List.mem_cons_self
    cases b with
    | nil =>
      have positive : c.toNat ≠ 0 := fun zero => nonzero (UInt8.toNat_inj.mp zero)
      simp [Shell.strcmp,positive]
    | cons d b =>
      rw [Shell.strcmp]
      by_cases same : c = d
      · rw [if_pos same,ih (fun e member => plain e (List.mem_cons_of_mem _ member))
          (fun e member => literal e (List.mem_cons_of_mem _ member))]
        simp [same]
      · rw [if_neg same]
        have other : c.toNat ≠ d.toNat := fun eq => same (UInt8.toNat_inj.mp eq)
        simp only [List.cons.injEq,same,false_and,iff_false]
        omega

theorem sameString_iff {literal : String} (plain : ∀ c ∈ bytes literal, c ≠ 0) :
    sameString filename literal = true ↔ filename.takeWhile (· ≠ 0) = bytes literal := by
  rw [sameString,decide_eq_true_iff]
  refine strcmp_zero (fun c member => ?_) plain
  simpa using List.mem_takeWhile_imp member

theorem header_read (s : Driver) (file : File) (cluster : 0 < s.bootSector.sectorsPerCluster)
    (word : file.firstCluster < 2^16) :
    ∃ r out t, fat12Read s file (fun _ => 0) 4 = some (r,out,t) ∧
      (r = 4 ↔ 4 ≤ file.size ∧ 2 ≤ file.firstCluster ∧ file.firstCluster < 0xFF8 ∧ s.faults 0 = false) ∧
      (r = 4 → ∀ i < 4, out i = s.disk (s.dataByte file.firstCluster + i)) := by
  unfold fat12Read
  rw [Nat.mod_eq_of_lt word]
  generalize limited : (if 4 > file.size then file.size else 4) = n
  have small : n ≤ 4 ∧ (n = 4 ↔ 4 ≤ file.size) := by
    rw [← limited]
    split <;> omega
  have value : intOf n = (n : Int) := if_pos (by omega)
  dsimp only
  by_cases goes : 0 < n ∧ 2 ≤ file.firstCluster ∧ file.firstCluster < 0xFF8
  · obtain ⟨more,two,below⟩ := goes
    obtain ⟨k,run⟩ := merged s.fatBuffer two
    have positive : 0 < (k+1)*s.bootSector.sectorsPerCluster := Nat.mul_pos (Nat.succ_pos k) cluster
    have one : min ((k+1)*s.bootSector.sectorsPerCluster) (sectorsFor (n - 0)) % 2^8 = 1 := by
      unfold sectorsFor
      omega
    have whole : min n (0 + 512*((k+1)*s.bootSector.sectorsPerCluster)) = n := by omega
    rw [read_round_any run (fun _ => 0) two below more (by omega),one,whole]
    cases state : s.faults 0 with
    | true =>
      rw [read_fault state]
      refine ⟨-1,_,_,rfl,?_,?_⟩
      · simp
      · intro four
        cases four
    | false =>
      rw [read_clear state]
      dsimp only
      rw [if_neg (by decide)]
      obtain ⟨fuel,rfl⟩ : ∃ fuel, n = fuel + 1 := ⟨n-1,by omega⟩
      rw [readFrom,if_neg (fun goes => absurd goes.1 (Nat.lt_irrefl _))]
      refine ⟨_,_,_,rfl,?_,?_⟩
      · rw [value]
        simp
        omega
      · intro _ i bound
        have byte := blit_inside (fun _ => 0) (fun i => s.disk (s.clusterSector file.firstCluster*512 + i))
          (a := 0) (n := 1*512) (i := i) (by omega)
        rw [Nat.zero_add] at byte
        rw [Mount.dataByte]
        exact byte
  · rw [readFrom,if_neg goes]
    refine ⟨_,_,_,rfl,?_,?_⟩
    · simp [intOf]
      omega
    · intro four
      cases four

theorem hasMagic_copied {m d : Memory} (copied : ∀ i < 4, m i = d (a + i)) : hasMagic m 0 = hasMagic d a := by
  have zero := copied 0 (by decide)
  have one := copied 1 (by decide)
  have second := copied 2 (by decide)
  have third := copied 3 (by decide)
  simp only [hasMagic,Nat.zero_add]
  rw [zero,one,second,third]
  rfl

def Refuses (s : Driver) (filename : Str) : Prop := ∃ t, execAdmits s filename = some (false,t)

theorem Refuses.returns_zero (refuses : Refuses s filename) (h : Heap) :
    ∃ t, syscallExecProgram s h filename = some (0,h,t) := by
  obtain ⟨t,refused⟩ := refuses
  exact ⟨t,by rw [syscallExecProgram,refused]⟩

def upperShell : Str := bytes "SHELL.ELF"
def lowerShell : Str := bytes "shell.elf"

-- The guard knows two spellings of the shell's name. Any other one is refused only for what
-- the file is: too short, without a cluster, unreadable or no ELF file.
theorem shell_refused_iff (accepted : Accepted s.toMount) (shell : openSlot s upperShell = some k)
    (same : openSlot s filename = openSlot s upperShell) :
    Refuses s filename ↔ filename.takeWhile (· ≠ 0) = upperShell ∨ filename.takeWhile (· ≠ 0) = lowerShell ∨
      fileSize s.disk (s.slot k) < 4 ∨ firstClusterLow s.disk (s.slot k) < 2 ∨ 0xFF8 ≤ firstClusterLow s.disk (s.slot k) ∨
      s.faults (k/16+1) = true ∨ hasMagic s.disk (s.dataByte (firstClusterLow s.disk (s.slot k))) = false := by
  have upper : sameString filename "SHELL.ELF" = true ↔ filename.takeWhile (· ≠ 0) = upperShell :=
    sameString_iff (by decide +kernel)
  have lower : sameString filename "shell.elf" = true ↔ filename.takeWhile (· ≠ 0) = lowerShell :=
    sameString_iff (by decide +kernel)
  rw [← upper,← lower]
  unfold Refuses execAdmits
  by_cases spelled : sameString filename "SHELL.ELF" = true ∨ sameString filename "shell.elf" = true
  · rw [if_pos spelled]
    exact iff_of_true ⟨s,rfl⟩ (by rcases spelled with capital | small; exacts [.inl capital,.inr (.inl small)])
  · rw [if_neg spelled]
    obtain ⟨capital,small⟩ := not_or.mp spelled
    obtain ⟨h,opened,size,first⟩ := open_takes (same.trans shell) .fresh
    have word : h.firstCluster < 2^16 := by
      rw [first]
      exact load_lt _ _ 2
    obtain ⟨r,header,t,ran,four,bytesRead⟩ := header_read (s.after (k/16+1)) h accepted.layout.cluster word
    have command : (s.after (k/16+1)).faults 0 = s.faults (k/16+1) := by simp [Driver.after]
    rw [opened]
    dsimp only
    rw [if_neg (by decide),ran]
    dsimp only
    rw [size,first,command] at four
    rw [first] at bytesRead
    by_cases complete : r = 4
    · obtain ⟨long,two,below,read⟩ := four.mp complete
      have magic : hasMagic header 0 = hasMagic s.disk (s.dataByte (firstClusterLow s.disk (s.slot k))) :=
        hasMagic_copied (bytesRead complete)
      rw [if_neg (not_not.mpr complete),magic]
      cases elf : hasMagic s.disk (s.dataByte (firstClusterLow s.disk (s.slot k))) with
      | true =>
        simp [capital,small,read]
        omega
      | false => simp
    · rw [if_pos complete]
      refine iff_of_true ⟨t,rfl⟩ ?_
      cases read : s.faults (k/16+1) with
      | true => simp
      | false =>
        rw [read] at four
        simp only [and_true] at four
        omega

def shellFloppy : Driver :=
  {blank with disk := fun x =>
    if x < 19*512 then 0
    else if x < 33*512 then
      (upperShell.take 5 ++ [0x20,0x20,0x20,0x45,0x4C,0x46,0x20,0,0,0,0,0,0,0,0,0,0,0,0,0,0,2,0,4]).getD (x - 19*512) 0
    else [0x7F,0x45,0x4C,0x46].getD (x - 33*512) 0}

theorem mixed_case_admitted : openSlot shellFloppy (bytes "Shell.elf") = openSlot shellFloppy upperShell ∧
    openSlot shellFloppy upperShell = some 0 ∧ ¬ Refuses shellFloppy (bytes "Shell.elf") := by
  have admitted : (execAdmits shellFloppy (bytes "Shell.elf")).map Prod.fst = some true := by decide +kernel
  refine ⟨by decide +kernel,by decide +kernel,?_⟩
  rintro ⟨t,refused⟩
  rw [refused] at admitted
  cases admitted

theorem shell_refused_iff_lower_case : Refuses shellFloppy (bytes "shell.elf") := by
  have same : openSlot shellFloppy (bytes "shell.elf") = openSlot shellFloppy upperShell := by decide +kernel
  have shell : openSlot shellFloppy upperShell = some 0 := by decide +kernel
  exact (shell_refused_iff floppy_accepted shell same).mpr (.inr (.inl (by decide +kernel)))

end SantOS.Loader
