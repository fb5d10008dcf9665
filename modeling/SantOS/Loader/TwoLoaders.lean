import SantOS.Boot.ProgramHeaders
import SantOS.Fat12.RoundTrip
import SantOS.Heap.Histories
import SantOS.Loader.ProgramMemory

namespace SantOS.Loader
open ByteMemory CStrings Fat12 KernelHeap Boot LinkedPaths WrappedBytes

-- The segments of a well-formed file do not meet the loaders' own data: the kernel heap with
-- elf_buffer, the image at 0x20000 and the word kernel_entry. Both loaders then do the same
-- to all other memory and use the same entry point.
theorem loaders_agree {s t : Driver} {h k : Heap} {filename : Str} {f : File} {b : Nat} {buffer : Memory}
    {blocks : List Block}
    {frees : List Nat} (file : Memory) (layout : Layout h blocks frees) (fetched : Fetched s h filename f b k f.size buffer t)
    (content : ∀ i < f.size, buffer i = file i) (elf : ElfFile file f.size)
    (r : Machine) (image : Image r.memory 0x20000 file f.size) (kernelEntry : Nat) (own : Nat → Prop)
    (heap : ∀ a, h.heapStart ≤ a → a < h.heapStart + h.heapSize → own a)
    (loadedImage : ∀ i < f.size, own (0x20000 + i)) (word : ∀ i < 8, own (kernelEntry + i))
    (away : ∀ i < ePhnum file 0, Loaded file i → ∀ a, (segment file i).Target a → ¬ own a) :
    ∃ j u, loadProgram s h filename = some (eEntry file 0,j,t) ∧
      checkElfHeader r kernelEntry = some u ∧ load u.memory kernelEntry 8 = eEntry file 0 ∧
      ∀ a, ¬ own a → j.memory a = placed h.memory (segments file) a ∧ u.memory a = placed r.memory (segments file) a ∧
        (h.memory a = r.memory a → j.memory a = u.memory a) := by
  obtain ⟨j,ran,outside⟩ := fetched.places layout content elf (fun i bound loads a target => by
    by_contra inside
    exact away i bound loads a target (heap a (by omega) (by omega)))
  obtain ⟨u,booted,memory⟩ := checkElfHeader_loads image elf (fun i bound loads a target => by
    by_contra inside
    have back : 0x20000 + (a - 0x20000) = a := by omega
    exact away i bound loads a target (back ▸ loadedImage (a - 0x20000) (by omega))) kernelEntry
  refine ⟨j,u,ran,booted,?_,?_⟩
  · rw [memory,load_store_same]
    exact Nat.mod_eq_of_lt (load_lt _ _ 8)
  · intro a free
    have kernel : j.memory a = placed h.memory (segments file) a := by
      refine outside a ?_
      by_contra inside
      exact free (heap a (by omega) (by omega))
    have boot : u.memory a = placed r.memory (segments file) a := by
      rw [memory]
      refine store_outside _ ?_
      by_contra inside
      have back : kernelEntry + (a - kernelEntry) = a := by omega
      exact free (back ▸ word (a - kernelEntry) (by omega))
    refine ⟨kernel,boot,fun same => ?_⟩
    rw [kernel,boot]
    exact placed_congr same

-- A program with one segment: four bytes and four zeros at page*2^16, entered at 5MB.
def program (page : UInt8) : List UInt8 :=
  [0x7F,0x45,0x4C,0x46,2,1,1,0,0,0,0,0,0,0,0,0,2,0,0x3E,0,1,0,0,0,0,0,0x50,0,0,0,0,0,64,0,0,0,0,0,0,0,
    0,0,0,0,0,0,0,0,0,0,0,0,64,0,56,0,1,0,0,0,0,0,0,0,
    1,0,0,0,7,0,0,0,120,0,0,0,0,0,0,0,0,0,page,0,0,0,0,0,0,0,page,0,0,0,0,0,4,0,0,0,0,0,0,0,8,0,0,0,0,0,0,0,
    0,0,0,0,0,0,0,0,0xAA,0xBB,0xCC,0xDD]

def programBytes (page : UInt8) : Memory := fun i => (program page).getD i 0

def programFloppy (page : UInt8) : Driver :=
  {blank with
    fatBuffer := setFatEntry (fun _ => 0) 2 0xFFF
    disk := fun x =>
      if x < 19*512 then 0
      else if x < 33*512 then
        [0x50,0x20,0x20,0x20,0x20,0x20,0x20,0x20,0x20,0x20,0x20,0x20,0,0,0,0,0,0,0,0,0,0,0,0,0,0,2,0,124].getD (x - 19*512) 0
      else programBytes page (x - 33*512)}

def kernelHeap : Heap := heapInit (fun _ => 0) 0x1000000 0x100000

theorem program_fetched (page : UInt8) (found : openSlot (programFloppy page) [0x50] = some 0)
    (size : fileSize (programFloppy page).disk ((programFloppy page).slot 0) = 124)
    (first : firstClusterLow (programFloppy page).disk ((programFloppy page).slot 0) = 2) :
    ∃ f k buffer t, Fetched (programFloppy page) kernelHeap [0x50] f 0x1000018 k f.size buffer t ∧ f.size = 124 ∧
      ∀ i < f.size, buffer i = programBytes page i := by
  obtain ⟨f,opened,length,cluster⟩ := open_takes found .fresh
  rw [size] at length
  rw [first] at cluster
  have allocated : ∃ k, malloc kernelHeap (allocSize 124) = some (0x1000018,k) := ⟨_,rfl⟩
  obtain ⟨k,allocated⟩ := allocated
  have one : (programFloppy page).bootSector.sectorsPerCluster = 1 := rfl
  have clear : (programFloppy page).Clear := fun _ => rfl
  have link : (programFloppy page).fat 2 = 0xFFF := by
    unfold Driver.fat
    exact get_set_same _ _ _
  have path : Path (programFloppy page).fat (0xFF8 ≤ ·) 2 [2] := .cons (by omega) (.nil (by rw [link]; omega))
  have start : (programFloppy page).dataByte 2 = 33*512 := by
    unfold Mount.dataByte Mount.clusterSector
    rfl
  have holds : Holds (programFloppy page) (programBytes page) 124 0 [2] := by
    refine ⟨fun i _ _ => ?_,?_⟩
    · rw [start,Nat.zero_add]
      show (if 33*512 + i < 19*512 then (0 : UInt8) else if 33*512 + i < 33*512 then _ else programBytes page (33*512 + i - 33*512)) = _
      rw [if_neg (by omega),if_neg (by omega),Nat.add_sub_cancel_left]
    · show 124 ≤ 0 + (programFloppy page).clusterBytes
      rw [clusterBytes_one one]
      decide
  have reads : ∃ buffer, readFrom (programFloppy page) (fun i => k.memory (0x1000018 + i)) 124 0 2 125 =
      some (intOf 124,buffer,programFloppy page) ∧ ∀ i < 124, buffer i = programBytes page i :=
    readFrom_spec one clear path (by simp) holds (Nat.le_refl _) (Nat.zero_le _) (by decide)
      (fun i bound => absurd bound (Nat.not_lt_zero i)) (by decide)
  obtain ⟨buffer,ran,bytes⟩ := reads
  refine ⟨f,k,buffer,programFloppy page,⟨by rw [length]; exact allocated,by decide,_,opened,?_⟩,length,by rw [length]; exact bytes⟩
  rw [clear.after_eq,fat12Read,if_neg (Nat.lt_irrefl _),length,cluster]
  exact ran

theorem program_fields (page : UInt8) : ePhoff (programBytes page) 0 = 64 ∧ ePhnum (programBytes page) 0 = 1 ∧
    pType (programBytes page) 64 = ptLoad ∧ pOffset (programBytes page) 64 = 120 ∧
    pVaddr (programBytes page) 64 = page.toNat*2^16 ∧
    pFilesz (programBytes page) 64 = 4 ∧ pMemsz (programBytes page) 64 = 8 := by
  refine ⟨?_,?_,?_,?_,?_,?_,?_⟩
  all_goals simp [ePhoff,ePhnum,pType,ptLoad,pOffset,pVaddr,pFilesz,pMemsz,load,programBytes,program]
  omega

theorem program_elf (page : UInt8) : ElfFile (programBytes page) 124 := by
  obtain ⟨table,count,_,offset,_,filesz,memsz⟩ := program_fields page
  refine ⟨by decide,by simp [hasMagic,programBytes,program],by simp [ePhentsize,load,programBytes,program],
    by rw [table]; decide,by rw [table,count]; decide,?_⟩
  intro i bound _
  rw [count] at bound
  have first : programHeader (programBytes page) i = 64 := by
    unfold programHeader
    omega
  rw [first,offset,filesz,memsz]
  decide

theorem program_target (page : UInt8) (bound : i < ePhnum (programBytes page) 0)
    (target : (segment (programBytes page) i).Target a) :
    page.toNat*2^16 ≤ a ∧ a < page.toNat*2^16 + 8 := by
  obtain ⟨table,count,_,_,vaddr,filesz,memsz⟩ := program_fields page
  rw [count] at bound
  have first : programHeader (programBytes page) i = 64 := by
    unfold programHeader
    omega
  unfold Segment.Target segment at target
  rw [first,vaddr,filesz,memsz] at target
  have small := page.toNat_lt
  exact (covers_interval (by omega)).mp target

def programMachine (page : UInt8) : Machine := ⟨0,0,0,0,0,0,0,0,0,0,fun a => programBytes page (a - 0x20000)⟩

theorem kernelHeap_layout : Layout kernelHeap [⟨0x1000000,0x100000 - 24⟩] [0x1000000] := by
  have kept : Kept 0x1000000 0x100000 (.init (fun _ => 0) 0x1000000 0x100000) [⟨0x1000000,0x100000 - 24⟩] [0x1000000] :=
    init_kept (by decide)
  exact kept.layout

theorem loaders_agree_program : ∃ j u t, loadProgram (programFloppy 0x50) kernelHeap [0x50] = some (0x500000,j,t) ∧
    checkElfHeader (programMachine 0x50) 0x9500 = some u ∧ load u.memory 0x9500 8 = 0x500000 ∧
    j.memory 0x500003 = 0xDD ∧ u.memory 0x500003 = 0xDD := by
  obtain ⟨f,k,buffer,t,fetched,size,content⟩ := program_fetched 0x50 (by decide +kernel) (by decide +kernel) (by decide +kernel)
  have image : Image (programMachine 0x50).memory 0x20000 (programBytes 0x50) f.size := by
    refine ⟨by omega,fun i _ => ?_⟩
    rw [programMachine]
    dsimp only
    rw [Nat.add_sub_cancel_left]
  have entry : eEntry (programBytes 0x50) 0 = 0x500000 := by decide +kernel
  obtain ⟨j,u,ran,booted,stored,same⟩ := loaders_agree (programBytes 0x50) kernelHeap_layout fetched content
    (by rw [size]; exact program_elf 0x50) (programMachine 0x50) image 0x9500
    (fun a => (0x1000000 ≤ a ∧ a < 0x1100000) ∨ (0x20000 ≤ a ∧ a < 0x20000 + 124) ∨ (0x9500 ≤ a ∧ a < 0x9508))
    (fun a low high => .inl ⟨low,high⟩) (fun i bound => .inr (.inl (by omega))) (fun i bound => .inr (.inr (by omega)))
    (fun i bound _ a target => by
      have inside := program_target 0x50 bound target
      have page : (0x50 : UInt8).toNat = 0x50 := rfl
      rw [page] at inside
      omega)
  rw [entry] at ran stored
  obtain ⟨kernel,boot,_⟩ := same 0x500003 (by omega)
  refine ⟨j,u,t,ran,booted,stored,?_,?_⟩
  · rw [kernel]
    decide +kernel
  · rw [boot]
    decide +kernel

end SantOS.Loader
