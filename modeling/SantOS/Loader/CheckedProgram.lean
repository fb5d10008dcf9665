import SantOS.Loader.TwoLoaders

namespace SantOS.Loader
open ByteMemory CStrings Fat12 KernelHeap WrappedBytes

-- What the segments may be read from, and what they must not be stored to: the kernel image
-- at 2MB and the kernel heap.
def InFile (elfBuffer size a : Nat) : Prop := elfBuffer ≤ a ∧ a < elfBuffer + size

instance : Decidable (InFile elfBuffer size a) := inferInstanceAs (Decidable (_ ∧ _))

def Protected (h : Heap) (kernelEnd a : Nat) : Prop :=
  (0x200000 ≤ a ∧ a < kernelEnd) ∨ (h.heapStart ≤ a ∧ a < h.heapStart + h.heapSize)

instance : DecidablePred (Protected h kernelEnd) := fun _ => inferInstanceAs (Decidable (_ ∨ _))

-- The page tables of boot2. A program linked over them chooses where its next stores go.
def PageTable (a : Nat) : Prop := 0x1000 ≤ a ∧ a < 0x4000

instance : DecidablePred PageTable := fun _ => inferInstanceAs (Decidable (_ ∧ _))

def Guarded (h : Heap) (kernelEnd a : Nat) : Prop := PageTable a ∨ Protected h kernelEnd a

instance : DecidablePred (Guarded h kernelEnd) := fun _ => inferInstanceAs (Decidable (_ ∨ _))

-- load_program with a check before each table entry, each byte read and each byte stored;
-- none when a check fails.
def copySegmentChecked (guarded : Nat → Prop) [DecidablePred guarded] (elfBuffer size : Nat) (m : Memory)
    (ph dest src j : Nat) : Nat → Option Memory
  | 0 => some m
  | left+1 =>
    if j < pFilesz m ph then
      if InFile elfBuffer size ((src+j) % 2^64) ∧ ¬ guarded ((dest+j) % 2^64) then
        copySegmentChecked guarded elfBuffer size (Function.update m ((dest+j) % 2^64) (m ((src+j) % 2^64))) ph dest src (j+1) left
      else none
    else some m

def zeroSegmentChecked (guarded : Nat → Prop) [DecidablePred guarded] (m : Memory) (ph dest j : Nat) : Nat → Option Memory
  | 0 => some m
  | left+1 =>
    if j < pMemsz m ph then
      if ¬ guarded ((dest+j) % 2^64) then
        zeroSegmentChecked guarded (Function.update m ((dest+j) % 2^64) 0) ph dest (j+1) left
      else none
    else some m

def loadSegmentChecked (guarded : Nat → Prop) [DecidablePred guarded] (elfBuffer size : Nat) (m : Memory)
    (header : Nat) : Option Memory :=
  (copySegmentChecked guarded elfBuffer size m header (pVaddr m header) ((elfBuffer + pOffset m header) % 2^64) 0 (2^64)).bind
    (fun copied => zeroSegmentChecked guarded copied header (pVaddr m header) (pFilesz copied header) (2^64))

def loadSegmentsChecked (guarded : Nat → Prop) [DecidablePred guarded] (elfBuffer size : Nat) (m : Memory)
    (ph i : Nat) : Nat → Option Memory
  | 0 => some m
  | left+1 =>
    if i < ePhnum m elfBuffer then
      let header := (ph + i*56) % 2^64
      if elfBuffer ≤ header ∧ header + 56 ≤ elfBuffer + size then
        if pType m header = ptLoad then
          (loadSegmentChecked guarded elfBuffer size m header).bind
            (fun m => loadSegmentsChecked guarded elfBuffer size m ph (i+1) left)
        else loadSegmentsChecked guarded elfBuffer size m ph (i+1) left
      else none
    else some m

def loadProgramChecked (guarded : Nat → Prop) [DecidablePred guarded] (s : Driver) (h : Heap) (filename : Str) :
    Option (Option (Nat × Heap × Driver)) :=
  match fat12Open s filename .fresh with
  | (r,file,s) =>
    if r ≠ 0 then some (some (0,h,s))
    else
      match malloc h (allocSize file.size) with
      | none => some none
      | some (elfBuffer,k) =>
        if elfBuffer = 0 then some (some (0,k,s))
        else
          match fat12Read s file (fun i => k.memory (elfBuffer+i)) file.size with
          | none => some none
          | some (bytesRead,buffer,s) =>
            let k := {k with memory := inPlace k.memory elfBuffer buffer}
            if bytesRead < 0 ∨ bytesRead.toNat ≠ file.size then some (some (0,free k elfBuffer,s))
            else if ¬ hasMagic k.memory elfBuffer then some (some (0,free k elfBuffer,s))
            else
              let ph := (elfBuffer + ePhoff k.memory elfBuffer) % 2^64
              (loadSegmentsChecked guarded elfBuffer file.size k.memory ph 0 (2^16)).map
                (fun m => some (eEntry m elfBuffer,free {k with memory := m} elfBuffer,s))

theorem update_unguarded {guarded : Nat → Prop} {m : Memory} (allowed : ¬ guarded x) (inside : guarded a) {v : UInt8} :
    Function.update m x v a = m a := by
  refine Function.update_of_ne ?_ _ _
  rintro rfl
  exact allowed inside

section
variable {guarded : Nat → Prop} [DecidablePred guarded] {b size : Nat} {m m' : Memory}

end

-- The buffer lies in the heap, so guarded stores leave the file in it.
theorem Image.unchanged {guarded : Nat → Prop} {m m' file : Memory} (image : Image m b file limit)
    (inside : ∀ a, b ≤ a → a < b + limit → guarded a)
    (kept : ∀ a, guarded a → m' a = m a) : Image m' b file limit :=
  image.congr (fun i bound => kept _ (inside _ (Nat.le_add_right b i) (Nat.add_lt_add_left bound b)))

theorem Image.stored {guarded : Nat → Prop} {m file : Memory} (image : Image m b file limit)
    (inside : ∀ a, b ≤ a → a < b + limit → guarded a)
    (allowed : ¬ guarded a) (v : UInt8) : Image (Function.update m a v) b file limit :=
  image.unchanged inside (fun _ guarded => update_unguarded allowed guarded)

section
variable {guarded : Nat → Prop} [DecidablePred guarded] {b size limit : Nat} {m m' file : Memory}

structure HarmlessSegment (guarded : Nat → Prop) (file : Memory) (size i : Nat) : Prop where
  content : ∀ d < pFilesz file (programHeader file i), pOffset file (programHeader file i) + d < size
  target : ∀ a, (segment file i).Target a → ¬ guarded a

structure Harmless (guarded : Nat → Prop) (file : Memory) (size : Nat) : Prop where
  table : ∀ i < ePhnum file 0, programHeader file i + 56 ≤ size
  segments : ∀ i < ePhnum file 0, Loaded file i → HarmlessSegment guarded file size i

end

section
variable {guarded : Nat → Prop} [DecidablePred guarded] {s t : Driver} {h k : Heap} {filename : Str}
  {f : File} {b : Nat} {r : Int} {buffer : Memory}
  {blocks : List Block} {frees : List Nat}

theorem Fetched.checked (fetched : Fetched s h filename f b k f.size buffer t) (guarded : Nat → Prop)
    [DecidablePred guarded] :
    loadProgramChecked guarded s h filename =
      if ¬ hasMagic (inPlace k.memory b buffer) b then some (some (0,free {k with memory := inPlace k.memory b buffer} b,t))
      else
        (loadSegmentsChecked guarded b f.size (inPlace k.memory b buffer)
          ((b + ePhoff (inPlace k.memory b buffer) b) % 2^64) 0 (2^16)).map
          (fun m => some (eEntry m b,free {k with memory := m} b,t)) := by
  obtain ⟨allocated,nonnull,u,opened,read⟩ := fetched
  have whole : ¬ ((f.size : Int) < 0 ∨ (f.size : Int).toNat ≠ f.size) := by omega
  unfold loadProgramChecked
  rw [opened]
  dsimp only
  rw [if_neg (by decide),allocated]
  dsimp only
  rw [if_neg nonnull,read]
  dsimp only
  rw [if_neg whole]

theorem Fetched.image (fetched : Fetched s h filename f b k r buffer t) (layout : Layout h blocks frees) :
    Image (inPlace k.memory b buffer) b buffer (512*sectorsFor f.size) := by
  have top := layout.top
  have within := fetched.within layout
  exact inPlace_image k.memory (by omega) (fun _ _ => rfl)

theorem Fetched.same_magic (fetched : Fetched s h filename f b k r buffer t) (layout : Layout h blocks frees) :
    hasMagic buffer 0 = hasMagic (inPlace k.memory b buffer) b := by
  obtain ⟨_,_,_,_,_,positive,_,_⟩ := fetched.block layout
  have room : 4 ≤ 512*sectorsFor f.size := by
    unfold sectorsFor
    omega
  exact hasMagic_copied (fun i bound => ((fetched.image layout).bytes i (Nat.lt_of_lt_of_le bound room)).symm)

theorem Fetched.refused (fetched : Fetched s h filename f b k f.size buffer t) (layout : Layout h blocks frees)
    (invalid : hasMagic buffer 0 ≠ true) (ran : loadProgram s h filename = some (entry,j,u)) :
    entry = 0 ∧ ∀ x, Used h blocks frees x → j.memory x = h.memory x := by
  rw [fetched.same_magic layout] at invalid
  rw [fetched.parses,if_pos invalid] at ran
  cases ran
  exact ⟨rfl,fun x used => fetched.given_back layout used⟩

end

theorem Fetched.same (fetched : Fetched s h filename f b k r buffer t)
    (other : Fetched s h filename f' b' k' r' buffer' t') :
    f = f' ∧ buffer = buffer' := by
  obtain ⟨allocated,_,u,opened,read⟩ := fetched
  obtain ⟨allocated',_,u',opened',read'⟩ := other
  cases opened.symm.trans opened'
  cases allocated.symm.trans allocated'
  cases read.symm.trans read'
  exact ⟨rfl,rfl⟩

theorem Harmless.congr {buffer file : Memory} (same : ∀ i < size, buffer i = file i) (long : 64 ≤ size) (short : size < 2^32)
    (harmless : Harmless guarded file size) : Harmless guarded buffer size := by
  have image : Image buffer 0 file size := ⟨by omega,fun i bound => by rw [Nat.zero_add]; exact same i bound⟩
  have count := image.count long
  have header (i : Nat) : programHeader buffer i = programHeader file i := by
    have offset : ePhoff buffer (0+0) = ePhoff file 0 := image.load (by omega)
    unfold programHeader
    rw [← offset]
  refine ⟨fun i bound => ?_,fun i bound loads => ?_⟩
  · rw [header]
    exact harmless.table i (count ▸ bound)
  · have fields := image.header (harmless.table i (count ▸ bound))
    rw [Nat.zero_add] at fields
    obtain ⟨type,offset,vaddr,filesz,memsz⟩ := fields
    unfold Loaded at loads
    rw [header,type] at loads
    obtain ⟨content,target⟩ := harmless.segments i (count ▸ bound) loads
    refine ⟨?_,?_⟩
    · rw [header,offset,filesz]
      exact content
    · unfold Segment.Target segment at target ⊢
      rw [header,vaddr,filesz,memsz]
      exact target

end SantOS.Loader
