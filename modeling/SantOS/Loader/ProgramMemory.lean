import SantOS.Fat12.ReadBounds
import SantOS.Heap.Release
import SantOS.Loader.Segments

namespace SantOS.Loader
open ByteMemory CStrings Fat12 KernelHeap

def allocSize (size : Nat) : Nat := (size + 511) % 2^32 &&& (2^32 - 512)

theorem allocSize_eq (word : size + 511 < 2^32) : allocSize size = 512*sectorsFor size := by
  have mask : (2^32 - 512 : Nat) = (2^23 - 1) <<< 9 := by decide
  rw [allocSize,mask,Nat.mod_eq_of_lt word,round_down 9 23 word,sectorsFor]
  omega

-- A size whose rounding wraps asks for nothing.
theorem allocSize_wraps (long : 2^32 ≤ size + 511) (word : size < 2^32) : allocSize size = 0 := by
  have mask : (2^32 - 512 : Nat) = (2^23 - 1) <<< 9 := by decide
  rw [allocSize,mask,round_down 9 23 (Nat.mod_lt _ (by decide))]
  omega

theorem opened_size_lt (opened : fat12Open s filename file = (0,f,t)) : f.size < 2^32 := by
  rw [fat12Open] at opened
  split at opened
  · cases opened
    exact load_lt _ _ 4
  · cases opened

structure Fetched (s : Driver) (h : Heap) (filename : Str) (f : File) (b : Nat) (k : Heap) (bytesRead : Int)
    (buffer : Memory)
    (t : Driver) : Prop where
  allocated : malloc h (allocSize f.size) = some (b,k)
  nonnull : b ≠ 0
  read : ∃ u, fat12Open s filename .fresh = (0,f,u) ∧
    fat12Read u f (fun i => k.memory (b+i)) f.size = some (bytesRead,buffer,t)

section
variable {s t : Driver} {h k : Heap} {filename : Str} {f : File} {b : Nat} {r : Int} {buffer m : Memory} {blocks : List Block}
  {frees : List Nat}

theorem Fetched.parses (fetched : Fetched s h filename f b k f.size buffer t) : loadProgram s h filename =
    if ¬ hasMagic (inPlace k.memory b buffer) b then some (0,free {k with memory := inPlace k.memory b buffer} b,t)
    else
      let m := loadSegments (inPlace k.memory b buffer) b ((b + ePhoff (inPlace k.memory b buffer) b) % 2^64) 0 (2^16)
      some (eEntry m b,free {k with memory := m} b,t) := by
  obtain ⟨allocated,nonnull,u,opened,read⟩ := fetched
  unfold allocSize at allocated
  have whole : ¬ ((f.size : Int) < 0 ∨ (f.size : Int).toNat ≠ f.size) := by omega
  unfold loadProgram
  rw [opened]
  dsimp only
  rw [if_neg (by decide),allocated]
  dsimp only
  rw [if_neg nonnull,read]
  dsimp only
  rw [if_neg whole]

-- The buffer is the payload of a block of the heap and takes all sectors of the file.
theorem Fetched.block (fetched : Fetched s h filename f b k r buffer t) (layout : Layout h blocks frees) :
    ∃ c blocks' frees', Granted h k blocks blocks' frees frees' c (alignSize (512*sectorsFor f.size)) ∧ b = c.payload ∧
      0 < f.size ∧ f.size + 511 < 2^32 ∧ 512*sectorsFor f.size ≤ c.size := by
  obtain ⟨allocated,nonnull,u,opened,_⟩ := fetched
  have word := opened_size_lt opened
  have positive : allocSize f.size ≠ 0 := by
    intro empty
    rw [empty,malloc,if_pos rfl] at allocated
    cases allocated
    exact nonnull rfl
  have short : f.size + 511 < 2^32 := by
    by_contra long
    exact positive (allocSize_wraps (by omega) word)
  have size := allocSize_eq short
  rw [size] at allocated positive
  rcases malloc_grants layout positive with ⟨ran,_⟩ | ⟨j,c,blocks',frees',ran,_,granted,_⟩
  · cases allocated.symm.trans ran
    exact absurd rfl nonnull
  · cases allocated.symm.trans ran
    have enough := granted.enough
    have rounded : 512*sectorsFor f.size ≤ alignSize (512*sectorsFor f.size) := by
      refine alignSize_ge ?_
      unfold sectorsFor
      omega
    refine ⟨c,blocks',frees',granted,rfl,?_,short,by omega⟩
    unfold sectorsFor at positive
    omega

theorem Fetched.within (fetched : Fetched s h filename f b k r buffer t) (layout : Layout h blocks frees) :
    h.heapStart ≤ b ∧ b + 512*sectorsFor f.size ≤ h.heapStart + h.heapSize := by
  obtain ⟨c,blocks',frees',granted,payload,_,_,room⟩ := fetched.block layout
  obtain ⟨low,high⟩ := granted.layout.tiles.mem granted.member
  rw [granted.region.1] at low
  rw [granted.region.1,granted.region.2] at high
  rw [payload]
  unfold Block.stop at high
  unfold Block.payload
  omega

theorem Fetched.inside_block {c : Block} (fetched : Fetched s h filename f b k r buffer t) (short : f.size + 511 < 2^32)
    (payload : b = c.payload) (room : 512*sectorsFor f.size ≤ c.size) :
    ∀ x, (x < c.payload ∨ c.stop ≤ x) → inPlace k.memory b buffer x = k.memory x := by
  obtain ⟨_,_,u,_,read⟩ := fetched
  unfold fat12Read at read
  rw [if_neg (Nat.lt_irrefl _)] at read
  intro x away
  unfold inPlace
  split
  · have behind := nothing_behind_sectors (Nat.zero_le _) short (.inl rfl) read (x := x - b) (by
      unfold Block.stop at away
      unfold Block.payload at away payload
      omega)
    rw [behind,Nat.add_sub_of_le (by omega)]
  · rfl

theorem Fetched.keeps (fetched : Fetched s h filename f b k r buffer t) (layout : Layout h blocks frees)
    (used : Used h blocks frees x) : inPlace k.memory b buffer x = h.memory x := by
  obtain ⟨c,blocks',frees',granted,payload,_,short,room⟩ := fetched.block layout
  rw [fetched.inside_block short payload room x (granted.used used).2]
  exact malloc_used layout fetched.allocated used

theorem Fetched.released (fetched : Fetched s h filename f b k r buffer t) (layout : Layout h blocks frees)
    (heap : ∀ a, h.heapStart ≤ a → a < h.heapStart + h.heapSize → m a = inPlace k.memory b buffer a)
    (used : Used h blocks frees x) : (free {k with memory := m} b).memory x = m x := by
  obtain ⟨c,blocks',frees',granted,payload,_,short,room⟩ := fetched.block layout
  have filled := granted.layout.write_inside granted.member (fetched.inside_block short payload room)
  have stays : Layout {k with memory := m} blocks' frees' := by
    refine filled.congr (m := m) ?_
    intro d block i bound
    obtain ⟨low,high⟩ := granted.layout.tiles.mem block
    rw [granted.region.1] at low
    rw [granted.region.1,granted.region.2] at high
    unfold Block.stop at high
    exact heap _ (by omega) (by omega)
  rw [payload]
  exact free_used stays granted.member granted.busy (granted.used used).1

theorem Fetched.given_back (fetched : Fetched s h filename f b k r buffer t) (layout : Layout h blocks frees)
    (used : Used h blocks frees x) : (free {k with memory := inPlace k.memory b buffer} b).memory x = h.memory x :=
  (fetched.released layout (fun _ _ _ => rfl) used).trans (fetched.keeps layout used)

theorem inPlace_image {file : Memory} (m : Memory) (top : b + size ≤ 2^64) (content : ∀ i < size, buffer i = file i) :
    Image (inPlace m b buffer) b file size := by
  refine ⟨top,fun i bound => ?_⟩
  unfold inPlace
  rw [if_pos (Nat.le_add_right b i),Nat.add_sub_cancel_left]
  exact content i bound

-- A well-formed file whose segments lie outside the heap: the segments are placed in order
-- and the entry point is returned.
theorem Fetched.places {file : Memory} (fetched : Fetched s h filename f b k f.size buffer t)
    (layout : Layout h blocks frees)
    (content : ∀ i < f.size, buffer i = file i) (elf : ElfFile file f.size)
    (away : ∀ i < ePhnum file 0, Loaded file i → ∀ a, (segment file i).Target a →
      a < h.heapStart ∨ h.heapStart + h.heapSize ≤ a) :
    ∃ j, loadProgram s h filename = some (eEntry file 0,j,t) ∧
      ∀ a, (a < h.heapStart ∨ h.heapStart + h.heapSize ≤ a) → j.memory a = placed h.memory (segments file) a := by
  obtain ⟨low,high⟩ := fetched.within layout
  have top := layout.top
  have sectors : f.size ≤ 512*sectorsFor f.size := by
    unfold sectorsFor
    omega
  have image : Image (inPlace k.memory b buffer) b file f.size := inPlace_image k.memory (by omega) content
  have clear : ∀ i < ePhnum file 0, Loaded file i → ∀ a, (segment file i).Target a → a < b ∨ b + f.size ≤ a := by
    intro i bound loads a target
    have outside := away i bound loads a target
    omega
  have loadable := elf.loadable clear
  have magic : hasMagic (inPlace k.memory b buffer) b = true := by
    rw [← hasMagic_copied (fun i bound => (image.bytes i (by have long := elf.header; omega)).symm)]
    exact elf.magic
  have count : ePhnum file 0 < 2^16 := load_lt _ _ 2
  have ran : loadSegments (inPlace k.memory b buffer) b ((b + ePhoff (inPlace k.memory b buffer) b) % 2^64) 0 (2^16) =
      placed (inPlace k.memory b buffer) (segments file) := loadSegments_eq image loadable
    (fun i bound => image.table elf.header (loadable.readable i bound)) (by omega)
  have kept := image.placed (segments file) (loadable.segments_away 0 _ (by omega))
  have entry : eEntry (placed (inPlace k.memory b buffer) (segments file)) b = eEntry file 0 := by
    unfold eEntry
    rw [kept.load (by have long := elf.header; omega),Nat.zero_add]
  refine ⟨free {k with memory := placed (inPlace k.memory b buffer) (segments file)} b,?_,?_⟩
  · rw [fetched.parses,if_neg (not_not.mpr magic)]
    dsimp only
    rw [ran,entry]
  · intro a outside
    rw [fetched.released layout _ (.inl outside)]
    · exact placed_congr (fetched.keeps layout (.inl outside))
    · intro x first last
      refine placed_outside _ (fun g listed target => ?_)
      obtain ⟨i,bound,loads,rfl⟩ := mem_segments.mp listed
      have other := away i bound loads _ target
      omega

end

end SantOS.Loader
