import SantOS.Library.WrappedBytes
import SantOS.Loader.Programs

namespace SantOS.Loader
open ByteMemory WrappedBytes

def ePhentsize (m : Memory) (a : Nat) : Nat := load m (a+54) 2

-- What a program is made of: filesz bytes from vaddr on and zeros up to memsz.
structure Segment where
  vaddr : Nat
  filesz : Nat
  memsz : Nat
  content : Memory

def Segment.place (g : Segment) (m : Memory) : Memory := fun a =>
  if Covers g.vaddr g.filesz a then g.content (distance g.vaddr a)
  else if Covers g.vaddr g.memsz a then 0
  else m a

def Segment.Target (g : Segment) (a : Nat) : Prop := Covers g.vaddr (max g.filesz g.memsz) a

def placed (m : Memory) (segments : List Segment) : Memory := segments.foldl (fun m g => g.place m) m

theorem Segment.place_interval (g : Segment) (m : Memory) (fits : g.vaddr + g.memsz ≤ 2^64) (le : g.filesz ≤ g.memsz)
    (a : Nat) :
    g.place m a =
      if g.vaddr ≤ a ∧ a < g.vaddr + g.filesz then g.content (a - g.vaddr)
      else if g.vaddr ≤ a ∧ a < g.vaddr + g.memsz then 0
      else m a := by
  rw [Segment.place]
  simp only [covers_interval fits,covers_interval (Nat.le_trans (Nat.add_le_add_left le _) fits)]
  split
  · next inside =>
    have behind : distance g.vaddr a = a - g.vaddr := by
      unfold distance
      omega
    rw [behind]
  · rfl

theorem Segment.place_outside (g : Segment) (m : Memory) (away : ¬ g.Target a) : g.place m a = m a := by
  unfold Segment.Target Covers at away
  rw [Segment.place,if_neg (fun copied => away ⟨copied.1,by have less := copied.2; omega⟩),
    if_neg (fun filled => away ⟨filled.1,by have less := filled.2; omega⟩)]

theorem placed_outside (m : Memory) (away : ∀ g ∈ segments, ¬ g.Target a) : placed m segments a = m a := by
  induction segments generalizing m with
  | nil => rfl
  | cons g rest ih =>
    rw [placed,List.foldl_cons,← placed,ih _ (fun h member => away h (List.mem_cons_of_mem g member))]
    exact g.place_outside m (away g List.mem_cons_self)

theorem placed_append (m : Memory) (front back : List Segment) : placed m (front ++ back) = placed (placed m front) back :=
  List.foldl_append

theorem placed_congr (same : m a = m' a) : placed m segments a = placed m' segments a := by
  induction segments generalizing m m' with
  | nil => exact same
  | cons g rest ih =>
    refine ih ?_
    show g.place m a = g.place m' a
    unfold Segment.place
    rw [same]

def programHeader (file : Memory) (i : Nat) : Nat := ePhoff file 0 + i*56

def Loaded (file : Memory) (i : Nat) : Prop := pType file (programHeader file i) = ptLoad

instance : Decidable (Loaded file i) := inferInstanceAs (Decidable (_ = _))

def segment (file : Memory) (i : Nat) : Segment :=
  ⟨pVaddr file (programHeader file i),pFilesz file (programHeader file i),pMemsz file (programHeader file i),
    fun d => file (pOffset file (programHeader file i) + d)⟩

def segmentsFrom (file : Memory) (i left : Nat) : List Segment :=
  ((List.range' i left).filter (fun i => Loaded file i)).map (segment file)

def segments (file : Memory) : List Segment := segmentsFrom file 0 (ePhnum file 0)

theorem segmentsFrom_succ (file : Memory) (i left : Nat) : segmentsFrom file i (left+1) =
    if Loaded file i then segment file i::segmentsFrom file (i+1) left else segmentsFrom file (i+1) left := by
  unfold segmentsFrom
  by_cases loads : Loaded file i
  · simp only [List.range'_succ,List.filter_cons,loads,decide_true,if_true,List.map_cons]
  · simp [List.range'_succ,loads]

theorem segmentsFrom_append (file : Memory) (i n left : Nat) :
    segmentsFrom file i (n+left) = segmentsFrom file i n ++ segmentsFrom file (i+n) left := by
  unfold segmentsFrom
  rw [← List.range'_append_1,List.filter_append,List.map_append]

theorem mem_segmentsFrom : g ∈ segmentsFrom file i left ↔ ∃ k, i ≤ k ∧ k < i + left ∧ Loaded file k ∧ g = segment file k := by
  simp only [segmentsFrom,List.mem_map,List.mem_filter,List.mem_range'_1,decide_eq_true_eq]
  constructor
  · rintro ⟨k,⟨range,loads⟩,rfl⟩
    exact ⟨k,range.1,range.2,loads,rfl⟩
  · rintro ⟨k,low,high,loads,rfl⟩
    exact ⟨k,⟨⟨low,high⟩,loads⟩,rfl⟩

theorem mem_segments : g ∈ segments file ↔ ∃ i < ePhnum file 0, Loaded file i ∧ g = segment file i := by
  rw [segments,mem_segmentsFrom]
  simp

structure Image (m : Memory) (b : Nat) (file : Memory) (size : Nat) : Prop where
  top : b + size ≤ 2^64
  bytes : ∀ i < size, m (b+i) = file i

section
variable {m m' file : Memory} {b size : Nat}

theorem Image.load (image : Image m b file size) (inside : a + n ≤ size) : load m (b+a) n = load file a n := by
  apply load_congr
  intro i bound
  rw [Nat.add_assoc]
  exact image.bytes (a+i) (by omega)

theorem Image.congr (image : Image m b file size) (same : ∀ i < size, m' (b+i) = m (b+i)) : Image m' b file size :=
  ⟨image.top,fun i bound => (same i bound).trans (image.bytes i bound)⟩

theorem Image.header (image : Image m b file size) (inside : h + 56 ≤ size) :
    pType m (b+h) = pType file h ∧ pOffset m (b+h) = pOffset file h ∧ pVaddr m (b+h) = pVaddr file h ∧
      pFilesz m (b+h) = pFilesz file h ∧ pMemsz m (b+h) = pMemsz file h := by
  unfold pType pOffset pVaddr pFilesz pMemsz
  simp only [Nat.add_assoc]
  refine ⟨image.load (by omega),?_,?_,?_,?_⟩
  all_goals exact image.load (by omega)

end

-- The loops read the size that ends them again at every round, so they are the plain copy
-- and fill only while they do not store into that field.
theorem copySegment_eq {m : Memory} (field : ∀ a, Covers dest (pFilesz m ph) a → a < ph + 32 ∨ ph + 40 ≤ a)
    (rounds : pFilesz m ph ≤ j + left) :
    copySegment m ph dest src j left = copyBytes m dest src j (pFilesz m ph - j) := by
  induction left generalizing m j with
  | zero =>
    rw [Nat.sub_eq_zero_of_le (by omega)]
    rfl
  | succ left ih =>
    rw [copySegment]
    by_cases more : j < pFilesz m ph
    · have word : pFilesz m ph < 2^64 := load_lt _ _ 8
      have outside := field _ ((covers_iff (Nat.le_of_lt word)).mpr ⟨j,more,rfl⟩)
      have kept : pFilesz (Function.update m ((dest+j) % 2^64) (m ((src+j) % 2^64))) ph = pFilesz m ph := by
        apply load_congr
        intro i bound
        exact Function.update_of_ne (by omega) _ _
      obtain ⟨n,next⟩ : ∃ n, pFilesz m ph - j = n + 1 := ⟨pFilesz m ph - j - 1,by omega⟩
      have rest : pFilesz m ph - (j+1) = n := by omega
      rw [if_pos more,ih (by rw [kept]; exact field) (by rw [kept]; omega),kept,rest,next,copyBytes]
    · rw [if_neg more,Nat.sub_eq_zero_of_le (by omega)]
      rfl

theorem zeroSegment_eq {m : Memory} (field : ∀ a, Covers dest (pMemsz m ph) a → a < ph + 40 ∨ ph + 48 ≤ a)
    (rounds : pMemsz m ph ≤ j + left) : zeroSegment m ph dest j left = fillBytes m 0 dest j (pMemsz m ph - j) := by
  induction left generalizing m j with
  | zero =>
    rw [Nat.sub_eq_zero_of_le (by omega)]
    rfl
  | succ left ih =>
    rw [zeroSegment]
    by_cases more : j < pMemsz m ph
    · have word : pMemsz m ph < 2^64 := load_lt _ _ 8
      have outside := field _ ((covers_iff (Nat.le_of_lt word)).mpr ⟨j,more,rfl⟩)
      have kept : pMemsz (Function.update m ((dest+j) % 2^64) 0) ph = pMemsz m ph := by
        apply load_congr
        intro i bound
        exact Function.update_of_ne (by omega) _ _
      obtain ⟨n,next⟩ : ∃ n, pMemsz m ph - j = n + 1 := ⟨pMemsz m ph - j - 1,by omega⟩
      have rest : pMemsz m ph - (j+1) = n := by omega
      rw [if_pos more,ih (by rw [kept]; exact field) (by rw [kept]; omega),kept,rest,next,fillBytes]
    · rw [if_neg more,Nat.sub_eq_zero_of_le (by omega)]
      rfl

theorem Segment.place_eq {m file : Memory} (g : Segment) (image : Image m b file size)
    (word : g.filesz < 2^64 ∧ g.memsz < 2^64)
    (content : ∀ d < g.filesz, offset + d < size ∧ g.content d = file (offset + d))
    (away : ∀ a, g.Target a → a < b ∨ b + size ≤ a) :
    fillBytes (copyBytes m g.vaddr ((b + offset) % 2^64) 0 g.filesz) 0 g.vaddr g.filesz (g.memsz - g.filesz) = g.place m := by
  have top := image.top
  have source (d : Nat) (less : d < g.filesz) : ((b + offset) % 2^64 + d) % 2^64 = b + (offset + d) := by
    have inside := (content d less).1
    omega
  have apart : ∀ a, Covers g.vaddr (0 + g.filesz) a → ¬ Covers ((b + offset) % 2^64) (0 + g.filesz) a := by
    intro a target read
    rw [Nat.zero_add] at target read
    obtain ⟨d,less,rfl⟩ := (covers_iff (Nat.le_of_lt word.1)).mp read
    have outside := away _ ⟨target.1,by have inside := target.2; omega⟩
    have inside := (content d less).1
    rw [source d less] at outside
    omega
  funext a
  rw [fillBytes_apply _ _ _ (by omega),copyBytes_apply m g.vaddr _ (by omega) apart,Segment.place]
  by_cases copied : Covers g.vaddr g.filesz a
  · have less := copied.2
    rw [if_neg (fun both => by have le := both.2; omega),if_pos ⟨by rw [Nat.zero_add]; exact copied,Nat.zero_le _⟩,if_pos copied,
      source _ less,(content _ less).2]
    exact image.bytes _ (content _ less).1
  · have noneCopied : ¬ (Covers g.vaddr (0 + g.filesz) a ∧ 0 ≤ distance g.vaddr a) := by
      rw [Nat.zero_add]
      exact fun both => copied both.1
    rw [if_neg copied,if_neg noneCopied]
    refine if_congr ?_ rfl rfl
    unfold Covers at copied ⊢
    omega

def loadSegment (m : Memory) (elfBuffer header : Nat) : Memory :=
  let copied := copySegment m header (pVaddr m header) ((elfBuffer + pOffset m header) % 2^64) 0 (2^64)
  zeroSegment copied header (pVaddr m header) (pFilesz copied header) (2^64)

theorem loadSegments_succ (m : Memory) (elfBuffer ph i left : Nat) (more : i < ePhnum m elfBuffer) :
    loadSegments m elfBuffer ph i (left+1) =
      if pType m ((ph + i*56) % 2^64) = ptLoad then
        loadSegments (loadSegment m elfBuffer ((ph + i*56) % 2^64)) elfBuffer ph (i+1) left
      else loadSegments m elfBuffer ph (i+1) left := by
  rw [loadSegments,if_pos more]
  rfl

structure Readable (file : Memory) (size i : Nat) : Prop where
  header : programHeader file i + 56 ≤ size
  content : Loaded file i → ∀ d < pFilesz file (programHeader file i), pOffset file (programHeader file i) + d < size

structure Describes (m : Memory) (header : Nat) (file : Memory) (size : Nat) (g : Segment) (first : Nat) : Prop where
  offset : pOffset m header = first
  vaddr : pVaddr m header = g.vaddr
  filesz : pFilesz m header = g.filesz
  memsz : pMemsz m header = g.memsz
  word : g.vaddr < 2^64 ∧ g.filesz < 2^64 ∧ g.memsz < 2^64
  content : ∀ d < g.filesz, first + d < size ∧ g.content d = file (first + d)

section
variable {m file : Memory} {b size i : Nat}

theorem Image.describes (image : Image m b file size) (readable : Readable file size i) (loads : Loaded file i) :
    Describes m (b + programHeader file i) file size (segment file i) (pOffset file (programHeader file i)) := by
  obtain ⟨_,offset,vaddr,filesz,memsz⟩ := image.header readable.header
  exact ⟨offset,vaddr,filesz,memsz,⟨load_lt _ _ 8,load_lt _ _ 8,load_lt _ _ 8⟩,fun d less => ⟨readable.content loads d less,rfl⟩⟩

theorem loadSegment_eq (image : Image m b file size) (readable : Readable file size i) (loads : Loaded file i)
    (away : ∀ a, (segment file i).Target a → a < b ∨ b + size ≤ a) :
    loadSegment m b (b + programHeader file i) = (segment file i).place m := by
  have inside := readable.header
  have top := image.top
  have describes := fun m (image : Image m b file size) => image.describes readable loads
  generalize segment file i = g at *
  generalize pOffset file (programHeader file i) = offset at *
  have described := describes m image
  have word := described.word
  have near (a n : Nat) (covers : Covers g.vaddr n a) (le : n ≤ max g.filesz g.memsz) : a < b ∨ b + size ≤ a :=
    away a ⟨covers.1,Nat.lt_of_lt_of_le covers.2 le⟩
  have copies : copySegment m (b + programHeader file i) g.vaddr ((b + offset) % 2^64) 0 (2^64) =
      copyBytes m g.vaddr ((b + offset) % 2^64) 0 g.filesz := by
    rw [copySegment_eq,described.filesz,Nat.sub_zero]
    · intro a covers
      rw [described.filesz] at covers
      have outside := near a _ covers (Nat.le_max_left ..)
      omega
    · rw [described.filesz]
      omega
  have kept : Image (copyBytes m g.vaddr ((b + offset) % 2^64) 0 g.filesz) b file size := by
    refine image.congr (fun j bound => copyBytes_outside m _ (by omega) ?_)
    intro covers
    rw [Nat.zero_add] at covers
    have outside := near _ _ covers (Nat.le_max_left ..)
    omega
  have copied := describes _ kept
  unfold loadSegment
  dsimp only
  rw [described.vaddr,described.offset,copies,copied.filesz,zeroSegment_eq,copied.memsz]
  · exact g.place_eq image word.2 described.content away
  · intro a covers
    rw [copied.memsz] at covers
    have outside := near a _ covers (Nat.le_max_right ..)
    omega
  · rw [copied.memsz]
    omega

theorem Image.place (image : Image m b file size) (g : Segment) (away : ∀ a, g.Target a → a < b ∨ b + size ≤ a) :
    Image (g.place m) b file size := by
  refine image.congr (fun j bound => g.place_outside m (fun target => ?_))
  have outside := away _ target
  omega

structure Loadable (file : Memory) (b size : Nat) : Prop where
  long : 64 ≤ size
  readable : ∀ i < ePhnum file 0, Readable file size i
  away : ∀ i < ePhnum file 0, Loaded file i → ∀ a, (segment file i).Target a → a < b ∨ b + size ≤ a

theorem Image.count (image : Image m b file size) (long : 64 ≤ size) : ePhnum m b = ePhnum file 0 := by
  unfold ePhnum
  rw [image.load (by omega),Nat.zero_add]

theorem Image.table (image : Image m b file size) (long : 64 ≤ size) (readable : Readable file size i) :
    ((b + ePhoff m b) % 2^64 + i*56) % 2^64 = b + programHeader file i := by
  have top := image.top
  have inside := readable.header
  have offset : ePhoff m b = ePhoff file 0 := by
    unfold ePhoff
    rw [image.load (by omega),Nat.zero_add]
  unfold programHeader at inside ⊢
  rw [offset]
  omega

theorem loadSegments_eq (image : Image m b file size) (loadable : Loadable file b size) {ph : Nat}
    (table : ∀ i < ePhnum file 0, (ph + i*56) % 2^64 = b + programHeader file i) (rounds : ePhnum file 0 ≤ i + left) :
    loadSegments m b ph i left = placed m (segmentsFrom file i (ePhnum file 0 - i)) := by
  have count := fun m (image : Image m b file size) => image.count loadable.long
  induction left generalizing m i with
  | zero =>
    rw [Nat.sub_eq_zero_of_le (by omega)]
    rfl
  | succ left ih =>
    by_cases more : i < ePhnum file 0
    · obtain ⟨n,next⟩ : ∃ n, ePhnum file 0 - i = n + 1 := ⟨ePhnum file 0 - i - 1,by omega⟩
      have rest : ePhnum file 0 - (i+1) = n := by omega
      have readable := loadable.readable i more
      obtain ⟨type,_⟩ := image.header readable.header
      rw [loadSegments_succ _ _ _ _ _ (by rw [count m image]; exact more),table i more,type,next,segmentsFrom_succ]
      by_cases loads : Loaded file i
      · have away := loadable.away i more loads
        rw [if_pos loads,if_pos (show pType file (programHeader file i) = ptLoad from loads),
          loadSegment_eq image readable loads away,ih (image.place _ away) (by omega),rest]
        rfl
      · rw [if_neg loads,if_neg (show ¬ pType file (programHeader file i) = ptLoad from loads),ih image (by omega),rest]
    · rw [loadSegments,if_neg (by rw [count m image]; exact more),Nat.sub_eq_zero_of_le (by omega)]
      rfl

theorem Image.placed (image : Image m b file size) (segments : List Segment)
    (away : ∀ g ∈ segments, ∀ a, g.Target a → a < b ∨ b + size ≤ a) : Image (placed m segments) b file size := by
  refine image.congr (fun j bound => placed_outside m (fun g member target => ?_))
  have outside := away g member _ target
  omega

end

theorem Loadable.segments_away (loadable : Loadable file b size) (i n : Nat) (bound : i + n ≤ ePhnum file 0) :
    ∀ g ∈ segmentsFrom file i n, ∀ a, g.Target a → a < b ∨ b + size ≤ a := by
  intro g member
  obtain ⟨k,_,high,loads,rfl⟩ := mem_segmentsFrom.mp member
  exact loadable.away k (by omega) loads

structure ElfFile (file : Memory) (size : Nat) : Prop where
  header : 64 ≤ size
  magic : hasMagic file 0 = true
  entrySize : ePhentsize file 0 = 56
  near : ePhoff file 0 < 2^32
  table : ePhoff file 0 + ePhnum file 0 * 56 ≤ size
  ranges : ∀ i < ePhnum file 0, Loaded file i →
    pOffset file (programHeader file i) + pFilesz file (programHeader file i) ≤ size ∧
      pFilesz file (programHeader file i) ≤ pMemsz file (programHeader file i)

theorem ElfFile.entry (elf : ElfFile file size) (bound : i < ePhnum file 0) : programHeader file i + 56 ≤ size := by
  have table := elf.table
  unfold programHeader
  omega

theorem ElfFile.loadable (elf : ElfFile file size)
    (away : ∀ i < ePhnum file 0, Loaded file i → ∀ a, (segment file i).Target a → a < b ∨ b + size ≤ a) :
    Loadable file b size := by
  refine ⟨elf.header,fun i bound => ⟨elf.entry bound,fun loads d less => ?_⟩,away⟩
  have range := (elf.ranges i bound loads).1
  omega

end SantOS.Loader
