import SantOS.Loader.Segments

namespace SantOS.Boot
open ByteMemory WrappedBytes Loader

-- The registers of boot2's loading code, and memory. Nothing in boot2 sets the direction
-- flag, so the string instructions go upward.
structure Machine where
  rax : Nat
  rcx : Nat
  rsi : Nat
  rdi : Nat
  r8 : Nat
  r9 : Nat
  r10 : Nat
  r11 : Nat
  r12 : Nat
  r13 : Nat
  memory : Memory

def repMovsbFrom (s : Machine) : Nat → Machine
  | 0 => {s with rcx := 0}
  | rcx+1 =>
    repMovsbFrom {s with
      memory := Function.update s.memory s.rdi (s.memory s.rsi)
      rsi := (s.rsi+1) % 2^64
      rdi := (s.rdi+1) % 2^64} rcx

def repMovsb (s : Machine) : Machine := repMovsbFrom s s.rcx

def repStosbFrom (s : Machine) : Nat → Machine
  | 0 => {s with rcx := 0}
  | rcx+1 =>
    repStosbFrom {s with
      memory := Function.update s.memory s.rdi (UInt8.ofNat s.rax)
      rdi := (s.rdi+1) % 2^64} rcx

def repStosb (s : Machine) : Machine := repStosbFrom s s.rcx

-- The parts of a LOAD segment's code under their comments in the source: get the info we
-- need, copy segment from file to memory, zero-fill any remaining memory.
def getSegmentInfo (s : Machine) : Machine :=
  {s with
    r13 := s.rsi
    r8 := load s.memory (s.rsi + 0x08) 8
    r9 := load s.memory (s.rsi + 0x10) 8
    r10 := load s.memory (s.rsi + 0x20) 8
    r11 := load s.memory (s.rsi + 0x28) 8}

def copySegment (s : Machine) : Machine :=
  let s := {s with rdi := s.r9, rax := (0x20000 + s.r8) % 2^64}
  repMovsb {s with rsi := s.rax, rcx := s.r10}

def zeroFill (s : Machine) : Machine :=
  let rcx := (s.r11 + (2^64 - s.r10)) % 2^64
  if rcx = 0 then {s with rcx := 0} else repStosb {s with rcx := rcx, rax := s.rax/2^8*2^8}

def loadSegment (s : Machine) : Machine :=
  let s := zeroFill (copySegment (getSegmentInfo s))
  {s with rsi := s.r13}

def parseProgramHeader (s : Machine) : Machine :=
  let eax := load s.memory s.rsi 4
  if eax ≠ 1 then {s with rax := eax} else loadSegment {s with rax := eax}

def nextHeader (s : Machine) : Machine := {s with rsi := (s.rsi + s.r12) % 2^64}

def parseProgramHeaders (s : Machine) : Nat → Machine
  | 0 => s
  | ebx+1 => parseProgramHeaders (nextHeader (parseProgramHeader s)) ebx

-- From the check of the ELF header to the entry point in kernel_entry; none is .not_elf.
def checkElfHeader (s : Machine) (kernelEntry : Nat) : Option Machine :=
  let s := {s with rsi := 0x20000}
  let s := {s with rax := load s.memory s.rsi 8}
  if s.rax % 2^32 ≠ 0x464C457F then none
  else
    let s := {s with rax := load s.memory (s.rsi + 0x20) 4, r12 := load s.memory (s.rsi + 0x36) 2}
    let ebx := load s.memory (s.rsi + 0x38) 2
    let s := parseProgramHeaders {s with rsi := (s.rsi + s.rax) % 2^64} ebx
    let s := {s with rdi := 0x20000}
    let s := {s with rax := load s.memory (s.rdi + 0x18) 8}
    some {s with memory := store s.memory kernelEntry 8 s.rax}

section
variable {s : Machine}

theorem repMovsbFrom_eq (dest src j n : Nat) (source : s.rsi = (src+j) % 2^64) (target : s.rdi = (dest+j) % 2^64) :
    repMovsbFrom s n = {s with
      memory := copyBytes s.memory dest src j n
      rsi := (src+j+n) % 2^64
      rdi := (dest+j+n) % 2^64
      rcx := 0} := by
  induction n generalizing s j with
  | zero =>
    rw [repMovsbFrom,copyBytes,Nat.add_zero,Nat.add_zero,← source,← target]
  | succ n ih =>
    have onward (a : Nat) : a + (j+1) + n = a + j + (n+1) := by omega
    rw [repMovsbFrom,ih (j+1) (by dsimp only; omega) (by dsimp only; omega),copyBytes]
    dsimp only
    rw [source,target,onward,onward]

theorem repStosbFrom_eq (dest j n : Nat) (target : s.rdi = (dest+j) % 2^64) :
    repStosbFrom s n = {s with
      memory := fillBytes s.memory (UInt8.ofNat s.rax) dest j n
      rdi := (dest+j+n) % 2^64
      rcx := 0} := by
  induction n generalizing s j with
  | zero =>
    rw [repStosbFrom,fillBytes,Nat.add_zero,← target]
  | succ n ih =>
    have onward : dest + (j+1) + n = dest + j + (n+1) := by omega
    rw [repStosbFrom,ih (j+1) (by dsimp only; omega),fillBytes]
    dsimp only
    rw [target,onward]

theorem getSegmentInfo_kept (s : Machine) : (getSegmentInfo s).memory = s.memory ∧ (getSegmentInfo s).r13 = s.rsi ∧
    (getSegmentInfo s).r12 = s.r12 := by
  unfold getSegmentInfo
  exact ⟨rfl,rfl,rfl⟩

theorem copySegment_eq (s : Machine) (target : s.r9 < 2^64) : copySegment s = {s with
    memory := copyBytes s.memory s.r9 ((0x20000 + s.r8) % 2^64) 0 s.r10
    rax := (0x20000 + s.r8) % 2^64
    rsi := ((0x20000 + s.r8) % 2^64 + 0 + s.r10) % 2^64
    rdi := (s.r9 + 0 + s.r10) % 2^64
    rcx := 0} := by
  unfold copySegment repMovsb
  dsimp only
  rw [repMovsbFrom_eq s.r9 ((0x20000 + s.r8) % 2^64) 0 s.r10]
  · dsimp only
    rw [Nat.add_zero,Nat.mod_mod]
  · dsimp only
    rw [Nat.add_zero,Nat.mod_eq_of_lt target]

theorem zeroFill_spec (target : s.rdi = (dest + s.r10) % 2^64) (fits : s.r10 ≤ s.r11) (word : s.r11 < 2^64) :
    (zeroFill s).memory = fillBytes s.memory 0 dest s.r10 (s.r11 - s.r10) ∧ (zeroFill s).r12 = s.r12 ∧
      (zeroFill s).r13 = s.r13 := by
  have left : (s.r11 + (2^64 - s.r10)) % 2^64 = s.r11 - s.r10 := by omega
  have al (v : Nat) : UInt8.ofNat (v/2^8*2^8) = 0 := by
    apply UInt8.toNat_inj.mp
    rw [UInt8.toNat_ofNat']
    exact Nat.mul_mod_left _ _
  unfold zeroFill repStosb
  dsimp only
  rw [left]
  by_cases noneLeft : s.r11 - s.r10 = 0
  · rw [if_pos noneLeft,noneLeft]
    exact ⟨rfl,rfl,rfl⟩
  · rw [if_neg noneLeft,repStosbFrom_eq dest s.r10 (s.r11 - s.r10) (by dsimp only; exact target)]
    dsimp only
    rw [al]
    exact ⟨rfl,rfl,rfl⟩

theorem loadSegment_places {file : Memory} (image : Image s.memory 0x20000 file size) (readable : Readable file size i)
    (loads : Loaded file i) (fits : pFilesz file (programHeader file i) ≤ pMemsz file (programHeader file i))
    (away : ∀ a, (segment file i).Target a → a < 0x20000 ∨ 0x20000 + size ≤ a)
    (here : s.rsi = 0x20000 + programHeader file i) :
    (loadSegment s).memory = (segment file i).place s.memory ∧ (loadSegment s).rsi = s.rsi ∧ (loadSegment s).r12 = s.r12 := by
  have described := image.describes readable loads
  have fits : (segment file i).filesz ≤ (segment file i).memsz := fits
  generalize segment file i = g at *
  have placed := g.place_eq image described.word.2 described.content away
  obtain ⟨small,_,word⟩ := described.word
  rw [← here] at described
  have first : (getSegmentInfo s).r8 = pOffset file (programHeader file i) := described.offset
  have target : (getSegmentInfo s).r9 = g.vaddr := described.vaddr
  have stored : (getSegmentInfo s).r10 = g.filesz := described.filesz
  have wanted : (getSegmentInfo s).r11 = g.memsz := described.memsz
  have copied := copySegment_eq (getSegmentInfo s) (by rw [target]; exact small)
  have moved : (copySegment (getSegmentInfo s)).rdi = (g.vaddr + (copySegment (getSegmentInfo s)).r10) % 2^64 := by
    rw [copied]
    dsimp only
    rw [target]
    rfl
  have filled := zeroFill_spec moved (by rw [copied]; dsimp only; rw [stored,wanted]; exact fits)
    (by rw [copied]; dsimp only; rw [wanted]; exact word)
  obtain ⟨memory,sizeKept,pointerKept⟩ := filled
  unfold loadSegment
  dsimp only
  rw [memory,sizeKept,pointerKept,copied]
  dsimp only
  obtain ⟨unread,pointer,headerSize⟩ := getSegmentInfo_kept s
  rw [first,target,stored,wanted,unread,placed,pointer,headerSize]
  exact ⟨rfl,rfl,rfl⟩

theorem parseProgramHeader_places {file : Memory} (image : Image s.memory 0x20000 file size)
    (loadable : Loadable file 0x20000 size) (more : i < ePhnum file 0)
    (fits : Loaded file i → pFilesz file (programHeader file i) ≤ pMemsz file (programHeader file i))
    (here : s.rsi = 0x20000 + programHeader file i) :
    (parseProgramHeader s).memory = placed s.memory (segmentsFrom file i 1) ∧
      (parseProgramHeader s).rsi = s.rsi ∧ (parseProgramHeader s).r12 = s.r12 := by
  have readable := loadable.readable i more
  obtain ⟨type,_⟩ := image.header readable.header
  have read : load s.memory s.rsi 4 = pType file (programHeader file i) := by
    rw [here]
    exact type
  rw [parseProgramHeader,read,segmentsFrom_succ]
  by_cases loads : Loaded file i
  · have one : pType file (programHeader file i) = 1 := loads
    rw [if_pos loads,if_neg (not_not.mpr one)]
    exact loadSegment_places (s := {s with rax := pType file (programHeader file i)}) image readable loads (fits loads)
      (loadable.away i more loads) here
  · have other : pType file (programHeader file i) ≠ 1 := loads
    rw [if_neg loads,if_pos other]
    exact ⟨rfl,rfl,rfl⟩

theorem nextHeader_memory (s : Machine) : (nextHeader s).memory = s.memory := rfl
theorem nextHeader_size (s : Machine) : (nextHeader s).r12 = s.r12 := rfl

theorem parseProgramHeaders_places {file : Memory} {ebx : Nat} (image : Image s.memory 0x20000 file size)
    (loadable : Loadable file 0x20000 size)
    (fits : ∀ i < ePhnum file 0, Loaded file i → pFilesz file (programHeader file i) ≤ pMemsz file (programHeader file i))
    (headerSize : s.r12 = 56) (here : s.rsi = (0x20000 + programHeader file i) % 2^64) (left : i + ebx = ePhnum file 0) :
    (parseProgramHeaders s ebx).memory = placed s.memory (segmentsFrom file i ebx) := by
  induction ebx generalizing s i with
  | zero => rfl
  | succ ebx ih =>
    have more : i < ePhnum file 0 := by omega
    have inside := (loadable.readable i more).header
    have top := image.top
    have next : (0x20000 + programHeader file i + 56) % 2^64 = (0x20000 + programHeader file (i+1)) % 2^64 := by
      unfold programHeader
      omega
    rw [Nat.mod_eq_of_lt (by omega)] at here
    obtain ⟨memory,pointer,kept⟩ := parseProgramHeader_places image loadable more (fits i more) here
    have stays := image.placed (segmentsFrom file i 1) (loadable.segments_away i 1 (by omega))
    rw [← memory] at stays
    rw [← nextHeader_memory] at stays
    have size : (nextHeader (parseProgramHeader s)).r12 = 56 := by
      rw [nextHeader_size,kept,headerSize]
    have forward : (nextHeader (parseProgramHeader s)).rsi = (0x20000 + programHeader file (i+1)) % 2^64 := by
      rw [nextHeader,pointer,kept,headerSize,here]
      exact next
    rw [parseProgramHeaders,ih stays size forward (by omega),nextHeader_memory,memory,Nat.add_comm ebx 1,segmentsFrom_append,
      placed_append]

theorem magic_word {file : Memory} (magic : hasMagic file 0 = true) : load file 0 8 % 2^32 = 0x464C457F := by
  have low := load_mod file 0 4 4
  have bytes : file 0 = 0x7F ∧ file 1 = 0x45 ∧ file 2 = 0x4C ∧ file 3 = 0x46 := of_decide_eq_true magic
  obtain ⟨first,second,third,fourth⟩ := bytes
  have word : load file 0 4 = 0x464C457F := by
    simp only [load,Nat.zero_add,Nat.reduceAdd,first,second,third,fourth]
    decide
  exact low.trans word

theorem checkElfHeader_loads {file : Memory} (image : Image s.memory 0x20000 file size) (elf : ElfFile file size)
    (away : ∀ i < ePhnum file 0, Loaded file i → ∀ a, (segment file i).Target a → a < 0x20000 ∨ 0x20000 + size ≤ a)
    (kernelEntry : Nat) : ∃ t, checkElfHeader s kernelEntry = some t ∧
      t.memory = store (placed s.memory (segments file)) kernelEntry 8 (eEntry file 0) := by
  have long := elf.header
  have loadable := elf.loadable away
  have magic : load s.memory 0x20000 8 % 2^32 = 0x464C457F := by
    have same := image.load (a := 0) (n := 8) (by omega)
    rw [Nat.add_zero] at same
    rw [same]
    exact magic_word elf.magic
  have offset : load s.memory (0x20000 + 0x20) 4 = ePhoff file 0 := by
    have low := load_mod file 0x20 4 4
    rw [image.load (by omega),← low]
    exact (Nat.mod_eq_of_lt elf.near)
  have headerSize : load s.memory (0x20000 + 0x36) 2 = 56 := by
    rw [image.load (by omega)]
    exact elf.entrySize
  have count : load s.memory (0x20000 + 0x38) 2 = ePhnum file 0 := by
    rw [image.load (by omega)]
    rfl
  unfold checkElfHeader
  dsimp only
  rw [magic,if_neg (not_not.mpr rfl),offset,headerSize,count]
  have memory : (parseProgramHeaders {s with rsi := (0x20000 + ePhoff file 0) % 2^64, rax := ePhoff file 0, r12 := 56}
      (ePhnum file 0)).memory = placed s.memory (segments file) :=
    parseProgramHeaders_places image loadable (fun i bound loads => (elf.ranges i bound loads).2) rfl
      (by unfold programHeader; rw [Nat.zero_mul,Nat.add_zero]) (Nat.zero_add _)
  generalize parseProgramHeaders _ _ = u at memory
  have kept : Image u.memory 0x20000 file size := by
    rw [memory]
    exact image.placed _ (loadable.segments_away 0 _ (by omega))
  have entry : load u.memory (0x20000 + 0x18) 8 = eEntry file 0 := by
    unfold eEntry
    rw [kept.load (by omega)]
  refine ⟨_,rfl,?_⟩
  dsimp only
  rw [entry,memory]

end

end SantOS.Boot
