import SantOS.Fdc.Drive

namespace SantOS.Boot
open ByteMemory

-- The variables and registers of the stage-1.5 read loop, as words and bytes. Of
-- sectors_in_current_DMA only the low byte is used.
structure ReadLoop where
  sectorsRemaining : Nat
  sectorsInCurrentDma : Nat
  currentLba : Nat
  bxPosition : Nat
  es : Nat
  memory : Memory
  reads : List (Fdc.Transfer × Nat × Nat)

-- int 0x13, ah = 0x02, of a transfer to es:bx. No result stands for the carry flag set.
structure Bios where
  int13h : Fdc.Transfer → Nat → Nat → Memory → Option Memory

-- Reads of at least one sector, inside a track and inside a 64 KB page, bring the addressed
-- sectors to es:bx.
def Bios.Exact (bios : Bios) (disk : Memory) : Prop :=
  ∀ t es bx m, 1 ≤ t.sectors → t.InTrack → es*16 % 65536 + bx + t.sectors*512 ≤ 65536 →
    bios.int13h t es bx m = some (blit m (es*16+bx) (t.sectors*512) (fun j => disk (t.first*512+j)))

def currentS (s : ReadLoop) : Nat := s.currentLba % 18 + 1
def currentC (s : ReadLoop) : Nat := s.currentLba/18/2 % 256
def currentH (s : ReadLoop) : Nat := s.currentLba/18 % 2

def lower (al safe : Nat) : Nat := if al > safe then safe else al

-- Up to the end of the track, up to the end of the 64 KB, and up to what is left. The last
-- limit is loaded with `mov al, byte [sectors_remaining]`: its low byte.
def sectorsToRead (s : ReadLoop) : Nat :=
  let safe := (19 + 256 - currentS s) % 256
  let safe := lower ((128 + 256 - s.sectorsInCurrentDma) % 256) safe
  lower (s.sectorsRemaining % 256) safe

def nextTransfer (s : ReadLoop) : Fdc.Transfer := ⟨currentC s,currentH s,currentS s,sectorsToRead s⟩

def advanced (s : ReadLoop) (memory : Memory) : ReadLoop :=
  let n := sectorsToRead s
  let full := (s.sectorsInCurrentDma + n) % 256 ≥ 128
  { sectorsRemaining := (s.sectorsRemaining + 65536 - n) % 65536
    sectorsInCurrentDma := if full then 0 else (s.sectorsInCurrentDma + n) % 256
    currentLba := (n + s.currentLba) % 65536
    bxPosition := if full then 0 else (s.bxPosition + n*512) % 65536
    es := if full then (s.es + 0x1000) % 65536 else s.es
    memory := memory
    reads := s.reads ++ [(nextTransfer s,s.es,s.bxPosition)] }

inductive Outcome where
  | readDone (s : ReadLoop)
  | readError (s : ReadLoop)

def mainReadLoop (bios : Bios) (s : ReadLoop) : Nat → Option Outcome
  | 0 => none
  | fuel+1 =>
    if s.sectorsRemaining = 0 then some (.readDone s)
    else
      match bios.int13h (nextTransfer s) s.es s.bxPosition s.memory with
      | none => some (.readError {s with reads := s.reads ++ [(nextTransfer s,s.es,s.bxPosition)]})
      | some memory => mainReadLoop bios (advanced s memory) fuel

-- The file size and the first cluster come from the directory entry. DX:AX is a word of 32
-- bits.
def sectorsNeeded (size : Nat) : Nat := (size + 511) % 2^32/512

def foundKernelElf (size cluster : Nat) (memory : Memory) : ReadLoop where
  sectorsRemaining := sectorsNeeded size
  sectorsInCurrentDma := 0
  currentLba := (cluster + 31) % 65536
  bxPosition := 0
  es := 0x2000
  memory := memory
  reads := []

def Sound (r : Fdc.Transfer × Nat × Nat) : Prop := 1 ≤ r.1.sectors ∧ r.2.1*16 % 65536 + r.2.2 + r.1.sectors*512 ≤ 65536

-- The loop ends, every read is of at least one sector, inside a track and a 64 KB page, the
-- reads cover the file's sectors in order, and the file lies at 0x20000.
def LoadsKernel (bios : Bios) (disk : Memory) (size cluster : Nat) (memory : Memory) : Prop :=
  ∃ fuel s, mainReadLoop bios (foundKernelElf size cluster memory) fuel = some (.readDone s) ∧
    (∀ r ∈ s.reads, Sound r) ∧
    Fdc.Covers (s.reads.map Prod.fst) (cluster + 31) (sectorsNeeded size) ∧
    s.memory = blit memory 0x20000 (sectorsNeeded size*512) (fun j => disk ((cluster + 31)*512+j))

structure After (lba total : Nat) (memory disk : Memory) (k : Nat) (s : ReadLoop) : Prop where
  within : k ≤ total
  few : total ≤ 640
  onFloppy : lba + total ≤ 2880
  sectorsRemaining : s.sectorsRemaining = total - k
  sectorsInCurrentDma : s.sectorsInCurrentDma = k % 128
  currentLba : s.currentLba = lba + k
  bxPosition : s.bxPosition = k % 128*512
  es : s.es = 0x2000 + 0x1000*(k/128)
  memory : s.memory = blit memory 0x20000 (k*512) (fun j => disk (lba*512+j))

theorem advanced_memory (s : ReadLoop) (m : Memory) : (advanced s m).memory = m := rfl

theorem lower_eq (al safe : Nat) : lower al safe = min al safe := by
  unfold lower
  split
  · omega
  · omega

section
variable {lba total k : Nat} {memory disk : Memory} {s : ReadLoop}

theorem After.sectors (after : After lba total memory disk k s) :
    sectorsToRead s = min ((total - k) % 256) (min (128 - k % 128) (18 - (lba + k) % 18)) := by
  have dma := after.sectorsInCurrentDma
  have remaining := after.sectorsRemaining
  have sector : currentS s = (lba + k) % 18 + 1 := by rw [currentS,after.currentLba]
  simp only [sectorsToRead,lower_eq]
  rw [remaining,dma,sector]
  clear remaining dma sector after
  have page := Nat.mod_lt k (show 128 > 0 by decide)
  have track := Nat.mod_lt (lba + k) (show 18 > 0 by decide)
  generalize k % 128 = place at page ⊢
  generalize (lba + k) % 18 = sector at track ⊢
  omega

theorem After.lba_below (after : After lba total memory disk k s) (more : k < total) : lba + k < 2880 := by
  have onFloppy := after.onFloppy
  omega

theorem After.in_track (after : After lba total memory disk k s) (more : k < total) :
    (nextTransfer s).InTrack ∧ (nextTransfer s).first = lba + k := by
  have below := after.lba_below more
  have place := after.currentLba
  have count : sectorsToRead s ≤ 18 - (lba + k) % 18 := by
    rw [after.sectors]
    omega
  refine ⟨⟨?_,?_,?_,?_⟩,?_⟩
  · change s.currentLba/18/2 % 256 < 80
    omega
  · change s.currentLba/18 % 2 < 2
    omega
  · exact Nat.succ_le_succ (Nat.zero_le _)
  · change s.currentLba % 18 + 1 + sectorsToRead s ≤ 19
    rw [place]
    omega
  · change (s.currentLba/18/2 % 256*2 + s.currentLba/18 % 2)*18 + (s.currentLba % 18 + 1 - 1) = lba + k
    omega

theorem After.in_page (after : After lba total memory disk k s) (more : k < total) :
    s.es*16 % 65536 + s.bxPosition + sectorsToRead s*512 ≤ 65536 ∧ s.es*16 + s.bxPosition = 0x20000 + k*512 := by
  have within := after.within
  have few := after.few
  have es := after.es
  have bx := after.bxPosition
  have count : sectorsToRead s ≤ 128 - k % 128 := by
    rw [after.sectors]
    omega
  omega

theorem page_full_iff {k n : Nat} (part : n ≤ 128 - k % 128) (some : 1 ≤ n) :
    (k % 128 + n) % 256 ≥ 128 ↔ (k + n) % 128 = 0 := by omega

theorem page_full {k n : Nat} (part : n ≤ 128 - k % 128) (some : 1 ≤ n) (full : (k + n) % 128 = 0) :
    (k + n)/128 = k/128 + 1 := by omega

theorem page_part {k n : Nat} (part : n ≤ 128 - k % 128) (more : ¬(k + n) % 128 = 0) :
    (k + n) % 128 = k % 128 + n ∧ (k + n)/128 = k/128 ∧ k % 128 + n < 128 := by omega

theorem After.reads {bios : Bios} (exact : bios.Exact disk) (after : After lba total memory disk k s) (more : k < total)
    (positive : 1 ≤ sectorsToRead s) :
    ∃ m, bios.int13h (nextTransfer s) s.es s.bxPosition s.memory = some m ∧
      After lba total memory disk (k + sectorsToRead s) (advanced s m) := by
  obtain ⟨track,first⟩ := after.in_track more
  obtain ⟨page,address⟩ := after.in_page more
  have below := after.lba_below more
  have remaining := after.sectorsRemaining
  have dma := after.sectorsInCurrentDma
  have bx := after.bxPosition
  have es := after.es
  have place := after.currentLba
  have few := after.few
  have count := after.sectors
  refine ⟨_,exact _ _ _ _ positive track page,?_⟩
  have left : sectorsToRead s ≤ total - k := by omega
  have part : sectorsToRead s ≤ 128 - k % 128 := by omega
  clear count page exact
  have full : (s.sectorsInCurrentDma + sectorsToRead s) % 256 ≥ 128 ↔ (k + sectorsToRead s) % 128 = 0 := by
    rw [dma]
    exact page_full_iff part positive
  refine ⟨?_,few,after.onFloppy,?_,?_,?_,?_,?_,?_⟩
  · omega
  · change (s.sectorsRemaining + 65536 - sectorsToRead s) % 65536 = _
    omega
  · simp only [advanced,full]
    split <;> rename_i ends
    · exact ends.symm
    · rw [dma,(page_part part ends).1]
      exact Nat.mod_eq_of_lt (by omega)
  · change (sectorsToRead s + s.currentLba) % 65536 = _
    omega
  · simp only [advanced,full]
    split <;> rename_i ends
    · rw [ends]
    · obtain ⟨sum,_,small⟩ := page_part part ends
      rw [bx,sum,← Nat.add_mul]
      exact Nat.mod_eq_of_lt (by omega)
  · simp only [advanced,full]
    split <;> rename_i ends
    · rw [page_full part positive ends]
      omega
    · rw [(page_part part ends).2.1]
      exact es
  · rw [advanced_memory,after.memory,address,first]
    apply blit_append
    · rfl
    · change (k + sectorsToRead s)*512 = k*512 + sectorsToRead s*512
      omega
    · intro j
      have same : (lba + k)*512 + j = lba*512 + (k*512 + j) := by omega
      simp only [same]

theorem After.loads {bios : Bios} (exact : bios.Exact disk) (byte : total ≤ 255) (fuel : Nat) (k : Nat) (s : ReadLoop)
    (after : After lba total memory disk k s) (enough : total - k < fuel) :
    ∃ e more, mainReadLoop bios s fuel = some (.readDone e) ∧ e.reads = s.reads ++ more ∧ (∀ r ∈ more, Sound r) ∧
      Fdc.Covers (more.map Prod.fst) (lba + k) (total - k) ∧ After lba total memory disk total e := by
  induction fuel generalizing k s with
  | zero => exact absurd enough (Nat.not_lt_zero _)
  | succ fuel ih =>
    have remaining := after.sectorsRemaining
    have within := after.within
    rw [mainReadLoop]
    by_cases finished : s.sectorsRemaining = 0
    · have all : k = total := by omega
      rw [if_pos finished]
      refine ⟨s,[],rfl,(List.append_nil _).symm,by simp,?_,by rw [← all]; rw [← all] at after; exact after⟩
      rw [all,Nat.sub_self]
      exact Fdc.Covers.nothing _
    · have more : k < total := by omega
      have count := after.sectors
      have positive : 1 ≤ sectorsToRead s := by omega
      obtain ⟨m,read,next⟩ := after.reads exact more positive
      rw [if_neg finished,read]
      obtain ⟨e,later,ends,reads,sound,covers,last⟩ := ih _ _ next (by omega)
      obtain ⟨track,first⟩ := after.in_track more
      refine ⟨e,(nextTransfer s,s.es,s.bxPosition)::later,ends,?_,?_,?_,last⟩
      · rw [reads]
        exact List.append_assoc _ _ _
      · intro r member
        rcases List.mem_cons.mp member with here | behind
        · rw [here]
          exact ⟨positive,(after.in_page more).1⟩
        · exact sound r behind
      · have sum : sectorsToRead s + (total - (k + sectorsToRead s)) = total - k := by omega
        rw [List.map_cons,← sum]
        rw [← Nat.add_assoc] at covers
        exact Fdc.Covers.cons track first covers

-- From 256 sectors on the low byte reaches 0 before the counter does: the loop issues a read of
-- no sectors, whatever the BIOS makes of it.
theorem reads_kept {bios : Bios} (fuel : Nat) (s : ReadLoop) (ends : mainReadLoop bios s fuel = some (.readDone e))
    (known : r ∈ s.reads) :
    r ∈ e.reads := by
  induction fuel generalizing s with
  | zero => cases ends
  | succ fuel ih =>
    rw [mainReadLoop] at ends
    split at ends
    · cases ends
      exact known
    · split at ends
      · cases ends
      · exact ih _ ends (List.mem_append_left _ known)

theorem After.reads_nothing {bios : Bios} (exact : bios.Exact disk) (fuel : Nat) (k : Nat) (s : ReadLoop)
    (after : After lba total memory disk k s) (wide : 256 ≤ total - k) (ends : mainReadLoop bios s fuel = some (.readDone e)) :
    ∃ r ∈ e.reads, r.1.sectors = 0 := by
  induction fuel generalizing k s with
  | zero => cases ends
  | succ fuel ih =>
    have remaining := after.sectorsRemaining
    have count := after.sectors
    have more : k < total := by omega
    rw [mainReadLoop,if_neg (by omega)] at ends
    by_cases nothing : sectorsToRead s = 0
    · split at ends
      · cases ends
      · exact ⟨_,reads_kept fuel _ ends (List.mem_append_right _ (List.mem_singleton_self _)),nothing⟩
    · obtain ⟨m,read,next⟩ := after.reads exact more (by omega)
      rw [read] at ends
      exact ih _ _ next (by omega) ends

theorem sectorsNeeded_eq {size : Nat} (few : (size + 511)/512 ≤ 640) : sectorsNeeded size = (size + 511)/512 := by
  unfold sectorsNeeded
  omega

theorem found_after {size cluster : Nat} (few : (size + 511)/512 ≤ 640) (onFloppy : cluster + 31 + (size + 511)/512 ≤ 2880)
    (memory disk : Memory) :
    After (cluster + 31) ((size + 511)/512) memory disk 0 (foundKernelElf size cluster memory) := by
  refine ⟨Nat.zero_le _,few,onFloppy,sectorsNeeded_eq few,rfl,?_,rfl,rfl,?_⟩
  · change (cluster + 31) % 65536 = cluster + 31 + 0
    omega
  · rw [Nat.zero_mul,blit_nothing]
    rfl

theorem wide_not_loaded {bios : Bios} (exact : bios.Exact disk) {size cluster : Nat} (few : (size + 511)/512 ≤ 640)
    (onFloppy : cluster + 31 + (size + 511)/512 ≤ 2880) (wide : 256 ≤ (size + 511)/512) : ¬LoadsKernel bios disk size cluster memory := by
  rintro ⟨fuel,e,ends,sound,_⟩
  obtain ⟨r,member,nothing⟩ := (found_after few onFloppy memory disk).reads_nothing exact fuel 0 _ wide ends
  have some := (sound r member).1
  omega

end

theorem kernel_loaded_iff (bios : Bios) (disk : Memory) (exact : bios.Exact disk) (size cluster : Nat) (memory : Memory)
    (few : (size + 511)/512 ≤ 640) (onFloppy : cluster + 31 + (size + 511)/512 ≤ 2880) :
    LoadsKernel bios disk size cluster memory ↔ (size + 511)/512 ≤ 255 := by
  constructor
  · intro loads
    by_contra wide
    exact wide_not_loaded exact few onFloppy (by omega) loads
  · intro byte
    obtain ⟨e,more,ends,reads,sound,covers,last⟩ :=
      (found_after few onFloppy memory disk).loads exact byte ((size + 511)/512 + 1) 0 _ (by omega)
    have all : e.reads = more := reads
    refine ⟨_,e,ends,by rw [all]; exact sound,?_,?_⟩
    · rw [all,sectorsNeeded_eq few]
      exact covers
    · rw [sectorsNeeded_eq few]
      exact last.memory

def floppyBios (disk : Memory) : Bios where
  int13h t es bx m :=
    if t.sectors = 0 then none else some (blit m (es*16+bx) (t.sectors*512) (fun j => disk (t.first*512+j)))

theorem floppyBios_exact (disk : Memory) : (floppyBios disk).Exact disk := by
  intro t es bx m some _ _
  exact if_neg (by omega)

theorem kernel_loaded_iff_255_sectors : LoadsKernel (floppyBios (fun _ => 0x7F)) (fun _ => 0x7F) 130560 2 (fun _ => 0) :=
  (kernel_loaded_iff (floppyBios (fun _ => 0x7F)) (fun _ => 0x7F) (floppyBios_exact _) 130560 2 (fun _ => 0)
    (by decide) (by decide)).mpr (by decide)

theorem first_read_of_nothing :
    sectorsToRead (foundKernelElf 131072 2 (fun _ => 0)) = 0 ∧
      ¬LoadsKernel (floppyBios (fun _ => 0x7F)) (fun _ => 0x7F) 131072 2 (fun _ => 0) :=
  ⟨by decide,wide_not_loaded (floppyBios_exact _) (by decide) (by decide) (by decide)⟩

end SantOS.Boot
