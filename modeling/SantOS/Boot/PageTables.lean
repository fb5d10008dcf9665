import SantOS.Boot.Detection
import SantOS.Boot.KernelReads
import SantOS.Vmm.AddressSpaces

namespace SantOS.Boot
open ByteMemory RadixTrees Runs Vmm

-- LOOP counts CX down in 16-bit code; from 0 it runs the whole way round.
def loopCount (ecx : Nat) : Nat := if ecx % 2^16 = 0 then 2^16 else ecx % 2^16

def mapLoop (m : Memory) (edi eax : Nat) : Nat → Memory
  | 0 => m
  | left+1 => mapLoop (store (store m edi 4 eax) (edi+4) 4 0) (edi+8) ((eax + 0x200000) % 2^32) left

-- `rep stosd` stores at ES:DI, and ES is still what fat12.asm has read the kernel to. All
-- other stores are through DS, which is 0.
def setupPageTables (es : Nat) (m : Memory) : Memory :=
  let m := setBytes m (es*16+0x1000) 0 (3072*4)
  let m := store (store m 0x1000 4 0x2003) 0x1004 4 0
  let m := store (store m 0x2000 4 0x3003) 0x2004 4 0
  mapLoop m 0x3000 0x83 (loopCount (mappedPages (load m 0x8000 4)))

theorem load_pair {m : Memory} {a e : Nat} (word : e < 2^32) : load (store (store m a 4 e) (a+4) 4 0) a 8 = e := by
  have low : load (store (store m a 4 e) (a+4) 4 0) a 4 = e :=
    (load_store_disjoint _ (.inl (Nat.le_refl _))).trans ((load_store_same ..).trans (Nat.mod_eq_of_lt word))
  have high : load (store (store m a 4 e) (a+4) 4 0) (a+4) 4 = 0 := load_store_same ..
  have parts := halves (store (store m a 4 e) (a+4) 4 0) a
  rw [low,high] at parts
  omega

theorem load_pair_apart {m : Memory} {a e b : Nat} (apart : b + 8 ≤ a ∨ a + 8 ≤ b) :
    load (store (store m a 4 e) (a+4) 4 0) b 8 = load m b 8 := by
  rw [load_store_disjoint _ (by omega),load_store_disjoint _ (by omega)]

theorem mapLoop_outside {m : Memory} {edi eax left a : Nat} (apart : a < edi ∨ edi + 8*left ≤ a) :
    mapLoop m edi eax left a = m a := by
  induction left generalizing m edi eax with
  | zero => rfl
  | succ left ih =>
    rw [mapLoop,ih (by omega),store_outside _ (by omega),store_outside _ (by omega)]

theorem mapLoop_entry {m : Memory} {edi eax left i : Nat} (word : eax + left*0x200000 < 2^32) (inside : i < left) :
    load (mapLoop m edi eax left) (edi + i*8) 8 = eax + i*0x200000 := by
  induction left generalizing m edi eax i with
  | zero => cases inside
  | succ left ih =>
    rw [mapLoop,Nat.mod_eq_of_lt (by omega : eax + 0x200000 < 2^32)]
    cases i with
    | zero =>
      rw [Nat.zero_mul,Nat.add_zero,Nat.add_zero]
      refine (load_congr (fun i byte => mapLoop_outside (.inl (by omega)))).trans ?_
      exact load_pair (by omega)
    | succ i =>
      have later := @ih (store (store m edi 4 eax) (edi+4) 4 0) (edi+8) (eax+0x200000) i (by omega) (by omega)
      have place : edi + (i+1)*8 = edi + 8 + i*8 := by omega
      have value : eax + (i+1)*0x200000 = eax + 0x200000 + i*0x200000 := by omega
      rw [place,value,later]

-- The bytes erased, and the bytes of the entries written.
def Swept (es a : Nat) : Prop := es*16+0x1000 ≤ a ∧ a < es*16+0x1000 + 3072*4

def Written (n a : Nat) : Prop := (0x1000 ≤ a ∧ a < 0x1008) ∨ (0x2000 ≤ a ∧ a < 0x2008) ∨ (0x3000 ≤ a ∧ a < 0x3000 + n*8)

structure Tables (t : Memory) (n : Nat) : Prop where
  pml4 : Vmm.entries t 0x1000 0 = 0x2003
  pdpt : Vmm.entries t 0x2000 0 = 0x3003
  pd : ∀ i : Fin 512, i.val < n → Vmm.entries t 0x3000 i = 0x83 + i.val*0x200000

-- The other entries of the three are not present.
structure Vacant (t : Memory) (n : Nat) : Prop where
  pml4 : ∀ i : Fin 512, i.val ≠ 0 → Vmm.entries t 0x1000 i &&& pagePresent = 0
  pdpt : ∀ i : Fin 512, i.val ≠ 0 → Vmm.entries t 0x2000 i &&& pagePresent = 0
  pd : ∀ i : Fin 512, n ≤ i.val → Vmm.entries t 0x3000 i &&& pagePresent = 0 ∧ Vmm.entries t 0x3000 i &&& pageHuge = 0

theorem Vacant.congr {m t : Memory} {n : Nat} (vacant : Vacant m n)
    (same : ∀ a, 0x1000 ≤ a → a < 0x4000 → ¬ Written n a → t a = m a) : Vacant t n := by
  have kept : ∀ table, 0x1000 ≤ table → table ≤ 0x3000 → ∀ i : Fin 512, (∀ j < 8, ¬ Written n (table + i.val*8 + j)) →
      Vmm.entries t table i = Vmm.entries m table i := by
    intro table low high i apart
    exact load_congr (fun j byte => same _ (by omega) (by omega) (apart j byte))
  unfold Written at kept
  refine ⟨fun i later => ?_,fun i later => ?_,fun i behind => ?_⟩
  · rw [kept 0x1000 (by decide) (by decide) i (fun j byte => by omega)]
    exact vacant.pml4 i later
  · rw [kept 0x2000 (by decide) (by decide) i (fun j byte => by omega)]
    exact vacant.pdpt i later
  · rw [kept 0x3000 (by decide) (by decide) i (fun j byte => by omega)]
    exact vacant.pd i behind

theorem entries_first (t : Memory) (table : Nat) : Vmm.entries t table 0 = load t table 8 := by
  unfold Vmm.entries
  rw [Fin.val_zero,Nat.zero_mul,Nat.add_zero]

theorem setupPageTables_spec {m : Memory} {n : Nat} (es : Nat) (count : mappedPages (load m 0x8000 4) = n) (some_ : 0 < n)
    (room : n ≤ 512) (above : 0x8004 ≤ es*16 + 0x1000) :
    Tables (setupPageTables es m) n ∧ (∀ a, Swept es a → setupPageTables es m a = 0) ∧
      ∀ a, ¬ Swept es a → ¬ Written n a → setupPageTables es m a = m a := by
  let blank := setBytes m (es*16+0x1000) 0 (3072*4)
  let first := store (store blank 0x1000 4 0x2003) 0x1004 4 0
  let second := store (store first 0x2000 4 0x3003) 0x2004 4 0
  have erased : ∀ a, blank a = if es*16+0x1000 ≤ a ∧ a < es*16+0x1000 + 3072*4 then 0 else m a :=
    fun a => setBytes_apply m (es*16+0x1000) 0 (3072*4) a
  have outside : ∀ a, ¬ Written 0 a → second a = blank a := by
    intro a apart
    unfold Written at apart
    exact (store_outside _ (by omega)).trans <| (store_outside _ (by omega)).trans <|
      (store_outside _ (by omega)).trans (store_outside _ (by omega))
  have same : load second 0x8000 4 = load m 0x8000 4 := by
    refine load_congr (fun i byte => (outside _ (by unfold Written; omega)).trans ?_)
    rw [erased,if_neg (by omega)]
  have loops : loopCount n = n := by
    unfold loopCount
    rw [if_neg (by omega)]
    omega
  have ran : setupPageTables es m = mapLoop second 0x3000 0x83 n := by
    change mapLoop second 0x3000 0x83 (loopCount (mappedPages (load second 0x8000 4))) = _
    rw [same,count,loops]
  have early : ∀ b, b + 8 ≤ 0x3000 → load (setupPageTables es m) b 8 = load second b 8 := by
    intro b low
    rw [ran]
    exact load_congr (fun i byte => mapLoop_outside (.inl (by omega)))
  have unwritten : ∀ a, ¬ Written n a → setupPageTables es m a = blank a := by
    intro a apart
    unfold Written at apart
    rw [ran,mapLoop_outside (by omega)]
    exact outside a (by unfold Written; omega)
  refine ⟨⟨?_,?_,?_⟩,?_,?_⟩
  · rw [entries_first,early 0x1000 (by decide)]
    exact (load_pair_apart (by decide)).trans (load_pair (by decide))
  · rw [entries_first,early 0x2000 (by decide)]
    exact load_pair (by decide)
  · intro i inside
    have bound := i.isLt
    rw [ran]
    exact mapLoop_entry (by omega) inside
  · intro a swept
    have apart : ¬ Written n a := by
      unfold Swept at swept
      unfold Written
      omega
    rw [unwritten a apart,erased]
    exact if_pos swept
  · intro a kept apart
    rw [unwritten a apart,erased]
    exact if_neg kept

-- The state vmm_init finds, with what pmem_alloc_page will return.
def booted (t : Memory) (pages : List Nat) : Paging := {memory := t,pml4 := 0x1000,pages := pages,console := []}

@[simp] theorem booted_pages (t : Memory) (pages : List Nat) : (booted t pages).pages = pages := rfl

section Identity
variable {t : Memory} {n : Nat}

theorem identity_entry {i : Nat} (room : i < 512) :
    (0x83 + i*0x200000) &&& pageHuge ≠ 0 ∧ (0x83 + i*0x200000) &&& hugeAddrMask = i*0x200000 := by
  have mask : hugeAddrMask = (2^31 - 1) <<< 21 := by decide
  constructor
  · rw [huge_iff,Nat.testBit_eq_decide_div_mod_eq]
    exact decide_eq_true (by omega)
  · rw [mask,round_down 21 31 (by omega)]
    omega

theorem booted_tables (tables : Tables t n) (vacant : Vacant t n) (pages : List Nat)
    (reached : (booted t pages).tableAt path = some u) :
    path = List.replicate path.length 0 ∧ path.length < 3 ∧ u = 0x1000*(path.length + 1) := by
  induction path generalizing u with
  | nil => cases reached; exact ⟨rfl,by decide,rfl⟩
  | cons i path ih =>
    obtain ⟨w,above,followed⟩ := Option.bind_eq_some_iff.mp (show Option.bind _ _ = some u from reached)
    obtain ⟨zeros,short,place⟩ := ih above
    change follow path.length (Vmm.entries t w i) = some u at followed
    have opened : (i.val ≠ 0 → Vmm.entries t w i &&& pagePresent = 0) → i = 0 := by
      intro absent
      by_contra other
      rw [follow_none (absent (fun zero => other (Fin.ext zero)))] at followed
      cases followed
    rw [List.length_cons]
    generalize depth : path.length = d at *
    rcases (by omega : d = 0 ∨ d = 1 ∨ d = 2) with rfl | rfl | rfl
    · obtain rfl := opened (by rw [place]; exact vacant.pml4 i)
      rw [place] at followed
      rw [tables.pml4] at followed
      exact ⟨by rw [zeros]; rfl,by decide,(Option.some.inj followed).symm⟩
    · obtain rfl := opened (by rw [place]; exact vacant.pdpt i)
      rw [place] at followed
      rw [tables.pdpt] at followed
      exact ⟨by rw [zeros]; rfl,by decide,(Option.some.inj followed).symm⟩
    · -- below the directory there is nothing: an entry is huge or absent
      exfalso
      rw [place] at followed
      by_cases inside : i.val < n
      · have huge := (identity_entry i.isLt).1
        rw [tables.pd i inside,follow,if_neg (fun links => links.2.2 ⟨rfl,huge⟩)] at followed
        cases followed
      · rw [follow_none (vacant.pd i (Nat.not_lt.mp inside)).1] at followed
        cases followed

theorem booted_tree (tables : Tables t n) (vacant : Vacant t n) (pages : List Nat) : PageTree (booted t pages) := by
  refine ⟨?_,Nat.mod_self 4096,?_⟩
  · intro p q u one two
    obtain ⟨zerosP,_,atP⟩ := booted_tables tables vacant pages one
    obtain ⟨zerosQ,_,atQ⟩ := booted_tables tables vacant pages two
    have lengths : p.length = q.length := by omega
    rw [zerosP,zerosQ,lengths]
  · intro i path null
    have place := (booted_tables tables vacant pages null).2.2
    omega

theorem booted_pdpt (tables : Tables t n) (pages : List Nat) (low : (pml4Slot v).val = 0) :
    (booted t pages).tableAt [pml4Slot v] = some 0x2000 := by
  have root : (booted t pages).tableAt [] = some 0x1000 := rfl
  have index : pml4Slot v = 0 := Fin.ext low
  have entry : (booted t pages).entry 0x1000 (pml4Slot v) = 0x2003 := by rw [index]; exact tables.pml4
  refine (tableAt_child root _).trans ?_
  rw [entry]
  rfl

theorem booted_directory (tables : Tables t n) (pages : List Nat) (low : (pml4Slot v).val = 0)
    (next : (pdptSlot v).val = 0) :
    (booted t pages).tableAt [pdptSlot v,pml4Slot v] = some 0x3000 := by
  have index : pdptSlot v = 0 := Fin.ext next
  have entry : (booted t pages).entry 0x2000 (pdptSlot v) = 0x3003 := by rw [index]; exact tables.pdpt
  refine (tableAt_child (booted_pdpt tables pages low) _).trans ?_
  rw [entry]
  rfl

theorem low_indices (v : Nat) : v % 2^48 < 2^30 ↔ (pml4Slot v).val = 0 ∧ (pdptSlot v).val = 0 := by
  unfold pml4Slot pdptSlot
  dsimp only
  omega

theorem low_address (low : v % 2^48 < 2^30) : v % 2^48 = (pdSlot v).val*0x200000 + v % 2^21 := by
  unfold pdSlot
  dsimp only
  omega

theorem booted_identity (tables : Tables t n) (room : n ≤ 512) (pages : List Nat) (below : v % 2^48 < n*0x200000) :
    translation (booted t pages) v = some (v % 2^48) := by
  have low : v % 2^48 < 2^30 := by omega
  obtain ⟨first,second⟩ := (low_indices v).mp low
  have place := low_address low
  have inside : (pdSlot v).val < n := by omega
  have entry : (booted t pages).entry 0x3000 (pdSlot v) = _ := tables.pd _ inside
  obtain ⟨huge,frame⟩ := identity_entry (pdSlot v).isLt
  rw [translation,hugeEntry_of (booted_directory tables pages first second),entry,if_pos huge,place]
  exact congrArg (fun e => some (e + v % 2^21)) frame

theorem booted_nothing (tables : Tables t n) (vacant : Vacant t n) (pages : List Nat) (above : n*0x200000 ≤ v % 2^48) :
    translation (booted t pages) v = none := by
  have root : (booted t pages).tableAt [] = some 0x1000 := rfl
  by_cases first : (pml4Slot v).val = 0
  · by_cases second : (pdptSlot v).val = 0
    · have found := booted_directory tables pages first second
      have place := low_address ((low_indices v).mpr ⟨first,second⟩)
      obtain ⟨absent,small⟩ := vacant.pd (pdSlot v) (by omega)
      have missing : (booted t pages).tableAt (directoryPath v) = none := (tableAt_child found _).trans (follow_none absent _)
      have entry : hugeEntry (booted t pages) v = none := (hugeEntry_of found).trans (if_neg (not_not.mpr small))
      rw [translation,entry,pageEntry_none missing]
      rfl
    · exact translation_none ((tableAt_child (booted_pdpt tables pages first) _).trans (follow_none (vacant.pdpt _ second) _))
  · exact translation_none (tableAt_none ((tableAt_child root _).trans (follow_none (vacant.pml4 _ first) _)) _)

theorem booted_translation (tables : Tables t n) (vacant : Vacant t n) (room : n ≤ 512) (pages : List Nat) (v : Nat) :
    translation (booted t pages) v = if v % 2^48 < n*0x200000 then some (v % 2^48) else none := by
  by_cases below : v % 2^48 < n*0x200000
  · rw [if_pos below,booted_identity tables room pages below]
  · rw [if_neg below,booted_nothing tables vacant pages (Nat.not_lt.mp below)]

end Identity

theorem mappedPages_bounds (entries : List Entry) (fits : highestAddress entries + 0x1FFFFF < 2^32) :
    0 < mappedPages (highestAddress entries) ∧ mappedPages (highestAddress entries) ≤ 512 := by
  have limit := mappedPages_limit entries fits
  have floor : 0x8000000 ≤ highestAddress entries := foldl_highest_le ..
  unfold mappedLimit at limit
  omega

theorem parsed_behind_tables {m t : Memory} {entries : List Entry} {n es : Nat} (detected : Detected m t entries)
    (loaded : 0x2000 ≤ es)
    (same : ∀ a, ¬ Swept es a → ¬ Written n a → setupPageTables es t a = t a) (small : n ≤ 512) :
    e820ParseMemory (setupPageTables es t) = e820Parse entries := by
  have below : ∀ a < 0x1000, setupPageTables es t a = t a := by
    intro a low
    exact same a (by unfold Swept; omega) (by unfold Written; omega)
  have count : load (setupPageTables es t) 0x500 4 = entries.length :=
    (load_congr (fun i byte => below _ (by omega))).trans detected.count
  by_cases many : entries.length > 32
  · unfold e820ParseMemory e820Parse
    rw [e820MapAddr,count,if_pos (.inr many),if_pos (.inr many)]
  · have last : slot entries.length ≤ 0x1000 := by unfold slot; omega
    refine e820Parse_held (detected.held.keep (fun a _ before => below a (by omega)) ?_) count
    exact load_congr (fun i byte => same _ (by unfold Swept; omega) (by unfold Written; omega))

theorem Vacant.detected {m t : Memory} {entries : List Entry} {n : Nat} (vacant : Vacant m n)
    (detected : Detected m t entries)
    (few : entries.length ≤ 115) : Vacant t n := by
  have last : slot (entries.length + 1) ≤ 0x1000 := by unfold slot; omega
  exact vacant.congr (fun a low high _ => detected.others a (.inr (by omega)) (.inl (by omega)))

theorem Vacant.set_up {t : Memory} {n es : Nat} (vacant : Vacant t n) (loaded : 0x2000 ≤ es)
    (same : ∀ a, ¬ Swept es a → ¬ Written n a → setupPageTables es t a = t a) : Vacant (setupPageTables es t) n :=
  vacant.congr (fun a _ high apart => same a (by unfold Swept; omega) apart)

-- What the BIOS reports is what the kernel parses. Below the highest RAM found the address
-- space is the identity; it ends there when the entries that setup_page_tables does not
-- write were not present before, as the 12 KB it erases are not the tables.
theorem boot_memory_exact {replies : List Reply} {entries : List Entry} {es : Nat} (conforming : ∀ r ∈ replies, r.Conforming)
    (listed : reported replies = some entries) (room : entries.length ≤ 1310) (loaded : 0x2000 ≤ es) (m : Memory) :
    ∃ t, detectMemoryE820 m replies = some t ∧
      (highestAddress entries + 0x1FFFFF < 2^32 →
        e820ParseMemory (setupPageTables es t) = e820Parse entries ∧
        (∀ pages v, v % 2^48 < mappedLimit entries → translation (booted (setupPageTables es t) pages) v = some (v % 2^48)) ∧
        (Vacant t (mappedPages (highestAddress entries)) → ∀ pages, PageTree (booted (setupPageTables es t) pages) ∧
          ∀ v, mappedLimit entries ≤ v % 2^48 → translation (booted (setupPageTables es t) pages) v = none) ∧
        (∀ a, Swept es a → setupPageTables es t a = 0) ∧
        ∀ a, (a < 0x500 ∨ slot (entries.length + 1) ≤ a) → (a < 0x8000 ∨ 0x8004 ≤ a) →
          ¬ Written (mappedPages (highestAddress entries)) a → ¬ Swept es a → setupPageTables es t a = m a) := by
  obtain ⟨t,ran,detected⟩ := detect_memory_spec conforming listed room m
  refine ⟨t,ran,fun fits => ?_⟩
  obtain ⟨positive,small⟩ := mappedPages_bounds entries fits
  have limit := mappedPages_limit entries fits
  obtain ⟨tables,swept,same⟩ :=
    setupPageTables_spec es (congrArg mappedPages detected.held.highest) positive small (by omega)
  refine ⟨parsed_behind_tables detected loaded same small,fun pages v below => ?_,fun vacant pages => ?_,swept,?_⟩
  · rw [← limit] at below
    exact booted_identity tables small pages below
  · have unused := vacant.set_up loaded same
    refine ⟨booted_tree tables unused pages,fun v above => ?_⟩
    rw [← limit] at above
    exact booted_nothing tables unused pages above
  · intro a apart away unwritten unswept
    exact (same a unswept unwritten).trans (detected.others a apart away)

-- The 12 KB erased are in the kernel file: in the 64 KB that fat12.asm would read to next.
theorem kernel_file_swept {bios : Bios} {disk : Memory} {size cluster : Nat} {replies : List Reply} {entries : List Entry}
    (exact : bios.Exact disk) (byte : (size + 511)/512 ≤ 255) (onFloppy : cluster + 31 + (size + 511)/512 ≤ 2880)
    (conforming : ∀ r ∈ replies, r.Conforming) (listed : reported replies = some entries) (room : entries.length ≤ 1310)
    (fits : highestAddress entries + 0x1FFFFF < 2^32) (m : Memory) :
    ∃ fuel e t, mainReadLoop bios (foundKernelElf size cluster m) fuel = some (.readDone e) ∧
      detectMemoryE820 e.memory replies = some t ∧
      ∀ j < (size + 511)/512*512, setupPageTables e.es t (0x20000 + j) =
        if 0x1000 ≤ j - (size + 511)/512/128*0x10000 ∧ j - (size + 511)/512/128*0x10000 < 0x4000 then 0
        else disk ((cluster + 31)*512+j) := by
  obtain ⟨e,_,ended,_,_,_,last⟩ :=
    (found_after (by omega) onFloppy m disk).loads exact byte ((size + 511)/512 + 1) 0 _ (by omega)
  have es := last.es
  have loaded : 0x2000 ≤ e.es := by omega
  obtain ⟨t,ran,setUp⟩ := boot_memory_exact conforming listed room loaded e.memory
  obtain ⟨_,_,_,swept,kept⟩ := setUp fits
  obtain ⟨_,small⟩ := mappedPages_bounds entries fits
  refine ⟨_,e,t,ended,ran,fun j inside => ?_⟩
  by_cases erased : Swept e.es (0x20000 + j)
  · rw [swept _ erased]
    unfold Swept at erased
    rw [if_pos (by omega)]
  · have lastSlot : slot (entries.length + 1) ≤ 0x8000 := by unfold slot; omega
    rw [kept _ (.inr (by omega)) (.inr (by omega)) (by unfold Written; omega) erased]
    unfold Swept at erased
    rw [if_neg (by omega),last.memory]
    exact blit_inside _ _ inside

def quarterGigabyte : List Reply :=
  [⟨false,smap,1,16,16,fun _ => 0⟩,
   ⟨false,smap,0,20,20,store (store (store (fun _ => 0) 0 8 0x100000) 8 8 0xFF00000) 16 4 1⟩]

theorem quarterGigabyte_conforming : ∀ r ∈ quarterGigabyte, r.Conforming := by
  simp only [quarterGigabyte,List.forall_mem_cons]
  exact ⟨⟨by decide,fun _ long => absurd long (by decide)⟩,⟨by decide,fun _ long => long⟩,by simp⟩

theorem blank_vacant (n : Nat) : Vacant (fun _ => 0) n := by
  have zero : ∀ table, ∀ i : Fin 512, Vmm.entries (fun _ => 0) table i = 0 := fun table i => rfl
  refine ⟨fun i _ => ?_,fun i _ => ?_,fun i _ => ?_⟩
  · rw [zero]
    rfl
  · rw [zero]
    rfl
  · rw [zero]
    exact ⟨rfl,rfl⟩

theorem boot_memory_exact_quarter_gigabyte :
    ∃ t, detectMemoryE820 (fun _ => 0) quarterGigabyte = some t ∧
      e820ParseMemory (setupPageTables 0x2000 t) = some [⟨0x100000,0xFF00000,1⟩] ∧
      translation (booted (setupPageTables 0x2000 t) []) 0xFFFFFFF = some 0xFFFFFFF ∧
      translation (booted (setupPageTables 0x2000 t) []) 0x10000000 = none := by
  have listed : reported quarterGigabyte = some [⟨0x100000,0xFF00000,1⟩] := by decide
  obtain ⟨t,ran,booting⟩ := boot_memory_exact quarterGigabyte_conforming listed (by decide) (Nat.le_refl 0x2000) (fun _ => 0)
  obtain ⟨u,again,detected⟩ := detect_memory_spec quarterGigabyte_conforming listed (by decide) (fun _ => 0)
  cases ran.symm.trans again
  obtain ⟨parsed,mapped,closed,_⟩ := booting (by decide)
  have vacant := (blank_vacant (mappedPages (highestAddress [⟨0x100000,0xFF00000,1⟩]))).detected detected (by decide)
  exact ⟨t,ran,parsed,mapped [] 0xFFFFFFF (by decide),(closed vacant []).2 0x10000000 (by decide)⟩

-- Pages below the identity map's end that are no tables of boot2's.
structure UsablePages (limit : Nat) (pages : List Nat) : Prop where
  inside : ∀ page ∈ pages, page ≠ 0 → page % 4096 = 0 ∧ 0x4000 ≤ page ∧ page + 4096 ≤ limit
  distinct : pages.Pairwise (fun a b => a ≠ 0 → a ≠ b)

theorem booted_serves {t : Memory} {n : Nat} (tables : Tables t n) (vacant : Vacant t n) (room : n ≤ 512) {pages : List Nat}
    (usable : UsablePages (n*0x200000) pages) : Serves (n*0x200000) (booted t pages) (fun _ => none) := by
  have deep : ∀ v, (booted t pages).tableAt (directoryPath v) = none := by
    intro v
    cases found : (booted t pages).tableAt (directoryPath v) with
    | none => rfl
    | some u => exact absurd (booted_tables tables vacant pages found).2.1 (by simp [directoryPath])
  refine ⟨booted_tree tables vacant pages,⟨?_,usable.distinct⟩,by omega,fun _ no => absurd rfl no,?_,fun _ no => absurd rfl no,?_⟩
  · intro page member nonzero
    obtain ⟨aligned,above,below⟩ := usable.inside page member nonzero
    refine ⟨aligned,by omega,fun path found => ?_⟩
    obtain ⟨_,short,place⟩ := booted_tables tables vacant pages found
    omega
  · intro v low none
    have read := booted_translation tables vacant room pages v
    rw [if_pos low,translation,none,pageEntry_none (deep v)] at read
    cases read
  · intro v
    rw [booted_translation tables vacant room pages v]
    rfl

-- Every run of the kernel's mapping calls from the tables boot2 builds: the identity region
-- stays, and above it vmm_get_physical reads the finite map that the calls make.
theorem address_space_exact {replies : List Reply} {entries : List Entry} {es : Nat}
    (conforming : ∀ r ∈ replies, r.Conforming)
    (listed : reported replies = some entries) (room : entries.length ≤ 1310) (loaded : 0x2000 ≤ es)
    (fits : highestAddress entries + 0x1FFFFF < 2^32) (detected : detectMemoryE820 m replies = some t)
    (vacant : Vacant t (mappedPages (highestAddress entries))) (usable : UsablePages (mappedLimit entries) pages)
    (path : Run Steps (booted (setupPageTables es t) pages) events s) :
    ∃ space, Run (Means (mappedLimit entries)) (fun _ => none) events space ∧
      ∀ v, vmmGetPhysical s v =
        if v % 2^48 < mappedLimit entries then v % 2^48 else ((space (pageOf v)).map (· + v % 4096)).getD 0 := by
  obtain ⟨u,ran,left_⟩ := detect_memory_spec conforming listed room m
  cases ran.symm.trans detected
  obtain ⟨positive,small⟩ := mappedPages_bounds entries fits
  obtain ⟨tables,_,same⟩ := setupPageTables_spec es (congrArg mappedPages left_.held.highest) positive small (by omega)
  have unused := vacant.set_up loaded same
  have limit := mappedPages_limit entries fits
  have start : Serves (mappedLimit entries) (booted (setupPageTables es t) pages) (fun _ => none) := by
    rw [← limit] at usable ⊢
    exact booted_serves tables unused small usable
  obtain ⟨space,meant,served⟩ :=
    path.simulated (Serves (mappedLimit entries)) (fun _ _ _ _ serves step => serves.step step) start
  exact ⟨space,meant,served.get_physical⟩

def onePage : Call := .mapPage 0x10000000 0x9000 3

theorem onePage_mapped {limit : Nat} {result : Int} {supply : List Nat} {space : Space} (low : limit ≤ 0x10000000)
    (fed : ∀ i < 3, supply.getD i 0 ≠ 0) (meant : Run (Means limit) (fun _ => none) [⟨onePage,result,supply⟩] space) :
    result = 0 ∧ space (pageOf 0x10000005) = some 0x9000 := by
  obtain ⟨zero,_,rfl⟩ | ⟨_,_,⟨i,inside,used⟩ | ⟨i,inside,missing⟩⟩ := meant.of_single
  · exact ⟨zero,Function.update_self ..⟩
  · rw [Nat.lt_one_iff.mp inside] at used
    exact absurd ⟨low,rfl⟩ used
  · exact absurd missing (fed i inside)

theorem address_space_exact_one_page :
    ∃ t, detectMemoryE820 (fun _ => 0) quarterGigabyte = some t ∧
      (onePage.run (booted (setupPageTables 0x2000 t) [0x400000,0x401000,0x402000])).1 = 0 ∧
      vmmGetPhysical (onePage.run (booted (setupPageTables 0x2000 t) [0x400000,0x401000,0x402000])).2 0x10000005 = 0x9005 := by
  have listed : reported quarterGigabyte = some [⟨0x100000,0xFF00000,1⟩] := by decide
  have usable : UsablePages (mappedLimit [⟨0x100000,0xFF00000,1⟩]) [0x400000,0x401000,0x402000] := ⟨by decide,by decide⟩
  have valid : onePage.Valid := by
    change 3 &&& pteAddrMask = 0
    decide
  obtain ⟨t,ran,detected⟩ := detect_memory_spec quarterGigabyte_conforming listed (by decide) (fun _ => 0)
  have vacant := (blank_vacant (mappedPages (highestAddress [⟨0x100000,0xFF00000,1⟩]))).detected detected (by decide)
  refine ⟨t,ran,?_⟩
  have path := Run.single (Call.steps valid (booted (setupPageTables 0x2000 t) [0x400000,0x401000,0x402000]))
  obtain ⟨space,meant,reads⟩ :=
    address_space_exact quarterGigabyte_conforming listed (by decide) (Nat.le_refl 0x2000) (by decide) ran vacant usable path
  generalize onePage.run (booted (setupPageTables 0x2000 t) [0x400000,0x401000,0x402000]) = outcome at meant reads ⊢
  rw [booted_pages] at meant
  obtain ⟨zero,mapped⟩ := onePage_mapped (by decide) (by decide) meant
  refine ⟨zero,(reads _).trans ?_⟩
  rw [if_neg (by decide),mapped]
  rfl

end SantOS.Boot
