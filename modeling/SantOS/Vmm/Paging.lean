import SantOS.Library.ByteMemory

namespace SantOS.Vmm
open ByteMemory

def pageSize : Nat := 4096
def pagePresent : Nat := 1
def pageWrite : Nat := 2
def pageHuge : Nat := 128
-- Bits 12 to 51 of an entry.
def pteAddrMask : Nat := 0x000FFFFFFFFFF000
def hugeAddrMask : Nat := 0x000FFFFFFFE00000

def pml4Index (addr : Nat) : Nat := addr >>> 39 &&& 0x1FF
def pdptIndex (addr : Nat) : Nat := addr >>> 30 &&& 0x1FF
def pdIndex (addr : Nat) : Nat := addr >>> 21 &&& 0x1FF
def ptIndex (addr : Nat) : Nat := addr >>> 12 &&& 0x1FF

-- Physical memory is identity mapped, so a table's address is a pointer to its entries.
-- pages holds what the coming calls of pmem_alloc_page return (0 when it runs out) and
-- console the printf calls made, each with its arguments. The TLB is not state here:
-- vmm_flush_tlb changes nothing these functions read.
structure Paging where
  memory : Memory
  pml4 : Nat
  pages : List Nat
  console : List (String × List Nat)

def Paging.entry (s : Paging) (table index : Nat) : Nat := load s.memory (table + index*8) 8

def Paging.setEntry (s : Paging) (table index e : Nat) : Paging :=
  {s with memory := store s.memory (table + index*8) 8 e}

def Paging.printf (s : Paging) (format : String) (args : List Nat) : Paging :=
  {s with console := s.console ++ [(format,args)]}

def pmemAllocPage (s : Paging) : Nat × Paging :=
  match s.pages with
  | [] => (0,s)
  | page::rest => (page,{s with pages := rest})

def allocPageTable (s : Paging) : Nat × Paging :=
  let (page,s) := pmemAllocPage s
  if page = 0 then (0,s)
  else (page,{s with memory := setBytes s.memory page 0 pageSize})

def getOrCreateTable (s : Paging) (parent index : Nat) (create : Bool) : Nat × Paging :=
  if s.entry parent index &&& pagePresent ≠ 0 then (s.entry parent index &&& pteAddrMask,s)
  else if create = false then (0,s)
  else
    let (newTable,s) := allocPageTable s
    if newTable = 0 then (0,s)
    else (newTable,s.setEntry parent index (newTable ||| pagePresent ||| pageWrite))

def vmmMapPage (s : Paging) (virt phys flags : Nat) : Int × Paging :=
  let (pdpt,s) := getOrCreateTable s s.pml4 (pml4Index virt) true
  if pdpt = 0 then (-1,s.printf "VMM: Failed to get/create PDPT\n" [])
  else
    let (pd,s) := getOrCreateTable s pdpt (pdptIndex virt) true
    if pd = 0 then (-1,s.printf "VMM: Failed to get/create PD\n" [])
    else if s.entry pd (pdIndex virt) &&& pageHuge ≠ 0 then
      (-1,s.printf "VMM: Cannot map 4KB page over 2MB huge page at %x\n" [virt % 2^32])
    else
      let (pt,s) := getOrCreateTable s pd (pdIndex virt) true
      if pt = 0 then (-1,s.printf "VMM: Failed to get/create PT\n" [])
      else if s.entry pt (ptIndex virt) &&& pagePresent ≠ 0 then
        (-1,s.printf "VMM: Page already mapped at %x\n" [virt % 2^32])
      else (0,s.setEntry pt (ptIndex virt) (phys &&& pteAddrMask ||| flags ||| pagePresent))

def vmmUnmapPage (s : Paging) (virt : Nat) : Int × Paging :=
  let (pdpt,s) := getOrCreateTable s s.pml4 (pml4Index virt) false
  if pdpt = 0 then (-1,s)
  else
    let (pd,s) := getOrCreateTable s pdpt (pdptIndex virt) false
    if pd = 0 then (-1,s)
    else if s.entry pd (pdIndex virt) &&& pageHuge ≠ 0 then (-1,s)
    else
      let (pt,s) := getOrCreateTable s pd (pdIndex virt) false
      if pt = 0 then (-1,s)
      else if s.entry pt (ptIndex virt) &&& pagePresent = 0 then (-1,s)
      else (0,s.setEntry pt (ptIndex virt) 0)

-- The loops of vmm_map_pages: mapping from page i on, and when a page fails, unmapping the
-- pages in front of it again.
def unmapFrom (s : Paging) (virt j : Nat) : Nat → Paging
  | 0 => s
  | left+1 => unmapFrom (vmmUnmapPage s ((virt + j*pageSize) % 2^64)).2 virt (j+1) left

def mapFrom (s : Paging) (virt phys flags i : Nat) : Nat → Int × Paging
  | 0 => (0,s)
  | left+1 =>
    let (result,s) := vmmMapPage s ((virt + i*pageSize) % 2^64) ((phys + i*pageSize) % 2^64) flags
    if result ≠ 0 then (-1,unmapFrom s virt 0 i) else mapFrom s virt phys flags (i+1) left

def vmmMapPages (s : Paging) (virt phys count flags : Nat) : Int × Paging := mapFrom s virt phys flags 0 count

def vmmGetPhysical (s : Paging) (virt : Nat) : Nat :=
  if s.entry s.pml4 (pml4Index virt) &&& pagePresent = 0 then 0
  else
    let pdpt := s.entry s.pml4 (pml4Index virt) &&& pteAddrMask
    if s.entry pdpt (pdptIndex virt) &&& pagePresent = 0 then 0
    else
      let pd := s.entry pdpt (pdptIndex virt) &&& pteAddrMask
      if s.entry pd (pdIndex virt) &&& pageHuge ≠ 0 then
        (s.entry pd (pdIndex virt) &&& hugeAddrMask) + (virt &&& 0x1FFFFF)
      else if s.entry pd (pdIndex virt) &&& pagePresent = 0 then 0
      else
        let pt := s.entry pd (pdIndex virt) &&& pteAddrMask
        if s.entry pt (ptIndex virt) &&& pagePresent = 0 then 0
        else (s.entry pt (ptIndex virt) &&& pteAddrMask) + (virt &&& 0xFFF)

end SantOS.Vmm
