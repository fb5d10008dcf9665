import Mathlib.Data.Nat.Bitwise

namespace SantOS.Pmem

-- physical_memory_t of memory.c: the bitmap pointer, the bytes behind it and the
-- counters. `touched` is a history variable: every page whose bit was tested, set
-- or cleared, newest first.
structure PhysicalMemory where
  bitmapAt : Nat
  bitmap : Nat → Nat
  totalPages : Nat
  freePages : Nat
  bitmapSize : Nat
  touched : List Nat

def PhysicalMemory.touch (p : PhysicalMemory) (page : Nat) : PhysicalMemory := {p with touched := page::p.touched}

def bitmapIsSet (p : PhysicalMemory) (page : Nat) : Bool :=
  (p.bitmap (page/8) &&& (1 <<< (page%8))) != 0

def bitmapSet (p : PhysicalMemory) (page : Nat) : PhysicalMemory :=
  {p.touch page with
    bitmap := fun i => if i = page/8 then p.bitmap i ||| (1 <<< (page%8)) else p.bitmap i}

-- `~(1 << bit_idx)` is truncated to the uint8_t it is and-ed into.
def bitmapClear (p : PhysicalMemory) (page : Nat) : PhysicalMemory :=
  {p.touch page with
    bitmap := fun i => if i = page/8 then p.bitmap i &&& (255 ^^^ (1 <<< (page%8))) else p.bitmap i}

def findFreeFrom (p : PhysicalMemory) (page : Nat) : Nat → Nat × PhysicalMemory
  | 0 => (0xFFFFFFFF,p)
  | left+1 =>
    if bitmapIsSet p page then findFreeFrom (p.touch page) (page+1) left
    else (page,p.touch page)

def findFreePage (p : PhysicalMemory) (start : Nat) : Nat × PhysicalMemory :=
  findFreeFrom p start (p.totalPages - start)

def markUsed (p : PhysicalMemory) (page : Nat) : Nat → PhysicalMemory
  | 0 => p
  | left+1 => markUsed (bitmapSet p (page % 2^32)) (page+1) left

def pagesOf (memorySize : Nat) : Nat := memorySize / 4096
def bitmapBytes (memorySize : Nat) : Nat := (pagesOf memorySize + 7) / 8
def bitmapPages (memorySize : Nat) : Nat := (bitmapBytes memorySize + 4095) / 4096

-- The state after the clearing loop. Bitmap bytes at and behind bitmap_size keep
-- whatever memory held there before.
def cleared (before : Nat → Nat) (memoryStart memorySize : Nat) : PhysicalMemory where
  bitmapAt := memoryStart
  bitmap := fun i => if i < bitmapBytes memorySize then 0 else before i
  totalPages := pagesOf memorySize
  freePages := pagesOf memorySize
  bitmapSize := bitmapBytes memorySize
  touched := []

def pmemInit (before : Nat → Nat) (memoryStart memorySize : Nat) : PhysicalMemory :=
  {markUsed (cleared before memoryStart memorySize) 0 (bitmapPages memorySize) with
    freePages := pagesOf memorySize - bitmapPages memorySize}

def pmemAllocPage (p : PhysicalMemory) : Nat × PhysicalMemory :=
  if p.freePages = 0 then (0,p)
  else match findFreePage p 0 with
    | (page,p) =>
      if page = 0xFFFFFFFF then (0,p)
      else (page * 4096 % 2^32,{bitmapSet p page with freePages := p.freePages - 1})

def allFree (p : PhysicalMemory) (page : Nat) : Nat → Bool × PhysicalMemory
  | 0 => (true,p)
  | left+1 =>
    if bitmapIsSet p (page % 2^32) then (false,p.touch (page % 2^32))
    else allFree (p.touch (page % 2^32)) (page+1) left

-- The source retries by calling itself with the same count and the same bitmap.
-- `none` is a call that has not returned after `fuel` attempts.
def pmemAllocPages (p : PhysicalMemory) (count : Nat) : Nat → Option (Nat × PhysicalMemory)
  | 0 => none
  | fuel+1 =>
    if count = 0 then some (0,p)
    else if p.freePages < count then some (0,p)
    else match findFreePage p 0 with
      | (startPage,p) =>
        if startPage = 0xFFFFFFFF then some (0,p)
        else match allFree p startPage count with
          | (false,p) => pmemAllocPages p count fuel
          | (true,p) =>
            let p := markUsed p startPage count
            some (startPage * 4096 % 2^32,{p with freePages := p.freePages - count})

def pmemFreePage (p : PhysicalMemory) (addr : Nat) : PhysicalMemory :=
  if addr = 0 then p
  else if addr/4096 ≥ p.totalPages then p
  else if bitmapIsSet p (addr/4096) then
    {bitmapClear p (addr/4096) with freePages := p.freePages + 1}
  else p.touch (addr/4096)

def freePagesFrom (p : PhysicalMemory) (addr i : Nat) : Nat → PhysicalMemory
  | 0 => p
  | left+1 => freePagesFrom (pmemFreePage p ((addr + i*4096) % 2^32)) addr (i+1) left

def pmemFreePages (p : PhysicalMemory) (addr count : Nat) : PhysicalMemory :=
  freePagesFrom p addr 0 count

end SantOS.Pmem
