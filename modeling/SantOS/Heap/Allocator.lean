import SantOS.Library.ByteMemory

namespace SantOS.KernelHeap
open ByteMemory

-- block_header_t is size_t size; struct block_header* next; uint32_t magic and four
-- bytes of padding, so sizeof(block_header_t) is 24.
def heapMagic : Nat := 0xDEADBEEF
def blockHeaderSize : Nat := 24
def alignment : Nat := 16

structure Heap where
  memory : Memory
  heapStart : Nat
  heapSize : Nat
  freeList : Nat

def Heap.size (h : Heap) (block : Nat) : Nat := load h.memory block 8
def Heap.next (h : Heap) (block : Nat) : Nat := load h.memory (block+8) 8
def Heap.magic (h : Heap) (block : Nat) : Nat := load h.memory (block+16) 4

def Heap.setSize (h : Heap) (block v : Nat) : Heap := {h with memory := store h.memory block 8 v}
def Heap.setNext (h : Heap) (block v : Nat) : Heap := {h with memory := store h.memory (block+8) 8 v}
def Heap.setMagic (h : Heap) (block v : Nat) : Heap := {h with memory := store h.memory (block+16) 4 v}

def alignSize (size : Nat) : Nat := (size + alignment - 1) % 2^64 &&& (2^64 - alignment)

def heapInit (memory : Memory) (start size : Nat) : Heap :=
  let h : Heap := ⟨memory,start,size,start⟩
  ((h.setSize start (size - blockHeaderSize)).setNext start 0).setMagic start heapMagic

-- The list walks carry fuel: a walk over more blocks than the heap has bytes revisits
-- one, and `none` is a walk that never ends.
def Heap.fuel (h : Heap) : Nat := h.heapSize + 1

def findFreeFrom (h : Heap) (size current : Nat) : Nat → Option Nat
  | 0 => none
  | fuel+1 =>
    if current = 0 then some 0
    else if h.magic current ≠ heapMagic then some 0
    else if h.size current ≥ size then some current
    else findFreeFrom h size (h.next current) fuel

def findFreeBlock (h : Heap) (size : Nat) : Option Nat := findFreeFrom h size h.freeList h.fuel

def splitBlock (h : Heap) (block size : Nat) : Heap :=
  if h.size block ≥ (size + blockHeaderSize + alignment) % 2^64 then
    let newBlock := block + blockHeaderSize + size
    let h := h.setSize newBlock (h.size block - size - blockHeaderSize)
    let h := h.setNext newBlock (h.next block)
    let h := h.setMagic newBlock heapMagic
    let h := h.setSize block size
    h.setNext block newBlock
  else h

def predecessorFrom (h : Heap) (block current : Nat) : Nat → Option Nat
  | 0 => none
  | fuel+1 =>
    if current ≠ 0 ∧ h.next current ≠ block then predecessorFrom h block (h.next current) fuel
    else some current

def removeFromFreeList (h : Heap) (block : Nat) : Option Heap :=
  if h.freeList = block then some {h with freeList := h.next block}
  else match predecessorFrom h block h.freeList h.fuel with
    | none => none
    | some current => some (if current ≠ 0 then h.setNext current (h.next block) else h)

def malloc (h : Heap) (size : Nat) : Option (Nat × Heap) :=
  if size = 0 then some (0,h)
  else match findFreeBlock h (alignSize size) with
    | none => none
    | some block =>
      if block = 0 then some (0,h)
      else match removeFromFreeList (splitBlock h block (alignSize size)) block with
        | none => none
        | some h => some (block + blockHeaderSize,h.setNext block 0)

def free (h : Heap) (ptr : Nat) : Heap :=
  if ptr = 0 then h
  else if h.magic (ptr - blockHeaderSize) ≠ heapMagic then h
  else {h.setNext (ptr - blockHeaderSize) h.freeList with freeList := ptr - blockHeaderSize}

-- `for (i = 0; i < block->size && i < size; i++) dst[i] = src[i]`, reading block->size
-- again at every iteration; at most size iterations run.
def copyFrom (m : Memory) (block src dst size i : Nat) : Nat → Memory
  | 0 => m
  | left+1 =>
    if i < load m block 8 ∧ i < size then
      copyFrom (Function.update m (dst+i) (m (src+i))) block src dst size (i+1) left
    else m

def realloc (h : Heap) (ptr size : Nat) : Option (Nat × Heap) :=
  if ptr = 0 then malloc h size
  else if size = 0 then some (0,free h ptr)
  else
    let block := ptr - blockHeaderSize
    if h.magic block ≠ heapMagic then some (0,h)
    else if alignSize size ≤ h.size block then some (ptr,h)
    else match malloc h size with
      | none => none
      | some (newPtr,h) =>
        if newPtr = 0 then some (0,h)
        else
          let h := {h with memory := copyFrom h.memory block ptr newPtr size 0 size}
          some (newPtr,free h ptr)

def calloc (h : Heap) (nmemb size : Nat) : Option (Nat × Heap) :=
  let totalSize := nmemb * size % 2^64
  match malloc h totalSize with
  | none => none
  | some (ptr,h) =>
    if ptr = 0 then some (0,h)
    else some (ptr,{h with memory := setBytes h.memory ptr 0 totalSize})

def freeSumFrom (h : Heap) (current freeSum : Nat) : Nat → Option Nat
  | 0 => none
  | fuel+1 =>
    if current = 0 then some freeSum
    else freeSumFrom h (h.next current) ((freeSum + (h.size current + blockHeaderSize)) % 2^32) fuel

structure Stats where
  total : Nat
  used : Nat
  freeBytes : Nat
deriving DecidableEq

def heapStats (h : Heap) : Option Stats :=
  match freeSumFrom h h.freeList 0 h.fuel with
  | none => none
  | some freeSum => some ⟨h.heapSize % 2^32,(h.heapSize + 2^64 - freeSum) % 2^32,freeSum⟩

end SantOS.KernelHeap
