import Mathlib.Data.UInt
import SantOS.Library.ByteMemory
import SantOS.Library.Polling

namespace SantOS.Fdc
open ByteMemory Polling

abbrev fdcDor : Nat := 0x3F2
abbrev fdcMsr : Nat := 0x3F4
abbrev fdcFifo : Nat := 0x3F5
abbrev dmaAddr2 : Nat := 0x04
abbrev dmaCount2 : Nat := 0x05
abbrev dmaPage2 : Nat := 0x81
abbrev dmaSingleMask : Nat := 0x0A
abbrev dmaMode : Nat := 0x0B
abbrev dmaFlipflop : Nat := 0x0C

abbrev fdcCmdReadData : UInt8 := 0x06
abbrev fdcCmdWriteData : UInt8 := 0x05
abbrev fdcCmdSenseInterrupt : UInt8 := 0x08
abbrev fdcCmdSeek : UInt8 := 0x0F

abbrev msrRqm : UInt8 := 0x80
abbrev dorMotorA : UInt8 := 0x10
abbrev dorIrq : UInt8 := 0x08
abbrev dorReset : UInt8 := 0x04

abbrev sectorsPerTrack : Nat := 18
abbrev heads : Nat := 2
abbrev dmaBufferAddr : Nat := 0x20000

-- What the driver runs on: the ports, `sti; hlt`, the flag that fdc_irq_handler sets (it
-- may do so between any two steps) and the memory the DMA channel reaches.
structure Ports (σ : Type) where
  inb : Nat → σ → UInt8 × σ
  outb : Nat → UInt8 → σ → σ
  stiHlt : σ → σ
  fdcIrqReceived : σ → Bool
  resetIrq : σ → σ
  load : Nat → σ → UInt8
  store : Nat → UInt8 → σ → σ

namespace Ports
variable (ports : Ports σ)

def lookIrq (s : σ) : Option Unit × σ :=
  if ports.fdcIrqReceived s then (some (),ports.resetIrq s) else (none,ports.stiHlt s)

def fdcWaitIrq (s : σ) : Option Unit × σ := poll ports.lookIrq 10000 s

def lookReady (s : σ) : Option Unit × σ :=
  match ports.inb fdcMsr s with
  | (status,s) => if status &&& msrRqm ≠ 0 then (some (),s) else (none,s)

def fdcWaitReady (s : σ) : Option Unit × σ := poll ports.lookReady 100000 s

def fdcWriteByte (byte : UInt8) (s : σ) : Option Unit × σ :=
  match ports.fdcWaitReady s with
  | (some _,s) => (some (),ports.outb fdcFifo byte s)
  | (none,s) => (none,s)

-- The same loop a second time, around the read of the data port.
def fdcReadByte (s : σ) : Option UInt8 × σ :=
  match ports.fdcWaitReady s with
  | (some _,s) => ((ports.inb fdcFifo s).map some id)
  | (none,s) => (none,s)

end Ports

-- The driver above its wait loops: each exchange succeeds or has timed out.
structure Controller (σ : Type) where
  fdcWriteByte : UInt8 → σ → Option Unit × σ
  fdcReadByte : σ → Option UInt8 × σ
  fdcWaitIrq : σ → Option Unit × σ
  outb : Nat → UInt8 → σ → σ
  resetIrq : σ → σ
  load : Nat → σ → UInt8
  store : Nat → UInt8 → σ → σ

def Ports.controller (ports : Ports σ) : Controller σ where
  fdcWriteByte := ports.fdcWriteByte
  fdcReadByte := ports.fdcReadByte
  fdcWaitIrq := ports.fdcWaitIrq
  outb := ports.outb
  resetIrq := ports.resetIrq
  load := ports.load
  store := ports.store

def checked (call : Option α × σ) (failed : σ → β) (next : α → σ → β) : β :=
  match call with
  | (some a,s) => next a s
  | (none,s) => failed s

@[simp] theorem checked_some (a : α) (s : σ) (failed : σ → β) (next : α → σ → β) :
    checked (some a,s) failed next = next a s := rfl
@[simp] theorem checked_none (s : σ) (failed : σ → β) (next : α → σ → β) :
    checked (none,s) failed next = failed s := rfl

def lbaToChs (lba : UInt32) : UInt8 × UInt8 × UInt8 :=
  (UInt8.ofNat (lba.toNat/(heads*sectorsPerTrack)),UInt8.ofNat (lba.toNat/sectorsPerTrack%heads),
    UInt8.ofNat (lba.toNat%sectorsPerTrack+1))

-- `uint8_t n = SECTORS_PER_TRACK - s + 1; if (n > count - done) n = count - done;`
def part (s count done : UInt8) : UInt8 :=
  let n := UInt8.ofNat sectorsPerTrack - s + 1
  if n > count - done then count - done else n

namespace Controller
variable (c : Controller σ)

def fdcWriteBytes : List UInt8 → σ → Option Unit × σ
  | [],s => (some (),s)
  | byte::bytes,s => checked (c.fdcWriteByte byte s) (fun s => (none,s)) (fun _ s => fdcWriteBytes bytes s)

def fdcReadBytes : Nat → σ → Option (List UInt8) × σ
  | 0,s => (some [],s)
  | n+1,s =>
    checked (c.fdcReadByte s) (fun s => (none,s)) (fun byte s =>
      checked (fdcReadBytes n s) (fun s => (none,s)) (fun bytes s => (some (byte::bytes),s)))

-- The read path joins its seven reads with `|`: all of them run.
def fdcReadAll : Nat → σ → Option (List UInt8) × σ
  | 0,s => (some [],s)
  | n+1,s =>
    match c.fdcReadByte s with
    | (byte,s) =>
      match fdcReadAll n s with
      | (bytes,s) => (byte.bind (fun byte => bytes.map (byte::·)),s)

def fdcMotorOn (s : σ) : σ := c.outb fdcDor (dorMotorA ||| dorIrq ||| dorReset ||| 0) s
def fdcMotorOff (s : σ) : σ := c.outb fdcDor (dorIrq ||| dorReset ||| 0) s

-- The bodies of dma_setup_read and dma_setup_write differ in the mode byte.
def dmaSetup (mode : UInt8) (sectorCount : UInt8) (s : σ) : σ :=
  let addr := dmaBufferAddr
  let count : UInt16 := sectorCount.toUInt16 * 512 - 1
  let s := c.outb dmaSingleMask 0x06 s
  let s := c.outb dmaFlipflop 0xFF s
  let s := c.outb dmaMode mode s
  let s := c.outb dmaAddr2 (UInt8.ofNat addr) s
  let s := c.outb dmaAddr2 (UInt8.ofNat (addr >>> 8)) s
  let s := c.outb dmaPage2 (UInt8.ofNat (addr >>> 16)) s
  let s := c.outb dmaCount2 (UInt8.ofNat count.toNat) s
  let s := c.outb dmaCount2 (UInt8.ofNat (count.toNat >>> 8)) s
  c.outb dmaSingleMask 0x02 s

def dmaSetupRead (sectorCount : UInt8) (s : σ) : σ := c.dmaSetup 0x46 sectorCount s
def dmaSetupWrite (sectorCount : UInt8) (s : σ) : σ := c.dmaSetup 0x4A sectorCount s

def fdcSeek (cylinder head : UInt8) (s : σ) : Option Unit × σ :=
  checked (c.fdcWriteBytes [fdcCmdSeek,head <<< 2 ||| 0,cylinder] (c.resetIrq s)) (fun s => (none,s)) (fun _ s =>
    checked (c.fdcWaitIrq s) (fun s => (none,s)) (fun _ s =>
      checked (c.fdcWriteByte fdcCmdSenseInterrupt s) (fun s => (none,s)) (fun _ s =>
        checked (c.fdcReadBytes 2 s) (fun s => (none,s)) (fun _ s => (some (),s)))))

-- One round of the loop of fdc_read_sectors for n sectors of one track: none after
-- fdc_motor_off.
def fdcReadTrack (cyl h s n : UInt8) (t : σ) : Option Unit × σ :=
  checked (c.fdcSeek cyl h t) (fun t => (none,c.fdcMotorOff t)) (fun _ t =>
    checked
      (c.fdcWriteBytes [fdcCmdReadData ||| 0x40,h <<< 2,cyl,h,s,2,s + n - 1,0x1B,0xFF] (c.resetIrq (c.dmaSetupRead n t)))
      (fun t => (none,c.fdcMotorOff t)) (fun _ t =>
        checked (c.fdcWaitIrq t) (fun t => (none,c.fdcMotorOff t)) (fun _ t =>
          checked (c.fdcReadAll 7 t) (fun t => (none,c.fdcMotorOff t)) (fun results t =>
            if results.headD 0 &&& 0xC0 ≠ 0 then (none,c.fdcMotorOff t) else (some (),t)))))

-- `while (done < count)`. The caller's buffer is an object of its own, apart from dma_buffer.
def fdcReadFrom (lba : UInt32) (count done : UInt8) (buffer : Memory) : Nat → σ → Option (Int × Memory × σ)
  | 0,_ => none
  | fuel+1,t =>
    if done < count then
      match lbaToChs (lba + done.toUInt32) with
      | (cyl,h,s) =>
        let n := part s count done
        checked (c.fdcReadTrack cyl h s n t) (fun t => some (-1,buffer,t)) (fun _ t =>
          fdcReadFrom lba count (done + n)
            (blit buffer (done.toNat*512) (n.toNat*512) (fun j => c.load (dmaBufferAddr + j) t)) fuel t)
    else some (0,buffer,c.fdcMotorOff t)

def fdcReadSectors (fuel : Nat) (lba : UInt32) (count : UInt8) (buffer : Memory) (t : σ) : Option (Int × Memory × σ) :=
  c.fdcReadFrom lba count 0 buffer fuel (c.fdcMotorOn t)

def fillDmaBuffer (buffer : Memory) (i : UInt8) (t : σ) : σ :=
  (List.range 512).foldl (fun t j => c.store (dmaBufferAddr + j) (buffer (i.toNat*512+j)) t) t

-- One round of the loop of fdc_write_sectors. Where a byte of the command after the first or a
-- result byte times out, it returns without fdc_motor_off.
def fdcWriteSector (lba : UInt32) (i : UInt8) (buffer : Memory) (t : σ) : Option Unit × σ :=
  match lbaToChs (lba + i.toUInt32) with
  | (cylinder,head,sector) =>
    checked (c.fdcSeek cylinder head (c.fdcMotorOn t)) (fun t => (none,c.fdcMotorOff t)) (fun _ t =>
      checked (c.fdcWriteByte (fdcCmdWriteData ||| 0x40) (c.resetIrq (c.dmaSetupWrite 1 (c.fillDmaBuffer buffer i t))))
        (fun t => (none,c.fdcMotorOff t)) (fun _ t =>
        checked (c.fdcWriteBytes [head <<< 2 ||| 0,cylinder,head,sector,2,UInt8.ofNat sectorsPerTrack,0x1B,0xFF] t)
          (fun t => (none,t)) (fun _ t =>
          checked (c.fdcWaitIrq t) (fun t => (none,c.fdcMotorOff t)) (fun _ t =>
            checked (c.fdcReadBytes 7 t) (fun t => (none,t)) (fun results t =>
              if results.headD 0 &&& 0xC0 ≠ 0 then (none,c.fdcMotorOff t) else (some (),t))))))

def fdcWriteFrom (lba : UInt32) (i : UInt8) (buffer : Memory) : Nat → σ → Int × σ
  | 0,t => (0,c.fdcMotorOff t)
  | left+1,t =>
    checked (c.fdcWriteSector lba i buffer t) (fun t => (-1,t)) (fun _ t => fdcWriteFrom lba (i+1) buffer left t)

def fdcWriteSectors (lba : UInt32) (count : UInt8) (buffer : Memory) (t : σ) : Int × σ :=
  c.fdcWriteFrom lba 0 buffer count.toNat t

end Controller

end SantOS.Fdc
