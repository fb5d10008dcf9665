import SantOS.Ata.Driver

namespace SantOS.Ata
open ByteMemory Polling

-- What the drive is doing: a sector of a READ SECTORS or WRITE SECTORS command is moved word
-- by word, left sectors are still to come, this one among them.
inductive Phase where
  | idle
  | reading (sector left word : Nat)
  | writing (sector left : Nat) (words : List UInt16)
  | aborted

def Phase.Transfers : Phase → Prop
  | .reading .. => True
  | .writing .. => True
  | _ => False

-- A drive in LBA mode. Byte j of sector b is disk byte b*512+j.
structure Drive where
  disk : Memory
  capacity : Nat
  drive : UInt8
  sectorCount : UInt8
  low : UInt8
  mid : UInt8
  high : UInt8
  phase : Phase

namespace Drive

def block (d : Drive) : Nat := d.low.toNat + 2^8*d.mid.toNat + 2^16*d.high.toNat + 2^24*(d.drive &&& 0x0F).toNat

def sectors (d : Drive) : Nat := if d.sectorCount = 0 then 256 else d.sectorCount.toNat

-- Behind the last sector of a command the drive is idle; an address behind its own last sector
-- aborts the command there.
def readNext (d : Drive) (sector left : Nat) : Phase :=
  if left = 0 then .idle else if sector < d.capacity then .reading sector left 0 else .aborted

def writeNext (d : Drive) (sector left : Nat) : Phase :=
  if left = 0 then .idle else if sector < d.capacity then .writing sector left [] else .aborted

def execute (d : Drive) (cmd : UInt8) : Phase :=
  if d.drive &&& 0x50 ≠ 0x40 then .aborted
  else if cmd = ataCmdReadSectors then d.readNext d.block d.sectors
  else if cmd = ataCmdWriteSectors then d.writeNext d.block d.sectors
  else .aborted

def outb (d : Drive) (port : Nat) (v : UInt8) : Drive :=
  if port = ataPrimarySectorCount then {d with sectorCount := v}
  else if port = ataPrimaryLbaLow then {d with low := v}
  else if port = ataPrimaryLbaMid then {d with mid := v}
  else if port = ataPrimaryLbaHigh then {d with high := v}
  else if port = ataPrimaryDrive then {d with drive := v}
  else if port = ataPrimaryCommand then {d with phase := d.execute v}
  else d

def inw (d : Drive) : UInt16 × Drive :=
  match d.phase with
  | .reading sector left word =>
    (UInt16.ofNat (load d.disk (sector*512 + 2*word) 2),
      {d with phase := if word = 255 then d.readNext (sector+1) (left-1) else .reading sector left (word+1)})
  | _ => (0,d)

def wordBytes (words : List UInt16) : Memory := fun i =>
  if i % 2 = 0 then UInt8.ofNat (words.getD (i/2) 0).toNat else UInt8.ofNat ((words.getD (i/2) 0).toNat/256)

def outw (d : Drive) (word : UInt16) : Drive :=
  match d.phase with
  | .writing sector left words =>
    if words.length = 255 then
      {d with disk := blit d.disk (sector*512) 512 (wordBytes (words ++ [word])), phase := d.writeNext (sector+1) (left-1)}
    else {d with phase := .writing sector left (words ++ [word])}
  | _ => d

end Drive

-- The drive behind the ports. It is not busy and asks for data in time; its registers are
-- promised while it is not busy, and its data while it asks for it.
structure Serves (ports : Ports σ) (view : σ → Drive) : Prop where
  status : ∀ s, view (ports.inb ataPrimaryStatus s).2 = view s
  error : ∀ s, (ports.inb ataPrimaryStatus s).1 &&& ataStatusErr ≠ 0 ↔ (view s).phase = .aborted
  rests : ∀ s, ¬ (view s).phase.Transfers → requests (ports.inb ataPrimaryStatus s).1 = false ∧
    ∃ k < 100000, (ports.look ready (rest (ports.look ready) k s)).1 ≠ none
  asks : ∀ s, (view s).phase.Transfers → ∃ k < 100000, (ports.look requests (rest (ports.look requests) k s)).1 ≠ none
  staysReady : ∀ s, ¬ (view s).phase.Transfers → ready (ports.inb ataPrimaryStatus s).1 = true →
    ready (ports.inb ataPrimaryStatus (ports.inb ataPrimaryStatus s).2).1 = true
  staysAsking : ∀ s, (view s).phase.Transfers → requests (ports.inb ataPrimaryStatus s).1 = true →
    requests (ports.inb ataPrimaryStatus (ports.inb ataPrimaryStatus s).2).1 = true
  register : ∀ s port v, ¬ (view s).phase.Transfers → ready (ports.inb ataPrimaryStatus s).1 = true →
    view (ports.outb port v s) = (view s).outb port v ∧
      (port ≠ ataPrimaryCommand → ready (ports.inb ataPrimaryStatus (ports.outb port v s)).1 = true)
  input : ∀ s sector left word, (view s).phase = .reading sector left word → requests (ports.inb ataPrimaryStatus s).1 = true →
    (ports.inw ataPrimaryData s).1 = (view s).inw.1 ∧ view (ports.inw ataPrimaryData s).2 = (view s).inw.2 ∧
      (word ≠ 255 → requests (ports.inb ataPrimaryStatus (ports.inw ataPrimaryData s).2).1 = true)
  output : ∀ s sector left words v, (view s).phase = .writing sector left words → requests (ports.inb ataPrimaryStatus s).1 = true →
    view (ports.outw ataPrimaryData v s) = (view s).outw v ∧
      (words.length ≠ 255 → requests (ports.inb ataPrimaryStatus (ports.outw ataPrimaryData v s)).1 = true)

theorem store_word (m disk : Memory) (a x : Nat) :
    store m a 2 (UInt16.ofNat (load disk x 2)).toNat = blit m a 2 (fun i => disk (x+i)) := by
  have word : (UInt16.ofNat (load disk x 2)).toNat = load disk x 2 :=
    UInt16.toNat_ofNat_of_lt' (load_lt disk x 2)
  rw [word]
  funext i
  have one : (disk x).toNat < 256 := (disk x).toNat_lt
  have two : (disk (x+1)).toNat < 256 := (disk (x+1)).toNat_lt
  have value : load disk x 2 = (disk x).toNat + 256*(disk (x+1)).toNat := by simp [load]
  by_cases first : i = a
  · subst first
    have byte : UInt8.ofNat (load disk x 2) = disk x := by
      apply UInt8.toNat_inj.mp
      rw [UInt8.toNat_ofNat',value]
      omega
    simp [store,blit,byte]
  · by_cases second : i = a+1
    · subst second
      have byte : UInt8.ofNat (load disk x 2/256) = disk (x+1) := by
        apply UInt8.toNat_inj.mp
        rw [UInt8.toNat_ofNat',value]
        omega
      simp [store,blit,byte]
    · rw [store_outside m (by omega),blit_outside m _ (by omega)]

theorem wordBytes_of (buffer : Memory) (a : Nat) {i : Nat} (inside : i < 512) :
    Drive.wordBytes ((List.range 256).map (fun j => UInt16.ofNat (load buffer (a+2*j) 2))) i = buffer (a+i) := by
  have place : i/2 < 256 := by omega
  have word : (UInt16.ofNat (load buffer (a+2*(i/2)) 2)).toNat = load buffer (a+2*(i/2)) 2 :=
    UInt16.toNat_ofNat_of_lt' (load_lt buffer _ 2)
  have value : load buffer (a+2*(i/2)) 2 = (buffer (a+2*(i/2))).toNat + 256*(buffer (a+2*(i/2)+1)).toNat := by simp [load]
  have one := (buffer (a+2*(i/2))).toNat_lt
  have two := (buffer (a+2*(i/2)+1)).toNat_lt
  have found : ((List.range 256).map (fun j => UInt16.ofNat (load buffer (a+2*j) 2))).getD (i/2) 0 =
      UInt16.ofNat (load buffer (a+2*(i/2)) 2) := by
    simp [List.getD_eq_getElem?_getD,place]
  rw [Drive.wordBytes,found,word]
  apply UInt8.toNat_inj.mp
  by_cases even : i % 2 = 0
  · have here : a + 2*(i/2) = a + i := by omega
    rw [if_pos even,UInt8.toNat_ofNat',value]
    rw [here] at one ⊢
    omega
  · have here : a + 2*(i/2) + 1 = a + i := by omega
    rw [if_neg even,UInt8.toNat_ofNat',value,here]
    rw [here] at two
    omega

end SantOS.Ata
