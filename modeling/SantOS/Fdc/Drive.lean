import SantOS.Fdc.Driver

namespace SantOS.Fdc
open ByteMemory Polling

structure Transfer where
  cylinder : Nat
  head : Nat
  sector : Nat
  sectors : Nat
deriving DecidableEq

def Transfer.first (t : Transfer) : Nat := (t.cylinder*heads + t.head)*sectorsPerTrack + (t.sector - 1)

-- A 1.44 MB drive with its controller and DMA channel 2, as the commands use them. Byte j of
-- sector b is disk byte b*512+j.
structure Drive where
  disk : Memory
  memory : Memory
  dor : UInt8
  cylinder : UInt8
  -- the bytes of an unfinished command, and the result bytes not read yet
  command : List UInt8
  results : List UInt8
  -- an interrupt the driver has not taken yet
  raised : Bool
  masked : Bool
  mode : UInt8
  flipFlop : Bool
  address : Nat
  page : Nat
  count : Nat
  issued : List Transfer

namespace Drive

-- The registers of 16 bits are written a byte at a time, the low one first.
def putByte (d : Drive) (old : Nat) (v : UInt8) : Nat :=
  if d.flipFlop then old % 256 + 256*v.toNat else old/256*256 + v.toNat

def buffer (d : Drive) : Nat := d.page*65536 + d.address
def sectors (d : Drive) : Nat := (d.count + 1)/512

def commandLength (bytes : List UInt8) : Nat :=
  if bytes.head? = some fdcCmdSeek then 3
  else if bytes.head? = some (fdcCmdReadData ||| 0x40) ∨ bytes.head? = some (fdcCmdWriteData ||| 0x40) then 9
  else 1

-- The channel moves whole sectors, inside one 64 KB page, in the direction of its mode.
def Ready (d : Drive) (mode : UInt8) : Prop :=
  d.masked = false ∧ d.mode = mode ∧ (d.count + 1) % 512 = 0 ∧ d.address + d.count < 65536

def OnTrack (d : Drive) (t : Transfer) (eot : Nat) : Prop :=
  t.cylinder = d.cylinder.toNat ∧ t.cylinder < 80 ∧ t.head < heads ∧ 1 ≤ t.sector ∧ t.sector + t.sectors ≤ eot + 1 ∧
    eot ≤ sectorsPerTrack

instance (d : Drive) (mode : UInt8) : Decidable (d.Ready mode) := by unfold Ready; infer_instance
instance (d : Drive) (t : Transfer) (eot : Nat) : Decidable (d.OnTrack t eot) := by unfold OnTrack; infer_instance

-- The end of a command: its result bytes, the interrupt, and the channel masked at its
-- terminal count.
def finish (d : Drive) (t : Transfer) (results : List UInt8) : Drive :=
  {d with results := results, raised := true, masked := true, issued := d.issued ++ [t]}

def failure : List UInt8 := [0x40,0,0,0,0,0,0]
def success (t : Transfer) : List UInt8 :=
  [UInt8.ofNat (4*t.head),0,0,UInt8.ofNat t.cylinder,UInt8.ofNat t.head,UInt8.ofNat (t.sector + t.sectors),2]

def readData (d : Drive) (unit c h s n eot : UInt8) : Drive :=
  let t : Transfer := ⟨c.toNat,h.toNat,s.toNat,d.sectors⟩
  if d.dor &&& dorMotorA ≠ 0 ∧ n = 2 ∧ unit = h <<< 2 ∧ d.Ready 0x46 ∧ d.OnTrack t eot.toNat then
    ({d with memory := blit d.memory d.buffer (d.sectors*512) (fun j => d.disk (t.first*512+j))}).finish t (success t)
  else d.finish t failure

def writeData (d : Drive) (unit c h s n eot : UInt8) : Drive :=
  let t : Transfer := ⟨c.toNat,h.toNat,s.toNat,d.sectors⟩
  if d.dor &&& dorMotorA ≠ 0 ∧ n = 2 ∧ unit = h <<< 2 ∧ d.Ready 0x4A ∧ d.OnTrack t eot.toNat then
    ({d with disk := blit d.disk (t.first*512) (d.sectors*512) (fun j => d.memory (d.buffer+j))}).finish t (success t)
  else d.finish t failure

def execute (d : Drive) : List UInt8 → Drive
  | [0x0F,_,cyl] => {d with cylinder := cyl, raised := true}
  | [0x08] => {d with results := [0x20,d.cylinder]}
  | [0x46,unit,c,h,s,n,eot,_,_] => d.readData unit c h s n eot
  | [0x45,unit,c,h,s,n,eot,_,_] => d.writeData unit c h s n eot
  | _ => {d with results := [0x80]}

theorem execute_read (d : Drive) (unit c h s n eot gap length : UInt8) :
    d.execute [fdcCmdReadData ||| 0x40,unit,c,h,s,n,eot,gap,length] = d.readData unit c h s n eot := rfl

theorem execute_write (d : Drive) (unit c h s n eot gap length : UInt8) :
    d.execute [fdcCmdWriteData ||| 0x40,unit,c,h,s,n,eot,gap,length] = d.writeData unit c h s n eot := rfl

def take (d : Drive) (b : UInt8) : Drive :=
  if (d.command ++ [b]).length = commandLength (d.command ++ [b]) then ({d with command := []}).execute (d.command ++ [b])
  else {d with command := d.command ++ [b]}

def outb (d : Drive) (port : Nat) (v : UInt8) : Drive :=
  if port = fdcFifo then d.take v
  else if port = fdcDor then {d with dor := v}
  else if port = dmaSingleMask then if v &&& 3 = 2 then {d with masked := v &&& 4 ≠ 0} else d
  else if port = dmaFlipflop then {d with flipFlop := false}
  else if port = dmaMode then if v &&& 3 = 2 then {d with mode := v} else d
  else if port = dmaAddr2 then {d with address := d.putByte d.address v, flipFlop := !d.flipFlop}
  else if port = dmaCount2 then {d with count := d.putByte d.count v, flipFlop := !d.flipFlop}
  else if port = dmaPage2 then {d with page := v.toNat}
  else d

structure Idle (d : Drive) : Prop where
  command : d.command = []
  results : d.results = []
  raised : d.raised = false

-- The bytes are taken one after another: none comes while results wait or a command runs.
def Takes : List UInt8 → Drive → Prop
  | [],_ => True
  | b::bytes,d => d.results = [] ∧ d.raised = false ∧ Takes bytes (d.take b)

theorem take_last (d : Drive) (pre : List UInt8) (b : UInt8) (before : d.command = pre)
    (whole : (pre ++ [b]).length = commandLength (pre ++ [b])) : d.take b = ({d with command := []}).execute (pre ++ [b]) := by
  rw [take,before,if_pos whole]

theorem take_more (d : Drive) (pre : List UInt8) (b : UInt8) (before : d.command = pre)
    (part : (pre ++ [b]).length ≠ commandLength (pre ++ [b])) : d.take b = {d with command := pre ++ [b]} := by
  rw [take,before,if_neg part]

theorem commandLength_append (pre rest : List UInt8) (some : pre ≠ []) :
    commandLength (pre ++ rest) = commandLength pre := by
  cases pre with
  | nil => exact absurd rfl some
  | cons b pre => rfl

-- The bytes of a command, sent whole: only the last one makes the controller act.
theorem takes_rest (d : Drive) (pre bytes : List UInt8) (more : bytes ≠ []) (before : d.command = pre)
    (whole : (pre ++ bytes).length = commandLength (pre ++ bytes)) (results : d.results = []) (raised : d.raised = false) :
    Takes bytes d ∧ bytes.foldl take d = ({d with command := []}).execute (pre ++ bytes) := by
  induction bytes generalizing d pre with
  | nil => exact absurd rfl more
  | cons b bytes ih =>
    cases bytes with
    | nil => exact ⟨⟨results,raised,trivial⟩,take_last d pre b before whole⟩
    | cons b' bytes =>
      have split : pre ++ b::b'::bytes = (pre ++ [b]) ++ b'::bytes := by simp
      have same := commandLength_append (pre ++ [b]) (b'::bytes) (by simp)
      have part : (pre ++ [b]).length ≠ commandLength (pre ++ [b]) := by
        rw [split,same] at whole
        rw [← whole]
        simp
      have next := take_more d pre b before part
      obtain ⟨taken,ends⟩ := ih {d with command := pre ++ [b]} (pre ++ [b]) (by simp) rfl (by rw [← split]; exact whole) results raised
      refine ⟨⟨results,raised,?_⟩,?_⟩
      · rw [next]
        exact taken
      · rw [List.foldl_cons,next,ends,split]

theorem takes_command {d : Drive} (idle : Idle d) (bytes : List UInt8) (more : bytes ≠ [])
    (whole : bytes.length = commandLength bytes) :
    Takes bytes d ∧ bytes.foldl take d = d.execute bytes := by
  obtain ⟨taken,ends⟩ := takes_rest d [] bytes more idle.command whole idle.results idle.raised
  refine ⟨taken,ends.trans ?_⟩
  have same : {d with command := []} = d := by rw [← idle.command]
  rw [same,List.nil_append]

theorem outb_raised (d : Drive) (v : UInt8) (other : port ≠ fdcFifo) : (d.outb port v).raised = d.raised := by
  unfold outb
  rw [if_neg other]
  split_ifs <;> rfl

def programmed (d : Drive) (mode : UInt8) (n : Nat) : Drive :=
  {d with masked := false, mode := mode, flipFlop := false, address := 0, page := 2, count := n*512 - 1}

theorem outb_masked (d : Drive) : d.outb dmaSingleMask 0x06 = {d with masked := true} := rfl
theorem outb_unmasked (d : Drive) : d.outb dmaSingleMask 0x02 = {d with masked := false} := rfl
theorem outb_flip_flop (d : Drive) (v : UInt8) : d.outb dmaFlipflop v = {d with flipFlop := false} := rfl
theorem outb_mode (d : Drive) (v : UInt8) (channel : v &&& 3 = 2) : d.outb dmaMode v = {d with mode := v} := if_pos channel
theorem outb_address (d : Drive) (v : UInt8) :
    d.outb dmaAddr2 v = {d with address := d.putByte d.address v, flipFlop := !d.flipFlop} := rfl
theorem outb_page (d : Drive) (v : UInt8) : d.outb dmaPage2 v = {d with page := v.toNat} := rfl
theorem outb_count (d : Drive) (v : UInt8) :
    d.outb dmaCount2 v = {d with count := d.putByte d.count v, flipFlop := !d.flipFlop} := rfl

theorem word_put (word : Nat) (fits : word < 65536) :
    (UInt8.ofNat word).toNat % 256 + 256*(UInt8.ofNat (word >>> 8)).toNat = word := by
  have low : (UInt8.ofNat word).toNat = word % 256 := UInt8.toNat_ofNat'
  have high : (UInt8.ofNat (word >>> 8)).toNat = (word >>> 8) % 256 := UInt8.toNat_ofNat'
  rw [low,high,Nat.shiftRight_eq_div_pow]
  omega

end Drive

theorem dma_count {n : UInt8} (some : 1 ≤ n.toNat) (few : n.toNat ≤ 18) :
    (n.toUInt16 * 512 - 1).toNat = n.toNat*512 - 1 := by
  have product : (n.toUInt16 * 512).toNat = n.toNat*512 := by
    rw [UInt16.toNat_mul]
    have same : n.toUInt16.toNat = n.toNat := by simp
    rw [same]
    exact Nat.mod_eq_of_lt (by change n.toNat*512 < 65536; omega)
  rw [UInt16.toNat_sub_of_le,product]
  · rfl
  · rw [UInt16.le_iff_toNat_le,product]
    change 1 ≤ _
    omega

structure OneTrack (cyl h s n : UInt8) : Prop where
  cylinder : cyl.toNat < 80
  head : h.toNat < heads
  sector : 1 ≤ s.toNat
  some : 1 ≤ n.toNat
  within : s.toNat + n.toNat ≤ sectorsPerTrack + 1

def transfer (cyl h s n : UInt8) : Transfer := ⟨cyl.toNat,h.toNat,s.toNat,n.toNat⟩

theorem Drive.programmed_sectors (d : Drive) (mode : UInt8) {n : Nat} (some : 1 ≤ n) :
    (d.programmed mode n).sectors = n := by
  change (n*512 - 1 + 1)/512 = n
  omega

theorem Drive.programmed_buffer (d : Drive) (mode : UInt8) (n : Nat) : (d.programmed mode n).buffer = dmaBufferAddr := by
  have page : (d.programmed mode n).page = 2 := rfl
  have address : (d.programmed mode n).address = 0 := rfl
  rw [buffer,page,address]

theorem Drive.programmed_ready (d : Drive) (mode : UInt8) {n : Nat} (some : 1 ≤ n) (few : n ≤ 18) :
    (d.programmed mode n).Ready mode := by
  refine ⟨rfl,rfl,?_,?_⟩
  · change (n*512 - 1 + 1) % 512 = 0
    omega
  · change 0 + (n*512 - 1) < 65536
    omega

theorem OneTrack.last (one : OneTrack cyl h s n) : (s + n - 1).toNat = s.toNat + n.toNat - 1 := by
  have sector := one.sector
  have within : s.toNat + n.toNat ≤ 19 := one.within
  have sum : (s + n).toNat = s.toNat + n.toNat := by
    rw [UInt8.toNat_add]
    omega
  rw [UInt8.toNat_sub_of_le,sum]
  · rfl
  · rw [UInt8.le_iff_toNat_le,sum]
    change 1 ≤ _
    omega

theorem OneTrack.few (one : OneTrack cyl h s n) : n.toNat ≤ 18 := by
  have sector := one.sector
  have within : s.toNat + n.toNat ≤ 19 := one.within
  omega

theorem OneTrack.on_track (one : OneTrack cyl h s n) (d : Drive) (eot : Nat) (below : d.cylinder = cyl)
    (endOfTrack : eot ≤ 18)
    (reached : s.toNat + n.toNat ≤ eot + 1) : d.OnTrack (transfer cyl h s n) eot := by
  exact ⟨by rw [below]; rfl,one.cylinder,one.head,one.sector,reached,endOfTrack⟩

def Drive.filled (d : Drive) (t : Transfer) : Drive :=
  {d.programmed 0x46 t.sectors with
    memory := blit d.memory dmaBufferAddr (t.sectors*512) (fun j => d.disk (t.first*512+j))}

def Drive.stored (d : Drive) (t : Transfer) : Drive :=
  {d.programmed 0x4A t.sectors with
    disk := blit d.disk (t.first*512) (t.sectors*512) (fun j => d.memory (dmaBufferAddr+j))}

theorem dma_inside (m source : Memory) (inside : j < n) : blit m dmaBufferAddr n source (dmaBufferAddr + j) = source j :=
  @blit_inside m source dmaBufferAddr n j inside

theorem Drive.stored_disk (d : Drive) (t : Transfer) :
    (d.stored t).disk = blit d.disk (t.first*512) (t.sectors*512) (fun j => d.memory (dmaBufferAddr+j)) := rfl

theorem Drive.reads (d : Drive) (one : OneTrack cyl h s n) (below : d.cylinder = cyl) (motor : d.dor &&& dorMotorA ≠ 0) :
    (d.programmed 0x46 n.toNat).execute [fdcCmdReadData ||| 0x40,h <<< 2,cyl,h,s,2,s + n - 1,0x1B,0xFF] =
      (d.filled (transfer cyl h s n)).finish (transfer cyl h s n) (success (transfer cyl h s n)) := by
  have sectors := d.programmed_sectors 0x46 one.some
  have track := one.on_track (d.programmed 0x46 n.toNat) (s + n - 1).toNat below
    (by rw [one.last]; have := one.within; change _ ≤ 19 at this; omega) (by rw [one.last]; have := one.sector; omega)
  rw [execute_read,readData,sectors,Drive.programmed_buffer,if_pos ⟨motor,rfl,rfl,d.programmed_ready 0x46 one.some one.few,track⟩]
  rfl

theorem Drive.writes (d : Drive) (one : OneTrack cyl h s 1) (below : d.cylinder = cyl) (motor : d.dor &&& dorMotorA ≠ 0) :
    (d.programmed 0x4A 1).execute [fdcCmdWriteData ||| 0x40,h <<< 2 ||| 0,cyl,h,s,2,UInt8.ofNat sectorsPerTrack,0x1B,0xFF] =
      (d.stored (transfer cyl h s 1)).finish (transfer cyl h s 1) (success (transfer cyl h s 1)) := by
  have sectors := d.programmed_sectors 0x4A (Nat.le_refl 1)
  have track := one.on_track (d.programmed 0x4A 1) 18 below (Nat.le_refl _) one.within
  rw [execute_write,writeData,sectors,Drive.programmed_buffer,if_pos ⟨motor,rfl,by simp,d.programmed_ready 0x4A (Nat.le_refl 1) (by decide),track⟩]
  rfl

theorem byte_of {k : Nat} (small : k < 256) : (UInt8.ofNat k).toNat = k := by
  have value : (UInt8.ofNat k).toNat = k % 256 := UInt8.toNat_ofNat'
  rw [value,Nat.mod_eq_of_lt small]

theorem lbaToChs_exact {lba : UInt32} (onDisk : lba.toNat < 2880) :
    ∃ cyl h s, lbaToChs lba = (cyl,h,s) ∧ OneTrack cyl h s 1 ∧ s.toNat = lba.toNat % 18 + 1 ∧
      ∀ n, (transfer cyl h s n).first = lba.toNat := by
  have sector : (UInt8.ofNat (lba.toNat%sectorsPerTrack+1)).toNat = lba.toNat % 18 + 1 := byte_of (by change _ % 18 + 1 < _; omega)
  have cylinder : (UInt8.ofNat (lba.toNat/(heads*sectorsPerTrack))).toNat = lba.toNat/36 := byte_of (by change _ / (2*18) < _; omega)
  have head : (UInt8.ofNat (lba.toNat/sectorsPerTrack%heads)).toNat = lba.toNat/18 % 2 := byte_of (by change _ % 2 < _; omega)
  refine ⟨_,_,_,rfl,⟨?_,?_,?_,Nat.le_refl _,?_⟩,sector,?_⟩
  · rw [cylinder]
    omega
  · rw [head]
    exact Nat.mod_lt _ (by decide)
  · rw [sector]
    omega
  · rw [sector]
    change lba.toNat % 18 + 1 + 1 ≤ 19
    omega
  · intro n
    simp only [Transfer.first,transfer,sector,cylinder,head]
    change (lba.toNat/36*2 + lba.toNat/18 % 2)*18 + (lba.toNat % 18 + 1 - 1) = lba.toNat
    omega

-- No sector twice, none left out, and no command past the end of its track.
def Transfer.InTrack (t : Transfer) : Prop :=
  t.cylinder < 80 ∧ t.head < heads ∧ 1 ≤ t.sector ∧ t.sector + t.sectors ≤ sectorsPerTrack + 1

def Covers (issued : List Transfer) (lba count : Nat) : Prop :=
  (∀ t ∈ issued, t.InTrack) ∧ issued.flatMap (fun t => List.range' t.first t.sectors) = List.range' lba count

theorem Covers.nothing (lba : Nat) : Covers [] lba 0 := ⟨by simp,rfl⟩

theorem Covers.cons {t : Transfer} (within : t.InTrack) (first : t.first = lba)
    (rest : Covers issued (lba + t.sectors) count) :
    Covers (t::issued) lba (t.sectors + count) := by
  refine ⟨?_,?_⟩
  · intro u member
    rcases List.mem_cons.mp member with rfl | later
    · exact within
    · exact rest.1 u later
  · rw [List.flatMap_cons,rest.2,first,List.range'_append_1]

theorem OneTrack.in_track (one : OneTrack cyl h s n) :
    (transfer cyl h s n).InTrack := ⟨one.cylinder,one.head,one.sector,one.within⟩

-- The drive behind the ports: what it does for each exchange is what the world shows the
-- driver, within the bounds of the driver's waits. Memory and ports are only promised
-- while no command runs.
structure Serves (ports : Ports σ) (view : σ → Drive) : Prop where
  status : ∀ s, view (ports.inb fdcMsr s).2 = view s
  ready : ∀ s, (view s).raised = false → ∃ k < 100000, (ports.lookReady (rest ports.lookReady k s)).1 ≠ none
  result : ∀ s b bytes, (view s).raised = false → (view s).results = b::bytes →
    (ports.inb fdcFifo s).1 = b ∧ view (ports.inb fdcFifo s).2 = {view s with results := bytes}
  output : ∀ s port v, (view s).raised = false → (port = fdcFifo → (view s).results = []) →
    view (ports.outb port v s) = (view s).outb port v
  interrupt : ∀ s, (view s).raised = true → ∃ k < 10000, (ports.lookIrq (rest ports.lookIrq k s)).1 ≠ none
  halted : ∀ s, view (ports.stiHlt s) = view s
  taken : ∀ s, ports.fdcIrqReceived s = true ∨ (view s).raised = false →
    view (ports.resetIrq s) = {view s with raised := false}
  load : ∀ s a, (view s).raised = false → ports.load a s = (view s).memory a
  store : ∀ s a b, (view s).raised = false → view (ports.store a b s) = {view s with memory := Function.update (view s).memory a b}

end SantOS.Fdc
