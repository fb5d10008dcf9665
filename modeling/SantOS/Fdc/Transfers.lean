import SantOS.Fdc.Exchanges
import SantOS.Fat12.Edits

namespace SantOS.Fdc
open ByteMemory Polling

theorem block_of {lba : UInt32} {done : UInt8} (onDisk : lba.toNat + done.toNat < 2880) :
    (lba + done.toUInt32).toNat = lba.toNat + done.toNat := by
  rw [UInt32.toNat_add,UInt8.toNat_toUInt32]
  exact Nat.mod_eq_of_lt (by omega)

theorem part_exact {s count done : UInt8} (less : done < count) (first : 1 ≤ s.toNat) (last : s.toNat ≤ 18) :
    (part s count done).toNat = min (19 - s.toNat) (count.toNat - done.toNat) := by
  have order := UInt8.lt_iff_toNat_lt.mp less
  have rest : (count - done).toNat = count.toNat - done.toNat := UInt8.toNat_sub_of_le _ _ (UInt8.le_of_lt less)
  have eighteen : (UInt8.ofNat sectorsPerTrack).toNat = 18 := rfl
  have left : (UInt8.ofNat sectorsPerTrack - s + 1).toNat = 19 - s.toNat := by
    have one : (1 : UInt8).toNat = 1 := rfl
    rw [UInt8.toNat_add,UInt8.toNat_sub_of_le _ _ (UInt8.le_iff_toNat_le.mpr (by rw [eighteen]; exact last)),eighteen,one]
    omega
  simp only [part]
  split <;> rename_i above <;> rw [gt_iff_lt,UInt8.lt_iff_toNat_lt,rest,left] at above
  · rw [rest]
    omega
  · rw [left]
    omega

-- What a call leaves besides its data: an idle drive and a record of commands that cover the
-- range.
structure Done (d d' : Drive) (lba count : Nat) : Prop where
  idle : d'.Idle
  issued : ∃ more, d'.issued = d.issued ++ more ∧ Covers more lba count

section
variable {c : Controller σ} {view : σ → Drive} {a : σ}

theorem Executes.reads_from (runs : Executes c view) {lba : UInt32} {count : UInt8} (onDisk : lba.toNat + count.toNat ≤ 2880)
    (start : Memory) (fuel : Nat) (done : UInt8) (some : done.toNat ≤ count.toNat) (enough : count.toNat - done.toNat < fuel)
    (idle : (view a).Idle) (motor : (view a).dor &&& dorMotorA ≠ 0) :
    ∃ b, c.fdcReadFrom lba count done (blit start 0 (done.toNat*512) (fun j => (view a).disk (lba.toNat*512+j))) fuel a =
        Option.some (0,blit start 0 (count.toNat*512) (fun j => (view a).disk (lba.toNat*512+j)),b) ∧
      Done (view a) (view b) (lba.toNat + done.toNat) (count.toNat - done.toNat) ∧ (view b).disk = (view a).disk := by
  induction fuel generalizing done a with
  | zero => exact absurd enough (Nat.not_lt_zero _)
  | succ fuel ih =>
    rw [Controller.fdcReadFrom]
    split
    · rename_i less
      have order := UInt8.lt_iff_toNat_lt.mp less
      have block := @block_of lba done (by omega)
      obtain ⟨cyl,h,s,split,one,sector,first⟩ := @lbaToChs_exact (lba + done.toUInt32) (by rw [block]; omega)
      have few : s.toNat ≤ 18 := by omega
      have width := part_exact less one.sector few
      have track : OneTrack cyl h s (part s count done) := by
        refine ⟨one.cylinder,one.head,one.sector,?_,?_⟩
        · omega
        · change s.toNat + (part s count done).toNat ≤ 19
          omega
      have next : (done + part s count done).toNat = done.toNat + (part s count done).toNat := by
        rw [UInt8.toNat_add]
        have bound := count.toNat_lt
        omega
      obtain ⟨e,read,carried,disk,memory⟩ := runs.reads_track idle motor track
      rw [split]
      simp only
      rw [read,checked_some]
      have loaded : blit (blit start 0 (done.toNat*512) (fun j => (view a).disk (lba.toNat*512+j))) (done.toNat*512)
          ((part s count done).toNat*512) (fun j => c.load (dmaBufferAddr+j) e) =
          blit start 0 ((done + part s count done).toNat*512) (fun j => (view e).disk (lba.toNat*512+j)) := by
        rw [disk]
        have joined := @blit_append start (fun j => (view a).disk (lba.toNat*512+j)) (fun j => (view a).disk (lba.toNat*512+(done.toNat*512+j)))
          0 (done.toNat*512) (done.toNat*512) ((part s count done).toNat*512) ((done + part s count done).toNat*512) (by omega)
          (by rw [next]; omega) (fun j => rfl)
        refine (blit_same _ ?_).trans joined
        intro j inside
        have place : (lba.toNat + done.toNat)*512 + j = lba.toNat*512 + (done.toNat*512+j) := by omega
        rw [runs.load _ _ carried.idle.raised,memory,dma_inside _ _ inside,first,block,place]
      rw [loaded]
      obtain ⟨b,rest,covered,same⟩ := ih (done + part s count done) (by omega) (by omega) carried.idle (by rw [carried.dor]; exact motor)
      rw [disk] at rest same ⊢
      obtain ⟨more,issued,covers⟩ := covered.issued
      refine ⟨b,rest,⟨covered.idle,transfer cyl h s (part s count done)::more,?_,?_⟩,same⟩
      · rw [issued,carried.issued,List.append_assoc,List.singleton_append]
      · have startOf : (transfer cyl h s (part s count done)).first = lba.toNat + done.toNat := (first _).trans block
        have wide : (transfer cyl h s (part s count done)).sectors = (part s count done).toNat := rfl
        have moreCovers : Covers more (lba.toNat + done.toNat + (part s count done).toNat)
            (count.toNat - (done + part s count done).toNat) := by
          rw [Nat.add_assoc,← next]
          exact covers
        have all := Covers.cons track.in_track startOf (by rw [wide]; exact moreCovers)
        rw [wide] at all
        have sum : (part s count done).toNat + (count.toNat - (done + part s count done).toNat) = count.toNat - done.toNat := by omega
        rw [sum] at all
        exact all
    · rename_i all
      have order : ¬done.toNat < count.toNat := fun less => all (UInt8.lt_iff_toNat_lt.mpr less)
      have same : done.toNat = count.toNat := by omega
      have off := runs.output a fdcDor (dorIrq ||| dorReset ||| 0) idle.raised (by decide)
      have off : view (c.fdcMotorOff a) = {view a with dor := dorIrq ||| dorReset ||| 0} := off
      refine ⟨c.fdcMotorOff a,by rw [same],⟨?_,[],?_,?_⟩,?_⟩
      · rw [off]
        exact ⟨idle.command,idle.results,idle.raised⟩
      · rw [off,List.append_nil]
      · rw [same,Nat.sub_self]
        exact Covers.nothing _
      · rw [off]

theorem Executes.writes_from (runs : Executes c view) {lba : UInt32} (buffer : Memory) (left : Nat) (i : UInt8)
    (few : i.toNat + left < 256) (onDisk : lba.toNat + i.toNat + left ≤ 2880) (idle : (view a).Idle) :
    ∃ b, c.fdcWriteFrom lba i buffer left a = (0,b) ∧ Done (view a) (view b) (lba.toNat + i.toNat) left ∧
      (view b).disk = blit (view a).disk ((lba.toNat + i.toNat)*512) (left*512) (fun j => buffer (i.toNat*512+j)) := by
  induction left generalizing i a with
  | zero =>
    have off := runs.output a fdcDor (dorIrq ||| dorReset ||| 0) idle.raised (by decide)
    have off : view (c.fdcMotorOff a) = {view a with dor := dorIrq ||| dorReset ||| 0} := off
    refine ⟨c.fdcMotorOff a,rfl,⟨?_,[],?_,Covers.nothing _⟩,?_⟩
    · rw [off]
      exact ⟨idle.command,idle.results,idle.raised⟩
    · rw [off,List.append_nil]
    · rw [off,Nat.zero_mul,blit_nothing]
  | succ left ih =>
    have block := @block_of lba i (by omega)
    obtain ⟨cyl,h,s,split,one,_,first⟩ := @lbaToChs_exact (lba + i.toUInt32) (by rw [block]; omega)
    obtain ⟨e,written,idleE,issued,disk⟩ := runs.writes_sector idle split one buffer
    have next : (i + 1).toNat = i.toNat + 1 := by
      have one : (1 : UInt8).toNat = 1 := rfl
      rw [UInt8.toNat_add,one]
      omega
    obtain ⟨b,rest,⟨idleB,more,issuedB,covers⟩,diskB⟩ := ih (i + 1) (by omega) (by omega) idleE
    have startOf : (transfer cyl h s 1).first = lba.toNat + i.toNat := (first _).trans block
    rw [next] at covers diskB
    refine ⟨b,?_,⟨idleB,transfer cyl h s 1::more,?_,?_⟩,?_⟩
    · rw [Controller.fdcWriteFrom,written,checked_some,rest]
    · rw [issuedB,issued,List.append_assoc,List.singleton_append]
    · have all : Covers _ (lba.toNat + i.toNat) ((transfer cyl h s 1).sectors + left) := Covers.cons one.in_track startOf covers
      have wide : (transfer cyl h s 1).sectors + left = left + 1 := by
        change UInt8.toNat 1 + left = left + 1
        rw [Nat.add_comm]
        rfl
      rw [wide] at all
      exact all
    · rw [diskB,disk,startOf]
      apply blit_append
      · omega
      · omega
      · intro j
        have place : (i.toNat + 1)*512 + j = i.toNat*512 + (512 + j) := by omega
        simp only [place]

theorem Executes.reads (runs : Executes c view) {lba : UInt32} {count : UInt8} (onDisk : lba.toNat + count.toNat ≤ 2880)
    (idle : (view a).Idle) (buffer : Memory) (fuel : Nat) (enough : count.toNat < fuel) :
    ∃ b, c.fdcReadSectors fuel lba count buffer a =
        some (0,blit buffer 0 (count.toNat*512) (fun j => (view a).disk (lba.toNat*512+j)),b) ∧
      Done (view a) (view b) lba.toNat count.toNat ∧ (view b).disk = (view a).disk := by
  have on : view (c.fdcMotorOn a) = {view a with dor := 0x1C} := runs.output a fdcDor _ idle.raised (by decide)
  have spins : (0x1C : UInt8) &&& dorMotorA ≠ 0 := by decide
  have whole := @Executes.reads_from _ c view (c.fdcMotorOn a) runs lba count onDisk buffer fuel 0 (Nat.zero_le _) enough
    (by rw [on]; exact ⟨idle.command,idle.results,idle.raised⟩) (by rw [on]; exact spins)
  rw [on] at whole
  obtain ⟨b,read,⟨idleB,more,issued,covers⟩,disk⟩ := whole
  refine ⟨b,?_,⟨idleB,more,issued,covers⟩,disk⟩
  have zero : (0 : UInt8).toNat = 0 := rfl
  rw [zero,Nat.zero_mul,blit_nothing] at read
  rw [Controller.fdcReadSectors,read]

theorem Executes.writes (runs : Executes c view) {lba : UInt32} {count : UInt8} (onDisk : lba.toNat + count.toNat ≤ 2880)
    (idle : (view a).Idle) (data : Memory) :
    ∃ b, c.fdcWriteSectors lba count data a = (0,b) ∧ Done (view a) (view b) lba.toNat count.toNat ∧
      (view b).disk = blit (view a).disk (lba.toNat*512) (count.toNat*512) data := by
  have bound := count.toNat_lt
  have zero : (0 : UInt8).toNat = 0 := rfl
  obtain ⟨b,written,carried,disk⟩ := runs.writes_from data count.toNat 0 (by omega) (by rw [zero]; exact onDisk) idle
  simp only [zero,Nat.zero_mul,Nat.zero_add,Nat.add_zero] at disk carried
  exact ⟨b,written,carried,disk⟩

end

-- Over ports that serve a drive, a read brings exactly the sectors, a write stores exactly the
-- data, and either issues each sector of the range once, in order, each command inside a track.
theorem sectors_exact (ports : Ports σ) (view : σ → Drive) (serves : Serves ports view) (lba : UInt32) (count : UInt8)
    (onDisk : lba.toNat + count.toNat ≤ 2880) (a : σ) (idle : (view a).Idle) (buffer data : Memory) :
    (∀ fuel, count.toNat < fuel → ∃ b,
      ports.controller.fdcReadSectors fuel lba count buffer a =
        some (0,blit buffer 0 (count.toNat*512) (fun j => (view a).disk (lba.toNat*512+j)),b) ∧
      Done (view a) (view b) lba.toNat count.toNat ∧ (view b).disk = (view a).disk) ∧
    ∃ b, ports.controller.fdcWriteSectors lba count data a = (0,b) ∧ Done (view a) (view b) lba.toNat count.toNat ∧
      (view b).disk = blit (view a).disk (lba.toNat*512) (count.toNat*512) data ∧
      ∀ fuel, count.toNat < fuel → ∃ e,
        ports.controller.fdcReadSectors fuel lba count buffer b = some (0,blit buffer 0 (count.toNat*512) data,e) ∧
        (view e).disk = (view b).disk := by
  have runs := serves.executes
  refine ⟨fun fuel enough => runs.reads onDisk idle buffer fuel enough,?_⟩
  obtain ⟨b,written,carried,disk⟩ := runs.writes onDisk idle data
  refine ⟨b,written,carried,disk,?_⟩
  intro fuel enough
  obtain ⟨e,read,_,same⟩ := runs.reads onDisk carried.idle buffer fuel enough
  refine ⟨e,?_,same⟩
  rw [read,disk]
  have back : blit buffer 0 (count.toNat*512) (fun j => blit (view a).disk (lba.toNat*512) (count.toNat*512) data (lba.toNat*512+j)) =
      blit buffer 0 (count.toNat*512) data := blit_same _ (fun j inside => blit_inside _ _ inside)
  rw [back]

def Drive.ports : Ports Drive where
  inb port d :=
    if port = fdcFifo then (d.results.headD 0,{d with results := d.results.tail})
    else (if d.raised then 0x10 else if d.results = [] then 0x80 else 0xC0,d)
  outb port v d := d.outb port v
  stiHlt d := d
  fdcIrqReceived d := d.raised
  resetIrq d := {d with raised := false}
  load a d := d.memory a
  store a b d := {d with memory := Function.update d.memory a b}

theorem Drive.serves : Serves Drive.ports id where
  status := fun _ => rfl
  ready := by
    intro d raised
    refine ⟨0,by decide,?_⟩
    have quiet : d.raised = false := raised
    have answers : (0xC0 : UInt8) &&& msrRqm ≠ 0 := by decide
    by_cases results : d.results = []
    · simp [rest,Ports.lookReady,Drive.ports,quiet,results]
    · simp [rest,Ports.lookReady,Drive.ports,quiet,results,answers]
  result := by
    intro d b bytes _ found
    have results : d.results = b::bytes := found
    simp [Drive.ports,results]
  output := fun _ _ _ _ _ => rfl
  interrupt := by
    intro d raised
    refine ⟨0,by decide,?_⟩
    have flag : d.raised = true := raised
    simp [rest,Ports.lookIrq,Drive.ports,flag]
  halted := fun _ => rfl
  taken := fun _ _ => rfl
  load := fun _ _ _ => rfl
  store := fun _ _ _ _ => rfl

def blankDrive : Drive where
  disk := fun _ => 0
  memory := fun _ => 0
  dor := 0x0C
  cylinder := 0
  command := []
  results := []
  raised := false
  masked := true
  mode := 0
  flipFlop := false
  address := 0
  page := 0
  count := 0
  issued := []

theorem sectors_exact_last_sectors :
    ∃ b e, Drive.ports.controller.fdcWriteSectors 2860 20 (fun _ => 0x55) blankDrive = (0,b) ∧
      Drive.ports.controller.fdcReadSectors 21 2860 20 (fun _ => 0) b = some (0,blit (fun _ => 0) 0 10240 (fun _ => 0x55),e) := by
  obtain ⟨_,b,written,_,_,back⟩ := sectors_exact Drive.ports id Drive.serves 2860 20 (by decide) blankDrive ⟨rfl,rfl,rfl⟩
    (fun _ => 0) (fun _ => 0x55)
  obtain ⟨e,read,_⟩ := back 21 (by decide)
  exact ⟨b,e,written,read⟩

-- What the file system's model takes for the driver: a call over the same disk, with no fault
-- to come.
theorem reads_volume (ports : Ports σ) (view : σ → Drive) (serves : Serves ports view) (lba : UInt32) (count : UInt8)
    (onDisk : lba.toNat + count.toNat ≤ 2880) (a : σ) (idle : (view a).Idle) (buffer : Memory) (d : Fat12.Driver)
    (clear : d.Clear) (same : d.disk = (view a).disk) (fuel : Nat) (enough : count.toNat < fuel) :
    ∃ b, ports.controller.fdcReadSectors fuel lba count buffer a =
        some ((Fat12.fdcReadSectors d lba.toNat count.toNat buffer 0).1,
          (Fat12.fdcReadSectors d lba.toNat count.toNat buffer 0).2.1,b) ∧
      (Fat12.fdcReadSectors d lba.toNat count.toNat buffer 0).2.2.disk = (view b).disk := by
  obtain ⟨b,read,_,disk⟩ := serves.executes.reads onDisk idle buffer fuel enough
  refine ⟨b,?_,?_⟩
  · rw [Fat12.read_sectors_clear clear,same,read]
  · rw [Fat12.read_sectors_clear clear,same,disk]

theorem writes_volume (ports : Ports σ) (view : σ → Drive) (serves : Serves ports view) (lba : UInt32) (count : UInt8)
    (onDisk : lba.toNat + count.toNat ≤ 2880) (a : σ) (idle : (view a).Idle) (data : Memory) (d : Fat12.Driver)
    (clear : d.Clear) (same : d.disk = (view a).disk) :
    ∃ b, ports.controller.fdcWriteSectors lba count data a = ((Fat12.fdcWriteSectors d lba.toNat count.toNat data 0).1,b) ∧
      (Fat12.fdcWriteSectors d lba.toNat count.toNat data 0).2.disk = (view b).disk := by
  obtain ⟨b,written,_,disk⟩ := serves.executes.writes onDisk idle data
  refine ⟨b,?_,?_⟩
  · rw [Fat12.write_clear (clear 0),written]
  · rw [Fat12.write_clear (clear 0),disk,same]
    simp only [Nat.zero_add]

end SantOS.Fdc
