import SantOS.Ata.Drive
import SantOS.Library.Runs

namespace SantOS.Ata
open ByteMemory Polling Runs

section
variable {ports : Ports σ} {view : σ → Drive} {s : σ} {d : Drive}

theorem Serves.waited_drq (serves : Serves ports view) (transfers : (view s).phase.Transfers) :
    ∃ t, ports.ataWaitDrq s = (0,t) ∧ view t = view s ∧ requests (ports.inb ataPrimaryStatus t).1 = true := by
  have keeps : ∀ u, view u = view s → view (ports.inb ataPrimaryStatus u).2 = view s :=
    fun u same => (serves.status u).trans same
  obtain ⟨u,same,answer,ran⟩ := Ports.wait_answered keeps rfl (serves.asks s transfers)
  exact ⟨_,ran,keeps u same,serves.staysAsking u (by rw [same]; exact transfers) answer⟩

theorem Serves.waited_ready (serves : Serves ports view) (resting : ¬ (view s).phase.Transfers) :
    ∃ t, ports.ataWaitReady s = (0,t) ∧ view t = view s ∧ ready (ports.inb ataPrimaryStatus t).1 = true := by
  have keeps : ∀ u, view u = view s → view (ports.inb ataPrimaryStatus u).2 = view s :=
    fun u same => (serves.status u).trans same
  obtain ⟨u,same,answer,ran⟩ := Ports.wait_answered keeps rfl (serves.rests s resting).2
  exact ⟨_,ran,keeps u same,serves.staysReady u (by rw [same]; exact resting) answer⟩

-- A drive that rests never asks for data: the wait runs out and reports success.
theorem Serves.waited_in_vain (serves : Serves ports view) (resting : ¬ (view s).phase.Transfers) :
    ∃ t, ports.ataWaitDrq s = (0,t) ∧ view t = view s := by
  refine Ports.wait_silent (fun u => view u = view s) (fun u same => (serves.status u).trans same) ?_ rfl
  intro u same
  exact (serves.rests u (by rw [same]; exact resting)).1

def Drive.taken (d : Drive) (sector left j : Nat) : Drive :=
  {d with phase := if j = 256 then d.readNext (sector+1) (left-1) else .reading sector left j}

def Drive.given (d : Drive) (sector left : Nat) (word : Nat → UInt16) (j : Nat) : Drive :=
  if j = 256 then
    {d with disk := blit d.disk (sector*512) 512 (Drive.wordBytes ((List.range 256).map word)), phase := d.writeNext (sector+1) (left-1)}
  else {d with phase := .writing sector left ((List.range j).map word)}

theorem Drive.taken_inw (d : Drive) (sector left : Nat) {j : Nat} (more : j < 256) :
    (d.taken sector left j).inw = (UInt16.ofNat (load d.disk (sector*512 + 2*j) 2),d.taken sector left (j+1)) := by
  have here : d.taken sector left j = {d with phase := .reading sector left j} := by rw [taken,if_neg (by omega)]
  rw [here]
  simp only [inw,taken,readNext,Nat.reduceEqDiff]

theorem Drive.given_outw (d : Drive) (sector left : Nat) (word : Nat → UInt16) {j : Nat} (more : j < 256) :
    (d.given sector left word j).outw (word j) = d.given sector left word (j+1) := by
  have here : d.given sector left word j = {d with phase := .writing sector left ((List.range j).map word)} := by
    rw [given,if_neg (by omega)]
  have next : (List.range (j+1)).map word = (List.range j).map word ++ [word j] := by rw [List.range_succ,List.map_append]; rfl
  rw [here]
  by_cases last : j = 255
  · subst last
    simp only [outw,given,List.length_map,List.length_range,← next,if_true,writeNext]
  · have count : ¬ ((List.range j).map word).length = 255 := by simpa using last
    simp only [outw,given,if_neg count,← next]
    rw [if_neg (by omega)]

theorem Serves.insw_exact (serves : Serves ports view) (sector n : Nat) (a left j : Nat) (whole : j + left = 256)
    (buffer : Memory)
    (here : view s = d.taken sector n j) (asks : j < 256 → requests (ports.inb ataPrimaryStatus s).1 = true) :
    ∃ t, ports.insw a j buffer left s = (blit buffer (a+2*j) (2*left) (fun i => d.disk (sector*512+2*j+i)),t) ∧
      view t = d.taken sector n 256 := by
  induction left generalizing j buffer s with
  | zero =>
    obtain rfl : j = 256 := by omega
    exact ⟨s,by rw [Ports.insw,Nat.mul_zero,blit_nothing],here⟩
  | succ left ih =>
    have more : j < 256 := by omega
    have phase : (view s).phase = .reading sector n j := by rw [here,Drive.taken,if_neg (by omega)]
    obtain ⟨word,moved,still⟩ := serves.input s sector n j phase (asks more)
    rw [here,Drive.taken_inw d sector n more] at word moved
    obtain ⟨t,ran,last⟩ := ih (j+1) (by omega) (store buffer (a+2*j) 2 (ports.inw ataPrimaryData s).1.toNat) moved
      (fun less => still (by omega))
    refine ⟨t,?_,last⟩
    rw [Ports.insw]
    change ports.insw a (j+1) (store buffer (a+2*j) 2 (ports.inw ataPrimaryData s).1.toNat) left (ports.inw ataPrimaryData s).2 = _
    have joined : blit (blit buffer (a+2*j) 2 (fun i => d.disk (sector*512+2*j+i))) (a+2*(j+1)) (2*left)
        (fun i => d.disk (sector*512+2*(j+1)+i)) = blit buffer (a+2*j) (2*(left+1)) (fun i => d.disk (sector*512+2*j+i)) := by
      refine blit_append buffer (by omega) (by omega) (fun i => ?_)
      have place : sector*512 + 2*(j+1) + i = sector*512 + 2*j + (2+i) := by omega
      rw [place]
    rw [ran,word,store_word,joined]

theorem Serves.outsw_exact (serves : Serves ports view) (sector n a : Nat) (buffer : Memory) (left j : Nat)
    (whole : j + left = 256)
    (here : view s = d.given sector n (fun j => UInt16.ofNat (load buffer (a+2*j) 2)) j)
    (asks : j < 256 → requests (ports.inb ataPrimaryStatus s).1 = true) :
    view (ports.outsw a buffer j left s) = d.given sector n (fun j => UInt16.ofNat (load buffer (a+2*j) 2)) 256 := by
  induction left generalizing j s with
  | zero =>
    obtain rfl : j = 256 := by omega
    exact here
  | succ left ih =>
    have more : j < 256 := by omega
    have phase : (view s).phase = .writing sector n ((List.range j).map (fun j => UInt16.ofNat (load buffer (a+2*j) 2))) := by
      rw [here,Drive.given,if_neg (by omega)]
    obtain ⟨moved,still⟩ := serves.output s sector n _ (UInt16.ofNat (load buffer (a+2*j) 2)) phase (asks more)
    rw [here,Drive.given_outw d sector n _ more] at moved
    refine ih (j+1) (by omega) moved (fun less => still ?_)
    simp
    omega

def Drive.ended (d : Drive) (disk : Memory) (sector left : Nat) : Drive :=
  {d with disk := disk, phase := if left ≤ d.capacity - sector then .idle else .aborted}

theorem Serves.reads_from (serves : Serves ports view) (left sector i : Nat) (buffer : Memory)
    (here : view s = {d with phase := d.readNext sector left}) :
    ∃ t, ports.readFrom i buffer left s = (if left ≤ d.capacity - sector then 0 else -1,
        blit buffer (i*512) (min left (d.capacity - sector)*512) (fun j => d.disk (sector*512+j)),t) ∧
      view t = d.ended d.disk sector left := by
  induction left generalizing sector i buffer s with
  | zero => exact ⟨s,by simp [Ports.readFrom,blit_nothing],by simpa [Drive.readNext,Drive.ended] using here⟩
  | succ left ih =>
    rw [Ports.readFrom]
    by_cases inside : sector < d.capacity
    · have phase : d.readNext sector (left+1) = .reading sector (left+1) 0 := by simp [Drive.readNext,inside]
      rw [phase] at here
      obtain ⟨t,waited,same,asks⟩ := serves.waited_drq (s := s) (by rw [here]; trivial)
      rw [here] at same
      have clear : ¬ (ports.inb ataPrimaryStatus t).1 &&& ataStatusErr ≠ 0 := by
        rw [serves.error t,same]
        simp
      have looked : view (ports.inb ataPrimaryStatus t).2 = d.taken sector (left+1) 0 := by
        rw [serves.status t,same]
        rfl
      have asks' := serves.staysAsking t (by rw [same]; trivial) asks
      obtain ⟨u,read,after⟩ := serves.insw_exact sector (left+1) (i*512) 256 0 (by decide) buffer looked (fun _ => asks')
      obtain ⟨v,ran,last⟩ := ih (sector+1) (i+1) (blit buffer (i*512) 512 (fun j => d.disk (sector*512+j))) after
      have fewer : left ≤ d.capacity - (sector+1) ↔ left + 1 ≤ d.capacity - sector := by omega
      have amount : min (left+1) (d.capacity - sector) = 1 + min left (d.capacity - (sector+1)) := by omega
      have joined : blit (blit buffer (i*512) 512 (fun j => d.disk (sector*512+j))) ((i+1)*512)
          (min left (d.capacity - (sector+1))*512) (fun j => d.disk ((sector+1)*512+j)) =
          blit buffer (i*512) (min (left+1) (d.capacity - sector)*512) (fun j => d.disk (sector*512+j)) := by
        refine blit_append buffer (by omega) (by omega) (fun j => ?_)
        have place : (sector+1)*512 + j = sector*512 + (512+j) := by omega
        rw [place]
      refine ⟨v,?_,by simpa only [Drive.ended,fewer] using last⟩
      rw [waited]
      simp only [ne_eq,not_true_eq_false,if_false,clear]
      simp only [Nat.mul_zero,Nat.add_zero] at read
      rw [read]
      simp only
      rw [ran,joined]
      simp only [fewer]
    · have phase : d.readNext sector (left+1) = .aborted := by simp [Drive.readNext,inside]
      rw [phase] at here
      obtain ⟨t,waited,same⟩ := serves.waited_in_vain (s := s) (by rw [here]; exact id)
      rw [here] at same
      have failed : (ports.inb ataPrimaryStatus t).1 &&& ataStatusErr ≠ 0 := (serves.error t).mpr (by rw [same])
      have noneLeft : d.capacity - sector = 0 := by omega
      refine ⟨(ports.inb ataPrimaryStatus t).2,?_,?_⟩
      · rw [waited]
        simp [failed,noneLeft,blit_nothing]
      · rw [serves.status t,same]
        simp [Drive.ended,noneLeft]

theorem Serves.writes_from (serves : Serves ports view) (left sector i : Nat) (buffer : Memory)
    (here : view s = {d with phase := d.writeNext sector left}) :
    ∃ t, ports.writeFrom i buffer left s = (if left ≤ d.capacity - sector then 0 else -1,t) ∧
      view t = d.ended (blit d.disk (sector*512) (min left (d.capacity - sector)*512) (fun j => buffer (i*512+j))) sector left := by
  induction left generalizing sector i s d with
  | zero => exact ⟨s,by simp [Ports.writeFrom],by simpa [Drive.writeNext,Drive.ended,blit_nothing] using here⟩
  | succ left ih =>
    rw [Ports.writeFrom]
    by_cases inside : sector < d.capacity
    · have phase : d.writeNext sector (left+1) = .writing sector (left+1) [] := by simp [Drive.writeNext,inside]
      rw [phase] at here
      obtain ⟨t,waited,same,asks⟩ := serves.waited_drq (s := s) (by rw [here]; trivial)
      rw [here] at same
      have clear : ¬ (ports.inb ataPrimaryStatus t).1 &&& ataStatusErr ≠ 0 := by
        rw [serves.error t,same]
        simp
      have looked : view (ports.inb ataPrimaryStatus t).2 =
          d.given sector (left+1) (fun j => UInt16.ofNat (load buffer (i*512+2*j) 2)) 0 := by
        rw [serves.status t,same]
        rfl
      have asks' := serves.staysAsking t (by rw [same]; trivial) asks
      have after := serves.outsw_exact sector (left+1) (i*512) buffer 256 0 (by decide) looked (fun _ => asks')
      have bytes : blit d.disk (sector*512) 512
          (Drive.wordBytes ((List.range 256).map (fun j => UInt16.ofNat (load buffer (i*512+2*j) 2)))) =
          blit d.disk (sector*512) 512 (fun j => buffer (i*512+j)) :=
        blit_same d.disk (fun j bound => wordBytes_of buffer (i*512) bound)
      rw [Drive.given,if_pos rfl,bytes] at after
      obtain ⟨v,ran,last⟩ := ih (d := {d with disk := blit d.disk (sector*512) 512 (fun j => buffer (i*512+j))}) (sector+1) (i+1) after
      have fewer : left ≤ d.capacity - (sector+1) ↔ left + 1 ≤ d.capacity - sector := by omega
      have amount : min (left+1) (d.capacity - sector) = 1 + min left (d.capacity - (sector+1)) := by omega
      have joined : blit (blit d.disk (sector*512) 512 (fun j => buffer (i*512+j))) ((sector+1)*512)
          (min left (d.capacity - (sector+1))*512) (fun j => buffer ((i+1)*512+j)) =
          blit d.disk (sector*512) (min (left+1) (d.capacity - sector)*512) (fun j => buffer (i*512+j)) := by
        refine blit_append d.disk (by omega) (by omega) (fun j => ?_)
        have place : (i+1)*512 + j = i*512 + (512+j) := by omega
        rw [place]
      refine ⟨v,?_,?_⟩
      · rw [waited]
        simp only [clear,if_false]
        rw [ran]
        simp only [fewer]
      · rw [last]
        simp only [Drive.ended,joined,fewer]
    · have phase : d.writeNext sector (left+1) = .aborted := by simp [Drive.writeNext,inside]
      rw [phase] at here
      obtain ⟨t,waited,same⟩ := serves.waited_in_vain (s := s) (by rw [here]; exact id)
      rw [here] at same
      have failed : (ports.inb ataPrimaryStatus t).1 &&& ataStatusErr ≠ 0 := (serves.error t).mpr (by rw [same])
      have noneLeft : d.capacity - sector = 0 := by omega
      refine ⟨(ports.inb ataPrimaryStatus t).2,?_,?_⟩
      · rw [waited]
        simp [failed,noneLeft]
      · rw [serves.status t,same]
        simp [Drive.ended,noneLeft,blit_nothing]

def Drive.addressed (d : Drive) (lba : UInt32) (sectorCount : UInt8) : Drive :=
  {d with
    drive := (0xE0 : UInt8) ||| ((lba >>> 24) &&& 0x0F).toUInt8
    sectorCount := sectorCount
    low := lba.toUInt8
    mid := (lba >>> 8).toUInt8
    high := (lba >>> 16).toUInt8}

theorem Drive.addressed_block (d : Drive) (lba : UInt32) (sectorCount : UInt8) :
    (d.addressed lba sectorCount).block = lba.toNat % 2^28 ∧ (d.addressed lba sectorCount).drive &&& 0x50 = 0x40 := by
  have nibble : (((lba >>> 24) &&& 0x0F).toUInt8).toNat = lba.toNat / 2^24 % 16 := by
    have mask : (lba.toNat >>> 24) &&& 15 = lba.toNat / 2^24 % 16 := by
      rw [Nat.shiftRight_eq_div_pow]
      exact Nat.and_two_pow_sub_one_eq_mod _ 4
    have masked : ((lba >>> 24) &&& 0x0F).toNat = lba.toNat / 2^24 % 16 := by
      rw [UInt32.toNat_and,UInt32.toNat_shiftRight]
      exact mask
    rw [UInt32.toNat_toUInt8,masked]
    omega
  have cases16 : ∀ n < 16, ((0xE0 : UInt8) ||| UInt8.ofNat n) &&& 0x0F = UInt8.ofNat n ∧
      ((0xE0 : UInt8) ||| UInt8.ofNat n) &&& 0x50 = 0x40 := by decide
  have bits := cases16 (lba.toNat / 2^24 % 16) (Nat.mod_lt _ (by decide))
  have same : ((lba >>> 24) &&& 0x0F).toUInt8 = UInt8.ofNat (lba.toNat / 2^24 % 16) := by
    apply UInt8.toNat_inj.mp
    rw [nibble,UInt8.toNat_ofNat']
    omega
  have low : lba.toUInt8.toNat = lba.toNat % 256 := by simp
  have mid : (lba >>> 8).toUInt8.toNat = lba.toNat / 2^8 % 256 := by simp [Nat.shiftRight_eq_div_pow]
  have high : (lba >>> 16).toUInt8.toNat = lba.toNat / 2^16 % 256 := by simp [Nat.shiftRight_eq_div_pow]
  have top : (UInt8.ofNat (lba.toNat / 2^24 % 16)).toNat = lba.toNat / 2^24 % 16 := by
    rw [UInt8.toNat_ofNat']
    omega
  simp only [block,addressed,same,bits.1,bits.2,low,mid,high,top]
  refine ⟨?_,trivial⟩
  omega

theorem Serves.registers (serves : Serves ports view) (resting : ¬ (view s).phase.Transfers)
    (readyNow : ready (ports.inb ataPrimaryStatus s).1 = true) (cmd : UInt8) (lba : UInt32) (sectorCount : UInt8) :
    view (ports.command cmd lba sectorCount s) =
      {(view s).addressed lba sectorCount with phase := ((view s).addressed lba sectorCount).execute cmd} := by
  have one := serves.register s ataPrimaryDrive ((0xE0 : UInt8) ||| ((lba >>> 24) &&& 0x0F).toUInt8) resting readyNow
  have two := serves.register _ ataPrimarySectorCount sectorCount (by rw [one.1]; exact resting) (one.2 (by decide))
  have three := serves.register _ ataPrimaryLbaLow lba.toUInt8 (by rw [two.1,one.1]; exact resting) (two.2 (by decide))
  have four := serves.register _ ataPrimaryLbaMid (lba >>> 8).toUInt8 (by rw [three.1,two.1,one.1]; exact resting)
    (three.2 (by decide))
  have five := serves.register _ ataPrimaryLbaHigh (lba >>> 16).toUInt8 (by rw [four.1,three.1,two.1,one.1]; exact resting)
    (four.2 (by decide))
  have six := serves.register _ ataPrimaryCommand cmd (by rw [five.1,four.1,three.1,two.1,one.1]; exact resting)
    (five.2 (by decide))
  rw [Ports.command]
  refine six.1.trans ?_
  rw [five.1,four.1,three.1,two.1,one.1]
  rfl

theorem sectors_of {d : Drive} {lba : UInt32} {sectorCount : UInt8} (some : sectorCount ≠ 0) :
    (d.addressed lba sectorCount).sectors = sectorCount.toNat := if_neg some

theorem Serves.reads (serves : Serves ports view) (resting : ¬ (view s).phase.Transfers) (lba : UInt32) {sectorCount : UInt8}
    (some : sectorCount ≠ 0) (buffer : Memory) :
    ∃ t, ports.ataReadSectors lba sectorCount buffer s =
        (if sectorCount.toNat ≤ (view s).capacity - lba.toNat % 2^28 then 0 else -1,
          blit buffer 0 (min sectorCount.toNat ((view s).capacity - lba.toNat % 2^28)*512)
            (fun j => (view s).disk (lba.toNat % 2^28*512+j)),t) ∧
      view t = ((view s).addressed lba sectorCount).ended (view s).disk (lba.toNat % 2^28) sectorCount.toNat := by
  obtain ⟨u,waited,same,readyNow⟩ := serves.waited_ready resting
  have registers := serves.registers (s := u) (by rw [same]; exact resting) readyNow ataCmdReadSectors lba sectorCount
  obtain ⟨block,mode⟩ := (view u).addressed_block lba sectorCount
  have read : ataCmdReadSectors = ataCmdReadSectors := rfl
  rw [Drive.execute,if_neg (not_not.mpr mode),if_pos read,block,sectors_of some,same] at registers
  obtain ⟨t,ran,last⟩ := serves.reads_from sectorCount.toNat (lba.toNat % 2^28) 0 buffer registers
  refine ⟨t,?_,last⟩
  rw [Ports.ataReadSectors,if_neg some,waited]
  simp only [ne_eq,not_true_eq_false,if_false]
  rw [ran,Nat.zero_mul]
  rfl

theorem Serves.writes (serves : Serves ports view) (resting : ¬ (view s).phase.Transfers) (lba : UInt32)
    {sectorCount : UInt8}
    (some : sectorCount ≠ 0) (buffer : Memory) :
    ∃ t, ports.ataWriteSectors lba sectorCount buffer s =
        (if sectorCount.toNat ≤ (view s).capacity - lba.toNat % 2^28 then 0 else -1,t) ∧
      view t = ((view s).addressed lba sectorCount).ended
        (blit (view s).disk (lba.toNat % 2^28*512) (min sectorCount.toNat ((view s).capacity - lba.toNat % 2^28)*512) buffer)
        (lba.toNat % 2^28) sectorCount.toNat := by
  obtain ⟨u,waited,same,readyNow⟩ := serves.waited_ready resting
  have registers := serves.registers (s := u) (by rw [same]; exact resting) readyNow ataCmdWriteSectors lba sectorCount
  obtain ⟨block,mode⟩ := (view u).addressed_block lba sectorCount
  have other : ataCmdWriteSectors ≠ ataCmdReadSectors := by decide
  have write : ataCmdWriteSectors = ataCmdWriteSectors := rfl
  rw [Drive.execute,if_neg (not_not.mpr mode),if_neg other,if_pos write,block,sectors_of some,same] at registers
  obtain ⟨t,ran,last⟩ := serves.writes_from sectorCount.toNat (lba.toNat % 2^28) 0 buffer registers
  simp only [Nat.zero_mul,Nat.zero_add] at last
  refine ⟨t,?_,last⟩
  rw [Ports.ataWriteSectors,if_neg some,waited]
  exact ran

theorem Serves.selects (serves : Serves ports view) (resting : ¬ (view s).phase.Transfers)
    (readyNow : ready (ports.inb ataPrimaryStatus s).1 = true) :
    ∃ t, ports.ataWaitReady (ports.outb ataPrimaryDrive 0xA0 s) = (0,t) ∧ view t = {view s with drive := 0xA0} ∧
      ready (ports.inb ataPrimaryStatus t).1 = true := by
  have selected := (serves.register s ataPrimaryDrive 0xA0 resting readyNow).1
  obtain ⟨t,waited,viewT,readyT⟩ := serves.waited_ready (s := ports.outb ataPrimaryDrive 0xA0 s) (by rw [selected]; exact resting)
  exact ⟨t,waited,viewT.trans selected,readyT⟩

theorem Serves.detects (serves : Serves ports view) (resting : ¬ (view s).phase.Transfers)
    (readyNow : ready (ports.inb ataPrimaryStatus s).1 = true)
    (shows : ∀ u, ¬ (view u).phase.Transfers → (ports.inb ataPrimaryStatus u).1 ≠ 0x00) :
    ∃ t u, ports.ataDetect s = (1,t) ∧ ports.ataInit t = (0,u) ∧ view u = {view s with drive := 0xA0} := by
  have notFloating : ∀ status : UInt8, ready status = true → status ≠ 0xFF := by
    rintro status free rfl
    exact absurd free (by decide)
  have same := serves.status s
  obtain ⟨t,waited,viewT,readyT⟩ := serves.selects (s := (ports.inb ataPrimaryStatus s).2) (by rw [same]; exact resting)
    (serves.staysReady s resting readyNow)
  rw [same] at viewT
  have restingT : ¬ (view t).phase.Transfers := by rw [viewT]; exact resting
  have here := shows t restingT
  have sameT := serves.status t
  obtain ⟨u,selected,viewU,_⟩ := serves.selects (s := (ports.inb ataPrimaryStatus t).2) (by rw [sameT]; exact restingT)
    (serves.staysReady t restingT readyT)
  refine ⟨(ports.inb ataPrimaryStatus t).2,u,?_,?_,?_⟩
  · simp [Ports.ataDetect,notFloating _ readyNow,waited,here,notFloating _ readyT]
  · simp [Ports.ataInit,selected]
  · rw [viewU,sameT,viewT]

theorem Drive.ended_rests (d : Drive) (disk : Memory) (sector left : Nat) :
    ¬ (d.ended disk sector left).phase.Transfers := by
  simp only [ended]
  split <;> exact id

end

inductive SectorCall where
  | read (lba : UInt32) (sectorCount : UInt8) (buffer : Memory)
  | write (lba : UInt32) (sectorCount : UInt8) (buffer : Memory)

def SectorCall.run (ports : Ports σ) (s : σ) : SectorCall → (Int × Memory) × σ
  | .read lba sectorCount buffer =>
    match ports.ataReadSectors lba sectorCount buffer s with
    | (r,buffer,s) => ((r,buffer),s)
  | .write lba sectorCount buffer =>
    match ports.ataWriteSectors lba sectorCount buffer s with
    | (r,s) => ((r,buffer),s)

-- The disk as an array of sectors. Only 28 bits of the address count, and a call that goes past
-- the last sector moves the sectors before it and fails.
def SectorCall.means (capacity : Nat) (disk : Memory) : SectorCall → (Int × Memory) × Memory
  | .read lba sectorCount buffer =>
    let block := lba.toNat % 2^28
    if sectorCount = 0 then ((-1,buffer),disk)
    else ((if sectorCount.toNat ≤ capacity - block then 0 else -1,
      blit buffer 0 (min sectorCount.toNat (capacity - block)*512) (fun j => disk (block*512+j))),disk)
  | .write lba sectorCount buffer =>
    let block := lba.toNat % 2^28
    if sectorCount = 0 then ((-1,buffer),disk)
    else ((if sectorCount.toNat ≤ capacity - block then 0 else -1,buffer),
      blit disk (block*512) (min sectorCount.toNat (capacity - block)*512) buffer)

structure Rests (d : Drive) (capacity : Nat) (disk : Memory) : Prop where
  phase : ¬ d.phase.Transfers
  capacity : d.capacity = capacity
  disk : d.disk = disk

section
variable {ports : Ports σ} {view : σ → Drive} {s t : σ} {capacity : Nat} {disk : Memory}

theorem Serves.call (serves : Serves ports view) (rests : Rests (view s) capacity disk) (call : SectorCall) :
    (call.run ports s).1 = (call.means capacity disk).1 ∧ Rests (view (call.run ports s).2) capacity (call.means capacity disk).2 := by
  obtain ⟨resting,rfl,rfl⟩ := rests
  cases call with
  | read lba sectorCount buffer =>
    rw [SectorCall.run,SectorCall.means]
    by_cases none : sectorCount = 0
    · simp only [Ports.ataReadSectors,none,if_true]
      exact ⟨trivial,resting,rfl,rfl⟩
    · obtain ⟨t,ran,last⟩ := serves.reads resting lba none buffer
      rw [ran]
      simp only [none,if_false]
      rw [last]
      exact ⟨trivial,Drive.ended_rests _ _ _ _,rfl,rfl⟩
  | write lba sectorCount buffer =>
    rw [SectorCall.run,SectorCall.means]
    by_cases none : sectorCount = 0
    · simp only [Ports.ataWriteSectors,none,if_true]
      exact ⟨trivial,resting,rfl,rfl⟩
    · obtain ⟨t,ran,last⟩ := serves.writes resting lba none buffer
      rw [ran]
      simp only [none,if_false]
      rw [last]
      exact ⟨trivial,Drive.ended_rests _ _ _ _,rfl,rfl⟩

end

theorem disk_is_an_array (ports : Ports σ) (view : σ → Drive) (serves : Serves ports view) (capacity : Nat) (disk : Memory)
    (s t : σ) (rests : Rests (view s) capacity disk)
    (history : Run (fun s (event : SectorCall × (Int × Memory)) t => event.1.run ports s = (event.2,t)) s events t) :
    ∃ after, Run (fun disk (event : SectorCall × (Int × Memory)) after => event.1.means capacity disk = (event.2,after)) disk events after ∧
      Rests (view t) capacity after := by
  refine history.simulated (fun s disk => Rests (view s) capacity disk) ?_ rests
  intro s disk event t rests ran
  obtain ⟨answer,after⟩ := serves.call rests event.1
  rw [ran] at answer after
  exact ⟨_,Prod.ext answer.symm rfl,after⟩

def Phase.status : Phase → UInt8
  | .idle => 0x50
  | .reading .. => 0x58
  | .writing .. => 0x58
  | .aborted => 0x51

def Drive.ports : Ports Drive where
  inb _ d := (d.phase.status,d)
  outb port v d := d.outb port v
  inw _ d := d.inw
  outw _ v d := d.outw v

theorem Phase.status_requests (phase : Phase) : requests phase.status = true ↔ phase.Transfers := by
  cases phase with
  | idle => exact ⟨fun asks => absurd asks (by decide),False.elim⟩
  | aborted => exact ⟨fun asks => absurd asks (by decide),False.elim⟩
  | reading => exact ⟨fun _ => trivial,fun _ => (by decide : requests 0x58 = true)⟩
  | writing => exact ⟨fun _ => trivial,fun _ => (by decide : requests 0x58 = true)⟩

theorem Phase.status_ready (phase : Phase) : ready phase.status = true := by
  cases phase with
  | idle => exact (by decide : ready 0x50 = true)
  | aborted => exact (by decide : ready 0x51 = true)
  | reading => exact (by decide : ready 0x58 = true)
  | writing => exact (by decide : ready 0x58 = true)

theorem Phase.status_error (phase : Phase) : phase.status &&& ataStatusErr ≠ 0 ↔ phase = .aborted := by
  cases phase with
  | idle => exact ⟨fun failed => absurd failed (by decide),fun same => by cases same⟩
  | aborted => exact ⟨fun _ => rfl,fun _ => (by decide : (0x51 : UInt8) &&& ataStatusErr ≠ 0)⟩
  | reading => exact ⟨fun failed => absurd (by decide : (0x58 : UInt8) &&& ataStatusErr = 0) failed,fun same => by cases same⟩
  | writing => exact ⟨fun failed => absurd (by decide : (0x58 : UInt8) &&& ataStatusErr = 0) failed,fun same => by cases same⟩

theorem Drive.serves : Serves Drive.ports id where
  status := fun _ => rfl
  error := fun d => d.phase.status_error
  rests := by
    intro d resting
    refine ⟨?_,0,by decide,Ports.look_answers.mpr d.phase.status_ready⟩
    exact Bool.eq_false_iff.mpr (fun asks => resting ((d.phase.status_requests).mp asks))
  asks := fun d transfers => ⟨0,by decide,Ports.look_answers.mpr ((d.phase.status_requests).mpr transfers)⟩
  staysReady := fun _ _ still => still
  staysAsking := fun _ _ asks => asks
  register := fun _ _ _ _ _ => ⟨rfl,fun _ => Phase.status_ready _⟩
  input := by
    intro d sector left word phase _
    change d.phase = .reading sector left word at phase
    refine ⟨rfl,rfl,fun more => (Phase.status_requests _).mpr ?_⟩
    simp [ports,inw,phase,more,Phase.Transfers]
  output := by
    intro d sector left words v phase _
    change d.phase = .writing sector left words at phase
    refine ⟨rfl,fun more => (Phase.status_requests _).mpr ?_⟩
    simp [ports,outw,phase,more,Phase.Transfers]

theorem disk_is_an_array_small_disk : ∃ t after buffer,
    Run (fun s (event : SectorCall × (Int × Memory)) t => event.1.run Drive.ports s = (event.2,t))
      (⟨fun _ => 0,16,0,0,0,0,0,.idle⟩ : Drive)
      [(.write 15 2 (fun _ => 0x55),(-1,fun _ => 0x55)),(.read 15 1 (fun _ => 0),(0,buffer))] t ∧
    Rests t 16 after ∧ buffer 511 = 0x55 := by
  have start : Rests (⟨fun _ => 0,16,0,0,0,0,0,.idle⟩ : Drive) 16 (fun _ => 0) := ⟨id,rfl,rfl⟩
  obtain ⟨wrote,first⟩ := Drive.serves.call start (.write 15 2 (fun _ => 0x55))
  have failed : ((SectorCall.write 15 2 (fun _ => 0x55)).means 16 (fun _ => 0)).1 = (-1,fun _ => 0x55) := by
    simp [SectorCall.means]
  have stored : ((SectorCall.write 15 2 (fun _ => 0x55)).means 16 (fun _ => 0)).2 = blit (fun _ => 0) 7680 512 (fun _ => 0x55) := by
    simp [SectorCall.means]
  rw [failed] at wrote
  rw [stored] at first
  generalize one : SectorCall.run Drive.ports _ (.write 15 2 (fun _ => 0x55)) = ran at wrote first
  obtain ⟨_,u⟩ := ran
  obtain rfl := wrote
  obtain ⟨read,_⟩ := Drive.serves.call first (.read 15 1 (fun _ => 0))
  have back : ((SectorCall.read 15 1 (fun _ => 0)).means 16 (blit (fun _ => 0) 7680 512 (fun _ => 0x55))).1 =
      (0,blit (fun _ => 0) 0 512 (fun j => blit (fun _ => 0) 7680 512 (fun _ => 0x55) (7680+j))) := by
    simp [SectorCall.means]
  rw [back] at read
  generalize two : SectorCall.run Drive.ports u (.read 15 1 (fun _ => 0)) = ran at read
  obtain ⟨_,t⟩ := ran
  obtain rfl := read
  have history : Run (fun s (event : SectorCall × (Int × Memory)) t => event.1.run Drive.ports s = (event.2,t))
      (⟨fun _ => 0,16,0,0,0,0,0,.idle⟩ : Drive) [(.write 15 2 (fun _ => 0x55),(-1,fun _ => 0x55)),(.read 15 1 (fun _ => 0),(0,_))] t :=
    .cons one (.single two)
  obtain ⟨after,_,rests⟩ := disk_is_an_array Drive.ports id Drive.serves 16 (fun _ => 0) _ _ start history
  exact ⟨t,after,_,history,rests,by simp [blit]⟩

end SantOS.Ata
