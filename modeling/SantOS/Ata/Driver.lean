import SantOS.Ata.Polling
import SantOS.Library.Polling

namespace SantOS.Ata
open ByteMemory Polling

abbrev ataPrimaryData : Nat := 0x1F0
abbrev ataPrimaryStatus : Nat := 0x1F7
abbrev ataCmdWriteSectors : UInt8 := 0x30

structure Ports (σ : Type) where
  inb : Nat → σ → UInt8 × σ
  outb : Nat → UInt8 → σ → σ
  inw : Nat → σ → UInt16 × σ
  outw : Nat → UInt16 → σ → σ

namespace Ports
variable (ports : Ports σ)

-- The loop of a wait over the ports: `timeout--` is tested again, and 0 goes to 0xFFFFFFFF.
def waitFrom (responds : UInt8 → Bool) : Nat → σ → Nat × σ
  | 0,s =>
    match ports.inb ataPrimaryStatus s with
    | (status,s) => (if responds status then 0 else 2^32 - 1,s)
  | timeout+1,s =>
    match ports.inb ataPrimaryStatus s with
    | (status,s) => if responds status then (timeout+1,s) else waitFrom responds timeout s

def ataWait (responds : UInt8 → Bool) (s : σ) : Int × σ :=
  match ports.waitFrom responds 100000 s with
  | (timeout,s) => (if timeout > 0 then 0 else -1,s)

def ataWaitReady (s : σ) : Int × σ := ports.ataWait ready s
def ataWaitDrq (s : σ) : Int × σ := ports.ataWait requests s

def ataDetect (s : σ) : Nat × σ :=
  match ports.inb ataPrimaryStatus s with
  | (status,s) =>
    if status = 0xFF then (0,s)
    else
      match ports.ataWaitReady (ports.outb ataPrimaryDrive 0xA0 s) with
      | (r,s) =>
        if r ≠ 0 then (0,s)
        else
          match ports.inb ataPrimaryStatus s with
          | (status,s) => if status = 0x00 ∨ status = 0xFF then (0,s) else (1,s)

def ataInit (s : σ) : Int × σ :=
  match ports.ataWaitReady (ports.outb ataPrimaryDrive 0xA0 s) with
  | (r,s) => if r ≠ 0 then (-1,s) else (0,s)

def command (cmd : UInt8) (lba : UInt32) (sectorCount : UInt8) (s : σ) : σ :=
  let s := ports.outb ataPrimaryDrive ((0xE0 : UInt8) ||| ((lba >>> 24) &&& 0x0F).toUInt8) s
  let s := ports.outb ataPrimarySectorCount sectorCount s
  let s := ports.outb ataPrimaryLbaLow lba.toUInt8 s
  let s := ports.outb ataPrimaryLbaMid (lba >>> 8).toUInt8 s
  let s := ports.outb ataPrimaryLbaHigh (lba >>> 16).toUInt8 s
  ports.outb ataPrimaryCommand cmd s

-- `for (int j = 0; j < 256; j++) buf16[j] = inw(ATA_PRIMARY_DATA)`, buf16 at address a.
def insw (a : Nat) (j : Nat) (buffer : Memory) : Nat → σ → Memory × σ
  | 0,s => (buffer,s)
  | left+1,s =>
    match ports.inw ataPrimaryData s with
    | (word,s) => insw a (j+1) (store buffer (a+2*j) 2 word.toNat) left s

def outsw (a : Nat) (buffer : Memory) (j : Nat) : Nat → σ → σ
  | 0,s => s
  | left+1,s => outsw a buffer (j+1) left (ports.outw ataPrimaryData (UInt16.ofNat (load buffer (a+2*j) 2)) s)

def readFrom (i : Nat) (buffer : Memory) : Nat → σ → Int × Memory × σ
  | 0,s => (0,buffer,s)
  | left+1,s =>
    match ports.ataWaitDrq s with
    | (r,s) =>
      if r ≠ 0 then (-1,buffer,s)
      else
        match ports.inb ataPrimaryStatus s with
        | (status,s) =>
          if status &&& ataStatusErr ≠ 0 then (-1,buffer,s)
          else
            match ports.insw (i*512) 0 buffer 256 s with
            | (buffer,s) => readFrom (i+1) buffer left s

def ataReadSectors (lba : UInt32) (sectorCount : UInt8) (buffer : Memory) (s : σ) : Int × Memory × σ :=
  if sectorCount = 0 then (-1,buffer,s)
  else
    match ports.ataWaitReady s with
    | (r,s) =>
      if r ≠ 0 then (-1,buffer,s)
      else ports.readFrom 0 buffer sectorCount.toNat (ports.command ataCmdReadSectors lba sectorCount s)

-- The write path drops the results of its waits.
def writeFrom (i : Nat) (buffer : Memory) : Nat → σ → Int × σ
  | 0,s => (0,s)
  | left+1,s =>
    match ports.inb ataPrimaryStatus (ports.ataWaitDrq s).2 with
    | (status,s) =>
      if status &&& ataStatusErr ≠ 0 then (-1,s)
      else writeFrom (i+1) buffer left (ports.outsw (i*512) buffer 0 256 s)

def ataWriteSectors (lba : UInt32) (sectorCount : UInt8) (buffer : Memory) (s : σ) : Int × σ :=
  if sectorCount = 0 then (-1,s)
  else ports.writeFrom 0 buffer sectorCount.toNat
    (ports.command ataCmdWriteSectors lba sectorCount (ports.ataWaitReady s).2)

def look (responds : UInt8 → Bool) (s : σ) : Option Unit × σ :=
  match ports.inb ataPrimaryStatus s with
  | (status,s) => (if responds status then some () else none,s)

end Ports

section
variable {ports : Ports σ} {responds : UInt8 → Bool} {s t : σ}

theorem Ports.look_answers : (ports.look responds s).1 ≠ none ↔ responds (ports.inb ataPrimaryStatus s).1 = true := by
  rw [Ports.look]
  by_cases answer : responds (ports.inb ataPrimaryStatus s).1 = true
  · simp [answer]
  · simp [answer]

theorem Ports.waitFrom_polls (found : poll (ports.look responds) n s = (some (),t)) :
    ∃ left, 0 < left ∧ ports.waitFrom responds n s = (left,t) := by
  induction n generalizing s with
  | zero => cases found
  | succ n ih =>
    by_cases answer : responds (ports.inb ataPrimaryStatus s).1 = true
    · rw [poll_first (Ports.look_answers.mpr answer)] at found
      have next : (ports.inb ataPrimaryStatus s).2 = t := congrArg Prod.snd found
      refine ⟨n+1,Nat.succ_pos n,?_⟩
      rw [Ports.waitFrom]
      simp [answer,next]
    · have silent : (ports.look responds s).1 = none := by
        rw [Ports.look]
        simp [answer]
      rw [poll_next silent] at found
      obtain ⟨left,positive,ran⟩ := ih found
      refine ⟨left,positive,?_⟩
      rw [Ports.waitFrom]
      simp only [answer,Bool.false_eq_true,if_false]
      exact ran

-- Without an answer the counter wraps, and the wait reports success.
theorem Ports.waitFrom_silent {inv : σ → Prop} (keeps : ∀ s, inv s → inv (ports.inb ataPrimaryStatus s).2)
    (silent : ∀ s, inv s → responds (ports.inb ataPrimaryStatus s).1 = false) (n : Nat) (start : inv s) :
    ∃ t, ports.waitFrom responds n s = (2^32 - 1,t) ∧ inv t := by
  induction n generalizing s with
  | zero =>
    refine ⟨_,?_,keeps s start⟩
    rw [Ports.waitFrom]
    simp [silent s start]
  | succ n ih =>
    obtain ⟨t,ran,kept⟩ := ih (keeps s start)
    refine ⟨t,?_,kept⟩
    rw [Ports.waitFrom]
    simp only [silent s start,Bool.false_eq_true,if_false]
    exact ran

theorem Ports.wait_silent (inv : σ → Prop) (keeps : ∀ s, inv s → inv (ports.inb ataPrimaryStatus s).2)
    (silent : ∀ s, inv s → responds (ports.inb ataPrimaryStatus s).1 = false) (start : inv s) :
    ∃ t, ports.ataWait responds s = (0,t) ∧ inv t := by
  obtain ⟨t,ran,kept⟩ := Ports.waitFrom_silent keeps silent 100000 start
  refine ⟨t,?_,kept⟩
  rw [Ports.ataWait,ran]
  rfl

theorem Ports.wait_answered {inv : σ → Prop} (keeps : ∀ s, inv s → inv (ports.inb ataPrimaryStatus s).2) (start : inv s)
    (comes : ∃ k < 100000, (ports.look responds (rest (ports.look responds) k s)).1 ≠ none) :
    ∃ u, inv u ∧ responds (ports.inb ataPrimaryStatus u).1 = true ∧
      ports.ataWait responds s = (0,(ports.inb ataPrimaryStatus u).2) := by
  have looks : ∀ s, inv s → inv (ports.look responds s).2 := fun s holds => keeps s holds
  obtain ⟨u,kept,answers,ends⟩ := poll_finds looks start comes
  have answer := Ports.look_answers.mp answers
  have last : ports.look responds u = (some (),(ports.inb ataPrimaryStatus u).2) := by
    rw [Ports.look]
    simp [answer]
  rw [last] at ends
  obtain ⟨left,positive,ran⟩ := Ports.waitFrom_polls ends
  refine ⟨u,kept,answer,?_⟩
  rw [Ports.ataWait,ran]
  simp [positive]

end

def streams (statuses : Nat → UInt8) (words : Nat → UInt16) : Ports State where
  inb _ s := (statuses s.next,{s with next := s.next+1})
  outb port v s := s.outb port v
  inw _ s := (words s.word,{s with word := s.word+1})
  outw _ _ s := s

def State.plain (s : State) : State := {s with waits := []}

section
variable {statuses : Nat → UInt8} {words : Nat → UInt16}

theorem streams_waitFrom (responds : UInt8 → Bool) (n : Nat) (s : State) :
    (streams statuses words).waitFrom responds n s =
      ((waitFrom responds statuses s.next n).1,{s with next := (waitFrom responds statuses s.next n).2}) := by
  induction n generalizing s with
  | zero =>
    by_cases answer : responds (statuses s.next) = true <;> simp [Ports.waitFrom,waitFrom,streams,answer]
  | succ n ih =>
    by_cases answer : responds (statuses s.next) = true
    · simp [Ports.waitFrom,waitFrom,streams,answer]
    · have next := ih {s with next := s.next+1}
      simpa [Ports.waitFrom,waitFrom,streams,answer] using next

theorem streams_wait (responds : UInt8 → Bool) (s : State) :
    (streams statuses words).ataWait responds s.plain =
      ((ataWait responds statuses s).1,(ataWait responds statuses s).2.plain) := by
  rw [Ports.ataWait,streams_waitFrom,ataWait]
  rfl

theorem streams_insw (a left j : Nat) (whole : j + left = 256) (buffer : Memory) (s : State) (word : Nat)
    (place : s.word = word + j) :
    (streams statuses words).insw a j buffer left s =
      (blit buffer (a+2*j) (2*left) (fun i => insw words word (2*j+i)),{s with word := word+256}) := by
  induction left generalizing j buffer s with
  | zero =>
    obtain rfl : j = 256 := by omega
    rw [Ports.insw,Nat.mul_zero,blit_nothing,← place]
  | succ left ih =>
    rw [Ports.insw]
    change (streams statuses words).insw a (j+1) (store buffer (a+2*j) 2 (words s.word).toNat) left {s with word := s.word+1} = _
    rw [ih (j+1) (by omega) _ _ (by change s.word + 1 = _; omega)]
    have two : store buffer (a+2*j) 2 (words s.word).toNat = blit buffer (a+2*j) 2 (fun i => insw words word (2*j+i)) := by
      funext i
      by_cases first : i = a + 2*j
      · subst first
        have even : 2*j % 2 = 0 := by omega
        have half : 2*j/2 = j := by omega
        simp [store,blit,insw,even,half,place]
      · by_cases second : i = a + 2*j + 1
        · subst second
          have odd : (2*j+1) % 2 = 1 := by omega
          have half : (2*j+1)/2 = j := by omega
          simp [store,blit,insw,odd,half,place,Nat.shiftRight_eq_div_pow]
        · rw [store_outside buffer (by omega),blit_outside buffer _ (by omega)]
    have joined : blit (blit buffer (a+2*j) 2 (fun i => insw words word (2*j+i))) (a+2*(j+1)) (2*left)
        (fun i => insw words word (2*(j+1)+i)) = blit buffer (a+2*j) (2*(left+1)) (fun i => insw words word (2*j+i)) := by
      refine blit_append buffer (by omega) (by omega) (fun i => ?_)
      have same : 2*(j+1) + i = 2*j + (2+i) := by omega
      rw [same]
    rw [two,joined]

theorem streams_readFrom (left i : Nat) (buffer : Memory) (s : State) :
    (streams statuses words).readFrom i buffer left s.plain =
      ((readFrom statuses words i buffer left s).1,(readFrom statuses words i buffer left s).2.1,
        (readFrom statuses words i buffer left s).2.2.plain) := by
  induction left generalizing i buffer s with
  | zero => rfl
  | succ left ih =>
    rw [Ports.readFrom,Ports.ataWaitDrq,streams_wait,readFrom,ataWaitDrq]
    generalize ataWait requests statuses s = ran
    obtain ⟨r,t⟩ := ran
    have looked : (streams statuses words).inb ataPrimaryStatus t.plain = (statuses t.next,{t.plain with next := t.next+1}) := rfl
    simp only [looked]
    split
    · rfl
    · split
      · rfl
      · have sector := @streams_insw statuses words (i*512) 256 0 (by decide) buffer {t.plain with next := t.next+1} t.word rfl
        simp only [Nat.mul_zero,Nat.add_zero,Nat.zero_add,Nat.reduceMul] at sector
        rw [sector]
        exact ih (i+1) _ {t with next := t.next+1, word := t.word+256}

theorem streams_read_sectors (lba : UInt32) (sectorCount : UInt8) (buffer : Memory) (s : State) :
    (streams statuses words).ataReadSectors lba sectorCount buffer s.plain =
      ((ataReadSectors statuses words lba sectorCount buffer s).1,(ataReadSectors statuses words lba sectorCount buffer s).2.1,
        (ataReadSectors statuses words lba sectorCount buffer s).2.2.plain) := by
  rw [Ports.ataReadSectors,ataReadSectors]
  split
  · rfl
  · rw [Ports.ataWaitReady,streams_wait,ataWaitReady]
    generalize ataWait ready statuses s = ran
    obtain ⟨r,t⟩ := ran
    simp only
    split
    · rfl
    · exact streams_readFrom sectorCount.toNat 0 buffer (t.command lba sectorCount)

end

end SantOS.Ata
