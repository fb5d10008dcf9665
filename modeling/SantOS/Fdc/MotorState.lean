import SantOS.Fdc.Driver

namespace SantOS.Fdc
open ByteMemory Polling

-- A controller known by its answers alone: the k-th exchange of a run brings a byte, or it
-- times out. What DMA brings takes no part in the control flow.
structure Trace where
  next : Nat
  dor : Option UInt8

def Trace.after (s : Trace) (n : Nat) : Trace := {s with next := s.next + n}

def answered (answers : Nat → Option UInt8) (memory : Memory) : Controller Trace where
  fdcWriteByte _ s := ((answers s.next).map (fun _ => ()),s.after 1)
  fdcReadByte s := (answers s.next,s.after 1)
  fdcWaitIrq s := ((answers s.next).map (fun _ => ()),s.after 1)
  outb port v s := if port = fdcDor then {s with dor := some v} else s
  resetIrq s := s
  load a _ := memory a
  store _ _ s := s

def MotorOff (s : Trace) : Prop := ∃ v, s.dor = some v ∧ v &&& dorMotorA = 0

theorem checked_cases {P : β → Prop} {call : Option α × σ} {failed : σ → β} {next : α → σ → β}
    (bad : ∀ s, call = (none,s) → P (failed s)) (good : ∀ a s, call = (some a,s) → P (next a s)) :
    P (checked call failed next) := by
  cases called : call with
  | mk answer s =>
    cases answer with
    | none => exact bad s called
    | some a => exact good a s called

def Controller.FailsOff (c : Controller σ) (r : Option α × σ) : Prop := r.1 = none → ∃ u, r.2 = c.fdcMotorOff u

theorem fails_off (c : Controller σ) {call : Option β × σ} {next : β → σ → Option α × σ}
    (good : ∀ a s, c.FailsOff (next a s)) :
    c.FailsOff (checked call (fun s => (none,c.fdcMotorOff s)) next) :=
  checked_cases (fun u _ _ => ⟨u,rfl⟩) (fun a s _ => good a s)

-- Every way out of the reading loop goes through fdc_motor_off, whatever the controller does.
theorem read_track_off (c : Controller σ) (cyl h s n : UInt8) (t : σ) : c.FailsOff (c.fdcReadTrack cyl h s n t) := by
  refine fails_off c (fun _ t => fails_off c (fun _ t => fails_off c (fun _ t => fails_off c (fun results t => ?_))))
  split
  · exact fun _ => ⟨t,rfl⟩
  · intro some
    cases some

theorem readFrom_off (c : Controller σ) (lba : UInt32) (count done : UInt8) (buffer : Memory) (fuel : Nat) (t : σ)
    (ends : c.fdcReadFrom lba count done buffer fuel t = some (r,bytes,last)) : ∃ u, last = c.fdcMotorOff u := by
  induction fuel generalizing done buffer t with
  | zero => cases ends
  | succ fuel ih =>
    rw [Controller.fdcReadFrom] at ends
    split at ends
    · revert ends
      simp only
      refine checked_cases (P := fun r => r = some _ → _) ?_ ?_
      · intro u failed ends
        obtain ⟨v,off⟩ := read_track_off c _ _ _ _ t (congrArg Prod.fst failed)
        rw [failed] at off
        simp only [Option.some.injEq,Prod.mk.injEq] at ends
        exact ⟨v,ends.2.2.symm.trans off⟩
      · intro _ u _ ends
        exact ih _ _ u ends
    · simp only [Option.some.injEq,Prod.mk.injEq] at ends
      exact ⟨t,ends.2.2.symm⟩

def Answered (answers : Nat → Option UInt8) (p n : Nat) : Prop := ∀ j < n, answers (p+j) ≠ none

def TimesOut (answers : Nat → Option UInt8) (p n j : Nat) : Prop := j < n ∧ Answered answers p j ∧ answers (p+j) = none

theorem Answered.add (first : Answered answers p n) (later : Answered answers (p+n) m) : Answered answers p (n+m) := by
  intro j bound
  by_cases early : j < n
  · exact first j early
  · have place : p + j = p + n + (j - n) := by omega
    rw [place]
    exact later (j-n) (by omega)

theorem Answered.times_out (first : Answered answers p n) (later : TimesOut answers (p+n) m j) :
    TimesOut answers p (n+m) (n+j) := by
  refine ⟨Nat.add_lt_add_left later.1 n,first.add later.2.1,?_⟩
  rw [← Nat.add_assoc]
  exact later.2.2

theorem TimesOut.unique (one : TimesOut answers p n j) (other : TimesOut answers p m k) : j = k := by
  rcases Nat.lt_trichotomy j k with less | same | less
  · exact absurd one.2.2 (other.2.1 j less)
  · exact same
  · exact absurd other.2.2 (one.2.1 k less)

inductive Stage (answers : Nat → Option UInt8) (n : Nat) (s : Trace) : Option α × Trace → Prop where
  | done (all : Answered answers s.next n) (a : α) : Stage answers n s (some a,s.after n)
  | failed (late : TimesOut answers s.next n j) (same : t.dor = s.dor) : Stage answers n s (none,t)

section
variable {answers : Nat → Option UInt8} {memory : Memory} {s : Trace}

theorem answered_one (present : answers p ≠ none) : Answered answers p 1 := by
  intro j bound
  have zero : j = 0 := by omega
  rw [zero]
  exact present

theorem times_out_first (missing : answers p = none) : TimesOut answers p (n+1) 0 :=
  ⟨Nat.succ_pos n,fun j bound => absurd bound (Nat.not_lt_zero j),missing⟩

theorem write_byte_stage (answers : Nat → Option UInt8) (memory : Memory) (s : Trace) (byte : UInt8) :
    Stage answers 1 s ((answered answers memory).fdcWriteByte byte s) := by
  cases found : answers s.next with
  | none =>
    have result : (answered answers memory).fdcWriteByte byte s = (none,s.after 1) := by simp [answered,found]
    rw [result]
    exact .failed (times_out_first found) rfl
  | some b =>
    have result : (answered answers memory).fdcWriteByte byte s = (some (),s.after 1) := by simp [answered,found]
    rw [result]
    exact .done (answered_one (by simp [found])) ()

theorem wait_irq_stage (answers : Nat → Option UInt8) (memory : Memory) (s : Trace) :
    Stage answers 1 s ((answered answers memory).fdcWaitIrq s) := write_byte_stage answers memory s 0

theorem read_byte_stage (answers : Nat → Option UInt8) (memory : Memory) (s : Trace) :
    Stage answers 1 s ((answered answers memory).fdcReadByte s) := by
  cases found : answers s.next with
  | none =>
    have result : (answered answers memory).fdcReadByte s = (none,s.after 1) := by simp [answered,found]
    rw [result]
    exact .failed (times_out_first found) rfl
  | some b =>
    have result : (answered answers memory).fdcReadByte s = (some b,s.after 1) := by simp [answered,found]
    rw [result]
    exact .done (answered_one (by simp [found])) b

theorem Stage.then {call : Option α × Trace} {next : α → Trace → Option β × Trace} (first : Stage answers n s call)
    (later : ∀ a, Stage answers m (s.after n) (next a (s.after n))) :
    Stage answers (n+m) s (checked call (fun s => (none,s)) next) := by
  cases first with
  | failed late same =>
    exact .failed ⟨Nat.lt_of_lt_of_le late.1 (Nat.le_add_right n m),late.2⟩ same
  | done all a =>
    rw [checked_some]
    cases h : next a (s.after n) with
    | mk answer t =>
      have second := later a
      rw [h] at second
      cases second with
      | failed late same => exact .failed (all.times_out late) same
      | done more b =>
        have place : (s.after n).after m = s.after (n+m) := by simp [Trace.after,Nat.add_assoc]
        rw [place]
        exact .done (all.add more) b

theorem Stage.nothing (a : α) : Stage answers 0 s (some a,s) := .done (fun j bound => absurd bound (Nat.not_lt_zero j)) a

theorem write_bytes_stage (answers : Nat → Option UInt8) (memory : Memory) (s : Trace) (bytes : List UInt8) :
    Stage answers bytes.length s ((answered answers memory).fdcWriteBytes bytes s) := by
  induction bytes generalizing s with
  | nil => exact .nothing ()
  | cons byte bytes ih =>
    rw [List.length_cons,Nat.add_comm]
    exact (write_byte_stage answers memory s byte).then (fun _ => ih _)

theorem read_bytes_stage (answers : Nat → Option UInt8) (memory : Memory) (s : Trace) (n : Nat) :
    Stage answers n s ((answered answers memory).fdcReadBytes n s) := by
  induction n generalizing s with
  | zero => exact .nothing []
  | succ n ih =>
    have whole : Stage answers (1+n) s ((answered answers memory).fdcReadBytes (n+1) s) :=
      (read_byte_stage answers memory s).then (fun byte => Stage.then (m := 0) (ih _) (fun bytes => .nothing (byte::bytes)))
    rw [Nat.add_comm] at whole
    exact whole

theorem seek_stage (answers : Nat → Option UInt8) (memory : Memory) (s : Trace) (cylinder head : UInt8) :
    Stage answers 7 s ((answered answers memory).fdcSeek cylinder head s) := by
  refine Stage.then (n := 3) (m := 4) (write_bytes_stage answers memory s [fdcCmdSeek,head <<< 2 ||| 0,cylinder]) (fun _ => ?_)
  refine Stage.then (n := 1) (m := 3) (wait_irq_stage answers memory _) (fun _ => ?_)
  refine Stage.then (n := 1) (m := 2) (write_byte_stage answers memory _ _) (fun _ => ?_)
  exact Stage.then (m := 0) (read_bytes_stage answers memory _ 2) (fun _ => .nothing ())

theorem read_bytes_head (n : Nat) (read : (answered answers memory).fdcReadBytes (n+1) s = (some bytes,t)) :
    answers s.next = some (bytes.headD 0) := by
  rw [Controller.fdcReadBytes] at read
  cases found : answers s.next with
  | none =>
    have result : (answered answers memory).fdcReadByte s = (none,s.after 1) := by simp [answered,found]
    rw [result] at read
    cases read
  | some b =>
    have result : (answered answers memory).fdcReadByte s = (some b,s.after 1) := by simp [answered,found]
    rw [result,checked_some] at read
    cases rest : (answered answers memory).fdcReadBytes n (s.after 1) with
    | mk answer u =>
      rw [rest] at read
      cases answer with
      | none => cases read
      | some bytes => cases read; rfl

theorem setup_kept (mode n : UInt8) (buffer : Memory) (i : UInt8) :
    (answered answers memory).resetIrq ((answered answers memory).dmaSetup mode n ((answered answers memory).fillDmaBuffer buffer i s)) = s := by
  have filled : (answered answers memory).fillDmaBuffer buffer i s = s := List.foldl_fixed _
  rw [filled]
  rfl

theorem motor_off_off : MotorOff ((answered answers memory).fdcMotorOff s) := ⟨_,rfl,by decide⟩

theorem on_not_off {t : Trace} (on : t.dor = some 0x1C) : ¬MotorOff t := by
  rintro ⟨v,same,off⟩
  rw [on] at same
  cases same
  exact absurd off (by decide)

-- The exchanges of a sector: seek 0 to 6, the first command byte 7, the others 8 to 15, the
-- interrupt 16, the result bytes 17 to 23. After a time-out at one of these there is no
-- fdc_motor_off.
def Unguarded (j : Nat) : Prop := (8 ≤ j ∧ j < 16) ∨ (17 ≤ j ∧ j < 24)

def NoError (answers : Nat → Option UInt8) (p : Nat) : Prop := ∀ st0, answers p = some st0 → st0 &&& 0xC0 = 0

inductive SectorEnd (answers : Nat → Option UInt8) (p : Nat) : Option Unit × Trace → Prop where
  | written (all : Answered answers p 24) (status : NoError answers (p+17)) (next : t.next = p+24) : SectorEnd answers p (some (),t)
  | refused (all : Answered answers p 24) (status : ¬NoError answers (p+17)) (off : MotorOff t) : SectorEnd answers p (none,t)
  | stopped (late : TimesOut answers p 24 j) (guarded : ¬Unguarded j) (off : MotorOff t) : SectorEnd answers p (none,t)
  | abandoned (late : TimesOut answers p 24 j) (unguarded : Unguarded j) (on : ¬MotorOff t) : SectorEnd answers p (none,t)

theorem TimesOut.within (late : TimesOut answers p n j) (le : n ≤ m) :
    TimesOut answers p m j := ⟨Nat.lt_of_lt_of_le late.1 le,late.2⟩

theorem write_sector_ends (answers : Nat → Option UInt8) (memory : Memory) (s : Trace) (lba : UInt32) (i : UInt8)
    (buffer : Memory) :
    SectorEnd answers s.next ((answered answers memory).fdcWriteSector lba i buffer s) := by
  unfold Controller.fdcWriteSector
  generalize lbaToChs (lba + i.toUInt32) = chs
  obtain ⟨cylinder,head,sector⟩ := chs
  simp only
  have seek := seek_stage answers memory ((answered answers memory).fdcMotorOn s) cylinder head
  generalize (answered answers memory).fdcSeek cylinder head ((answered answers memory).fdcMotorOn s) = r at seek ⊢
  cases seek with
  | failed late same =>
    exact .stopped (late.within (by decide)) (by have := late.1; unfold Unguarded; omega) motor_off_off
  | done sought u =>
    have sought : Answered answers s.next 7 := sought
    have moved : ((answered answers memory).fdcMotorOn s).after 7 = ⟨s.next+7,some 0x1C⟩ := rfl
    rw [checked_some,Controller.dmaSetupWrite,setup_kept,moved]
    have first := write_byte_stage answers memory ⟨s.next+7,some 0x1C⟩ (fdcCmdWriteData ||| 0x40)
    generalize (answered answers memory).fdcWriteByte _ _ = r at first ⊢
    cases first with
    | failed late same =>
      exact .stopped ((sought.times_out late).within (by decide)) (by have := late.1; unfold Unguarded; omega) motor_off_off
    | done one u =>
      have begun : Answered answers s.next 8 := sought.add one
      have moved : Trace.after ⟨s.next+7,some 0x1C⟩ 1 = ⟨s.next+8,some 0x1C⟩ := rfl
      rw [checked_some,moved]
      have others := write_bytes_stage answers memory ⟨s.next+8,some 0x1C⟩
        [head <<< 2 ||| 0,cylinder,head,sector,2,UInt8.ofNat sectorsPerTrack,0x1B,0xFF]
      generalize (answered answers memory).fdcWriteBytes _ _ = r at others ⊢
      cases others with
      | failed late same =>
        have bound := late.1
        exact .abandoned ((begun.times_out late).within (Nat.le_of_ble_eq_true rfl)) (by unfold Unguarded; simp at bound; omega)
          (on_not_off same)
      | done eight u =>
        have commanded : Answered answers s.next 16 := begun.add eight
        have moved : Trace.after ⟨s.next+8,some 0x1C⟩
            [head <<< 2 ||| 0,cylinder,head,sector,2,UInt8.ofNat sectorsPerTrack,0x1B,0xFF].length = ⟨s.next+16,some 0x1C⟩ := rfl
        rw [checked_some,moved]
        have irq := wait_irq_stage answers memory ⟨s.next+16,some 0x1C⟩
        generalize (answered answers memory).fdcWaitIrq _ = r at irq ⊢
        cases irq with
        | failed late same =>
          have bound := late.1
          exact .stopped ((commanded.times_out late).within (by decide)) (by unfold Unguarded; omega) motor_off_off
        | done came u =>
          have finished : Answered answers s.next 17 := commanded.add came
          have moved : Trace.after ⟨s.next+16,some 0x1C⟩ 1 = ⟨s.next+17,some 0x1C⟩ := rfl
          rw [checked_some,moved]
          have results := read_bytes_stage answers memory ⟨s.next+17,some 0x1C⟩ 7
          generalize read : (answered answers memory).fdcReadBytes 7 ⟨s.next+17,some 0x1C⟩ = r at results ⊢
          cases results with
          | failed late same =>
            have bound := late.1
            exact .abandoned ((finished.times_out late).within (by decide)) (by unfold Unguarded; omega) (on_not_off same)
          | done seven bytes =>
            have all : Answered answers s.next 24 := finished.add seven
            have status : answers (s.next+17) = some (bytes.headD 0) := read_bytes_head 6 read
            rw [checked_some]
            split
            · rename_i error
              exact .refused all (fun fine => error (fine _ status)) motor_off_off
            · rename_i fine
              refine .written all ?_ rfl
              intro st0 found
              rw [status] at found
              cases found
              exact not_not.mp fine

-- A sector among the next ones at which the run stops with the motor on: every exchange
-- before it came about, and every sector before it ended without an error.
def Abandoned (answers : Nat → Option UInt8) (p sectors : Nat) : Prop :=
  ∃ i < sectors, ∃ j, Unguarded j ∧ Answered answers p (24*i+j) ∧ answers (p+(24*i+j)) = none ∧ ∀ k < i, NoError answers (p+(24*k+17))

theorem Unguarded.lt (place : Unguarded j) : j < 24 := by
  unfold Unguarded at place
  omega

theorem not_abandoned_none : ¬Abandoned answers p 0 := by
  rintro ⟨i,bound,_⟩
  exact absurd bound (Nat.not_lt_zero i)

theorem abandoned_here (late : TimesOut answers p 24 j) : Abandoned answers p (n+1) ↔ Unguarded j := by
  constructor
  · rintro ⟨i,_,k,unguarded,before,missing,_⟩
    have other : TimesOut answers p (24*i+k+1) (24*i+k) := ⟨Nat.lt_succ_self _,before,missing⟩
    have same := late.unique other
    have bound := late.1
    have first : i = 0 := by omega
    rw [same,first,Nat.mul_zero,Nat.zero_add]
    exact unguarded
  · intro unguarded
    refine ⟨0,Nat.succ_pos n,j,unguarded,?_,?_,?_⟩
    · simpa using late.2.1
    · simpa using late.2.2
    · exact fun k bound => absurd bound (Nat.not_lt_zero k)

theorem abandoned_later (all : Answered answers p 24) :
    Abandoned answers p (n+1) ↔ NoError answers (p+17) ∧ Abandoned answers (p+24) n := by
  constructor
  · rintro ⟨i,bound,j,unguarded,before,missing,fine⟩
    cases i with
    | zero =>
      rw [Nat.mul_zero,Nat.zero_add] at missing
      exact absurd missing (all j unguarded.lt)
    | succ i =>
      refine ⟨by simpa using fine 0 (Nat.succ_pos i),i,Nat.lt_of_succ_lt_succ bound,j,unguarded,?_,?_,?_⟩
      · intro k less
        rw [Nat.add_assoc]
        exact before (24+k) (by omega)
      · have place : p + 24 + (24*i+j) = p + (24*(i+1)+j) := by omega
        rw [place]
        exact missing
      · intro k less
        have place : p + 24 + (24*k+17) = p + (24*(k+1)+17) := by omega
        rw [place]
        exact fine (k+1) (by omega)
  · rintro ⟨first,i,bound,j,unguarded,before,missing,fine⟩
    refine ⟨i+1,Nat.succ_lt_succ bound,j,unguarded,?_,?_,?_⟩
    · have sum : 24*(i+1)+j = 24 + (24*i+j) := by omega
      rw [sum]
      exact all.add before
    · have place : p + (24*(i+1)+j) = p + 24 + (24*i+j) := by omega
      rw [place]
      exact missing
    · intro k less
      cases k with
      | zero => exact first
      | succ k =>
        have place : p + (24*(k+1)+17) = p + 24 + (24*k+17) := by omega
        rw [place]
        exact fine k (by omega)

theorem writeFrom_motor (answers : Nat → Option UInt8) (memory : Memory) (s : Trace) (lba : UInt32) (i : UInt8)
    (buffer : Memory) (left : Nat) :
    MotorOff ((answered answers memory).fdcWriteFrom lba i buffer left s).2 ↔ ¬Abandoned answers s.next left := by
  induction left generalizing i s with
  | zero => exact ⟨fun _ => not_abandoned_none,fun _ => @motor_off_off answers memory s⟩
  | succ left ih =>
    rw [Controller.fdcWriteFrom]
    have ends := write_sector_ends answers memory s lba i buffer
    generalize (answered answers memory).fdcWriteSector lba i buffer s = r at ends ⊢
    cases ends with
    | written all status next =>
      rw [checked_some,ih,next,abandoned_later all]
      exact not_congr ⟨fun later => ⟨status,later⟩,fun both => both.2⟩
    | refused all status off =>
      rw [checked_none,abandoned_later all]
      exact ⟨fun _ both => status both.1,fun _ => off⟩
    | stopped late guarded off =>
      rw [checked_none,abandoned_here late]
      exact ⟨fun _ => guarded,fun _ => off⟩
    | abandoned late unguarded on =>
      rw [checked_none,abandoned_here late]
      exact ⟨fun off => absurd off on,fun not => absurd unguarded not⟩

end

-- For any answers, both calls leave the motor off exactly when no sector of the write is
-- abandoned.
theorem motor_off_iff (answers : Nat → Option UInt8) (memory : Memory) (lba : UInt32) (count : UInt8)
    (buffer data : Memory) (s : Trace) :
    ((∀ fuel r bytes t, (answered answers memory).fdcReadSectors fuel lba count buffer s = some (r,bytes,t) → MotorOff t) ∧
      MotorOff ((answered answers memory).fdcWriteSectors lba count data s).2) ↔ ¬Abandoned answers s.next count.toNat := by
  constructor
  · rintro ⟨_,off⟩
    exact (writeFrom_motor answers memory s lba 0 data count.toNat).mp off
  · intro kept
    refine ⟨?_,(writeFrom_motor answers memory s lba 0 data count.toNat).mpr kept⟩
    intro fuel r bytes t ends
    obtain ⟨u,last⟩ := readFrom_off _ lba count 0 buffer fuel _ ends
    rw [last]
    exact motor_off_off

theorem second_byte_motor_on :
    ∃ answers memory data, ((answered answers memory).fdcWriteSectors 0 1 data ⟨0,none⟩).1 = -1 ∧
      ¬MotorOff ((answered answers memory).fdcWriteSectors 0 1 data ⟨0,none⟩).2 := by
  refine ⟨fun k => if k = 8 then none else some 0,fun _ => 0,fun _ => 0,by decide +kernel,?_⟩
  intro off
  refine (writeFrom_motor _ _ _ 0 0 (fun _ => 0) 1).mp off ⟨0,by decide,8,.inl ⟨by decide,by decide⟩,?_,rfl,?_⟩
  · intro j bound
    have other : j ≠ 8 := by omega
    simp [other]
  · exact fun k bound => absurd bound (Nat.not_lt_zero k)

end SantOS.Fdc
