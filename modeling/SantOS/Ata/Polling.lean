import Mathlib.Data.UInt
import SantOS.Library.ByteMemory
import SantOS.Library.Polling

namespace SantOS.Ata
open ByteMemory Polling

abbrev ataPrimarySectorCount : Nat := 0x1F2
abbrev ataPrimaryLbaLow : Nat := 0x1F3
abbrev ataPrimaryLbaMid : Nat := 0x1F4
abbrev ataPrimaryLbaHigh : Nat := 0x1F5
abbrev ataPrimaryDrive : Nat := 0x1F6
abbrev ataPrimaryCommand : Nat := 0x1F7
abbrev ataCmdReadSectors : UInt8 := 0x20
abbrev ataStatusBsy : UInt8 := 0x80
abbrev ataStatusDrq : UInt8 := 0x08
abbrev ataStatusErr : UInt8 := 0x01

structure Wait where
  first : Nat
  next : Nat
  responds : UInt8 → Bool

def Wait.Answered (statuses : Nat → UInt8) (w : Wait) :
    Prop := ∃ k, w.first ≤ k ∧ k < w.next ∧ w.responds (statuses k) = true

structure State where
  next : Nat
  word : Nat
  written : List (Nat × UInt8)
  waits : List Wait

def State.outb (s : State) (port : Nat) (v : UInt8) : State := {s with written := s.written ++ [(port,v)]}

-- `while (!responds(inb(ATA_PRIMARY_STATUS)) && timeout--);` from a counter of that value: the
-- counter it ends with, and the next value to read. The test decrements 0 too.
def waitFrom (responds : UInt8 → Bool) (statuses : Nat → UInt8) (next : Nat) : Nat → Nat × Nat
  | 0 => if responds (statuses next) then (0,next+1) else (2^32 - 1,next+1)
  | timeout+1 => if responds (statuses next) then (timeout+1,next+1) else waitFrom responds statuses (next+1) timeout

def ataWait (responds : UInt8 → Bool) (statuses : Nat → UInt8) (s : State) : Int × State :=
  match waitFrom responds statuses s.next 100000 with
  | (timeout,next) => (if timeout > 0 then 0 else -1,{s with next := next, waits := s.waits ++ [⟨s.next,next,responds⟩]})

def ready (status : UInt8) : Bool := status &&& ataStatusBsy = 0
def requests (status : UInt8) : Bool := status &&& ataStatusDrq ≠ 0

def ataWaitReady (statuses : Nat → UInt8) (s : State) : Int × State := ataWait ready statuses s
def ataWaitDrq (statuses : Nat → UInt8) (s : State) : Int × State := ataWait requests statuses s

def insw (words : Nat → UInt16) (word : Nat) : Memory :=
  fun j => if j % 2 = 0 then UInt8.ofNat (words (word + j/2)).toNat else UInt8.ofNat ((words (word + j/2)).toNat >>> 8)

def readFrom (statuses : Nat → UInt8) (words : Nat → UInt16) (i : Nat) (buffer : Memory) : Nat → State → Int × Memory × State
  | 0,s => (0,buffer,s)
  | left+1,s =>
    match ataWaitDrq statuses s with
    | (r,s) =>
      if r ≠ 0 then (-1,buffer,s)
      else if statuses s.next &&& ataStatusErr ≠ 0 then (-1,buffer,{s with next := s.next+1})
      else
        readFrom statuses words (i+1) (blit buffer (i*512) 512 (insw words s.word)) left
          {s with next := s.next+1, word := s.word+256}

def State.command (s : State) (lba : UInt32) (sectorCount : UInt8) : State :=
  let s := s.outb ataPrimaryDrive ((0xE0 : UInt8) ||| ((lba >>> 24) &&& 0x0F).toUInt8)
  let s := s.outb ataPrimarySectorCount sectorCount
  let s := s.outb ataPrimaryLbaLow lba.toUInt8
  let s := s.outb ataPrimaryLbaMid (lba >>> 8).toUInt8
  let s := s.outb ataPrimaryLbaHigh (lba >>> 16).toUInt8
  s.outb ataPrimaryCommand ataCmdReadSectors

def ataReadSectors (statuses : Nat → UInt8) (words : Nat → UInt16) (lba : UInt32) (sectorCount : UInt8) (buffer : Memory)
    (s : State) : Int × Memory × State :=
  if sectorCount = 0 then (-1,buffer,s)
  else
    match ataWaitReady statuses s with
    | (r,s) =>
      if r ≠ 0 then (-1,buffer,s)
      else readFrom statuses words 0 buffer sectorCount.toNat (s.command lba sectorCount)

section
variable {responds : UInt8 → Bool} {statuses : Nat → UInt8}

-- A counter of t allows t+1 reads. The answer comes while the counter is above 0, with the
-- last read, or not at all: then the counter has wrapped.
inductive WaitEnd (responds : UInt8 → Bool) (statuses : Nat → UInt8) (p t : Nat) : Nat × Nat → Prop where
  | timely (early : k < t) (before : ∀ j < k, responds (statuses (p+j)) = false) (answer : responds (statuses (p+k)) = true) :
      WaitEnd responds statuses p t (t-k,p+k+1)
  | late (before : ∀ j < t, responds (statuses (p+j)) = false) (answer : responds (statuses (p+t)) = true) :
      WaitEnd responds statuses p t (0,p+t+1)
  | silent (none : ∀ j ≤ t, responds (statuses (p+j)) = false) : WaitEnd responds statuses p t (2^32 - 1,p+t+1)

theorem waitFrom_ends (responds : UInt8 → Bool) (statuses : Nat → UInt8) (p t : Nat) :
    WaitEnd responds statuses p t (waitFrom responds statuses p t) := by
  induction t generalizing p with
  | zero =>
    rw [waitFrom]
    split
    · rename_i answer
      exact .late (fun j bound => absurd bound (Nat.not_lt_zero j)) answer
    · rename_i silent
      refine .silent (fun j bound => ?_)
      rw [Nat.le_zero.mp bound]
      simpa using silent
  | succ t ih =>
    rw [waitFrom]
    split
    · rename_i answer
      exact .timely (k := 0) (Nat.succ_pos t) (fun j bound => absurd bound (Nat.not_lt_zero j)) answer
    · rename_i silent
      have first : ∀ j, responds (statuses (p+1+j)) = responds (statuses (p+(j+1))) := by
        intro j
        rw [Nat.add_assoc,Nat.add_comm 1 j]
      have shifted : ∀ k, (∀ j < k, responds (statuses (p+1+j)) = false) → ∀ j < k+1, responds (statuses (p+j)) = false := by
        intro k before j bound
        cases j with
        | zero => simpa using silent
        | succ j =>
          rw [← first]
          exact before j (Nat.lt_of_succ_lt_succ bound)
      have rest := ih (p+1)
      generalize waitFrom responds statuses (p+1) t = r at rest ⊢
      cases rest with
      | @timely k early before answer =>
        rw [first] at answer
        have counter : t - k = t + 1 - (k+1) := by omega
        have place : p + 1 + k + 1 = p + (k+1) + 1 := by omega
        rw [counter,place]
        exact .timely (Nat.succ_lt_succ early) (shifted k before) answer
      | late before answer =>
        rw [first] at answer
        have place : p + 1 + t + 1 = p + (t+1) + 1 := by omega
        rw [place]
        exact .late (shifted t before) answer
      | silent none =>
        have place : p + 1 + t + 1 = p + (t+1) + 1 := by omega
        rw [place]
        exact .silent (fun j bound => shifted (t+1) (fun j less => none j (Nat.le_of_lt_succ less)) j (Nat.lt_succ_of_le bound))

def State.waited (s : State) (responds : UInt8 → Bool) (next : Nat) : State :=
  {s with next := next, waits := s.waits ++ [⟨s.next,next,responds⟩]}

inductive Waited (responds : UInt8 → Bool) (statuses : Nat → UInt8) (s : State) : Int × State → Prop where
  | timely (early : k < 100000) (before : ∀ j < k, responds (statuses (s.next+j)) = false)
      (answer : responds (statuses (s.next+k)) = true) : Waited responds statuses s (0,s.waited responds (s.next+k+1))
  | late (before : ∀ j < 100000, responds (statuses (s.next+j)) = false) (answer : responds (statuses (s.next+100000)) = true) :
      Waited responds statuses s (-1,s.waited responds (s.next+100001))
  | silent (none : ∀ j ≤ 100000, responds (statuses (s.next+j)) = false) :
      Waited responds statuses s (0,s.waited responds (s.next+100001))

theorem ataWait_ends (responds : UInt8 → Bool) (statuses : Nat → UInt8) (s : State) :
    Waited responds statuses s (ataWait responds statuses s) := by
  have ends := waitFrom_ends responds statuses s.next 100000
  unfold ataWait
  generalize waitFrom responds statuses s.next 100000 = r at ends ⊢
  cases ends with
  | timely early before answer =>
    simp only [if_pos (Nat.sub_pos_of_lt early)]
    exact .timely early before answer
  | late before answer =>
    simp only [if_neg (Nat.lt_irrefl 0)]
    exact .late before answer
  | silent none =>
    simp only [if_pos (show 2^32 - 1 > 0 by decide)]
    exact .silent none

-- What a wait is meant to tell: 0 when a value it read responds, otherwise -1, after a
-- bounded number of reads.
structure Exact (responds : UInt8 → Bool) (statuses : Nat → UInt8) (s : State) (r : Int × State) : Prop where
  zeroIff : r.1 = 0 ↔ Wait.Answered statuses ⟨s.next,r.2.next,responds⟩
  otherwise : r.1 ≠ 0 → r.1 = -1
  bounded : r.2.next ≤ s.next + 100001

def Timely (responds : UInt8 → Bool) (statuses : Nat → UInt8) (p : Nat) :
    Prop := ∃ k < 100000, responds (statuses (p+k)) = true

theorem silent_unanswered (none : ∀ j ≤ 100000, responds (statuses (p+j)) = false) :
    ¬Wait.Answered statuses ⟨p,p+100001,responds⟩ := by
  rintro ⟨k,after,before,answer⟩
  have after : p ≤ k := after
  have before : k < p + 100001 := before
  have place : p + (k - p) = k := by omega
  have missing := none (k-p) (by omega)
  have answer : responds (statuses k) = true := answer
  rw [place,answer] at missing
  cases missing

theorem ataWait_exact (s : State) : Exact responds statuses s (ataWait responds statuses s) ↔ Timely responds statuses s.next := by
  have ends := ataWait_ends responds statuses s
  generalize ataWait responds statuses s = r at ends ⊢
  cases ends with
  | @timely k early before answer =>
    have here : s.next + k < s.next + k + 1 := Nat.lt_succ_self _
    refine ⟨fun _ => ⟨k,early,answer⟩,fun _ => ⟨⟨fun _ => ⟨s.next+k,Nat.le_add_right _ _,here,answer⟩,fun _ => rfl⟩,fun no => absurd rfl no,?_⟩⟩
    change s.next + k + 1 ≤ s.next + 100001
    omega
  | late before answer =>
    constructor
    · intro exact
      have result : (-1 : Int) = 0 := exact.zeroIff.mpr ⟨s.next+100000,Nat.le_add_right _ _,Nat.lt_succ_self _,answer⟩
      exact absurd result (by decide)
    · rintro ⟨k,early,found⟩
      rw [before k early] at found
      cases found
  | silent none =>
    constructor
    · exact fun exact => absurd (exact.zeroIff.mp rfl) (silent_unanswered none)
    · rintro ⟨k,early,found⟩
      rw [none k (Nat.le_of_lt early)] at found
      cases found

-- A run of ata_read_sectors on the status values alone: each wait is passed, in time or after
-- 100001 values without an answer, and each check of ERR succeeds. The flag says whether every
-- wait was answered.
inductive Passes (responds : UInt8 → Bool) (statuses : Nat → UInt8) (p : Nat) : Nat → Bool → Prop where
  | answered (early : k < 100000) (before : ∀ j < k, responds (statuses (p+j)) = false) (answer : responds (statuses (p+k)) = true) :
      Passes responds statuses p (p+k+1) true
  | silent (none : ∀ j ≤ 100000, responds (statuses (p+j)) = false) : Passes responds statuses p (p+100001) false

inductive Reads (statuses : Nat → UInt8) : Nat → Nat → Bool → Prop where
  | done (p : Nat) : Reads statuses p 0 true
  | sector (wait : Passes requests statuses p q a) (clear : statuses q &&& ataStatusErr = 0) (rest : Reads statuses (q+1) n b) :
      Reads statuses p (n+1) (a && b)

theorem Passes.answered_iff (passes : Passes responds statuses p q a) :
    a = true ↔ Wait.Answered statuses ⟨p,q,responds⟩ := by
  cases passes with
  | @answered k early before answer => exact ⟨fun _ => ⟨p+k,Nat.le_add_right _ _,Nat.lt_succ_self _,answer⟩,fun _ => rfl⟩
  | silent none => exact ⟨fun no => Bool.noConfusion no,fun answered => absurd answered (silent_unanswered none)⟩

theorem Passes.waits {s : State} (passes : Passes responds statuses s.next q a) :
    ataWait responds statuses s = (0,s.waited responds q) := by
  have ends := ataWait_ends responds statuses s
  generalize ataWait responds statuses s = r at ends ⊢
  cases passes with
  | @answered k early before answer =>
    cases ends with
    | @timely j sooner unmet found =>
      rcases Nat.lt_trichotomy j k with less | same | less
      · exact absurd found (by rw [before j less]; decide)
      · rw [same]
      · exact absurd answer (by rw [unmet k less]; decide)
    | late unmet _ => exact absurd answer (by rw [unmet k early]; decide)
    | silent none => exact absurd answer (by rw [none k (Nat.le_of_lt early)]; decide)
  | silent none =>
    cases ends with
    | @timely j sooner _ found => exact absurd found (by rw [none j (Nat.le_of_lt sooner)]; decide)
    | late _ found => exact absurd found (by rw [none 100000 (Nat.le_refl _)]; decide)
    | silent _ => rfl

theorem waits_passes {s t : State} (zero : ataWait responds statuses s = (0,t)) :
    ∃ q a, Passes responds statuses s.next q a := by
  have ends := ataWait_ends responds statuses s
  rw [zero] at ends
  cases ends with
  | timely early before answer => exact ⟨_,_,.answered early before answer⟩
  | silent none => exact ⟨_,_,.silent none⟩

theorem Reads.returns (reads : Reads statuses p left b) (words : Nat → UInt16) (i : Nat) (buffer : Memory) (s : State)
    (place : s.next = p) :
    (readFrom statuses words i buffer left s).1 = 0 ∧
      ∃ more, (readFrom statuses words i buffer left s).2.2.waits = s.waits ++ more ∧
        (b = true ↔ ∀ w ∈ more, w.Answered statuses) := by
  induction reads generalizing i buffer s with
  | done p => exact ⟨rfl,[],(List.append_nil _).symm,by simp⟩
  | @sector p q a n b wait clear rest ih =>
    rw [← place] at wait
    have waits : ataWaitDrq statuses s = (0,s.waited requests q) := wait.waits
    obtain ⟨zero,more,logged,iff⟩ := ih (i+1) (blit buffer (i*512) 512 (insw words s.word))
      {s.waited requests q with next := q+1, word := s.word+256} rfl
    rw [readFrom,waits]
    simp only [State.waited] at zero logged ⊢
    simp only [clear,ne_eq,not_true_eq_false,if_false]
    refine ⟨zero,⟨s.next,q,requests⟩::more,?_,?_⟩
    · rw [logged,List.append_assoc,List.singleton_append]
    · rw [List.forall_mem_cons,← wait.answered_iff,← iff,Bool.and_eq_true]

theorem reads_of_zero (words : Nat → UInt16) (i : Nat) (buffer : Memory) (left : Nat) (s : State)
    (zero : (readFrom statuses words i buffer left s).1 = 0) : ∃ b, Reads statuses s.next left b := by
  induction left generalizing i buffer s with
  | zero => exact ⟨true,.done _⟩
  | succ left ih =>
    rw [readFrom] at zero
    cases waits : ataWaitDrq statuses s with
    | mk r t =>
      rw [waits] at zero
      simp only at zero
      split at zero
      · exact absurd zero (show (-1 : Int) ≠ 0 by decide)
      · rename_i passed
        rw [not_not.mp passed] at waits
        split at zero
        · exact absurd zero (show (-1 : Int) ≠ 0 by decide)
        · rename_i clear
          obtain ⟨q,a,passes⟩ := waits_passes waits
          have same : t = s.waited requests q := congrArg Prod.snd (waits.symm.trans passes.waits)
          rw [same] at zero clear
          obtain ⟨b,rest⟩ := ih _ _ _ zero
          exact ⟨a && b,.sector passes (not_not.mp clear) rest⟩

end

def start : State := ⟨0,0,[],[]⟩

def GetsThrough (statuses : Nat → UInt8) (sectorCount : UInt8) : Prop :=
  sectorCount ≠ 0 ∧ ∃ q a b, Passes ready statuses 0 q a ∧ Reads statuses q sectorCount.toNat b ∧ (a && b) = false

theorem read_sectors_exact (statuses : Nat → UInt8) (words : Nat → UInt16) (lba : UInt32) (sectorCount : UInt8)
    (buffer : Memory) :
    ((ataReadSectors statuses words lba sectorCount buffer start).1 = 0 →
      ∀ w ∈ (ataReadSectors statuses words lba sectorCount buffer start).2.2.waits, w.Answered statuses) ↔
    ¬GetsThrough statuses sectorCount := by
  by_cases none : sectorCount = 0
  · have refused : (ataReadSectors statuses words lba sectorCount buffer start).1 = -1 := by rw [ataReadSectors,if_pos none]
    rw [refused]
    exact ⟨fun _ through => through.1 none,fun _ zero => absurd zero (show (-1 : Int) ≠ 0 by decide)⟩
  · rw [ataReadSectors,if_neg none]
    constructor
    · rintro answered ⟨_,q,a,b,wait,reads,unanswered⟩
      have waits : ataWaitReady statuses start = (0,start.waited ready q) := wait.waits
      obtain ⟨zero,more,logged,iff⟩ := reads.returns words 0 buffer ((start.waited ready q).command lba sectorCount) rfl
      rw [waits] at answered
      simp only [if_neg (not_not_intro (rfl : (0 : Int) = 0))] at answered
      have each := answered zero
      rw [logged] at each
      have first : a = true := wait.answered_iff.mpr (each _ (List.mem_append_left _ List.mem_cons_self))
      have later : b = true := iff.mpr (fun w member => each w (List.mem_append_right _ member))
      rw [first,later] at unanswered
      cases unanswered
    · intro never
      cases waits : ataWaitReady statuses start with
      | mk r t =>
        simp only
        split
        · exact fun zero => absurd zero (show (-1 : Int) ≠ 0 by decide)
        · rename_i passed
          rw [not_not.mp passed] at waits
          obtain ⟨q,a,passes⟩ := waits_passes waits
          have same : t = start.waited ready q := congrArg Prod.snd (waits.symm.trans passes.waits)
          rw [same]
          intro zero
          obtain ⟨b,reads⟩ := reads_of_zero words 0 buffer sectorCount.toNat _ zero
          obtain ⟨_,more,logged,iff⟩ := reads.returns words 0 buffer _ rfl
          have both : (a && b) = true := by
            cases result : a && b with
            | true => rfl
            | false => exact absurd ⟨none,q,a,b,passes,reads,result⟩ never
          rw [Bool.and_eq_true] at both
          have first := passes.answered_iff.mp both.1
          have later := iff.mp both.2
          rw [logged]
          intro w member
          rcases List.mem_append.mp member with here | behind
          · rw [List.mem_singleton.mp here]
            exact first
          · exact later w behind

structure Answering (responds : UInt8 → Bool) (word : List UInt8) (v : UInt8) : Prop where
  short : word.length < 100000
  silent : ∀ u ∈ word, responds u = false
  answer : responds v = true

def Sector (word : List UInt8) : Prop := ∃ wait v w, word = wait ++ [v,w] ∧ Answering requests wait v ∧ w &&& ataStatusErr = 0

def SilentSector (word : List UInt8) : Prop :=
  ∃ wait w, word = wait ++ [w] ∧ wait.length = 100001 ∧ (∀ u ∈ wait, requests u = false) ∧ w &&& ataStatusErr = 0

-- The sequence begins with a drive that becomes ready in time, up to 254 sectors, and a silent one.
def FallsSilent (statuses : Nat → UInt8) : Prop :=
  ∃ busy v, ∃ sectors : List (List UInt8), ∃ silence, Answering ready busy v ∧
    (∀ word ∈ sectors, Sector word) ∧ sectors.length ≤ 254 ∧ SilentSector silence ∧
    Begins statuses 0 (busy ++ [v] ++ sectors.flatten ++ silence)

section
variable {responds : UInt8 → Bool} {statuses : Nat → UInt8}

theorem answering_passes : Passes responds statuses p q true ↔
    ∃ word v, Answering responds word v ∧ Begins statuses p (word ++ [v]) ∧ q = p + (word.length + 1) := by
  constructor
  · intro passes
    generalize yes : true = a at passes
    cases passes with
    | silent none => cases yes
    | @answered k early before answer =>
      obtain ⟨word,length,silent,begins⟩ := (begins_stretch (fun v => responds v = false) k).mpr before
      refine ⟨word,statuses (p+k),⟨by omega,silent,answer⟩,?_,by omega⟩
      exact (begins_append _ _).mpr ⟨begins,by rw [length],trivial⟩
  · rintro ⟨word,v,⟨short,silent,answer⟩,begins,rfl⟩
    obtain ⟨wait,here,_⟩ := (begins_append _ _).mp begins
    have before := (begins_stretch (fun v => responds v = false) word.length).mp ⟨word,rfl,silent,wait⟩
    exact .answered short before (by rw [here]; exact answer)

theorem silent_passes : Passes responds statuses p q false ↔
    ∃ word, word.length = 100001 ∧ (∀ u ∈ word, responds u = false) ∧ Begins statuses p word ∧ q = p + 100001 := by
  constructor
  · intro passes
    generalize no : false = a at passes
    cases passes with
    | answered early => cases no
    | silent none =>
      obtain ⟨word,length,silent,begins⟩ :=
        (begins_stretch (fun v => responds v = false) 100001).mpr (fun j inside => none j (by omega))
      exact ⟨word,length,silent,begins,rfl⟩
  · rintro ⟨word,length,silent,begins,rfl⟩
    have none := (begins_stretch (fun v => responds v = false) 100001).mp ⟨word,length,silent,begins⟩
    exact .silent (fun j inside => none j (by omega))

theorem reads_silent (sectors : List (List UInt8)) (each : ∀ word ∈ sectors, Sector word) (last : SilentSector silence)
    (begins : Begins statuses p (sectors.flatten ++ silence)) : Reads statuses p (sectors.length + 1) false := by
  induction sectors generalizing p with
  | nil =>
    obtain ⟨wait,w,rfl,length,silent,clear⟩ := last
    change Begins statuses p (wait ++ [w]) at begins
    obtain ⟨waits,here,_⟩ := (begins_append _ _).mp begins
    rw [length] at here
    exact .sector (silent_passes.mpr ⟨wait,length,silent,waits,rfl⟩) (by rw [here]; exact clear) (.done _)
  | cons word sectors ih =>
    rw [List.flatten_cons,List.append_assoc] at begins
    obtain ⟨first,rest⟩ := (begins_append _ _).mp begins
    obtain ⟨wait,v,w,rfl,answering,clear⟩ := each word List.mem_cons_self
    rw [List.append_cons] at first
    obtain ⟨waits,here,_⟩ := (begins_append _ _).mp first
    have later := ih (fun other member => each other (List.mem_cons_of_mem _ member)) rest
    simp only [List.length_append,List.length_cons,List.length_nil] at here later
    exact .sector (answering_passes.mpr ⟨wait,v,answering,waits,rfl⟩) (by rw [here]; exact clear) later

theorem Reads.falls_silent (reads : Reads statuses p n b) (unanswered : b = false) :
    ∃ sectors : List (List UInt8), ∃ silence, (∀ word ∈ sectors, Sector word) ∧ sectors.length < n ∧ SilentSector silence ∧
      Begins statuses p (sectors.flatten ++ silence) := by
  induction reads with
  | done p => cases unanswered
  | @sector p q a n b wait clear rest ih =>
    cases a with
    | true =>
      obtain ⟨sectors,silence,each,few,last,begins⟩ := ih unanswered
      obtain ⟨word,v,answering,waits,rfl⟩ := answering_passes.mp wait
      refine ⟨(word ++ [v,statuses (p + (word.length + 1))])::sectors,silence,?_,Nat.succ_lt_succ few,last,?_⟩
      · rintro other member
        rcases List.mem_cons.mp member with rfl | later
        · exact ⟨word,v,_,rfl,answering,clear⟩
        · exact each other later
      · rw [List.flatten_cons,List.append_assoc,List.append_cons]
        refine (begins_append _ _).mpr ⟨(begins_append _ _).mpr ⟨waits,?_,trivial⟩,?_⟩
        · rw [List.length_append,List.length_singleton]
        · simp only [List.length_append,List.length_cons,List.length_nil]
          exact begins
    | false =>
      obtain ⟨word,length,silent,waits,rfl⟩ := silent_passes.mp wait
      refine ⟨[],word ++ [statuses (p+100001)],nofun,Nat.succ_pos n,⟨word,_,rfl,length,silent,clear⟩,?_⟩
      change Begins statuses p (word ++ [statuses (p+100001)])
      exact (begins_append _ _).mpr ⟨waits,by rw [length],trivial⟩

theorem falls_silent_iff (timely : Timely ready statuses 0) :
    (∃ sectorCount, GetsThrough statuses sectorCount) ↔ FallsSilent statuses := by
  constructor
  · rintro ⟨sectorCount,_,q,a,b,wait,reads,unanswered⟩
    cases a with
    | false =>
      obtain ⟨word,length,silent,begins,_⟩ := silent_passes.mp wait
      obtain ⟨k,early,answer⟩ := timely
      have quiet := silent _ (begins.at (i := k) (by omega))
      rw [answer] at quiet
      cases quiet
    | true =>
      obtain ⟨sectors,silence,each,few,last,begins⟩ := reads.falls_silent unanswered
      obtain ⟨busy,v,answering,waits,rfl⟩ := answering_passes.mp wait
      have bound := sectorCount.toNat_lt
      refine ⟨busy,v,sectors,silence,answering,each,by omega,last,?_⟩
      rw [List.append_assoc]
      refine (begins_append _ _).mpr ⟨waits,?_⟩
      rw [List.length_append,List.length_singleton]
      exact begins
  · rintro ⟨busy,v,sectors,silence,answering,each,few,last,begins⟩
    rw [List.append_assoc] at begins
    obtain ⟨waits,rest⟩ := (begins_append _ _).mp begins
    rw [List.length_append,List.length_singleton] at rest
    have count : (UInt8.ofNat (sectors.length + 1)).toNat = sectors.length + 1 :=
      UInt8.toNat_ofNat_of_lt' (Nat.lt_of_le_of_lt (Nat.succ_le_succ few) (by decide))
    have reads := reads_silent sectors each last rest
    refine ⟨UInt8.ofNat (sectors.length + 1),?_,_,true,false,answering_passes.mpr ⟨busy,v,answering,waits,rfl⟩,?_,rfl⟩
    · intro zero
      rw [zero] at count
      cases count
    · rw [count]
      exact reads

end

-- The waits say whether the drive responded, and no read goes on without it, exactly when the
-- answers come among the first 100000 values and the drive does not fall silent while it reads.
theorem waits_exact_iff (statuses : Nat → UInt8) :
    (Exact ready statuses start (ataWaitReady statuses start) ∧ Exact requests statuses start (ataWaitDrq statuses start) ∧
      ∀ words lba sectorCount buffer, (ataReadSectors statuses words lba sectorCount buffer start).1 = 0 →
        ∀ w ∈ (ataReadSectors statuses words lba sectorCount buffer start).2.2.waits, w.Answered statuses) ↔
    Timely ready statuses 0 ∧ Timely requests statuses 0 ∧ ¬FallsSilent statuses := by
  refine (and_congr (ataWait_exact start) (and_congr (ataWait_exact start) Iff.rfl)).trans ?_
  refine and_congr_right fun timely => and_congr_right fun _ => ?_
  rw [← falls_silent_iff timely,not_exists]
  constructor
  · intro answered sectorCount
    exact (read_sectors_exact statuses (fun _ => 0) 0 sectorCount (fun _ => 0)).mp (answered _ _ _ _)
  · intro never words lba sectorCount buffer
    exact (read_sectors_exact statuses words lba sectorCount buffer).mpr (never sectorCount)

theorem busy_drive_read : ∃ statuses : Nat → UInt8, (∀ k, ready (statuses k) = false ∧ requests (statuses k) = false) ∧
    (ataWaitReady statuses start).1 = 0 ∧ (ataWaitDrq statuses start).1 = 0 ∧
    (ataReadSectors statuses (fun _ => 0) 0 1 (fun _ => 0) start).1 = 0 := by
  have busy : ready 0x80 = false := by decide
  have idle : requests 0x80 = false := by decide
  have waits : Passes ready (fun _ => 0x80) 0 100001 false := .silent (fun _ _ => busy)
  have data : Passes requests (fun _ => 0x80) 100001 (100001 + 100001) false := .silent (fun _ _ => idle)
  have here : Passes requests (fun _ => 0x80) 0 100001 false := .silent (fun _ _ => idle)
  have reads : Reads (fun _ => 0x80) 100001 1 (false && true) := .sector data (by decide) (.done _)
  have passed : ataWaitReady (fun _ => 0x80) start = (0,start.waited ready 100001) := waits.waits
  have asked : ataWaitDrq (fun _ => 0x80) start = (0,start.waited requests 100001) := here.waits
  refine ⟨fun _ => 0x80,fun _ => ⟨busy,idle⟩,by rw [passed],by rw [asked],?_⟩
  have place : ((start.waited ready 100001).command 0 1).next = 100001 := rfl
  obtain ⟨zero,_⟩ := reads.returns (fun _ => 0) 0 (fun _ => 0) ((start.waited ready 100001).command 0 1) place
  rw [ataReadSectors,if_neg (by decide),passed]
  simp only [if_neg (not_not_intro (rfl : (0 : Int) = 0))]
  exact zero

end SantOS.Ata
