import Mathlib.Data.Finset.Card
import SantOS.Library.FueledLoops
import SantOS.Fat12.ClusterRuns
import SantOS.Fat12.Listing
import SantOS.Fat12.Mounting
import SantOS.Fat12.Writing

namespace SantOS.Fat12
open ByteMemory FueledLoops

-- A loop that visits the clusters of a chain, with w disk calls for each: it goes on when
-- they succeed and the cluster holds nothing that ends it.
structure Visits (s : Driver) (w : Nat) (passes : Nat → Prop) (run : α → Nat → Option β)
    (visit : α → Nat → Nat → Prop) : Prop where
  zero : ∀ x, run x 0 = none
  done : ∀ x i c, visit x i c → Ends c → Last run x
  more : ∀ x i c, visit x i c → ¬ Ends c → (∀ j < w, s.faults (i+j) = false) → passes c →
    ∃ y, Next run x y ∧ visit y (i+w) (s.fat c)
  last : ∀ x i c, visit x i c → ¬ Ends c → ¬ ((∀ j < w, s.faults (i+j) = false) ∧ passes c) → Last run x

section
variable {s : Driver} {w : Nat} {passes : Nat → Prop} {run : α → Nat → Option β} {visit : α → Nat → Nat → Prop}

theorem Visits.cases (visits : Visits s w passes run visit) (here : visit x i c) :
    Halts run x ∨ ∃ y, Next run x y ∧ visit y (i+w) (s.fat c) ∧ ¬ Ends c ∧ passes c ∧ ∀ j < w, s.faults (i+j) = false := by
  by_cases ended : Ends c
  · exact .inl (.of_last (visits.done x i c here ended))
  · by_cases goes : (∀ j < w, s.faults (i+j) = false) ∧ passes c
    · obtain ⟨y,next,there⟩ := visits.more x i c here ended goes.1 goes.2
      exact .inr ⟨y,next,there,ended,goes.2,goes.1⟩
    · exact .inl (.of_last (visits.last x i c here ended goes))

theorem Visits.halts_of_chain (visits : Visits s w passes run visit) (n : Nat) (here : visit x i c)
    (ends : Ends (s.fat^[n] c) ∨ ¬ passes (s.fat^[n] c)) : Halts run x := by
  induction n generalizing x i c with
  | zero =>
    rcases visits.cases here with halts | ⟨_,_,_,running,pass,_⟩
    · exact halts
    · exact absurd ends (not_or.mpr ⟨running,not_not.mpr pass⟩)
  | succ n ih =>
    rcases visits.cases here with halts | ⟨y,next,there,_⟩
    · exact halts
    · exact .of_next next (ih there (by rwa [Function.iterate_succ_apply] at ends))

theorem Visits.halts_of_fault (visits : Visits s w passes run visit) (positive : 0 < w) (fault : s.faults m = true)
    (here : visit x i c) (ahead : i ≤ m) : Halts run x := by
  obtain ⟨left,bound⟩ : ∃ left, m < i + left := ⟨m+1,by omega⟩
  induction left generalizing x i c with
  | zero => omega
  | succ left ih =>
    rcases visits.cases here with halts | ⟨y,next,there,_,_,clear⟩
    · exact halts
    · have behind : i + w ≤ m := by
        by_contra inside
        have success := clear (m-i) (by omega)
        rw [Nat.add_sub_of_le ahead,fault] at success
        cases success
      exact .of_next next (ih there behind (by omega))

theorem Visits.halts_iff (visits : Visits s w passes run visit) (positive : 0 < w) (here : visit x 0 c) :
    Halts run x ↔ (∃ n, Ends (s.fat^[n] c) ∨ ¬ passes (s.fat^[n] c)) ∨ ∃ i, s.faults i = true := by
  constructor
  · rintro ⟨fuel,comes⟩
    by_contra never
    obtain ⟨chain,faults⟩ := not_or.mp never
    refine comes (diverges (fun x => ∃ i n, visit x i (s.fat^[n] c)) visits.zero ?_ ⟨0,0,here⟩ fuel)
    rintro x ⟨i,n,there⟩
    have goes := not_or.mp (not_exists.mp chain n)
    obtain ⟨y,next,onward⟩ := visits.more x i _ there goes.1
      (fun j _ => Bool.eq_false_iff.mpr (not_exists.mp faults (i+j))) (not_not.mp goes.2)
    refine ⟨y,next,i+w,n+1,?_⟩
    rwa [Function.iterate_succ_apply']
  · rintro (⟨n,ends⟩ | ⟨m,fault⟩)
    · exact visits.halts_of_chain n here ends
    · exact visits.halts_of_fault positive fault here (Nat.zero_le m)

end

theorem slots_succ {passes : Nat → Prop} : (∀ k < 16*(left+1), passes (sector*512 + 32*k)) ↔
    (∀ k < 16, passes (sector*512 + 32*k)) ∧ ∀ k < 16*left, passes ((sector+1)*512 + 32*k) := by
  have place : ∀ k, (sector+1)*512 + 32*k = sector*512 + 32*(16+k) := fun k => by omega
  constructor
  · intro all
    refine ⟨fun k bound => all k (by omega),fun k bound => ?_⟩
    rw [place]
    exact all (16+k) (by omega)
  · rintro ⟨first,rest⟩ k bound
    by_cases here : k < 16
    · exact first k here
    · have behind := rest (k-16) (by omega)
      rwa [place,Nat.add_sub_of_le (by omega)] at behind

theorem faults_succ {s : Driver} : (∀ j < left + 1, s.faults (i+j) = false) ↔
    s.faults i = false ∧ ∀ j < left, s.faults (i+1+j) = false := by
  constructor
  · intro all
    exact ⟨all 0 (Nat.succ_pos _),fun j bound => by rw [Nat.add_assoc,Nat.add_comm 1 j]; exact all (j+1) (by omega)⟩
  · rintro ⟨first,rest⟩ j bound
    cases j with
    | zero => exact first
    | succ j =>
      rw [Nat.add_comm j 1,← Nat.add_assoc]
      exact rest j (by omega)

structure Goes (s : Driver) (i left sector : Nat) (passes : Nat → Prop) : Prop where
  clear : ∀ j < left, s.faults (i+j) = false
  slots : ∀ k < 16*left, passes (sector*512 + 32*k)

theorem goes_succ {s : Driver} {passes : Nat → Prop} : Goes s i (left+1) sector passes ↔
    (s.faults i = false ∧ ∀ k < 16, passes (sector*512 + 32*k)) ∧ Goes s (i+1) left (sector+1) passes := by
  constructor
  · rintro ⟨clear,slots⟩
    obtain ⟨first,later⟩ := faults_succ.mp clear
    obtain ⟨here,behind⟩ := slots_succ.mp slots
    exact ⟨⟨first,here⟩,later,behind⟩
  · rintro ⟨⟨first,here⟩,later,behind⟩
    exact ⟨faults_succ.mpr ⟨first,later⟩,slots_succ.mpr ⟨here,behind⟩⟩

theorem after_first (s : Driver) (i : Nat) : (s.after i).faults 0 = s.faults i := by
  rw [after_faults,Nat.zero_add]

theorem searchCluster_goes {probe : Memory → Nat → Probe} (here : Local probe) (s : Driver) (i sector left : Nat) :
    (Goes s i left sector (fun a => probe s.disk a = .skip) ∧
      searchCluster probe (s.after i) sector left = (.further,s.after (i+left))) ∨
    (¬ Goes s i left sector (fun a => probe s.disk a = .skip) ∧
      ∃ r t, searchCluster probe (s.after i) sector left = (r,t) ∧ r ≠ .further) := by
  induction left generalizing i sector with
  | zero => exact .inl ⟨⟨fun j bound => absurd bound (Nat.not_lt_zero j),fun k bound => by omega⟩,rfl⟩
  | succ left ih =>
    rw [goes_succ,searchCluster]
    cases state : s.faults i with
    | true =>
      rw [read_fault ((after_first s i).trans state)]
      exact .inr ⟨fun goes => (by cases goes.1.1),_,_,rfl,by simp⟩
    | false =>
      obtain ⟨buffer,ran,copied⟩ := read_sector ((after_first s i).trans state) sector
      have slot : ∀ k < 16, probe s.disk (sector*512 + 32*k) = probe buffer (k*32) := by
        intro k bound
        rw [Nat.mul_comm 32 k]
        exact (probe_copied here copied bound).symm
      rw [ran,Driver.after_after]
      dsimp only
      rw [if_neg (by decide)]
      rcases scanSector_spec probe buffer 0 16 with ⟨skipped,skips⟩ | ⟨j,found,other,_,inside,_⟩
      · obtain ⟨idx,result⟩ : ∃ idx, scanSector probe buffer 0 16 = (.skip,idx) := ⟨_,Prod.ext skipped rfl⟩
        have passed : ∀ k < 16, probe s.disk (sector*512 + 32*k) = .skip :=
          fun k bound => (slot k bound).trans (skips k (Nat.zero_le k) bound)
        rw [result]
        rcases ih (i+1) (sector+1) with ⟨goes,ran⟩ | ⟨stays,ended⟩
        · refine .inl ⟨⟨⟨rfl,passed⟩,goes⟩,?_⟩
          rw [ran,Nat.add_assoc,Nat.add_comm 1 left]
        · exact .inr ⟨fun goes => stays goes.2,ended⟩
      · refine .inr ⟨fun goes => other ((slot j (by omega)).symm.trans (goes.1.2 j (by omega))),?_⟩
        rw [found]
        cases outcome : probe buffer (j*32) with
        | skip => exact absurd outcome other
        | stop => exact ⟨_,_,rfl,by simp⟩
        | hit => exact ⟨_,_,rfl,by simp⟩

theorem rootListProbe_stop : rootListProbe m a = .stop ↔ m a = 0 := by
  rw [rootListProbe]
  by_cases ended : m a = 0
  · rw [if_pos ended]
    exact ⟨fun _ => ended,fun _ => rfl⟩
  · rw [if_neg ended]
    constructor
    · intro stop
      split at stop
      · cases stop
      · split at stop <;> cases stop
    · exact fun zero => absurd zero ended

theorem dirListProbe_stop : dirListProbe m a = .stop ↔ m a = 0 := by
  rw [← rootListProbe_stop,dirListProbe]
  cases rootListProbe m a with
  | stop => exact ⟨fun _ => rfl,fun _ => rfl⟩
  | skip => exact ⟨fun same => (by cases same),fun same => (by cases same)⟩
  | hit =>
    dsimp only
    split <;> exact ⟨fun same => (by cases same),fun same => (by cases same)⟩

theorem listSector_whole {probe : Memory → Nat → Probe} (ends : ∀ m a, probe m a = .stop ↔ m a = 0) (buffer : Memory)
    (idx left : Nat) :
    (listSector probe buffer idx left).2 = false ↔ ∀ k, idx ≤ k → k < idx + left → buffer (k*32) ≠ 0 := by
  induction left generalizing idx with
  | zero => exact ⟨fun _ k low high => by omega,fun _ => rfl⟩
  | succ left ih =>
    have next : (∀ k, idx + 1 ≤ k → k < idx + 1 + left → buffer (k*32) ≠ 0) → buffer (idx*32) ≠ 0 →
        ∀ k, idx ≤ k → k < idx + (left+1) → buffer (k*32) ≠ 0 := by
      intro rest first k low high
      by_cases here : k = idx
      · rw [here]; exact first
      · exact rest k (by omega) (by omega)
    rw [listSector]
    cases here : probe buffer (idx*32) with
    | stop =>
      refine ⟨fun same => (by cases same),fun whole => ?_⟩
      exact absurd ((ends _ _).mp here) (whole idx (Nat.le_refl _) (by omega))
    | skip =>
      have first : buffer (idx*32) ≠ 0 := fun zero => (by cases here.symm.trans ((ends _ _).mpr zero))
      exact ⟨fun same => next ((ih (idx+1)).mp same) first,
        fun whole => (ih (idx+1)).mpr (fun k low high => whole k (by omega) (by omega))⟩
    | hit =>
      have first : buffer (idx*32) ≠ 0 := fun zero => (by cases here.symm.trans ((ends _ _).mpr zero))
      exact ⟨fun same => next ((ih (idx+1)).mp same) first,
        fun whole => (ih (idx+1)).mpr (fun k low high => whole k (by omega) (by omega))⟩

theorem listSectors_goes {probe : Memory → Nat → Probe} (ends : ∀ m a, probe m a = .stop ↔ m a = 0) (s : Driver)
    (i sector left : Nat) :
    (Goes s i left sector (fun a => s.disk a ≠ 0) ∧
      ∃ lines, listSectors probe (s.after i) sector left = (none,lines,s.after (i+left))) ∨
    (¬ Goes s i left sector (fun a => s.disk a ≠ 0) ∧
      ∃ r lines t, listSectors probe (s.after i) sector left = (some r,lines,t)) := by
  induction left generalizing i sector with
  | zero => exact .inl ⟨⟨fun j bound => absurd bound (Nat.not_lt_zero j),fun k bound => by omega⟩,[],rfl⟩
  | succ left ih =>
    rw [goes_succ,listSectors]
    cases state : s.faults i with
    | true =>
      rw [read_fault ((after_first s i).trans state)]
      exact .inr ⟨fun goes => (by cases goes.1.1),-1,[],_,rfl⟩
    | false =>
      obtain ⟨buffer,ran,copied⟩ := read_sector ((after_first s i).trans state) sector
      have slot : ∀ k < 16, s.disk (sector*512 + 32*k) = buffer (k*32) := by
        intro k bound
        rw [copied _ (by omega),Nat.mul_comm 32 k]
        rfl
      rw [ran,Driver.after_after]
      dsimp only
      rw [if_neg (by decide)]
      have whole := listSector_whole ends buffer 0 16
      generalize listSector probe buffer 0 16 = listed at whole ⊢
      obtain ⟨lines,ended⟩ := listed
      cases ended with
      | true =>
        refine .inr ⟨fun goes => ?_,0,lines,_,rfl⟩
        have all : ∀ k, 0 ≤ k → k < 0 + 16 → buffer (k*32) ≠ 0 :=
          fun k _ bound => (slot k (by omega)) ▸ goes.1.2 k (by omega)
        cases whole.mpr all
      | false =>
        have passed : ∀ k < 16, s.disk (sector*512 + 32*k) ≠ 0 :=
          fun k bound => (slot k bound) ▸ whole.mp rfl k (Nat.zero_le k) (by omega)
        rcases ih (i+1) (sector+1) with ⟨goes,more,ran⟩ | ⟨stays,r,more,t,ran⟩
        · rw [ran,Nat.add_assoc,Nat.add_comm 1 left]
          exact .inl ⟨⟨⟨rfl,passed⟩,goes⟩,_,rfl⟩
        · rw [ran]
          exact .inr ⟨fun goes => stays goes.2,r,_,t,rfl⟩

def searchRun (probe : Memory → Nat → Probe) (x : Driver × Nat) (fuel : Nat) : Option (Search × Driver) :=
  searchChain probe x.1 x.2 fuel

def listRun (x : Driver × Nat × List Line) (fuel : Nat) : Option (Int × List Line × Driver) := listChain x.1 x.2.1 x.2.2 fuel

theorem search_visits {probe : Memory → Nat → Probe} (here : Local probe) (s : Driver) :
    Visits s s.bootSector.sectorsPerCluster (fun c => ∀ k < 16*s.bootSector.sectorsPerCluster, probe s.disk (s.dataByte c + 32*k) = .skip)
      (searchRun probe) (fun x i c => x = (s.after i,c)) := by
  have start : ∀ c, s.dataByte c = s.clusterSector c*512 := fun c => by unfold Mount.dataByte; rfl
  refine ⟨fun x => rfl,?_,?_,?_⟩
  · rintro _ i c rfl ended
    refine ⟨(.ended,s.after i),fun fuel => ?_⟩
    rw [searchRun,searchChain,if_neg (fun range => not_ends.mpr range ended)]
  · rintro _ i c rfl range clear passes
    rw [start] at passes
    rcases searchCluster_goes here s i (s.clusterSector c) s.bootSector.sectorsPerCluster with ⟨_,ran⟩ | ⟨stays,_⟩
    · refine ⟨(s.after (i + s.bootSector.sectorsPerCluster),s.fat c),fun fuel => ?_,rfl⟩
      have visited : searchCluster probe (s.after i) ((s.after i).clusterSector c) (s.after i).bootSector.sectorsPerCluster = _ := ran
      show searchChain probe (s.after i) c (fuel+1) = _
      rw [searchChain,if_pos (not_ends.mp range),visited]
      rfl
    · exact absurd ⟨clear,passes⟩ stays
  · rintro _ i c rfl range blocked
    rw [start] at blocked
    rcases searchCluster_goes here s i (s.clusterSector c) s.bootSector.sectorsPerCluster with ⟨goes,_⟩ | ⟨_,r,t,ran,other⟩
    · exact absurd ⟨goes.clear,goes.slots⟩ blocked
    · refine ⟨(r,t),fun fuel => ?_⟩
      have visited : searchCluster probe (s.after i) ((s.after i).clusterSector c) (s.after i).bootSector.sectorsPerCluster = _ := ran
      show searchChain probe (s.after i) c (fuel+1) = _
      rw [searchChain,if_pos (not_ends.mp range),visited]
      cases r with
      | further => exact absurd rfl other
      | ended => rfl
      | found => rfl

theorem list_visits (s : Driver) :
    Visits s s.bootSector.sectorsPerCluster (fun c => ∀ k < 16*s.bootSector.sectorsPerCluster, s.disk (s.dataByte c + 32*k) ≠ 0)
      listRun (fun x i c => x.1 = s.after i ∧ x.2.1 = c) := by
  have start : ∀ c, s.dataByte c = s.clusterSector c*512 := fun c => by unfold Mount.dataByte; rfl
  refine ⟨fun x => rfl,?_,?_,?_⟩
  · rintro ⟨_,c,printed⟩ i _ ⟨rfl,rfl⟩ ended
    refine ⟨(0,printed,s.after i),fun fuel => ?_⟩
    rw [listRun,listChain,if_neg (fun range => not_ends.mpr range ended)]
  · rintro ⟨_,c,printed⟩ i _ ⟨rfl,rfl⟩ range clear passes
    rw [start] at passes
    rcases listSectors_goes (fun _ _ => dirListProbe_stop) s i (s.clusterSector c) s.bootSector.sectorsPerCluster with
      ⟨_,lines,ran⟩ | ⟨stays,_⟩
    · refine ⟨(s.after (i + s.bootSector.sectorsPerCluster),s.fat c,printed ++ lines),fun fuel => ?_,rfl,rfl⟩
      have visited : listSectors dirListProbe (s.after i) ((s.after i).clusterSector c) (s.after i).bootSector.sectorsPerCluster = _ := ran
      show listChain (s.after i) c printed (fuel+1) = _
      rw [listChain,if_pos (not_ends.mp range),visited]
      rfl
    · exact absurd ⟨clear,passes⟩ stays
  · rintro ⟨_,c,printed⟩ i _ ⟨rfl,rfl⟩ range blocked
    rw [start] at blocked
    rcases listSectors_goes (fun _ _ => dirListProbe_stop) s i (s.clusterSector c) s.bootSector.sectorsPerCluster with
      ⟨goes,_⟩ | ⟨_,r,lines,t,ran⟩
    · exact absurd ⟨goes.clear,goes.slots⟩ blocked
    · refine ⟨(r,printed ++ lines,t),fun fuel => ?_⟩
      have visited : listSectors dirListProbe (s.after i) ((s.after i).clusterSector c) (s.after i).bootSector.sectorsPerCluster = _ := ran
      show listChain (s.after i) c printed (fuel+1) = _
      rw [listChain,if_pos (not_ends.mp range),visited]

-- The clusters in use. Freeing one of them lowers their number.
def used (m : Memory) : Finset Nat := (Finset.range 0xFF8).filter (fun d => getFatEntry m d ≠ 0)

theorem used_le (m : Memory) : (used m).card ≤ 0xFF8 := by
  have bound := Finset.card_filter_le (Finset.range 0xFF8) (fun d => getFatEntry m d ≠ 0)
  rwa [Finset.card_range] at bound

theorem used_free_subset (m : Memory) (c : Nat) : used (setFatEntry m c 0) ⊆ used m := by
  intro d member
  obtain ⟨range,nonzero⟩ := Finset.mem_filter.mp member
  by_cases same : d = c
  · rw [same,get_set_same] at nonzero
    exact absurd rfl nonzero
  · rw [get_set_other m 0 same] at nonzero
    exact Finset.mem_filter.mpr ⟨range,nonzero⟩

theorem used_free_lt {m : Memory} (small : c < 0xFF8) (nonzero : getFatEntry m c ≠ 0) :
    (used (setFatEntry m c 0)).card < (used m).card := by
  refine Finset.card_lt_card (Finset.ssubset_iff_subset_ne.mpr ⟨used_free_subset m c,fun same => ?_⟩)
  have member : c ∈ used m := Finset.mem_filter.mpr ⟨Finset.mem_range.mpr small,nonzero⟩
  rw [← same] at member
  have still := (Finset.mem_filter.mp member).2
  rw [get_set_same] at still
  exact still rfl

-- A freed cluster that is met again reads 0, which ends the walk of fat12_delete.
theorem freeChain_comes (m : Memory) (c : Nat) : freeChain m c 0x1000 ≠ none := by
  let measure : Memory × Nat → Nat := fun x => (used x.1).card + if 2 ≤ x.2 ∧ x.2 < 0xFF8 then 1 else 0
  have bound : measure (m,c) < 0x1000 := by
    have few := used_le m
    show (used m).card + (if 2 ≤ c ∧ c < 0xFF8 then 1 else 0) < 0x1000
    split <;> omega
  refine comes_within (fun x fuel => freeChain x.1 x.2 fuel) (fun _ => True) measure ?_ trivial bound
  rintro ⟨m,c⟩ _
  by_cases goes : 2 ≤ c ∧ c < 0xFF8
  · refine .inr ⟨(setFatEntry m c 0,getFatEntry m c),fun fuel => ?_,trivial,?_⟩
    · show freeChain m c (fuel+1) = _
      rw [freeChain,if_pos goes]
    · show (used (setFatEntry m c 0)).card + (if 2 ≤ getFatEntry m c ∧ getFatEntry m c < 0xFF8 then 1 else 0) <
        (used m).card + (if 2 ≤ c ∧ c < 0xFF8 then 1 else 0)
      rw [if_pos goes]
      by_cases free : getFatEntry m c = 0
      · have subset := Finset.card_le_card (used_free_subset m c)
        rw [if_neg (by omega)]
        omega
      · have fewer := used_free_lt goes.2 free
        split <;> omega
  · refine .inl ⟨m,fun fuel => ?_⟩
    show freeChain m c (fuel+1) = _
    rw [freeChain,if_neg goes]

theorem delete_comes (s : Driver) (f : List UInt8) : fat12Delete s f ≠ none := by
  unfold fat12Delete
  generalize scanRoot (editProbe (name83 f)) s 0 s.rootSectors = outcome
  obtain ⟨result,t⟩ := outcome
  cases result with
  | found sector idx buffer =>
    dsimp only
    cases freed : freeChain t.fatBuffer (firstClusterLow buffer (idx*32)) 0x1000 with
    | none => exact absurd freed (freeChain_comes _ _)
    | some m =>
      dsimp only
      split
      · exact Option.some_ne_none _
      · split <;> exact Option.some_ne_none _
  | missing => exact Option.some_ne_none _
  | error => exact Option.some_ne_none _

-- Every round of fat12_read counts at least one byte, as long as the rounding up to whole
-- sectors does not overflow.
theorem readFrom_comes (cluster : 0 < s.bootSector.sectorsPerCluster) (buffer : Memory) (word : size + 511 < 2^32)
    (fuel : size - b < n) : readFrom s buffer size b c n ≠ none := by
  refine comes_within (x := (s,buffer,b,c)) (fun x fuel => readFrom x.1 x.2.1 size x.2.2.1 x.2.2.2 fuel)
    (fun x => 0 < x.1.bootSector.sectorsPerCluster) (fun x => size - x.2.2.1) ?_ cluster fuel
  clear cluster fuel
  rintro ⟨s,buffer,b,c⟩ cluster
  dsimp only at cluster ⊢
  by_cases goes : b < size ∧ 2 ≤ c ∧ c < 0xFF8
  · have long := runFrom_le s.fatBuffer c (getFatEntry s.fatBuffer c) 1 250
    generalize ran : runFrom s.fatBuffer c (getFatEntry s.fatBuffer c) 1 250 = run at long
    obtain ⟨runLen,next⟩ := run
    have sectors : 0 < runLen*s.bootSector.sectorsPerCluster := Nat.mul_pos long cluster
    have round : ∀ fuel, readFrom s buffer size b c (fuel+1) = _ := fun fuel => by
      rw [readFrom,if_pos goes,ran]
    dsimp only at round
    generalize asked : (if runLen*s.bootSector.sectorsPerCluster > (size - b + 511) % 2^32 / 512 then (size - b + 511) % 2^32 / 512
      else runLen*s.bootSector.sectorsPerCluster) = total at round
    have positive : 0 < total := by
      rw [← asked]
      split <;> omega
    obtain ⟨r,out,j,read⟩ := fdc_read_after s (s.clusterSector c) (total % 2^8) buffer b
    simp only [read] at round
    by_cases failed : r ≠ 0
    · exact .inl ⟨_,fun fuel => (round fuel).trans (if_pos failed)⟩
    · refine .inr ⟨(s.after j,out,_,next),fun fuel => (round fuel).trans (if_neg failed),cluster,?_⟩
      dsimp only
      split <;> omega
  · refine .inl ⟨(intOf b,buffer,s),fun fuel => ?_⟩
    show readFrom s buffer size b c (fuel+1) = _
    rw [readFrom,if_neg goes]

def FindReturns (s : Driver) (dirCluster : Nat) (name : List UInt8) : Prop :=
  dirCluster = 0 ∨ ∃ fuel, searchChain (openProbe (name83 name)) s dirCluster fuel ≠ none

def ListReturns (s : Driver) (cluster : Nat) : Prop := ∃ fuel, fat12ListDir s cluster fuel ≠ none

theorem openProbe_passes : openProbe name m a = .skip ↔ m a ≠ 0 ∧ entryName m a ≠ name := by
  rw [openProbe]
  by_cases zero : m a = 0
  · simp [zero]
  · rw [if_neg zero,if_neg (signed_ne _)]
    by_cases same : entryName m a = name
    · simp [same]
    · simp [same,zero]

section
variable {s : Driver}

theorem find_returns_iff (cluster : 0 < s.bootSector.sectorsPerCluster) (c : Nat) (name : List UInt8) :
    FindReturns s c name ↔ (∃ n, Ends (s.fat^[n] c) ∨ ∃ k < 16*s.bootSector.sectorsPerCluster,
      s.disk (s.dataByte (s.fat^[n] c) + 32*k) = 0 ∨ entryName s.disk (s.dataByte (s.fat^[n] c) + 32*k) = name83 name) ∨
        ∃ i, s.faults i = true := by
  have halts := (search_visits (openProbe_local (name83 name)) s).halts_iff cluster (x := (s,c)) (c := c) rfl
  have blocked : ∀ a, ¬ openProbe (name83 name) s.disk a = .skip ↔ s.disk a = 0 ∨ entryName s.disk a = name83 name := by
    intro a
    rw [openProbe_passes,not_and_or,not_not,not_not]
  simp only [not_forall,exists_prop,blocked] at halts
  by_cases root : c = 0
  · subst root
    exact ⟨fun _ => .inl ⟨0,.inl (.inl Nat.zero_lt_two)⟩,fun _ => .inl rfl⟩
  · exact (or_iff_right root).trans halts

theorem list_returns_iff (cluster : 0 < s.bootSector.sectorsPerCluster) (c : Nat) :
    ListReturns s c ↔ (∃ n, Ends (s.fat^[n] c) ∨ ∃ k < 16*s.bootSector.sectorsPerCluster,
      s.disk (s.dataByte (s.fat^[n] c) + 32*k) = 0) ∨ ∃ i, s.faults i = true := by
  have halts := (list_visits s).halts_iff cluster (x := (s,c,listingHeader "Directory contents:")) (c := c) ⟨rfl,rfl⟩
  simp only [not_forall,exists_prop,not_not] at halts
  by_cases root : c = 0
  · subst root
    exact ⟨fun _ => .inl ⟨0,.inl (.inl Nat.zero_lt_two)⟩,fun _ => ⟨0,Option.some_ne_none _⟩⟩
  · rw [← halts]
    unfold ListReturns fat12ListDir
    simp only [if_neg root]
    rfl

-- The loops over data come back on any disk. The directory walks come back when the chain
-- leads out of range or to a slot that ends them, or when a disk call fails.
theorem driver_calls_return (accepted : Accepted s.toMount) :
    (∀ file buffer size, fat12Write s file buffer size ≠ none) ∧
    (∀ f, fat12Delete s f ≠ none) ∧
    (∀ file buffer size, min size file.size + 511 < 2^32 → fat12Read s file buffer size ≠ none) ∧
    (∀ c name, FindReturns s c name ↔ (∃ n, Ends (s.fat^[n] c) ∨ ∃ k < 16*s.bootSector.sectorsPerCluster,
      s.disk (s.dataByte (s.fat^[n] c) + 32*k) = 0 ∨ entryName s.disk (s.dataByte (s.fat^[n] c) + 32*k) = name83 name) ∨
        ∃ i, s.faults i = true) ∧
    (∀ c, ListReturns s c ↔ (∃ n, Ends (s.fat^[n] c) ∨ ∃ k < 16*s.bootSector.sectorsPerCluster,
      s.disk (s.dataByte (s.fat^[n] c) + 32*k) = 0) ∨ ∃ i, s.faults i = true) := by
  have cluster := accepted.layout.cluster
  refine ⟨?_,delete_comes s,?_,find_returns_iff cluster,list_returns_iff cluster⟩
  · intro file buffer size
    exact writeFrom_comes cluster buffer (Nat.zero_le size) (by omega)
  · intro file buffer size word
    have limited : (if size > file.size then file.size else size) = min size file.size := by
      split <;> omega
    unfold fat12Read
    rw [limited]
    exact readFrom_comes cluster buffer word (by omega)

end

def selfLinked : Driver := ⟨floppy,setFatEntry (fun _ => 0) 2 2,fun _ => 0x78,fun _ => false⟩

theorem selfLinked_chain (n : Nat) : selfLinked.fat^[n] 2 = 2 := Function.iterate_fixed (by decide +kernel) n

theorem self_linked_forever : Accepted selfLinked.toMount ∧ ¬ ListReturns selfLinked 2 ∧ ¬ FindReturns selfLinked 2 [0x41] := by
  have cluster : 0 < selfLinked.bootSector.sectorsPerCluster := by decide
  have range : ¬ Ends 2 := not_ends.mpr (by decide)
  have full : ∀ a, selfLinked.disk a ≠ 0 := fun a => (by decide : (0x78 : UInt8) ≠ 0)
  have clear : ¬ ∃ i, selfLinked.faults i = true := by
    rintro ⟨i,fault⟩
    cases fault
  have other : ∀ a, entryName selfLinked.disk a ≠ name83 [0x41] := by
    intro a same
    have first : (0x78 : UInt8) = 0x41 := congrArg (fun xs => xs.getD 0 0) same
    exact absurd first (by decide)
  refine ⟨floppy_accepted,?_,?_⟩
  · rw [list_returns_iff cluster]
    rintro (⟨n,ended | ⟨k,_,zero⟩⟩ | fault)
    · exact range (selfLinked_chain n ▸ ended)
    · exact full _ zero
    · exact clear fault
  · rw [find_returns_iff cluster]
    rintro (⟨n,ended | ⟨k,_,zero | same⟩⟩ | fault)
    · exact range (selfLinked_chain n ▸ ended)
    · exact full _ zero
    · exact other _ same
    · exact clear fault

theorem driver_calls_return_self_linked :
    (∀ buffer, fat12Read selfLinked ⟨fun _ => 0,600,2,0⟩ buffer 600 ≠ none) ∧ fat12Delete selfLinked [0x41] ≠ none := by
  obtain ⟨_,deleted,read,_⟩ := driver_calls_return (s := selfLinked) floppy_accepted
  exact ⟨fun buffer => read ⟨fun _ => 0,600,2,0⟩ buffer 600 (by decide),deleted [0x41]⟩

end SantOS.Fat12
