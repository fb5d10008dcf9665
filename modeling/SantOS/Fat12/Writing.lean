import SantOS.Fat12.Files
import SantOS.Library.FueledLoops

namespace SantOS.Fat12
open ByteMemory LinkedPaths

structure SectorsWritten (s : Driver) (buffer : Memory) (size a w left : Nat) (r : Int) (w' : Nat) (t : Driver) : Prop where
  mount : t.toMount = s.toMount
  table : t.fatBuffer = s.fatBuffer
  outside : ∀ x, (x < a ∨ a + 512*left ≤ x) → t.disk x = s.disk x
  faults : ∃ j, t.faults = (s.after j).faults
  result : (r = -1 ∧ ¬ s.Clear) ∨
    (r = 0 ∧ w' = min size (w + 512*left) ∧ ∀ i < 512*left, w + i < size → t.disk (a+i) = buffer (w+i))

set_option maxRecDepth 2000 in
theorem writeCluster_spec (s : Driver) (buffer : Memory) (size sector i w left : Nat) (le : w ≤ size) :
    SectorsWritten s buffer size (512*(sector+i)) w left (writeCluster s buffer size sector i w left).1
      (writeCluster s buffer size sector i w left).2.1 (writeCluster s buffer size sector i w left).2.2 := by
  induction left generalizing s i w with
  | zero => exact ⟨rfl,rfl,fun _ _ => rfl,⟨0,rfl⟩,.inr ⟨rfl,(Nat.min_eq_right le).symm,fun j bound => by omega⟩⟩
  | succ left ih =>
    rw [writeCluster]
    by_cases more : w < size
    · rw [if_pos more]
      generalize amount : (if size - w > 512 then 512 else size - w) = toWrite
      have someBytes : toWrite ≤ size - w ∧ toWrite ≤ 512 ∧ (toWrite = 512 ∨ toWrite = size - w) := by
        rw [← amount]
        split <;> omega
      dsimp only
      cases state : s.faults 0 with
      | true =>
        rw [write_fault state]
        refine ⟨rfl,rfl,fun _ _ => rfl,⟨1,rfl⟩,.inl ⟨rfl,?_⟩⟩
        intro clear
        rw [clear 0] at state
        cases state
      | false =>
        generalize filled : (fun j => if j < toWrite then buffer (w+j) else 0 : Memory) = sectorBytes
        rw [write_clear state]
        simp only [ne_eq,not_true_eq_false,if_false]
        generalize wrote : ({s.after 1 with disk := _} : Driver) = u
        have mount : u.toMount = s.toMount := by rw [← wrote]; rfl
        have fat : u.fatBuffer = s.fatBuffer := by rw [← wrote]; rfl
        have faults : u.faults = (s.after 1).faults := by rw [← wrote]
        have away : ∀ x, (x < 512*(sector+i) ∨ 512*(sector+(i+1)) ≤ x) → u.disk x = s.disk x := by
          intro x outside
          rw [← wrote]
          exact sector_blit_outside s.disk (fun o => sectorBytes (0+o)) (by rw [Nat.mul_comm (sector+i) 512]; omega)
        have here : ∀ o < toWrite, u.disk (512*(sector+i) + o) = buffer (w+o) := by
          intro o bound
          have small : o < 512 := by omega
          rw [← wrote,Nat.mul_comm 512]
          refine (sector_blit_inside s.disk (fun o => sectorBytes (0+o)) small).trans ?_
          rw [Nat.zero_add,← filled]
          exact if_pos bound
        have rest := ih u (i+1) (w+toWrite) (by omega)
        refine ⟨rest.mount.trans mount,rest.table.trans fat,?_,shift_trans ⟨1,faults⟩ rest.faults,?_⟩
        · intro x outside
          rw [rest.outside x (by omega),away x (by omega)]
        · rcases rest.result with ⟨failed,unclear⟩ | ⟨zero,total,copied⟩
          · exact .inl ⟨failed,fun clear => unclear (clear.shift ⟨1,faults⟩)⟩
          · refine .inr ⟨zero,by omega,?_⟩
            intro o bound inside
            by_cases now : o < 512
            · rw [rest.outside _ (by omega)]
              exact here o (by omega)
            · have later := copied (o-512) (by omega) (by omega)
              rw [show 512*(sector+(i+1)) + (o-512) = 512*(sector+i) + o by omega,
                show w + toWrite + (o-512) = w + o by omega] at later
              exact later
    · rw [if_neg more]
      refine ⟨rfl,rfl,fun _ _ => rfl,⟨0,rfl⟩,.inr ⟨rfl,?_,fun j _ inside => by omega⟩⟩
      exact le.antisymm (Nat.le_of_not_lt more) |>.trans (Nat.min_eq_left (by omega)).symm

def Holds (s : Driver) (buffer : Memory) (size : Nat) : Nat → List Nat → Prop
  | w,[] => size ≤ w
  | w,c::cs => (∀ i < s.clusterBytes, w + i < size → s.disk (s.dataByte c + i) = buffer (w+i)) ∧
    Holds s buffer size (w + s.clusterBytes) cs

theorem holds_done {s : Driver} (done : size ≤ w) : Holds s buffer size w cs := by
  induction cs generalizing w with
  | nil => exact done
  | cons c cs ih => exact ⟨fun i _ inside => by omega,ih (by omega)⟩

theorem Holds.congr {s t : Driver} (holds : Holds s buffer size w cs) (mount : t.toMount = s.toMount)
    (same : ∀ c ∈ cs, ∀ i < s.clusterBytes, t.disk (s.dataByte c + i) = s.disk (s.dataByte c + i)) :
    Holds t buffer size w cs := by
  have place : ∀ c, t.dataByte c = s.dataByte c := fun c => congrArg (fun v => Mount.dataByte v c) mount
  have length : t.clusterBytes = s.clusterBytes := congrArg Mount.clusterBytes mount
  induction cs generalizing w with
  | nil => exact holds
  | cons c cs ih =>
    obtain ⟨first,rest⟩ := holds
    refine ⟨?_,?_⟩
    · intro i bound inside
      rw [length] at bound
      rw [place,same c (List.mem_cons_self ..) i bound]
      exact first i bound inside
    · rw [length]
      exact ih rest (fun d member => same d (List.mem_cons_of_mem _ member))

-- The chain together with free clusters of the volume has room for size bytes.
def Room (s : Driver) (cs : List Nat) (size : Nat) : Prop :=
  ∃ free : List Nat, free.Nodup ∧ (∀ c ∈ free, s.InVolume c ∧ s.fat c = 0) ∧
    size ≤ (cs.length + free.length)*s.clusterBytes

-- The chain from c on was cs and is now cs ++ fresh; nothing else above the FAT changed.
structure Extended (s t : Driver) (c : Nat) (cs fresh : List Nat) : Prop where
  mount : t.toMount = s.toMount
  path : Path t.fat (0xFF8 ≤ ·) c (cs ++ fresh)
  free : ∀ d ∈ fresh, s.fat d = 0 ∧ 2 ≤ d ∧ d < 0xFF0
  table : ∀ d, d ∉ cs ++ fresh → t.fat d = s.fat d
  disk : ∀ x, s.rootByte ≤ x → (∀ d ∈ cs ++ fresh, x < s.dataByte d ∨ s.dataByte d + s.clusterBytes ≤ x) →
    t.disk x = s.disk x
  faults : ∃ j, t.faults = (s.after j).faults

-- ok stands for the absence of faults.
structure Written (ok : Prop) (s : Driver) (buffer : Memory) (size w c : Nat) (cs : List Nat) (r : Int) (t : Driver)
    (fresh : List Nat) : Prop extends Extended s t c cs fresh where
  result : (r = -1 ∧ (ok → ¬ Room s cs (size - w))) ∨ (r = intOf size ∧ Holds t buffer size w (cs ++ fresh))
  room : Room s cs (size - w) → ∀ d ∈ fresh, s.InVolume d
  synced : ok → Synced s → Synced t

-- The chain behind its first cluster was written, and before it the first cluster.
theorem Written.cons {u t : Driver} (path : Path u.fat (0xFF8 ≤ ·) c (c::rest)) (real : ∀ d ∈ c::rest, 2 ≤ d)
    (le : w ≤ size) (shape : Geometry u.toMount)
    (here : ∀ i < u.clusterBytes, w + i < size → u.disk (u.dataByte c + i) = buffer (w+i))
    (behind : Written ok u buffer size (min size (w + u.clusterBytes)) (u.fat c) rest r t fresh) :
    Written ok u buffer size w c (c::rest) r t fresh := by
  have used : u.fat c ≠ 0 := by
    cases rest with
    | nil =>
      have ends := Path.nil_iff.mp path.tail
      omega
    | cons d rest =>
      have link : d = u.fat c := path.tail.head
      have two := real d (by simp)
      omega
  have freshOther : ∀ d ∈ fresh, d ≠ c := by
    rintro d member rfl
    exact used (behind.free d member).1
  have restOther : ∀ d ∈ rest, d ≠ c := by
    rintro d member rfl
    exact (List.nodup_cons.mp path.nodup).1 member
  have other : ∀ d ∈ rest ++ fresh, d ≠ c ∧ 2 ≤ d := by
    intro d member
    rcases List.mem_append.mp member with old | new
    · exact ⟨restOther d old,real d (List.mem_cons_of_mem _ old)⟩
    · exact ⟨freshOther d new,(behind.free d new).2.1⟩
  have running : ¬ 0xFF8 ≤ c := path.running (List.mem_cons_self ..)
  have link : t.fat c = u.fat c := behind.table c (fun member => (other c member).1 rfl)
  have length : t.clusterBytes = u.clusterBytes := congrArg Mount.clusterBytes behind.mount
  have place : t.dataByte c = u.dataByte c := congrArg (fun v => Mount.dataByte v c) behind.mount
  have two := real c (List.mem_cons_self ..)
  have smaller : Room u (c::rest) (size - w) → Room u rest (size - min size (w + u.clusterBytes)) := by
    rintro ⟨free,distinct,available,enough⟩
    refine ⟨free,distinct,available,?_⟩
    have split : ((c::rest).length + free.length)*u.clusterBytes =
        (rest.length + free.length)*u.clusterBytes + u.clusterBytes := by
      rw [List.length_cons]; ring
    omega
  refine ⟨⟨behind.mount,?_,behind.free,?_,?_,behind.faults⟩,?_,?_,behind.synced⟩
  · rw [List.cons_append]
    refine .cons running ?_
    rw [link]
    exact behind.path
  · intro d outside
    exact behind.table d (fun member => outside (List.mem_cons_of_mem _ member))
  · intro x low outside
    exact behind.disk x low (fun d member => outside d (List.mem_cons_of_mem _ member))
  · rcases behind.result with ⟨failed,cause⟩ | ⟨done,holds⟩
    · exact .inl ⟨failed,fun clear room => cause clear (smaller room)⟩
    · refine .inr ⟨done,?_,?_⟩
      · intro i bound inside
        rw [length] at bound
        have above := shape.root_before_data c
        rw [place,behind.disk _ (by omega) ?_]
        · exact here i bound inside
        · intro d member
          obtain ⟨different,two'⟩ := other d member
          rcases Nat.lt_or_gt_of_ne different with less | more
          · have apart := u.data_apart two' less
            omega
          · have apart := u.data_apart two more
            omega
      · rw [length]
        rcases Nat.le_total size (w + u.clusterBytes) with all | part
        · exact holds_done all
        · rw [Nat.min_eq_right part] at holds
          exact holds
  · intro room
    exact behind.room (smaller room)

structure ClusterWritten (s : Driver) (buffer : Memory) (size c w : Nat) (r : Int) (w' : Nat) (u : Driver) : Prop where
  mount : u.toMount = s.toMount
  table : u.fatBuffer = s.fatBuffer
  outside : ∀ x, (x < s.dataByte c ∨ s.dataByte c + s.clusterBytes ≤ x) → u.disk x = s.disk x
  faults : ∃ j, u.faults = (s.after j).faults
  result : (r = -1 ∧ ¬ s.Clear) ∨ (r = 0 ∧ w' = min size (w + u.clusterBytes) ∧
    ∀ i < u.clusterBytes, w + i < size → u.disk (u.dataByte c + i) = buffer (w+i))

theorem cluster_written (s : Driver) (buffer : Memory) (c : Nat) (le : w ≤ size) :
    ∃ r w' u, writeCluster s buffer size (s.clusterSector c) 0 w s.bootSector.sectorsPerCluster = (r,w',u) ∧
      ClusterWritten s buffer size c w r w' u := by
  have sectors := writeCluster_spec s buffer size (s.clusterSector c) 0 w s.bootSector.sectorsPerCluster le
  generalize writeCluster s buffer size (s.clusterSector c) 0 w s.bootSector.sectorsPerCluster = outcome at sectors
  obtain ⟨r,w',u⟩ := outcome
  have begins : 512*(s.clusterSector c + 0) = s.dataByte c := by unfold Mount.dataByte; omega
  have length : 512*s.bootSector.sectorsPerCluster = s.clusterBytes := by unfold Mount.clusterBytes; omega
  rw [begins] at sectors
  have outside := sectors.outside
  have result := sectors.result
  rw [length] at outside result
  refine ⟨r,w',u,rfl,sectors.mount,sectors.table,outside,sectors.faults,?_⟩
  have mount : u.toMount = s.toMount := sectors.mount
  rw [mount]
  exact result

theorem ClusterWritten.fat (wrote : ClusterWritten s buffer size c w r w' u) (d : Nat) : u.fat d = s.fat d :=
  congrArg (fun m => getFatEntry m d) wrote.table

theorem ClusterWritten.synced (wrote : ClusterWritten s buffer size c w r w' u) (shape : Geometry s.toMount)
    (synced : Synced s) : Synced u := by
  intro i bound
  have before := shape.fat_before_root
  have above := shape.root_before_data c
  have inside : i < s.bootSector.sectorsPerFat*512 := by rw [← wrote.mount]; exact bound
  rw [wrote.mount,wrote.table,wrote.outside _ (.inl (by omega))]
  exact synced i inside

theorem Written.after_cluster {s u t : Driver} (written : Written ok u buffer size w c (c::rest) r t fresh)
    (wrote : ClusterWritten s buffer size c w r' w' u) (shape : Geometry s.toMount) :
    Written ok s buffer size w c (c::rest) r t fresh := by
  have mount : u.toMount = s.toMount := wrote.mount
  have room : Room s (c::rest) (size - w) → Room u (c::rest) (size - w) := by
    rintro ⟨free,distinct,available,enough⟩
    refine ⟨free,distinct,?_,by rw [mount]; exact enough⟩
    intro d member
    rw [mount,wrote.fat]
    exact available d member
  refine ⟨⟨written.mount.trans mount,written.path,?_,?_,?_,shift_trans wrote.faults written.faults⟩,?_,?_,?_⟩
  · intro d member
    rw [← wrote.fat]
    exact written.free d member
  · intro d other
    rw [written.table d other,wrote.fat]
  · intro x low away
    have later := written.disk x
    rw [mount] at later
    rw [later low away,wrote.outside x (away c (by simp))]
  · rcases written.result with ⟨failed,cause⟩ | done
    · exact .inl ⟨failed,fun clear enough => cause clear (room enough)⟩
    · exact .inr done
  · intro enough
    have placed := written.room (room enough)
    rw [mount] at placed
    exact placed
  · intro clear start
    exact written.synced clear (wrote.synced shape start)

structure Linked (u v : Driver) (c d : Nat) : Prop where
  mount : v.toMount = u.toMount
  table : v.fatBuffer = setFatEntry (setFatEntry u.fatBuffer c d) d 0xFFF
  disk : ∀ x, u.rootByte ≤ x → v.disk x = u.disk x
  faults : ∃ j, v.faults = (u.after j).faults

theorem Linked.fat (linked : Linked u v c d) (different : c ≠ d) (small : d < 0xFF0) :
    v.fat c = d ∧ v.fat d = 0xFFF ∧ ∀ e, e ≠ c → e ≠ d → v.fat e = u.fat e := by
  unfold Driver.fat
  rw [linked.table]
  refine ⟨?_,?_,?_⟩
  · rw [get_set_other _ _ different,get_set_same]
    omega
  · rw [get_set_same]
  · intro e one two
    rw [get_set_other _ _ two,get_set_other _ _ one]

theorem Linked.paths (linked : Linked u v c d) (different : c ≠ d) (small : d < 0xFF0) (running : ¬ 0xFF8 ≤ c) :
    Path v.fat (0xFF8 ≤ ·) d [d] ∧ Path v.fat (0xFF8 ≤ ·) c [c,d] := by
  obtain ⟨link,last,_⟩ := linked.fat different small
  have behind : Path v.fat (0xFF8 ≤ ·) d [d] := .cons (by omega) (.nil (by rw [last]; decide))
  exact ⟨behind,.cons running (by rw [link]; exact behind)⟩

theorem save_link {u : Driver} (shape : Geometry u.toMount) (c d : Nat) :
    ∃ r v, writeFatTable {u with fatBuffer := setFatEntry (setFatEntry u.fatBuffer c d) d 0xFFF} = (r,v) ∧
      Linked u v c d ∧ ((r = 0 ∧ Synced v) ∨ (r = -1 ∧ ¬ u.Clear)) := by
  have saved := save_table shape (setFatEntry (setFatEntry u.fatBuffer c d) d 0xFFF)
  generalize writeFatTable {u with fatBuffer := setFatEntry (setFatEntry u.fatBuffer c d) d 0xFFF}
    = outcome at saved ⊢
  obtain ⟨r,v⟩ := outcome
  refine ⟨r,v,rfl,?_⟩
  rcases saved.result with ⟨zero,image,_,shift⟩ | ⟨failed,n,_,fault,shift⟩
  · exact ⟨⟨saved.mount,saved.table,saved.disk,⟨_,shift⟩⟩,.inl ⟨zero,image⟩⟩
  · refine ⟨⟨saved.mount,saved.table,saved.disk,⟨_,shift⟩⟩,.inr ⟨failed,fun clear => ?_⟩⟩
    rw [clear n] at fault
    cases fault

theorem found_free {s : Driver} (found : c = findFreeCluster s.fatBuffer) (nonzero : c ≠ 0) :
    2 ≤ c ∧ c < 0xFF0 ∧ s.fat c = 0 := by
  rcases findFreeCluster_spec s.fatBuffer with ⟨zero,_⟩ | ⟨low,high,available,_⟩
  · exact absurd (found.trans zero) nonzero
  · rw [← found] at low high available
    exact ⟨low,high,available⟩

theorem find_free_in_volume {s : Driver} (shape : Geometry s.toMount) (exist : ∃ e, s.InVolume e ∧ s.fat e = 0) :
    s.InVolume (findFreeCluster s.fatBuffer) := by
  obtain ⟨e,member,free⟩ := exist
  have bound := shape.in_volume_lt member
  rcases findFreeCluster_spec s.fatBuffer with ⟨_,none⟩ | ⟨two,_,_,least⟩
  · exact absurd free (none e member.1 bound)
  · refine member.below two ?_
    by_contra late
    exact least e member.1 (by omega) free

theorem Room.free {s : Driver} (room : Room s cs size) (more : cs.length*s.clusterBytes < size) :
    ∃ e, s.InVolume e ∧ s.fat e = 0 := by
  obtain ⟨free,_,available,enough⟩ := room
  cases free with
  | nil =>
    rw [List.length_nil,Nat.add_zero] at enough
    omega
  | cons e free => exact ⟨e,available e (List.mem_cons_self ..)⟩

theorem Room.take {s t : Driver} (room : Room s cs size) (mount : t.toMount = s.toMount)
    (kept : ∀ d, d ≠ c → s.fat d = 0 → t.fat d = 0) (longer : ds.length = cs.length + 1) : Room t ds size := by
  obtain ⟨free,distinct,available,enough⟩ := room
  refine ⟨free.erase c,distinct.erase c,?_,?_⟩
  · intro d member
    obtain ⟨other,old⟩ := (distinct.mem_erase_iff).mp member
    rw [mount]
    exact ⟨(available d old).1,kept d other (available d old).2⟩
  · have shorter : free.length - 1 ≤ (free.erase c).length := by
      rw [List.length_erase]
      split <;> omega
    have more : (cs.length + free.length)*s.clusterBytes ≤ (ds.length + (free.erase c).length)*s.clusterBytes :=
      Nat.mul_le_mul_right _ (by omega)
    rw [mount]
    exact enough.trans more

theorem Linked.room (linked : Linked u v c d) (different : c ≠ d) (small : d < 0xFF0) (used : u.fat c ≠ 0)
    (room : Room u [c] size) : Room v [c,d] size := by
  obtain ⟨_,_,kept⟩ := linked.fat different small
  refine room.take (c := d) linked.mount ?_ rfl
  intro e other zero
  have unused : e ≠ c := fun same => used (same ▸ zero)
  rw [kept e unused other]
  exact zero

theorem Written.link {u v t : Driver} (linked : Linked u v c d) (ends : 0xFF8 ≤ u.fat c) (running : ¬ 0xFF8 ≤ c)
    (available : u.fat d = 0) (two : 2 ≤ d) (small : d < 0xFF0) (least : Room u [c] (size - w) → u.InVolume d)
    (synced : ok → Synced v) (written : Written ok v buffer size w c [c,d] r t fresh) :
    Written ok u buffer size w c [c] r t (d::fresh) := by
  have different : c ≠ d := by
    rintro rfl
    omega
  obtain ⟨_,last,kept⟩ := linked.fat different small
  have freshFree : ∀ e ∈ fresh, u.fat e = 0 ∧ 2 ≤ e ∧ e < 0xFF0 := by
    intro e member
    obtain ⟨zero,range⟩ := written.free e member
    have notC : e ≠ c := by
      rintro rfl
      have link := (linked.fat different small).1
      omega
    have notD : e ≠ d := by
      rintro rfl
      omega
    rw [← kept e notC notD]
    exact ⟨zero,range⟩
  have list : [c] ++ d::fresh = [c,d] ++ fresh := rfl
  have room : Room u [c] (size - w) → Room v [c,d] (size - w) := linked.room different small (by omega)
  refine ⟨⟨written.mount.trans linked.mount,?_,?_,?_,?_,shift_trans linked.faults written.faults⟩,?_,?_,?_⟩
  · rw [list]
    exact written.path
  · intro e member
    rcases List.mem_cons.mp member with rfl | later
    · exact ⟨available,two,small⟩
    · exact freshFree e later
  · intro e outside
    rw [list] at outside
    rw [written.table e outside]
    exact kept e (fun same => outside (by simp [same])) (fun same => outside (by simp [same]))
  · intro x low away
    have later := written.disk x
    rw [linked.mount] at later
    rw [later low away,linked.disk x low]
  · rcases written.result with ⟨failed,cause⟩ | done
    · exact .inl ⟨failed,fun clear enough => cause clear (room enough)⟩
    · exact .inr done
  · intro enough e member
    rcases List.mem_cons.mp member with rfl | later
    · exact least enough
    · have placed := written.room (room enough) e later
      rw [linked.mount] at placed
      exact placed
  · intro clear _
    exact written.synced clear (synced clear)

theorem Written.unchanged {u : Driver} (path : Path u.fat (0xFF8 ≤ ·) c cs)
    (result : (r = -1 ∧ (ok → ¬ Room u cs (size - w))) ∨ (r = intOf size ∧ Holds u buffer size w cs)) :
    Written ok u buffer size w c cs r u [] := by
  refine ⟨⟨rfl,?_,?_,fun _ _ => rfl,fun _ _ _ => rfl,⟨0,rfl⟩⟩,?_,?_,fun _ start => start⟩
  · rw [List.append_nil]
    exact path
  · intro d member
    cases member
  · rw [List.append_nil]
    exact result
  · intro _ d member
    cases member

-- The round that allocates: no cluster is left, the FAT cannot be written, or the loop goes
-- on in the new cluster.
theorem write_link_spec {u : Driver} (shape : Geometry u.toMount) (path : Path u.fat (0xFF8 ≤ ·) c [c]) (two : 2 ≤ c)
    (part : w + u.clusterBytes < size) (clear : ok → u.Clear)
    (here : ∀ i < u.clusterBytes, w + i < size → u.disk (u.dataByte c + i) = buffer (w+i))
    (onward : ∀ {v d}, Geometry v.toMount → Path v.fat (0xFF8 ≤ ·) d [d] → 2 ≤ d → (ok → v.Clear) →
      ∃ r t fresh, writeFrom v buffer size (min size (w + u.clusterBytes)) d n = some (r,t) ∧
        Written ok v buffer size (min size (w + u.clusterBytes)) d [d] r t fresh) :
    ∃ r t fresh, (if findFreeCluster u.fatBuffer = 0 then some (-1,u)
      else match writeFatTable {u with fatBuffer := setFatEntry (setFatEntry u.fatBuffer c
          (findFreeCluster u.fatBuffer)) (findFreeCluster u.fatBuffer) 0xFFF} with
        | (r,v) => if r ≠ 0 then some (-1,v)
          else writeFrom v buffer size (min size (w + u.clusterBytes)) (findFreeCluster u.fatBuffer) n) = some (r,t) ∧
      Written ok u buffer size w c [c] r t fresh := by
  have ends : 0xFF8 ≤ u.fat c := Path.nil_iff.mp path.tail
  have running : ¬ 0xFF8 ≤ c := path.running (List.mem_cons_self ..)
  have least : Room u [c] (size - w) → u.InVolume (findFreeCluster u.fatBuffer) := by
    intro room
    refine find_free_in_volume shape (room.free ?_)
    rw [List.length_singleton,Nat.one_mul]
    omega
  generalize found : findFreeCluster u.fatBuffer = d at least ⊢
  by_cases none : d = 0
  · rw [if_pos none]
    refine ⟨-1,u,[],rfl,.unchanged path (.inl ⟨rfl,fun _ room => ?_⟩)⟩
    have positive := (least room).1
    omega
  · rw [if_neg none]
    obtain ⟨low,high,available⟩ := found_free found.symm none
    have different : c ≠ d := by
      rintro rfl
      omega
    obtain ⟨r,v,saved,linked,result⟩ := save_link shape c d
    rw [saved]
    obtain ⟨pathD,pathV⟩ := linked.paths different high running
    have shapeV : Geometry v.toMount := by rw [linked.mount]; exact shape
    rcases result with ⟨rfl,image⟩ | ⟨rfl,unclear⟩
    · obtain ⟨r,t,fresh,ran,written⟩ := onward shapeV pathD low (fun fine => (clear fine).shift linked.faults)
      have real : ∀ e ∈ [c,d], 2 ≤ e := List.forall_mem_cons.mpr ⟨two,List.forall_mem_singleton.mpr low⟩
      have hereV : ∀ i < v.clusterBytes, w + i < size → v.disk (v.dataByte c + i) = buffer (w+i) := by
        rw [linked.mount]
        intro i bound inside
        have above := shape.root_before_data c
        rw [linked.disk _ (by omega)]
        exact here i bound inside
      have both : Written ok v buffer size w c [c,d] r t fresh := by
        refine Written.cons pathV real (by omega) shapeV hereV ?_
        rw [(linked.fat different high).1,linked.mount]
        exact written
      exact ⟨r,t,d::fresh,ran,both.link linked ends running available low high least (fun _ => image)⟩
    · have failed : Written ok v buffer size w c [c,d] (-1) v [] :=
        .unchanged pathV (.inl ⟨rfl,fun fine => absurd (clear fine) unclear⟩)
      exact ⟨-1,v,[d],rfl,failed.link linked ends running available low high least
        (fun fine => absurd (clear fine) unclear)⟩

theorem writeFrom_spec {s : Driver} (shape : Geometry s.toMount) (path : Path s.fat (0xFF8 ≤ ·) c cs)
    (real : ∀ d ∈ cs, 2 ≤ d) (le : w ≤ size) (start : w < size → cs ≠ []) (clear : ok → s.Clear) (fuel : size - w < n) :
    ∃ r t fresh, writeFrom s buffer size w c n = some (r,t) ∧ Written ok s buffer size w c cs r t fresh := by
  induction n generalizing s w c cs with
  | zero => exact absurd fuel (Nat.not_lt_zero _)
  | succ n ih =>
    rw [writeFrom]
    cases path with
    | nil done =>
      have all : w = size := by
        by_contra part
        exact start (by omega) rfl
      rw [if_neg (by omega),all]
      exact ⟨_,s,[],rfl,.unchanged (.nil done) (.inr ⟨rfl,holds_done (Nat.le_refl _)⟩)⟩
    | @cons _ rest running behind =>
      have path : Path s.fat (0xFF8 ≤ ·) c (c::rest) := .cons running behind
      have two := real c (List.mem_cons_self ..)
      by_cases more : w < size
      · obtain ⟨r,w',u,ran,wrote⟩ := cluster_written s buffer c le
        rw [if_pos ⟨more,two,by omega⟩,ran]
        have pathU : Path u.fat (0xFF8 ≤ ·) c (c::rest) := path.congr (fun d _ => wrote.fat d)
        have bridge : ∀ {r t fresh}, Written ok u buffer size w c (c::rest) r t fresh →
            Written ok s buffer size w c (c::rest) r t fresh := fun written => written.after_cluster wrote shape
        dsimp only
        rcases wrote.result with ⟨rfl,unclear⟩ | ⟨rfl,rfl,here⟩
        · rw [if_pos minus_one]
          exact ⟨-1,u,[],rfl,bridge (.unchanged pathU (.inl ⟨rfl,fun fine => absurd (clear fine) unclear⟩))⟩
        · have shapeU : Geometry u.toMount := by rw [wrote.mount]; exact shape
          have clearU : ok → u.Clear := fun fine => (clear fine).shift wrote.faults
          have positive : 0 < u.clusterBytes := by
            have someSector := shapeU.cluster
            unfold Mount.clusterBytes
            omega
          have next : getFatEntry u.fatBuffer c = u.fat c := rfl
          rw [if_neg (not_not.mpr rfl),next]
          by_cases alloc : min size (w + u.clusterBytes) < size ∧ (u.fat c ≥ 0xFF8 ∨ u.fat c = 0)
          · rw [if_pos alloc]
            have alone : rest = [] := by
              cases rest with
              | nil => rfl
              | cons d rest =>
                have link : d = u.fat c := pathU.tail.head
                have low := real d (by simp)
                have high := path.running (y := d) (by simp)
                omega
            subst alone
            obtain ⟨r,t,fresh,ran,written⟩ := write_link_spec (n := n) shapeU pathU two (by omega) clearU here
              (fun shapeV pathD low clearV => ih shapeV pathD (fun e member => List.mem_singleton.mp member ▸ low)
                (Nat.min_le_left _ _) (fun _ none => by cases none) clearV (by omega))
            exact ⟨r,t,fresh,ran,bridge written⟩
          · rw [if_neg alloc]
            have onward : min size (w + u.clusterBytes) < size → rest ≠ [] := by
              rintro part rfl
              have ends : 0xFF8 ≤ u.fat c := Path.nil_iff.mp pathU.tail
              exact alloc ⟨part,.inl ends⟩
            obtain ⟨r,t,fresh,ran,written⟩ := ih shapeU pathU.tail (fun d member => real d (List.mem_cons_of_mem _ member))
              (Nat.min_le_left _ _) onward clearU (by omega)
            exact ⟨r,t,fresh,ran,bridge (written.cons pathU real le shapeU here)⟩
      · have all : w = size := by omega
        rw [if_neg (fun this => more this.1),all]
        exact ⟨_,s,[],rfl,.unchanged path (.inr ⟨rfl,holds_done (Nat.le_refl _)⟩)⟩

-- The rule for the loop of fat12_write: what each stored cluster and each new link keeps,
-- the whole loop keeps; it need hold from the first stored cluster on only.
theorem writeFrom_preserves (holds : Driver → Prop) {buffer : Memory}
    (cluster : ∀ u b c, b ≤ size → holds u → holds (writeCluster u buffer size (u.clusterSector c) 0 b u.bootSector.sectorsPerCluster).2.2)
    (link : ∀ u c, holds u → 2 ≤ c → findFreeCluster u.fatBuffer ≠ 0 → holds (writeFatTable {u with
      fatBuffer := setFatEntry (setFatEntry u.fatBuffer c (findFreeCluster u.fatBuffer)) (findFreeCluster u.fatBuffer) 0xFFF}).2)
    (le : b ≤ size) (start : ¬ (b < size ∧ 2 ≤ c ∧ c < 0xFF8) → holds s)
    (first : b < size → holds (writeCluster s buffer size (s.clusterSector c) 0 b s.bootSector.sectorsPerCluster).2.2)
    (ran : writeFrom s buffer size b c fuel = some (r,t)) : holds t := by
  induction fuel generalizing s b c with
  | zero => cases ran
  | succ fuel ih =>
    rw [writeFrom] at ran
    split at ran
    · rename_i goes
      have wrote := writeCluster_spec s buffer size (s.clusterSector c) 0 b s.bootSector.sectorsPerCluster le
      have stored := first goes.1
      generalize writeCluster s buffer size (s.clusterSector c) 0 b s.bootSector.sectorsPerCluster = outcome at wrote stored ran
      obtain ⟨r',b',u⟩ := outcome
      dsimp only at stored ran
      split at ran
      · cases ran
        exact stored
      rename_i succeeded
      have within : b' ≤ size := by
        rcases wrote.result with ⟨minus,_⟩ | ⟨_,count,_⟩
        · exact absurd (minus.trans_ne minus_one) succeeded
        · exact count.trans_le (Nat.min_le_left _ _)
      split at ran
      · split at ran
        · cases ran
          exact stored
        · rename_i available
          have linked := link u c stored goes.2.1 available
          generalize writeFatTable _ = outcome at linked ran
          obtain ⟨r',v⟩ := outcome
          dsimp only at linked ran
          split at ran
          · cases ran
            exact linked
          · exact ih within (fun _ => linked) (fun _ => cluster v b' _ within linked) ran
      · exact ih within (fun _ => stored) (fun _ => cluster u b' _ within stored) ran
    · rename_i ended
      cases ran
      exact start ended

-- Every round of fat12_write stores at least one byte.
theorem writeFrom_comes {s : Driver} (cluster : 0 < s.bootSector.sectorsPerCluster) (buffer : Memory) (le : b ≤ size)
    (fuel : size - b < n) :
    writeFrom s buffer size b c n ≠ none := by
  refine FueledLoops.comes_within (x := (s,b,c)) (fun x fuel => writeFrom x.1 buffer size x.2.1 x.2.2 fuel)
    (fun x => 0 < x.1.bootSector.sectorsPerCluster ∧ x.2.1 ≤ size) (fun x => size - x.2.1) ?_ ⟨cluster,le⟩ fuel
  clear cluster le fuel
  rintro ⟨s,b,c⟩ ⟨cluster,le⟩
  dsimp only at cluster le ⊢
  by_cases goes : b < size ∧ 2 ≤ c ∧ c < 0xFF8
  · have wrote := writeCluster_spec s buffer size (s.clusterSector c) 0 b s.bootSector.sectorsPerCluster le
    generalize ran : writeCluster s buffer size (s.clusterSector c) 0 b s.bootSector.sectorsPerCluster = outcome at wrote
    obtain ⟨r,b',u⟩ := outcome
    have mount : u.toMount = s.toMount := wrote.mount
    have round : ∀ fuel, writeFrom s buffer size b c (fuel+1) = _ := fun fuel => by
      rw [writeFrom,if_pos goes,ran]
    dsimp only at round
    by_cases failed : r ≠ 0
    · exact .inl ⟨(-1,u),fun fuel => (round fuel).trans (if_pos failed)⟩
    have moved : b < b' ∧ b' ≤ size := by
      have positive : 0 < 512*s.bootSector.sectorsPerCluster := by omega
      rcases wrote.result with ⟨minus,_⟩ | ⟨_,count,_⟩
      · exact absurd (minus.trans_ne minus_one) failed
      · have count : b' = min size (b + 512*s.bootSector.sectorsPerCluster) := count
        omega
    have kept : 0 < u.bootSector.sectorsPerCluster := by
      rw [mount]
      exact cluster
    simp only [if_neg failed] at round
    by_cases full : b' < size ∧ (getFatEntry u.fatBuffer c ≥ 0xFF8 ∨ getFatEntry u.fatBuffer c = 0)
    · simp only [if_pos full] at round
      by_cases free : findFreeCluster u.fatBuffer = 0
      · exact .inl ⟨(-1,u),fun fuel => (round fuel).trans (if_pos free)⟩
      simp only [if_neg free] at round
      generalize linked : setFatEntry (setFatEntry u.fatBuffer c (findFreeCluster u.fatBuffer)) (findFreeCluster u.fatBuffer) 0xFFF = m at round
      have written := writeFatTable_spec {u with fatBuffer := m}
      by_cases unsaved : (writeFatTable {u with fatBuffer := m}).1 ≠ 0
      · exact .inl ⟨_,fun fuel => (round fuel).trans (if_pos unsaved)⟩
      · refine .inr ⟨(_,b',_),fun fuel => (round fuel).trans (if_neg unsaved),⟨?_,moved.2⟩,by dsimp only; omega⟩
        have same : (writeFatTable {u with fatBuffer := m}).2.toMount = u.toMount := written.mount
        rw [same]
        exact kept
    · exact .inr ⟨(u,b',_),fun fuel => (round fuel).trans (if_neg full),⟨kept,moved.2⟩,by dsimp only; omega⟩
  · refine .inl ⟨(intOf b,s),fun fuel => ?_⟩
    show writeFrom s buffer size b c (fuel+1) = _
    rw [writeFrom,if_neg goes]

end SantOS.Fat12
