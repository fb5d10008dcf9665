import SantOS.Fat12.ClusterRuns
import SantOS.Fat12.Mounting

namespace SantOS.Fat12
open ByteMemory LinkedPaths

-- The plain reader: the clusters of the chain one after the other, each needed sector by
-- its own command.
def plainReadCluster (s : Driver) (buffer : Memory) (size sector i bytesRead : Nat) : Nat → Int × Memory × Nat × Driver
  | 0 => (0,buffer,bytesRead,s)
  | left+1 =>
    if bytesRead < size then
      match fdcReadSectors s (sector + i) 1 buffer bytesRead with
      | (r,buffer,s) =>
        if r ≠ 0 then (-1,buffer,bytesRead,s)
        else plainReadCluster s buffer size sector (i+1) (bytesRead + min 512 (size - bytesRead)) left
    else (0,buffer,bytesRead,s)

def plainRead (s : Driver) (buffer : Memory) (size bytesRead : Nat) : List Nat → Int × Memory × Driver
  | [] => (intOf bytesRead,buffer,s)
  | cluster::chain =>
    match plainReadCluster s buffer size (s.clusterSector cluster) 0 bytesRead s.bootSector.sectorsPerCluster with
    | (r,buffer,bytesRead,s) => if r ≠ 0 then (-1,buffer,s) else plainRead s buffer size bytesRead chain

def sectorsFor (n : Nat) : Nat := (n + 511)/512

theorem blit_needed (buffer source : Memory) {later : Memory} (le : b ≤ size) (same : ∀ x, later x = source (512*l + x)) :
    blit (blit buffer b (min l (sectorsFor (size - b))*512) source) (min size (b + 512*l))
        (min k (sectorsFor (size - min size (b + 512*l)))*512) later =
      blit buffer b (min (l + k) (sectorsFor (size - b))*512) source := by
  by_cases whole : b + 512*l ≤ size
  · have here : l ≤ sectorsFor (size - b) := by
      unfold sectorsFor
      omega
    have rest : sectorsFor (size - (b + 512*l)) = sectorsFor (size - b) - l := by
      unfold sectorsFor
      omega
    rw [Nat.min_eq_right whole,Nat.min_eq_left here,rest]
    refine blit_append buffer (by omega) (by omega) (fun x => ?_)
    rw [same,Nat.mul_comm l 512]
  · have last : sectorsFor (size - b) ≤ l := by
      unfold sectorsFor
      omega
    have nothing : sectorsFor (size - size) = 0 := by
      rw [Nat.sub_self]
      rfl
    have ended : min size (b + 512*l) = size := by omega
    have all : min (l + k) (sectorsFor (size - b)) = sectorsFor (size - b) := by omega
    rw [ended,nothing,Nat.min_zero,Nat.zero_mul,blit_nothing,Nat.min_eq_right last,all]

theorem plain_cluster_spec {s : Driver} (clear : s.Clear) (buffer : Memory) (sector i : Nat) (le : b ≤ size) :
    plainReadCluster s buffer size sector i b left =
      (0,blit buffer b (min left (sectorsFor (size - b))*512) (fun x => s.disk ((sector + i)*512 + x)),min size (b + 512*left),s) := by
  induction left generalizing buffer i b with
  | zero =>
    rw [plainReadCluster,Nat.zero_min,Nat.zero_mul,blit_nothing,Nat.add_zero,Nat.min_eq_right le]
  | succ left ih =>
    rw [plainReadCluster]
    by_cases more : b < size
    · rw [if_pos more,read_sectors_clear clear]
      dsimp only
      have step : b + min 512 (size - b) = min size (b + 512*1) := by omega
      have one : 1 = min 1 (sectorsFor (size - b)) := by
        unfold sectorsFor
        omega
      rw [if_neg (by decide),ih _ _ (by omega),step]
      have later : ∀ x, s.disk ((sector + (i+1))*512 + x) = s.disk ((sector + i)*512 + (512*1 + x)) :=
        fun x => congrArg s.disk (by omega)
      refine Prod.ext rfl (Prod.ext ?_ (Prod.ext ?_ rfl))
      · dsimp only
        rw [Nat.add_comm left 1,← blit_needed buffer (fun x => s.disk ((sector + i)*512 + x)) le later,← one]
      · dsimp only
        omega
    · have done : b = size := by omega
      have nothing : sectorsFor 0 = 0 := rfl
      rw [if_neg more,done,Nat.sub_self,nothing,Nat.min_zero,Nat.zero_mul,blit_nothing,Nat.min_eq_left (Nat.le_add_right _ _)]

theorem Mount.clusterSector_next {v : Mount} (two : 2 ≤ c) :
    v.clusterSector (c+1) = v.clusterSector c + v.bootSector.sectorsPerCluster := by
  unfold Mount.clusterSector
  rw [show c + 1 - 2 = c - 2 + 1 by omega,Nat.add_mul,Nat.one_mul,Nat.add_assoc]

def stretchBytes (s : Driver) (c : Nat) : Memory := fun x => s.disk (s.clusterSector c*512 + x)

-- The plain reader takes a stretch of k consecutive clusters as one block.
theorem plain_stretch {s : Driver} (clear : s.Clear) (buffer : Memory) (two : 2 ≤ c) (le : b ≤ size) (post : List Nat) :
    plainRead s buffer size b (List.range' c k ++ post) =
      plainRead s
        (blit buffer b (min (k*s.bootSector.sectorsPerCluster) (sectorsFor (size - b))*512) (stretchBytes s c))
        size (min size (b + 512*(k*s.bootSector.sectorsPerCluster))) post := by
  induction k generalizing buffer c b with
  | zero =>
    rw [Nat.zero_mul,Nat.zero_min,Nat.zero_mul,blit_nothing,Nat.add_zero,Nat.min_eq_right le]
    rfl
  | succ k ih =>
    have later : ∀ x, stretchBytes s (c+1) x = stretchBytes s c (512*s.bootSector.sectorsPerCluster + x) := by
      intro x
      unfold stretchBytes
      rw [Mount.clusterSector_next two,Nat.add_mul,Nat.mul_comm s.bootSector.sectorsPerCluster,Nat.add_assoc]
    have further : min size (b + 512*((k+1)*s.bootSector.sectorsPerCluster)) =
        min size (min size (b + 512*s.bootSector.sectorsPerCluster) + 512*(k*s.bootSector.sectorsPerCluster)) := by
      rw [Nat.add_mul,Nat.one_mul]
      omega
    rw [List.range'_succ,List.cons_append,plainRead,plain_cluster_spec clear _ _ _ le]
    dsimp only
    have total : (k+1)*s.bootSector.sectorsPerCluster = s.bootSector.sectorsPerCluster + k*s.bootSector.sectorsPerCluster := by
      rw [Nat.add_mul,Nat.one_mul,Nat.add_comm]
    rw [if_neg (by decide),ih _ (by omega) (Nat.min_le_left _ _),further,total,← blit_needed buffer _ le later]
    rfl

theorem plainRead_spec {s : Driver} (clear : s.Clear) (buffer : Memory) (le : b ≤ size) (cs : List Nat) :
    ∃ out, plainRead s buffer size b cs = (intOf (min size (b + 512*(cs.length*s.bootSector.sectorsPerCluster))),out,s) ∧
      ∀ x < b, out x = buffer x := by
  induction cs generalizing buffer b with
  | nil =>
    rw [List.length_nil,Nat.zero_mul,Nat.add_zero,Nat.min_eq_right le]
    exact ⟨buffer,rfl,fun x less => rfl⟩
  | cons c cs ih =>
    rw [plainRead,plain_cluster_spec clear _ _ _ le]
    dsimp only
    rw [if_neg (by decide)]
    obtain ⟨out,ran,kept⟩ := ih _ (Nat.min_le_left size (b + 512*s.bootSector.sectorsPerCluster))
    have total : min size (min size (b + 512*s.bootSector.sectorsPerCluster) + 512*(cs.length*s.bootSector.sectorsPerCluster)) =
        min size (b + 512*((c::cs).length*s.bootSector.sectorsPerCluster)) := by
      rw [List.length_cons,Nat.add_mul,Nat.one_mul]
      omega
    refine ⟨out,by rw [ran,total],fun x less => ?_⟩
    rw [kept x (by omega)]
    exact blit_outside _ _ (.inl less)

theorem plain_done {s : Driver} (clear : s.Clear) (buffer : Memory) (size : Nat) (cs : List Nat) :
    plainRead s buffer size size cs = (intOf size,buffer,s) := by
  induction cs with
  | nil => rfl
  | cons c cs ih =>
    have nothing : sectorsFor 0 = 0 := rfl
    rw [plainRead,plain_cluster_spec clear _ _ _ (Nat.le_refl _),Nat.sub_self,nothing,Nat.min_zero,Nat.zero_mul,blit_nothing,
      Nat.min_eq_left (Nat.le_add_right _ _)]
    exact ih

-- The clusters of the run that fat12_read merges from c on: k+1 of them, up to 250, and not
-- more only when the chain jumps.
structure Merged (m : Memory) (c k : Nat) : Prop where
  ran : runFrom m c (getFatEntry m c) 1 250 = (k+1,getFatEntry m (c+k))
  links : Consecutive m c k
  bounded : k + 1 ≤ 250
  maximal : k + 1 < 250 → ¬ Consecutive m (c+k) 1

theorem merged (m : Memory) (two : 2 ≤ c) : ∃ k, Merged m c k := by
  obtain ⟨k,ran,links,bounded,maximal⟩ := runFrom_spec m 1 250 two
  rw [Nat.add_comm 1 k] at ran bounded maximal
  exact ⟨k,ran,links,bounded (by decide),maximal (by decide)⟩

-- One round of fat12_read. The number of sectors is passed as a uint8_t.
theorem read_round_any (run : Merged s.fatBuffer c k) (buffer : Memory) (two : 2 ≤ c) (small : c < 0xFF8) (more : b < size)
    (word : size + 511 < 2^32) :
    readFrom s buffer size b c (n+1) =
      match fdcReadSectors s (s.clusterSector c) (min ((k+1)*s.bootSector.sectorsPerCluster) (sectorsFor (size - b)) % 2^8) buffer b with
      | (r,buffer,t) =>
        if r ≠ 0 then some (-1,buffer,t)
        else readFrom t buffer size (min size (b + 512*((k+1)*s.bootSector.sectorsPerCluster))) (getFatEntry s.fatBuffer (c+k)) n := by
  rw [readFrom,if_pos ⟨more,two,small⟩,run.ran]
  dsimp only
  rw [Nat.mod_eq_of_lt (by omega : size - b + 511 < 2^32)]
  generalize (k+1)*s.bootSector.sectorsPerCluster = sectors
  have needed : (size - b + 511)/512 = sectorsFor (size - b) := rfl
  have clipped : (if sectors > sectorsFor (size - b) then sectorsFor (size - b) else sectors) = min sectors (sectorsFor (size - b)) := by
    split <;> omega
  have moved : b + (if min sectors (sectorsFor (size - b))*512 > size - b then size - b else min sectors (sectorsFor (size - b))*512) =
      min size (b + 512*sectors) := by
    unfold sectorsFor
    split <;> omega
  rw [needed,clipped,moved]

theorem read_run {s : Driver} (clear : s.Clear) (run : Merged s.fatBuffer c k) (buffer : Memory) (two : 2 ≤ c)
    (small : c < 0xFF8)
    (more : b < size) (word : size + 511 < 2^32) :
    readFrom s buffer size b c (n+1) =
      readFrom s
        (blit buffer b (min ((k+1)*s.bootSector.sectorsPerCluster) (sectorsFor (size - b)) % 2^8*512) (stretchBytes s c))
        size (min size (b + 512*((k+1)*s.bootSector.sectorsPerCluster))) (getFatEntry s.fatBuffer (c+k)) n := by
  rw [read_round_any run buffer two small more word,read_sectors_clear clear]
  dsimp only
  rw [if_neg (by decide)]
  rfl

theorem run_bytes (c k sectors : Nat) (post : List Nat) :
    (List.range' c k ++ post).length*(512*sectors) = 512*(k*sectors) + post.length*(512*sectors) := by
  rw [List.length_append,List.length_range',Nat.add_mul,Nat.mul_left_comm]

-- No stretch of clusters that takes 256 sectors starts with more than 255 sectors to read.
def ShortRuns (v : Mount) (size b : Nat) (cs : List Nat) : Prop :=
  ∀ pre d k post, cs = pre ++ (List.range' d k ++ post) → 256 ≤ k*v.bootSector.sectorsPerCluster →
    size ≤ b + pre.length*(512*v.bootSector.sectorsPerCluster) + 512*255

section
variable {v : Mount} {s : Driver}

theorem ShortRuns.nil : ShortRuns v size b [] := by
  intro pre d k post split sectors
  have length := congrArg List.length split
  rw [List.length_append,List.length_append,List.length_range',List.length_nil] at length
  have empty : k = 0 := by omega
  rw [empty,Nat.zero_mul] at sectors
  omega

theorem ShortRuns.head (short : ShortRuns v size b (List.range' c k ++ post)) :
    min (k*v.bootSector.sectorsPerCluster) (sectorsFor (size - b)) < 2^8 := by
  by_cases long : 256 ≤ k*v.bootSector.sectorsPerCluster
  · have near := short [] c k post (List.nil_append _).symm long
    have few : sectorsFor (size - b) ≤ 255 := by
      rw [List.length_nil,Nat.zero_mul] at near
      unfold sectorsFor
      omega
    exact Nat.lt_of_le_of_lt (Nat.min_le_right _ _) (Nat.lt_succ_of_le few)
  · omega

theorem ShortRuns.tail (short : ShortRuns v size b (List.range' c k ++ post)) :
    ShortRuns v size (min size (b + 512*(k*v.bootSector.sectorsPerCluster))) post := by
  intro pre d l rest split long
  have whole := short (List.range' c k ++ pre) d l rest (by rw [split,List.append_assoc]) long
  rw [run_bytes] at whole
  omega

-- With at least two sectors in a cluster no run reaches the bound of 250 clusters before it
-- has 256 sectors.
theorem ShortRuns.of_run (wide : 2 ≤ v.bootSector.sectorsPerCluster) (positive : 0 < k)
    (head : min (k*v.bootSector.sectorsPerCluster) (sectorsFor (size - b)) < 2^8)
    (jumps : k < 250 → ∀ rest, post ≠ (c+k)::rest)
    (tail : ShortRuns v size (min size (b + 512*(k*v.bootSector.sectorsPerCluster))) post) :
    ShortRuns v size b (List.range' c k ++ post) := by
  intro pre d l rest split long
  by_cases near : sectorsFor (size - b) < 2^8
  · unfold sectorsFor at near
    omega
  have fits : k*v.bootSector.sectorsPerCluster < 2^8 := by omega
  have shorter : k < l := by
    by_contra longer
    have more : l*v.bootSector.sectorsPerCluster ≤ k*v.bootSector.sectorsPerCluster := Nat.mul_le_mul_right _ (by omega)
    omega
  have jump := jumps (by
    have double : k*2 ≤ k*v.bootSector.sectorsPerCluster := Nat.mul_le_mul_left _ wide
    omega)
  by_cases behind : k ≤ pre.length
  · -- the stretch lies behind the run
    obtain ⟨between,same⟩ : ∃ between, pre = List.range' c k ++ between := by
      have first := congrArg (List.take k) split
      rw [List.take_append_of_le_length (by rw [List.length_range']),List.take_append_of_le_length behind,
        List.take_of_length_le (by rw [List.length_range'])] at first
      exact ⟨pre.drop k,by rw [first,List.take_append_drop]⟩
    subst same
    rw [List.append_assoc] at split
    have later := tail between d l rest (List.append_cancel_left split) long
    rw [run_bytes]
    omega
  · -- the stretch starts inside the run and goes on behind it
    exfalso
    have here := congrArg (fun xs => xs[pre.length]?) split
    have next := congrArg (fun xs => xs[k]?) split
    simp only [List.getElem?_append,List.length_range'] at here next
    rw [if_pos (by omega),if_neg (Nat.lt_irrefl _),Nat.sub_self,if_pos (by omega),List.getElem?_range' (by omega),
      List.getElem?_range' (by omega)] at here
    rw [if_neg (Nat.lt_irrefl _),Nat.sub_self,if_neg (by omega),if_pos (by omega),List.getElem?_range' (by omega)] at next
    have start : c + 1*pre.length = d + 1*0 := Option.some.inj here
    obtain ⟨rest',follows⟩ : ∃ rest', post = (d + 1*(k - pre.length))::rest' := by
      cases post with
      | nil => cases next
      | cons e rest' => exact ⟨rest',by rw [Option.some.inj next]⟩
    refine jump rest' ?_
    rw [follows,show c + k = d + 1*(k - pre.length) by omega]

theorem Merged.split (run : Merged s.fatBuffer c k) (path : Path s.fat Ends c cs) (two : 2 ≤ c) (small : c < 0xFF8) :
    ∃ post, cs = List.range' c (k+1) ++ post ∧ Path s.fat Ends (getFatEntry s.fatBuffer (c+k)) post ∧
      (k + 1 < 250 → ∀ rest, post ≠ (c + (k+1))::rest) := by
  obtain ⟨post,split,tail⟩ := run.links.stretch path (fun d low high => not_ends.mpr ⟨low,high⟩) two small
  refine ⟨post,split,tail,fun few rest follows => ?_⟩
  rw [follows] at tail
  have link : c + (k+1) = getFatEntry s.fatBuffer (c+k) := tail.head
  have more := not_ends.mp (tail.running (List.mem_cons_self ..))
  refine run.maximal few (fun j bound => ?_)
  have first : j = 0 := by omega
  rw [first,Nat.add_zero,← link]
  exact ⟨rfl,by omega⟩

theorem readFrom_before (clear : s.Clear) (cluster : 0 < s.bootSector.sectorsPerCluster) (buffer : Memory) (le : b ≤ size)
    (word : size + 511 < 2^32) (path : Path s.fat Ends c cs) (fuel : size - b < n) :
    ∃ r out, readFrom s buffer size b c n = some (r,out,s) ∧ ∀ x < b, out x = buffer x := by
  induction n generalizing buffer b c cs with
  | zero => exact absurd fuel (Nat.not_lt_zero _)
  | succ n ih =>
    by_cases more : b < size ∧ 2 ≤ c ∧ c < 0xFF8
    · obtain ⟨more,two,small⟩ := more
      obtain ⟨k,run⟩ := merged s.fatBuffer two
      obtain ⟨post,_,tail,_⟩ := run.split path two small
      rw [read_run clear run buffer two small more word]
      have positive : 0 < (k+1)*s.bootSector.sectorsPerCluster := Nat.mul_pos (Nat.succ_pos k) cluster
      obtain ⟨r,out,ran,kept⟩ := ih (b := min size (b + 512*((k+1)*s.bootSector.sectorsPerCluster))) _ (Nat.min_le_left _ _) tail (by omega)
      refine ⟨r,out,ran,fun x less => ?_⟩
      rw [kept x (by omega)]
      exact blit_outside _ _ (.inl less)
    · rw [readFrom,if_neg more]
      exact ⟨_,buffer,rfl,fun x less => rfl⟩

theorem readFrom_plain (clear : s.Clear) (cluster : 0 < s.bootSector.sectorsPerCluster) (buffer : Memory) (le : b ≤ size)
    (word : size + 511 < 2^32) (path : Path s.fat Ends c cs) (fuel : size - b < n)
    (short : s.bootSector.sectorsPerCluster = 1 ∨ ShortRuns s.toMount size b cs) :
    readFrom s buffer size b c n = some (plainRead s buffer size b cs) := by
  induction n generalizing buffer b c cs with
  | zero => exact absurd fuel (Nat.not_lt_zero _)
  | succ n ih =>
    by_cases more : b < size
    · by_cases running : 2 ≤ c ∧ c < 0xFF8
      · obtain ⟨two,small⟩ := running
        obtain ⟨k,run⟩ := merged s.fatBuffer two
        obtain ⟨post,split,tail,_⟩ := run.split path two small
        have positive : 0 < (k+1)*s.bootSector.sectorsPerCluster := Nat.mul_pos (Nat.succ_pos k) cluster
        subst split
        have byte : min ((k+1)*s.bootSector.sectorsPerCluster) (sectorsFor (size - b)) < 2^8 := by
          rcases short with one | short
          · have bounded := run.bounded
            rw [one]
            omega
          · exact short.head
        rw [read_run clear run buffer two small more word,plain_stretch clear buffer two le,Nat.mod_eq_of_lt byte]
        exact ih _ (Nat.min_le_left _ _) tail (by omega) (short.imp_right ShortRuns.tail)
      · cases path with
        | nil done =>
          rw [readFrom,if_neg (fun goes => running goes.2)]
          rfl
        | cons goes _ => exact absurd (not_ends.mp goes) running
    · have done : b = size := by omega
      rw [readFrom,if_neg (fun goes => more goes.1),done,plain_done clear]

def Missed (s : Driver) (size b c n : Nat) (cs : List Nat) : Prop :=
  ∃ x < size, b ≤ x ∧ ∃ byte, ∀ buffer, ∃ r out, readFrom s buffer size b c n = some (r,out,s) ∧ out x = buffer x ∧
    (plainRead s buffer size b cs).2.1 x = byte

-- A run of 256 or more sectors is read in part only.
theorem missed_in_run (clear : s.Clear) (cluster : 0 < s.bootSector.sectorsPerCluster) (word : size + 511 < 2^32)
    (two : 2 ≤ c)
    (small : c < 0xFF8) (run : Merged s.fatBuffer c k) (tail : Path s.fat Ends (getFatEntry s.fatBuffer (c+k)) post)
    (fuel : size - b < n + 1) (long : 2^8 ≤ min ((k+1)*s.bootSector.sectorsPerCluster) (sectorsFor (size - b))) :
    Missed s size b c (n+1) (List.range' c (k+1) ++ post) := by
  generalize sectors : min ((k+1)*s.bootSector.sectorsPerCluster) (sectorsFor (size - b)) = asked at long
  have needed : asked ≤ sectorsFor (size - b) ∧ asked ≤ (k+1)*s.bootSector.sectorsPerCluster := by omega
  have cut : asked % 2^8 < asked := by omega
  have reach : b + asked % 2^8*512 < size := by
    have below := Nat.lt_of_lt_of_le cut needed.1
    generalize asked % 2^8 = taken at below
    unfold sectorsFor at below
    omega
  have positive : 0 < (k+1)*s.bootSector.sectorsPerCluster := Nat.mul_pos (Nat.succ_pos k) cluster
  have inside : b + asked % 2^8*512 < min size (b + 512*((k+1)*s.bootSector.sectorsPerCluster)) := by omega
  refine ⟨b + asked % 2^8*512,by omega,Nat.le_add_right _ _,stretchBytes s c (asked % 2^8*512),fun buffer => ?_⟩
  have more : b < size := by omega
  rw [read_run clear run buffer two small more word,plain_stretch clear buffer two (Nat.le_of_lt more),sectors]
  obtain ⟨r,out,ran,kept⟩ := readFrom_before clear cluster
    (blit buffer b (asked % 2^8*512) (stretchBytes s c)) (Nat.min_le_left size (b + 512*((k+1)*s.bootSector.sectorsPerCluster)))
    word tail (by omega : _ < n)
  obtain ⟨plain,taken,same⟩ := plainRead_spec clear (blit buffer b (asked*512) (stretchBytes s c))
    (Nat.min_le_left size (b + 512*((k+1)*s.bootSector.sectorsPerCluster))) post
  refine ⟨r,out,ran,?_,?_⟩
  · rw [kept _ inside]
    exact blit_outside _ _ (.inr (Nat.le_refl _))
  · have covered : asked % 2^8*512 < asked*512 := by omega
    rw [taken]
    dsimp only
    rw [same _ inside,blit_inside _ _ covered]

theorem readFrom_missed (clear : s.Clear) (wide : 2 ≤ s.bootSector.sectorsPerCluster) (le : b ≤ size)
    (word : size + 511 < 2^32) (path : Path s.fat Ends c cs) (fuel : size - b < n) (long : ¬ ShortRuns s.toMount size b cs) :
    Missed s size b c n cs := by
  have cluster : 0 < s.bootSector.sectorsPerCluster := by omega
  induction n generalizing b c cs with
  | zero => exact absurd fuel (Nat.not_lt_zero _)
  | succ n ih =>
    have more : b < size := by
      by_contra done
      exact long (fun pre d k post _ _ => by omega)
    have running : 2 ≤ c ∧ c < 0xFF8 := by
      cases path with
      | nil done => exact absurd .nil long
      | cons goes _ => exact not_ends.mp goes
    obtain ⟨two,small⟩ := running
    obtain ⟨k,run⟩ := merged s.fatBuffer two
    obtain ⟨post,split,tail,jumps⟩ := run.split path two small
    subst split
    by_cases head : min ((k+1)*s.bootSector.sectorsPerCluster) (sectorsFor (size - b)) < 2^8
    · have positive : 0 < (k+1)*s.bootSector.sectorsPerCluster := Nat.mul_pos (Nat.succ_pos k) cluster
      have later : ¬ ShortRuns s.toMount size (min size (b + 512*((k+1)*s.bootSector.sectorsPerCluster))) post :=
        fun short => long (.of_run wide (Nat.succ_pos k) head jumps short)
      obtain ⟨x,within,behind,byte,missed⟩ := ih (Nat.min_le_left _ _) tail (by omega) later
      refine ⟨x,within,by omega,byte,fun buffer => ?_⟩
      rw [read_run clear run buffer two small more word,plain_stretch clear buffer two le,Nat.mod_eq_of_lt head]
      obtain ⟨r,out,ran,kept,plain⟩ := missed
        (blit buffer b (min ((k+1)*s.bootSector.sectorsPerCluster) (sectorsFor (size - b))*512) (stretchBytes s c))
      refine ⟨r,out,ran,?_,plain⟩
      rw [kept]
      exact blit_outside _ _ (.inr (by omega))
    · exact missed_in_run clear cluster word two small run tail fuel (by omega)

-- A size within 511 of 2^32 overflows the rounding up: no sector is needed, and every run
-- of the chain is passed over.
theorem readFrom_overflow (clear : s.Clear) (cluster : 0 < s.bootSector.sectorsPerCluster) (buffer : Memory)
    (overflow : 2^32 ≤ size + 511) (word : size < 2^32) (path : Path s.fat Ends c cs) (fuel : cs.length < n) :
    readFrom s buffer size 0 c n = some (0,buffer,s) := by
  induction n generalizing c cs with
  | zero => exact absurd fuel (Nat.not_lt_zero _)
  | succ n ih =>
    rw [readFrom]
    by_cases goes : 0 < size ∧ 2 ≤ c ∧ c < 0xFF8
    · obtain ⟨_,two,small⟩ := goes
      obtain ⟨k,run⟩ := merged s.fatBuffer two
      obtain ⟨post,split,tail,_⟩ := run.split path two small
      have positive : 0 < (k+1)*s.bootSector.sectorsPerCluster := Nat.mul_pos (Nat.succ_pos k) cluster
      have noneNeeded : (size - 0 + 511) % 2^32 / 512 = 0 := by omega
      rw [if_pos ⟨by omega,two,small⟩,run.ran]
      dsimp only
      rw [noneNeeded,if_pos positive,read_sectors_clear clear]
      dsimp only
      rw [if_neg (by decide),Nat.zero_mod,Nat.zero_mul,blit_nothing,if_neg (Nat.not_lt_zero _)]
      refine ih tail ?_
      rw [split,List.length_append,List.length_range'] at fuel
      omega
    · rw [if_neg goes]
      rfl

theorem chain_short (path : Path f Ends c cs) : cs.length ≤ 0xFF8 := by
  have below : ∀ d ∈ cs, d ∈ List.range 0xFF8 := fun d member => List.mem_range.mpr (not_ends.mp (path.running member)).2
  have few := (List.Nodup.subperm path.nodup below).length_le
  rwa [List.length_range] at few

theorem intOf_zero (word : n < 2^32) : intOf n = 0 ↔ n = 0 := by
  unfold intOf
  split <;> omega

end

def LoopReadsPlainly (s : Driver) (n c : Nat) (cs : List Nat) (buffer : Memory) : Prop :=
  ∃ r out t, readFrom s buffer n 0 c (n+1) = some (r,out,t) ∧ r = (plainRead s buffer n 0 cs).1 ∧
    ∀ i < n, out i = (plainRead s buffer n 0 cs).2.1 i

section
variable {s : Driver}

theorem loop_reads_plainly_iff (clear : s.Clear) (cluster : 0 < s.bootSector.sectorsPerCluster) (word : n + 511 < 2^32)
    (chain : Path s.fat Ends c cs) :
    (∀ buffer, LoopReadsPlainly s n c cs buffer) ↔ s.bootSector.sectorsPerCluster = 1 ∨ ShortRuns s.toMount n 0 cs := by
  constructor
  · intro plainly
    by_contra long
    obtain ⟨one,short⟩ := not_or.mp long
    obtain ⟨x,within,_,byte,missed⟩ := readFrom_missed clear (by omega) (Nat.zero_le n) word chain (by omega : n - 0 < n + 1) short
    obtain ⟨r,out,t,ran,_,same⟩ := plainly (fun _ => byte + 1)
    obtain ⟨r',out',ran',kept,plain⟩ := missed (fun _ => byte + 1)
    rw [ran'] at ran
    cases ran
    have equal := same x within
    rw [kept,plain] at equal
    exact absurd equal (by simp)
  · intro short buffer
    have ran := readFrom_plain clear cluster buffer (Nat.zero_le n) word chain (by omega : n - 0 < n + 1) short
    exact ⟨_,_,_,ran,rfl,fun i _ => rfl⟩

theorem loop_overflow_iff (clear : s.Clear) (cluster : 0 < s.bootSector.sectorsPerCluster) (overflow : 2^32 ≤ n + 511)
    (small : n < 2^32) (chain : Path s.fat Ends c cs) : (∀ buffer, LoopReadsPlainly s n c cs buffer) ↔ cs = [] := by
  have length := chain_short chain
  have ran : ∀ buffer, readFrom s buffer n 0 c (n+1) = some (0,buffer,s) :=
    fun buffer => readFrom_overflow clear cluster buffer overflow small chain (by omega)
  constructor
  · intro plainly
    obtain ⟨r,out,t,comes,count,_⟩ := plainly (fun _ => 0)
    obtain ⟨_,plain,_⟩ := plainRead_spec clear (fun _ => 0) (Nat.zero_le n) cs
    rw [ran] at comes
    cases comes
    rw [plain] at count
    have nothing := (intOf_zero (by omega)).mp count.symm
    by_contra nonempty
    have positive : 0 < cs.length*s.bootSector.sectorsPerCluster := Nat.mul_pos (List.length_pos_iff.mpr nonempty) cluster
    omega
  · rintro rfl buffer
    exact ⟨_,_,_,ran buffer,rfl,fun i _ => rfl⟩

end

def ReadsPlainly (s : Driver) (file : File) (size : Nat) (cs : List Nat) (buffer : Memory) : Prop :=
  ∃ r out t, fat12Read s file buffer size = some (r,out,t) ∧ r = (plainRead s buffer (min size file.size) 0 cs).1 ∧
    ∀ i < min size file.size, out i = (plainRead s buffer (min size file.size) 0 cs).2.1 i

theorem plain_reads_iff {s : Driver} {file : File} {cs : List Nat} (accepted : Accepted s.toMount) (clear : s.Clear)
    (chain : Path s.fat Ends (file.firstCluster % 2^16) cs)
    (word : file.size < 2^32) (size : Nat) :
    (∀ buffer, ReadsPlainly s file size cs buffer) ↔
      (cs = [] ∨ min size file.size + 511 < 2^32) ∧
      (s.bootSector.sectorsPerCluster = 1 ∨ ShortRuns s.toMount (min size file.size) 0 cs) := by
  have cluster := accepted.layout.cluster
  have limited : (if size > file.size then file.size else size) = min size file.size := by
    split <;> omega
  have loop : ∀ buffer, ReadsPlainly s file size cs buffer ↔
      LoopReadsPlainly s (min size file.size) (file.firstCluster % 2^16) cs buffer := by
    intro buffer
    unfold ReadsPlainly LoopReadsPlainly fat12Read
    rw [limited]
  simp only [loop]
  have small : min size file.size < 2^32 := by omega
  generalize min size file.size = n at small ⊢
  by_cases fits : n + 511 < 2^32
  · rw [loop_reads_plainly_iff clear cluster fits chain,and_iff_right (.inr fits)]
  · rw [loop_overflow_iff clear cluster (by omega) small chain,or_iff_left fits]
    refine ⟨fun empty => ⟨empty,.inr ?_⟩,fun both => both.1⟩
    rw [empty]
    exact ShortRuns.nil

def wideBoot : Memory := Function.update formatted 13 128
def wideFloppy : Driver :=
  ⟨⟨⟨512,128,1,2,224,2880,9,0⟩,1,19,33⟩,setFatEntry (setFatEntry (fun _ => 0) 2 3) 3 0xFFF,
    fun i => if i < 512 then wideBoot i else 1,fun _ => false⟩

theorem wide_accepted : Accepted wideFloppy.toMount := ⟨wideFloppy,_,rfl,rfl⟩

theorem wide_chain : Path wideFloppy.fat Ends 2 [2,3] := by
  have first : wideFloppy.fat 2 = 3 := by decide +kernel
  have second : wideFloppy.fat 3 = 0xFFF := by decide +kernel
  refine .cons (not_ends.mpr (by decide)) ?_
  rw [first]
  refine .cons (not_ends.mpr (by decide)) ?_
  rw [second]
  exact .nil (.inr (by decide))

-- The 256 sectors of the file become a count of 0: none is read, and all bytes are reported.
theorem second_cluster_unread : Accepted wideFloppy.toMount ∧ Path wideFloppy.fat Ends 2 [2,3] ∧
    ¬ ReadsPlainly wideFloppy ⟨fun _ => 0,131072,2,0⟩ 131072 [2,3] (fun _ => 0) := by
  refine ⟨wide_accepted,wide_chain,?_⟩
  rintro ⟨r,out,t,ran,_,same⟩
  have code : (fat12Read wideFloppy ⟨fun _ => 0,131072,2,0⟩ (fun _ => 0) 131072).map (fun x => x.2.1 0) = some 0 := by
    decide +kernel
  have plain : (plainRead wideFloppy (fun _ => 0) 131072 0 [2,3]).2.1 0 = 1 := by decide +kernel
  rw [ran] at code
  have zero : out 0 = 0 := Option.some.inj code
  dsimp only at same
  rw [Nat.min_self] at same
  have one := same 0 (by decide +kernel)
  rw [zero,plain] at one
  cases one

theorem plain_reads_iff_one_cluster : ReadsPlainly wideFloppy ⟨fun _ => 0,131072,2,0⟩ 65536 [2,3] (fun _ => 0) := by
  have chain : Path wideFloppy.fat Ends (2 % 2^16) [2,3] := wide_chain
  refine (plain_reads_iff wide_accepted (fun _ => rfl) chain (by decide) 65536).mpr ⟨.inr (by decide),.inr ?_⟩ (fun _ => 0)
  intro pre d k post _ _
  have small : min 65536 131072 = 65536 := by decide
  dsimp only
  omega

end SantOS.Fat12
