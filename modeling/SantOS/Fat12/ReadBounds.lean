import SantOS.Fat12.Agreement
import SantOS.Fat12.PlainReads

namespace SantOS.Fat12
open ByteMemory LinkedPaths

-- The lengths of the runs that a list of clusters falls into: consecutive clusters, at most
-- 250 in a run.
def piecesFrom (first len : Nat) : List Nat → List Nat
  | [] => [len]
  | c::cs => if c = first + len ∧ len < 250 then piecesFrom first (len+1) cs else len::piecesFrom c 1 cs

def pieces : List Nat → List Nat
  | [] => []
  | c::cs => piecesFrom c 1 cs

def Leads (f : Nat → Nat) : Nat → List Nat → Prop
  | _,[] => True
  | c,d::ds => d = c ∧ ¬ Ends c ∧ Leads f (f c) ds

theorem pieces_stretch (c : Nat) (post : List Nat) (within : len + j ≤ 250) :
    piecesFrom c len (List.range' (c+len) j ++ post) = piecesFrom c (len+j) post := by
  induction j generalizing len with
  | zero => rfl
  | succ j ih =>
    rw [List.range'_succ,List.cons_append,piecesFrom,if_pos ⟨rfl,by omega⟩]
    have rest := @ih (len+1) (by omega)
    rw [← Nat.add_assoc] at rest
    rw [rest,Nat.add_assoc,Nat.add_comm 1 j]

theorem pieces_run (within : k + 1 ≤ 250) (jumps : k + 1 < 250 → ∀ rest, post ≠ (c + (k+1))::rest) :
    pieces (List.range' c (k+1) ++ post) = (k+1)::pieces post := by
  rw [List.range'_succ,List.cons_append,pieces,pieces_stretch c post (by omega),Nat.add_comm 1 k]
  cases post with
  | nil => rfl
  | cons d ds =>
    rw [piecesFrom,pieces,if_neg]
    rintro ⟨next,short⟩
    exact jumps short ds (by rw [next])

theorem piecesFrom_nonempty (first len : Nat) (cs : List Nat) : piecesFrom first len cs ≠ [] := by
  induction cs generalizing first len with
  | nil => exact List.cons_ne_nil _ _
  | cons c cs ih =>
    rw [piecesFrom]
    split
    · exact ih first (len+1)
    · exact List.cons_ne_nil _ _

theorem pieces_nil : pieces cs = [] ↔ cs = [] := by
  cases cs with
  | nil => exact ⟨fun _ => rfl,fun _ => rfl⟩
  | cons c cs => exact ⟨fun empty => absurd empty (piecesFrom_nonempty c 1 cs),fun empty => absurd empty (List.cons_ne_nil _ _)⟩

section
variable {m : Memory}

theorem Leads.head (leads : Leads f c cs) (nonempty : cs ≠ []) : ¬ Ends c := by
  cases cs with
  | nil => exact absurd rfl nonempty
  | cons d ds => exact leads.2.1

theorem consecutive_tail (links : Consecutive m c (k+1)) :
    getFatEntry m c = c + 1 ∧ c + 1 < 0xFF8 ∧ Consecutive m (c+1) k := by
  obtain ⟨link,below⟩ := links 0 (Nat.succ_pos k)
  refine ⟨link,below,fun j bound => ?_⟩
  have next := links (j+1) (by omega)
  rwa [← Nat.add_assoc,Nat.add_right_comm c j 1] at next

theorem Leads.within (links : Consecutive m c k) (leads : Leads (getFatEntry m) c cs) (short : cs.length ≤ k + 1) :
    cs = List.range' c cs.length := by
  induction cs generalizing c k with
  | nil => rfl
  | cons d ds ih =>
    obtain ⟨rfl,_,rest⟩ := leads
    rw [List.length_cons,List.range'_succ]
    cases ds with
    | nil => rfl
    | cons e es =>
      cases k with
      | zero =>
        rw [List.length_cons,List.length_cons] at short
        omega
      | succ k =>
        obtain ⟨link,_,later⟩ := consecutive_tail links
        rw [link] at rest
        refine congrArg _ (ih later rest ?_)
        simp only [List.length_cons] at short ⊢
        omega

theorem Leads.behind (links : Consecutive m c k) (leads : Leads (getFatEntry m) c cs) (long : k + 1 ≤ cs.length) :
    ∃ post, cs = List.range' c (k+1) ++ post ∧ Leads (getFatEntry m) (getFatEntry m (c+k)) post := by
  induction k generalizing c cs with
  | zero =>
    cases cs with
    | nil => cases long
    | cons d ds =>
      obtain ⟨rfl,_,rest⟩ := leads
      exact ⟨ds,rfl,rest⟩
  | succ k ih =>
    cases cs with
    | nil => cases long
    | cons d ds =>
      obtain ⟨rfl,_,rest⟩ := leads
      obtain ⟨link,_,later⟩ := consecutive_tail links
      rw [link] at rest
      obtain ⟨post,split,tail⟩ := ih later rest (Nat.le_of_succ_le_succ long)
      refine ⟨post,?_,?_⟩
      · rw [split,← List.cons_append,← List.range'_succ]
      · rwa [Nat.add_right_comm d 1 k] at tail

theorem Leads.of_run (links : Consecutive m c k) (two : 2 ≤ c) (small : c < 0xFF8) (within : j ≤ k + 1) :
    Leads (getFatEntry m) c (List.range' c j) := by
  induction j generalizing c k with
  | zero => trivial
  | succ j ih =>
    rw [List.range'_succ]
    refine ⟨rfl,not_ends.mpr ⟨two,small⟩,?_⟩
    cases k with
    | zero =>
      have noneLeft : j = 0 := by omega
      subst noneLeft
      trivial
    | succ k =>
      obtain ⟨link,below,later⟩ := consecutive_tail links
      rw [link]
      exact ih later (by omega) below (by omega)

theorem Leads.append (links : Consecutive m c k) (two : 2 ≤ c) (small : c < 0xFF8)
    (tail : Leads (getFatEntry m) (getFatEntry m (c+k)) post) : Leads (getFatEntry m) c (List.range' c (k+1) ++ post) := by
  induction k generalizing c with
  | zero => exact ⟨rfl,not_ends.mpr ⟨two,small⟩,tail⟩
  | succ k ih =>
    obtain ⟨link,below,later⟩ := consecutive_tail links
    rw [List.range'_succ,List.cons_append]
    refine ⟨rfl,not_ends.mpr ⟨two,small⟩,?_⟩
    rw [link]
    refine ih later (by omega) below ?_
    rwa [Nat.add_right_comm c 1 k]

end

theorem readFrom_within (s : Driver) (lba : Nat) (buffer : Memory) (offset : Nat) (le : done ≤ count)
    (behind : offset + count*512 ≤ x) :
    (fdcReadFrom s lba count done buffer offset fuel).2.1 x = buffer x := by
  induction fuel generalizing s done buffer with
  | zero => rfl
  | succ fuel ih =>
    by_cases more : done < count
    · obtain ⟨n,_,within,_,ran⟩ := fdc_read_step s lba buffer offset fuel more
      rw [ran]
      split
      · rfl
      · rw [ih _ _ within]
        exact blit_outside _ _ (.inr (by omega))
    · rw [fdcReadFrom,if_neg more]

theorem read_sectors_within (s : Driver) (lba count : Nat) (buffer : Memory) (offset : Nat)
    (behind : offset + count*512 ≤ x) :
    (fdcReadSectors s lba count buffer offset).2.1 x = buffer x := readFrom_within s lba buffer offset (Nat.zero_le count) behind

-- The clusters that n bytes take, of which b bytes lie before them, and the piece with the
-- last byte: it is read, with all its sectors, and they end behind byte m.
structure LastSector (s : Driver) (n m b c : Nat) (cs : List Nat) : Prop where
  leads : Leads s.fat c cs
  enough : n ≤ b + cs.length*(512*s.bootSector.sectorsPerCluster)
  least : b + cs.length*(512*s.bootSector.sectorsPerCluster) < n + 512*s.bootSector.sectorsPerCluster
  piece : ∃ before k, pieces cs = before ++ [k] ∧
    sectorsFor (n - (b + before.sum*(512*s.bootSector.sectorsPerCluster))) < 2^8 ∧
    m < b + before.sum*(512*s.bootSector.sectorsPerCluster) + 512*sectorsFor (n - (b + before.sum*(512*s.bootSector.sectorsPerCluster)))

section
variable {s t : Driver}

theorem LastSector.nonempty (last : LastSector s n m b c cs) : cs ≠ [] := by
  obtain ⟨before,k,split,_⟩ := last.piece
  intro empty
  rw [pieces_nil.mpr empty] at split
  exact absurd split (by simp)

theorem LastSector.more (last : LastSector s n m b c cs) : b < n := by
  have positive := List.length_pos_iff.mpr last.nonempty
  have one : 512*s.bootSector.sectorsPerCluster ≤ cs.length*(512*s.bootSector.sectorsPerCluster) :=
    Nat.le_mul_of_pos_left _ positive
  have least := last.least
  omega

theorem LastSector.transfer (last : LastSector s n m b c cs) (table : t.fatBuffer = s.fatBuffer)
    (boot : t.bootSector = s.bootSector) :
    LastSector t n m b c cs := by
  obtain ⟨leads,enough,least,piece⟩ := last
  unfold Driver.fat at leads
  rw [← table] at leads
  rw [← boot] at enough least piece
  exact ⟨leads,enough,least,piece⟩

theorem LastSector.here (last : LastSector s n m b c cs) (run : Merged s.fatBuffer c k) (short : cs.length ≤ k + 1) :
    sectorsFor (n - b) < 2^8 ∧ m < b + 512*sectorsFor (n - b) := by
  obtain ⟨before,j,split,few,sticks⟩ := last.piece
  have nonempty := last.nonempty
  have form := Leads.within run.links last.leads short
  obtain ⟨l,length⟩ : ∃ l, cs.length = l + 1 := ⟨cs.length - 1,by have positive := List.length_pos_iff.mpr nonempty; omega⟩
  have bounded := run.bounded
  have one : pieces cs = [cs.length] := by
    rw [form,length,← List.append_nil (List.range' c (l+1)),pieces_run (by omega) (fun _ rest empty => (by cases empty))]
    rw [List.append_nil,List.length_range']
    rfl
  rw [one] at split
  have first : before = [] := by
    cases before with
    | nil => rfl
    | cons a rest => simp at split
  rw [first,List.sum_nil,Nat.zero_mul,Nat.add_zero] at few sticks
  exact ⟨few,sticks⟩

theorem Merged.jumps (run : Merged s.fatBuffer c k) (tail : Leads s.fat (getFatEntry s.fatBuffer (c+k)) post) :
    k + 1 < 250 → ∀ rest, post ≠ (c + (k+1))::rest := by
  rintro few rest rfl
  obtain ⟨link,running,_⟩ := tail
  refine run.maximal few (fun j bound => ?_)
  have first : j = 0 := by omega
  have more := not_ends.mp running
  rw [first,Nat.add_zero,← link]
  exact ⟨rfl,by omega⟩

theorem LastSector.later (last : LastSector s n m b c cs) (run : Merged s.fatBuffer c k) (long : k + 1 < cs.length) :
    b + 512*((k+1)*s.bootSector.sectorsPerCluster) < n ∧
      ∃ post, LastSector s n m (b + 512*((k+1)*s.bootSector.sectorsPerCluster)) (getFatEntry s.fatBuffer (c+k)) post := by
  obtain ⟨post,rfl,tail⟩ := Leads.behind run.links last.leads (Nat.le_of_lt long)
  have enough := last.enough
  have least := last.least
  obtain ⟨before,j,split,few,sticks⟩ := last.piece
  rw [List.length_append,List.length_range'] at long
  rw [run_bytes,← Nat.add_assoc] at enough least
  have goes : 512*s.bootSector.sectorsPerCluster ≤ post.length*(512*s.bootSector.sectorsPerCluster) :=
    Nat.le_mul_of_pos_left _ (by omega)
  rw [pieces_run run.bounded (run.jumps tail)] at split
  refine ⟨by omega,post,tail,enough,least,?_⟩
  cases before with
  | nil =>
    have empty := pieces_nil.mp (List.cons.inj split).2
    rw [empty] at long
    exact absurd long (Nat.lt_irrefl _)
  | cons first before =>
    obtain ⟨rfl,rest⟩ := List.cons.inj split
    have moved : b + ((k+1)::before).sum*(512*s.bootSector.sectorsPerCluster) =
        b + 512*((k+1)*s.bootSector.sectorsPerCluster) + before.sum*(512*s.bootSector.sectorsPerCluster) := by
      rw [List.sum_cons,Nat.add_mul,Nat.mul_left_comm,Nat.add_assoc]
    rw [moved] at few sticks
    exact ⟨before,j,rest,few,sticks⟩

theorem LastSector.extend (run : Merged s.fatBuffer c k) (two : 2 ≤ c) (small : c < 0xFF8)
    (last : LastSector s n m (b + 512*((k+1)*s.bootSector.sectorsPerCluster)) (getFatEntry s.fatBuffer (c+k)) post) :
    LastSector s n m b c (List.range' c (k+1) ++ post) := by
  obtain ⟨before,j,split,few,sticks⟩ := last.piece
  refine ⟨Leads.append run.links two small last.leads,?_,?_,(k+1)::before,j,?_,?_⟩
  · rw [run_bytes,← Nat.add_assoc]
    exact last.enough
  · rw [run_bytes,← Nat.add_assoc]
    exact last.least
  · rw [pieces_run run.bounded (run.jumps last.leads),split]
    rfl
  · rw [List.sum_cons,Nat.add_mul,Nat.mul_left_comm,← Nat.add_assoc]
    exact ⟨few,sticks⟩

theorem LastSector.first (cluster : 0 < s.bootSector.sectorsPerCluster) (run : Merged s.fatBuffer c k) (two : 2 ≤ c)
    (small : c < 0xFF8) (more : b < n) (holds : n ≤ b + 512*((k+1)*s.bootSector.sectorsPerCluster))
    (few : sectorsFor (n - b) < 2^8) (sticks : m < b + 512*sectorsFor (n - b)) : ∃ cs, LastSector s n m b c cs := by
  obtain ⟨l,enough,least⟩ : ∃ l, n ≤ b + (l+1)*(512*s.bootSector.sectorsPerCluster) ∧
      b + l*(512*s.bootSector.sectorsPerCluster) < n := by
    have unit : 0 < 512*s.bootSector.sectorsPerCluster := by omega
    generalize 512*s.bootSector.sectorsPerCluster = w at unit
    have whole := Nat.div_add_mod (n - b - 1) w
    have part := Nat.mod_lt (n - b - 1) unit
    rw [Nat.mul_comm] at whole
    refine ⟨(n - b - 1)/w,?_,?_⟩
    · rw [Nat.add_mul,Nat.one_mul]
      omega
    · omega
  have within : l < k + 1 := by
    by_contra beyond
    have wide : (k+1)*(512*s.bootSector.sectorsPerCluster) ≤ l*(512*s.bootSector.sectorsPerCluster) :=
      Nat.mul_le_mul_right _ (by omega)
    rw [Nat.mul_left_comm] at wide
    omega
  have bounded := run.bounded
  have one : pieces (List.range' c (l+1)) = [l+1] := by
    rw [← List.append_nil (List.range' c (l+1)),pieces_run (by omega) (fun _ rest empty => (by cases empty))]
    rfl
  refine ⟨List.range' c (l+1),Leads.of_run run.links two small (by omega),?_,?_,[],l+1,one,?_⟩
  · rw [List.length_range']
    exact enough
  · rw [List.length_range',Nat.add_mul,Nat.one_mul]
    omega
  · rw [List.sum_nil,Nat.zero_mul,Nat.add_zero]
    exact ⟨few,sticks⟩

-- The last sector is stored whole, byte m included, whatever the buffer holds.
theorem last_sector_stored (clear : s.Clear) (cluster : 0 < s.bootSector.sectorsPerCluster) (le : n ≤ m)
    (word : n + 511 < 2^32)
    (last : LastSector s n m b c cs) (rounds : n - b < fuel) :
    ∃ byte, ∀ buffer, ∃ r out, readFrom s buffer n b c fuel = some (r,out,s) ∧ out m = byte := by
  induction fuel generalizing b c cs with
  | zero => exact absurd rounds (Nat.not_lt_zero _)
  | succ fuel ih =>
    obtain ⟨two,small⟩ := not_ends.mp (last.leads.head last.nonempty)
    obtain ⟨k,run⟩ := merged s.fatBuffer two
    have positive : 0 < (k+1)*s.bootSector.sectorsPerCluster := Nat.mul_pos (Nat.succ_pos k) cluster
    by_cases short : cs.length ≤ k + 1
    · obtain ⟨few,sticks⟩ := last.here run short
      have more := last.more
      have enough : n ≤ b + 512*((k+1)*s.bootSector.sectorsPerCluster) := by
        have inside : cs.length*(512*s.bootSector.sectorsPerCluster) ≤ (k+1)*(512*s.bootSector.sectorsPerCluster) :=
          Nat.mul_le_mul_right _ short
        rw [Nat.mul_left_comm (k+1)] at inside
        have holds := last.enough
        omega
      have all : min ((k+1)*s.bootSector.sectorsPerCluster) (sectorsFor (n - b)) = sectorsFor (n - b) := by
        unfold sectorsFor
        omega
      refine ⟨stretchBytes s c (m - b),fun buffer => ?_⟩
      rw [read_run clear run buffer two small more word,all,Nat.mod_eq_of_lt few,Nat.min_eq_left enough]
      obtain ⟨left,rest⟩ : ∃ left, fuel = left + 1 := ⟨fuel - 1,by omega⟩
      rw [rest,readFrom,if_neg (fun goes => absurd goes.1 (Nat.lt_irrefl n))]
      refine ⟨_,_,rfl,?_⟩
      have place : b + (m - b) = m := by omega
      have inside : m - b < sectorsFor (n - b)*512 := by omega
      exact (congrArg _ place.symm).trans (blit_inside buffer (stretchBytes s c) inside)
    · obtain ⟨below,post,later⟩ := last.later run (by omega)
      obtain ⟨byte,stored⟩ := ih later (by omega)
      refine ⟨byte,fun buffer => ?_⟩
      rw [read_run clear run buffer two small (by omega) word,Nat.min_eq_right (Nat.le_of_lt below)]
      exact stored _

theorem round_ends_inside (cluster : 0 < s.bootSector.sectorsPerCluster) (run : Merged s.fatBuffer c k) (two : 2 ≤ c)
    (small : c < 0xFF8) (more : b < n) (le : n ≤ m) (noneLast : ∀ cs, ¬ LastSector s n m b c cs) :
    b + min ((k+1)*s.bootSector.sectorsPerCluster) (sectorsFor (n - b)) % 2^8*512 ≤ m := by
  by_contra sticks
  by_cases holds : n ≤ b + 512*((k+1)*s.bootSector.sectorsPerCluster)
  · have all : min ((k+1)*s.bootSector.sectorsPerCluster) (sectorsFor (n - b)) = sectorsFor (n - b) := by
      unfold sectorsFor
      omega
    rw [all] at sticks
    by_cases few : sectorsFor (n - b) < 2^8
    · rw [Nat.mod_eq_of_lt few] at sticks
      obtain ⟨cs,last⟩ := LastSector.first (m := m) cluster run two small more holds few (by omega)
      exact noneLast cs last
    · -- at least one sector is left out, so the bytes stored end before n
      have cut := Nat.mod_lt (sectorsFor (n - b)) (by decide : 0 < 2^8)
      generalize sectorsFor (n - b) % 2^8 = stored at sticks cut
      unfold sectorsFor at few
      omega
  · have taken := Nat.mod_le (min ((k+1)*s.bootSector.sectorsPerCluster) (sectorsFor (n - b))) (2^8)
    generalize min ((k+1)*s.bootSector.sectorsPerCluster) (sectorsFor (n - b)) % 2^8 = stored at sticks taken
    omega

theorem round_behind (run : Merged s.fatBuffer c k) (two : 2 ≤ c) (small : c < 0xFF8) (more : b < n)
    (word : n + 511 < 2^32)
    (ends : b + min ((k+1)*s.bootSector.sectorsPerCluster) (sectorsFor (n - b)) % 2^8*512 ≤ x)
    (ran : readFrom s buffer n b c (fuel+1) = some (r,out,t)) :
    out x = buffer x ∨ ∃ v j,
      readFrom (s.after j) v n (min n (b + 512*((k+1)*s.bootSector.sectorsPerCluster))) (getFatEntry s.fatBuffer (c+k)) fuel =
        some (r,out,t) ∧ v x = buffer x := by
  have within := read_sectors_within s (s.clusterSector c) _ buffer b ends
  obtain ⟨status,v,j,read⟩ := fdc_read_after s (s.clusterSector c)
    (min ((k+1)*s.bootSector.sectorsPerCluster) (sectorsFor (n - b)) % 2^8) buffer b
  rw [read] at within
  rw [read_round_any run buffer two small more word,read] at ran
  dsimp only at ran within
  split at ran
  · cases ran
    exact .inl within
  · exact .inr ⟨v,j,ran,within⟩

-- What lets every round end in front of an address, and holds behind each round again.
structure EndsBefore (n x : Nat) (Good : Driver → Nat → Nat → Prop) : Prop where
  ends : ∀ {s b c k}, Good s b c → b < n → 2 ≤ c → c < 0xFF8 → Merged s.fatBuffer c k →
    b + min ((k+1)*s.bootSector.sectorsPerCluster) (sectorsFor (n - b)) % 2^8*512 ≤ x
  next : ∀ {s b c k} j, Good s b c → b < n → 2 ≤ c → c < 0xFF8 → Merged s.fatBuffer c k →
    Good (s.after j) (min n (b + 512*((k+1)*s.bootSector.sectorsPerCluster))) (getFatEntry s.fatBuffer (c+k))

theorem EndsBefore.keeps {Good : Driver → Nat → Nat → Prop} (before : EndsBefore n x Good) (word : n + 511 < 2^32)
    (good : Good s b c)
    (ran : readFrom s buffer n b c fuel = some (r,out,t)) : out x = buffer x := by
  induction fuel generalizing s buffer b c with
  | zero => cases ran
  | succ fuel ih =>
    by_cases goes : b < n ∧ 2 ≤ c ∧ c < 0xFF8
    · obtain ⟨more,two,small⟩ := goes
      obtain ⟨k,run⟩ := merged s.fatBuffer two
      rcases round_behind run two small more word (before.ends good more two small run) ran with kept | ⟨v,j,rest,kept⟩
      · exact kept
      · exact (ih (before.next j good more two small run) rest).trans kept
    · rw [readFrom,if_neg goes] at ran
      cases ran
      rfl

theorem nothing_behind (cluster : 0 < s.bootSector.sectorsPerCluster) (inside : b ≤ n) (le : n ≤ m) (word : n + 511 < 2^32)
    (noneLast : ∀ cs, ¬ LastSector s n m b c cs) (ran : readFrom s buffer n b c fuel = some (r,out,t)) (behind : m ≤ x) :
    out x = buffer x := by
  have before : EndsBefore n x fun s b c => 0 < s.bootSector.sectorsPerCluster ∧ b ≤ n ∧ ∀ cs, ¬ LastSector s n m b c cs := by
    constructor
    · rintro s b c k ⟨cluster,inside,noneLast⟩ more two small run
      exact Nat.le_trans (round_ends_inside cluster run two small more le noneLast) behind
    · rintro s b c k j ⟨cluster,inside,noneLast⟩ more two small run
      refine ⟨cluster,Nat.min_le_left _ _,fun post last => ?_⟩
      have later : LastSector s n m (min n (b + 512*((k+1)*s.bootSector.sectorsPerCluster))) (getFatEntry s.fatBuffer (c+k)) post :=
        last.transfer rfl rfl
      have below := later.more
      rw [Nat.min_eq_right (by omega)] at later
      exact noneLast _ (later.extend run two small)
  exact before.keeps word ⟨cluster,inside,noneLast⟩ ran

theorem nothing_behind_sectors (inside : b ≤ n) (word : n + 511 < 2^32) (whole : b % 512 = 0 ∨ b = n)
    (ran : readFrom s buffer n b c fuel = some (r,out,t)) (behind : 512*sectorsFor n ≤ x) : out x = buffer x := by
  have before : EndsBefore n x fun _ b _ => b ≤ n ∧ (b % 512 = 0 ∨ b = n) := by
    constructor
    · rintro s b c k ⟨inside,whole⟩ more _ _ _
      have taken := Nat.mod_le (min ((k+1)*s.bootSector.sectorsPerCluster) (sectorsFor (n - b))) (2^8)
      generalize min ((k+1)*s.bootSector.sectorsPerCluster) (sectorsFor (n - b)) % 2^8 = stored at taken ⊢
      unfold sectorsFor at behind taken
      omega
    · rintro s b c k j ⟨inside,whole⟩ more _ _ _
      exact ⟨Nat.min_le_left _ _,by omega⟩
  exact before.keeps word ⟨inside,whole⟩ ran

-- When the rounding up overflows, no sector is asked for.
theorem overflow_stores_nothing (overflow : 2^32 ≤ n + 511) (word : n < 2^32)
    (ran : readFrom s buffer n 0 c fuel = some (r,out,t)) :
    out = buffer := by
  induction fuel generalizing s buffer c with
  | zero => cases ran
  | succ fuel ih =>
    rw [readFrom] at ran
    split at ran
    · have noneNeeded : (n - 0 + 511) % 2^32/512 = 0 := by omega
      have asked : ∀ sectors, (if sectors > 0 then 0 else sectors) = 0 := fun sectors => by split <;> omega
      dsimp only at ran
      rw [noneNeeded,asked,Nat.zero_mod,Nat.zero_mul,if_neg (Nat.not_lt_zero _)] at ran
      have nothing : fdcReadSectors s (s.clusterSector c) 0 buffer 0 = (0,buffer,s) := rfl
      rw [nothing] at ran
      exact ih ran
    · cases ran
      rfl

end

def StoresInside (s : Driver) (fname : List UInt8) (buf : Memory) (arg3 : Nat) : Prop :=
  ∀ r out t, syscallReadFile s fname buf arg3 = some (r,out,t) → ∀ x, arg3 ≤ x → out x = buf x

def askedBytes (s : Driver) (k arg3 : Nat) : Nat := min (fileSize s.disk (s.slot k)) (arg3 % 2^32)

section
variable {s : Driver} {f : List UInt8} {k : Nat}

theorem syscall_read_opened (taken : openSlot s f = some k) (buf : Memory) (arg3 : Nat) : syscallReadFile s f buf arg3 =
    (readFrom (s.after (k/16+1)) buf (askedBytes s k arg3) 0 (firstClusterLow s.disk (s.slot k)) (askedBytes s k arg3 + 1)).map
      (fun x => (if x.1 ≥ 0 then x.1 else -1,x.2)) := by
  obtain ⟨file,opened,size,first⟩ := open_takes taken .fresh
  have limited : (if (if file.size < arg3 % 2^32 then file.size else arg3 % 2^32) > file.size then file.size
      else if file.size < arg3 % 2^32 then file.size else arg3 % 2^32) = askedBytes s k arg3 := by
    unfold askedBytes
    rw [← size]
    by_cases less : file.size < arg3 % 2^32
    · rw [if_pos less,if_neg (Nat.lt_irrefl _),Nat.min_eq_left (Nat.le_of_lt less)]
    · rw [if_neg less,if_neg less,Nat.min_eq_right (Nat.le_of_not_lt less)]
  have word : firstClusterLow s.disk (s.slot k) % 2^16 = firstClusterLow s.disk (s.slot k) := Nat.mod_eq_of_lt (load_lt _ _ 2)
  unfold syscallReadFile fat12Read
  rw [opened]
  dsimp only
  rw [if_neg (by decide),limited,first,word]
  cases readFrom (s.after (k/16+1)) buf (askedBytes s k arg3) 0 (firstClusterLow s.disk (s.slot k)) (askedBytes s k arg3 + 1) with
  | none => rfl
  | some result => rfl

theorem syscall_read_missing (nothing : openSlot s f = none) (buf : Memory) (arg3 : Nat) :
    ∃ t, syscallReadFile s f buf arg3 = some (-1,buf,t) := by
  obtain ⟨j,missing⟩ := open_nothing nothing .fresh
  unfold syscallReadFile
  rw [missing]
  exact ⟨_,rfl⟩

end

theorem stores_inside_iff {s : Driver} (accepted : Accepted s.toMount) (fname : List UInt8) (arg3 : Nat) :
    (∀ faults buf, StoresInside {s with faults := faults} fname buf arg3) ↔
      ∀ k, openSlot {s with faults := fun _ => false} fname = some k → askedBytes s k arg3 + 511 < 2^32 →
        ∀ cs, ¬ LastSector s (askedBytes s k arg3) arg3 0 (firstClusterLow s.disk (s.slot k)) cs := by
  have cluster := accepted.layout.cluster
  have limit : ∀ k, askedBytes s k arg3 ≤ arg3 := fun k => Nat.le_trans (Nat.min_le_right _ _) (Nat.mod_le _ _)
  constructor
  · intro inside k taken word cs last
    obtain ⟨byte,stored⟩ := last_sector_stored (s := ({s with faults := fun _ => false} : Driver).after (k/16+1)) (fun _ => rfl) cluster
      (limit k) word (last.transfer rfl rfl) (Nat.lt_succ_self _)
    obtain ⟨r,out,ran,same⟩ := stored (fun _ => byte + 1)
    have kept := inside (fun _ => false) (fun _ => byte + 1) _ out _ (by
      rw [syscall_read_opened taken]
      exact congrArg _ ran) arg3 (Nat.le_refl _)
    rw [same] at kept
    exact absurd kept (by simp)
  · intro noneLast faults buf r out t ran x behind
    cases taken : openSlot {s with faults := faults} fname with
    | none =>
      obtain ⟨t',missing⟩ := syscall_read_missing taken buf arg3
      rw [missing] at ran
      cases ran
      rfl
    | some k =>
      rw [syscall_read_opened taken] at ran
      obtain ⟨⟨v,stored,u⟩,read,same⟩ := Option.map_eq_some_iff.mp ran
      cases same
      by_cases word : askedBytes s k arg3 + 511 < 2^32
      · have noneHere := noneLast k (slot_without_faults (openProbe_local _) taken) word
        exact nothing_behind (s := ({s with faults := faults} : Driver).after (k/16+1)) cluster (Nat.zero_le _) (limit k) word
          (fun cs last => noneHere cs (last.transfer rfl rfl)) read behind
      · have small : askedBytes s k arg3 < 2^32 := by
          unfold askedBytes
          omega
        exact congrFun (overflow_stores_nothing (Nat.le_of_not_lt word) small read) x

def oneByte : Driver :=
  {blank with
    fatBuffer := setFatEntry (fun _ => 0) 2 0xFFF
    disk := fun x =>
      if x < 19*512 then 0
      else [0x41,0x20,0x20,0x20,0x20,0x20,0x20,0x20,0x20,0x20,0x20,0x20,0,0,0,0,0,0,0,0,0,0,0,0,0,0,2,0,1,0,0,0].getD (x - 19*512)
        (if x < 33*512 then 0 else 1)}

-- The whole sector comes into a buffer of one byte.
theorem sector_stored_behind : Accepted oneByte.toMount ∧ ¬ StoresInside oneByte [0x41] (fun _ => 0) 1 := by
  refine ⟨floppy_accepted,fun inside => ?_⟩
  have code : (syscallReadFile oneByte [0x41] (fun _ => 0) 1).map (fun x => (x.1,x.2.1 1)) = some (1,1) := by decide +kernel
  obtain ⟨⟨r,out,t⟩,ran,same⟩ := Option.map_eq_some_iff.mp code
  have kept := inside r out t ran 1 (Nat.le_refl 1)
  cases same.symm.trans (congrArg (Prod.mk r) kept)

theorem stores_inside_iff_one_byte : StoresInside {oneByte with faults := fun _ => false} [0x41] (fun _ => 0) 512 := by
  refine (stores_inside_iff floppy_accepted [0x41] 512).mpr (fun k taken _ cs last => ?_) (fun _ => false) (fun _ => 0)
  have first : openSlot {oneByte with faults := fun _ => false} [0x41] = some 0 := by decide +kernel
  rw [first] at taken
  cases taken
  have one : askedBytes oneByte 0 512 = 1 := by decide +kernel
  have cluster : firstClusterLow oneByte.disk (oneByte.slot 0) = 2 := by decide +kernel
  rw [one,cluster] at last
  obtain ⟨k,run⟩ := merged oneByte.fatBuffer (c := 2) (Nat.le_refl 2)
  have least : 0 + cs.length*(512*1) < 1 + 512*1 := last.least
  have sticks : 512 < 0 + 512*1 := (last.here run (by omega)).2
  omega

end SantOS.Fat12
