import SantOS.Fat12.Walks
import SantOS.Shell.Tokens

namespace SantOS.Shell
open CStrings Fat12

-- The names in a path, and the path of such names. The shell keeps a path in a buffer of
-- 256 bytes; a longer one would run over it.
def components (path : Str) : List Str := pieces (· = 0x2F) [] path

def pathText (path : List Str) : Str := if path = [] then bytes "/" else path.flatMap (fun name => 0x2F::name)

-- A name of valid 8.3 form: one to eight characters, and behind a dot at most three.
structure ValidName (name : Str) : Prop where
  form : ∃ base ext, base ≠ [] ∧ base.length ≤ 8 ∧ ext.length ≤ 3 ∧ (∀ c ∈ base ++ ext, c ∉ [0,0x20,0x2E,0x2F]) ∧
    (name = base ∨ (ext ≠ [] ∧ name = base ++ 0x2E::ext))
  nameable : Nameable name

-- The current cluster is the first cluster of the directory that the current path names.
def Named (s : Session Driver) : Prop := ∃ slots, Reaches s.system (components s.currentDirectory) s.currentCluster slots

structure Cd (command target : Str) : Prop where
  plain : hasPipe command = false
  args : ∃ rest, commandArgs command = bytes "cd"::target::rest
  names : target = bytes "." ∨ target = bytes ".." ∨ ValidName target

def AlwaysNamed (run : Session Driver → Str → Result Driver) : Session Driver → List Str → Prop
  | s,[] => Named s
  | s,command::commands => Named s ∧ ∃ result t outs, run s command = some (result,t,outs) ∧ AlwaysNamed run t commands

-- No "cd .." is given two or more levels below the root.
def NeverDeep (run : Session Driver → Str → Result Driver) : Session Driver → List Str → Prop
  | _,[] => True
  | s,command::commands => ¬ (Cd command (bytes "..") ∧ 2 ≤ (components s.currentDirectory).length) ∧
    ∀ result t outs, run s command = some (result,t,outs) → NeverDeep run t commands

theorem ValidName.shape (valid : ValidName name) : name ≠ [] ∧ 0x2F ∉ name ∧ name ≠ bytes "." ∧ name ≠ bytes ".." := by
  obtain ⟨base,ext,some_,_,_,plain,form⟩ := valid.form
  have slashBase : 0x2F ∉ base := fun member => absurd (plain _ (List.mem_append_left _ member)) (by decide)
  have slashExt : 0x2F ∉ ext := fun member => absurd (plain _ (List.mem_append_right _ member)) (by decide)
  obtain ⟨c,base,rfl⟩ := List.exists_cons_of_ne_nil some_
  have noDot : c ≠ 0x2E := by
    rintro rfl
    exact absurd (plain 0x2E (by simp)) (by decide)
  have head : name.head? = some c := by
    rcases form with rfl | ⟨_,rfl⟩ <;> rfl
  refine ⟨?_,?_,?_,?_⟩
  · rintro rfl
    cases head
  · rcases form with rfl | ⟨_,rfl⟩
    · exact slashBase
    · intro member
      rcases List.mem_append.mp member with inside | inside
      · exact slashBase inside
      · rcases List.mem_cons.mp inside with dot | inside
        · cases dot
        · exact slashExt inside
  · rintro rfl
    exact noDot (Option.some.inj head).symm
  · rintro rfl
    exact noDot (Option.some.inj head).symm

theorem components_text (names : ∀ name ∈ path, ValidName name) : components (pathText path) = path := by
  cases path with
  | nil => rfl
  | cons name path =>
    have plain : ∀ l ∈ []::name::path, ∀ c ∈ l, decide (c = 0x2F) = false := by
      intro l member c inside
      rcases List.mem_cons.mp member with rfl | member
      · cases inside
      · simp only [decide_eq_false_iff_not]
        rintro rfl
        exact (names l member).shape.2.1 inside
    have split_ := @pieces_joined (fun c => decide (c = 0x2F)) 0x2F [] (name::path) (by decide) plain
    rw [List.nil_append,List.filter_cons_of_neg (by simp)] at split_
    rw [components,pathText,if_neg (by simp),split_,List.filter_eq_self]
    intro l member
    simpa using (names l member).shape.1

theorem pathText_push (path : List Str) (name : Str) :
    pathText (path ++ [name]) = (if path = [] then [] else pathText path) ++ 0x2F::name := by
  cases path with
  | nil => simp [pathText]
  | cons first path => simp [pathText]

theorem pathText_root (names : ∀ name ∈ path, ValidName name) : pathText path = bytes "/" ↔ path = [] := by
  constructor
  · intro same
    rw [← components_text names,same]
    rfl
  · rintro rfl
    rfl

theorem beforeLastSlash_push (front name : Str) (plain : 0x2F ∉ name) : beforeLastSlash (front ++ 0x2F::name) = front := by
  have rest : ∀ c ∈ name.reverse, decide (c ≠ 0x2F) = true := by
    intro c member
    simp only [ne_eq,decide_eq_true_eq]
    rintro rfl
    exact plain (List.mem_reverse.mp member)
  rw [beforeLastSlash,List.reverse_append,List.reverse_cons,List.append_assoc,List.dropWhile_append_of_pos rest,
    List.singleton_append,List.dropWhile_cons_of_neg (by decide),List.drop_one,List.tail_cons,List.reverse_reverse]

section
variable {k : Kernel Driver} {rounds fuel : Nat} {s : Session Driver}

structure At (s : Session Driver) (path : List Str) : Prop where
  text : s.currentDirectory = pathText path
  names : ∀ name ∈ path, ValidName name
  tree : DirectoryTree s.system
  reaches : ∃ slots, Reaches s.system path s.currentCluster slots

theorem At.components (stands : At s path) : components s.currentDirectory = path := by
  rw [stands.text,components_text stands.names]

theorem At.named (stands : At s path) : Named s := by
  rw [Named,stands.components]
  exact stands.reaches

theorem At.after (stands : At s path) (j : Nat) : At {s with system := s.system.after j} path := by
  obtain ⟨slots,reaches⟩ := stands.reaches
  exact ⟨stands.text,stands.names,stands.tree.after,slots,reaches_after.mpr reaches⟩

theorem Cd.target_eq (one : Cd command target) (other : Cd command target') : target = target' := by
  obtain ⟨_,args⟩ := one.args
  obtain ⟨_,args'⟩ := other.args
  rw [args] at args'
  exact (List.cons.inj (List.cons.inj args').2).1

theorem Cd.runs (given : Cd command target) : ∃ rest, processCommand (fat12Kernel k) rounds (fuel+1) s command =
    printing [.given command] (printing [.ran command] (cd (fat12Kernel k) s (bytes "cd"::target::rest))) := by
  obtain ⟨rest,args⟩ := given.args
  obtain ⟨_,noDot,noDollar⟩ := command_no_prefix args (by decide) (by decide)
  refine ⟨rest,?_⟩
  rw [processCommand]
  dsimp only
  rw [if_neg (by simp [given.plain]),processSingleCommand,if_neg noDot,if_neg noDollar,args]
  rfl

theorem cd_here (s : Session Driver) (rest : List Str) :
    ∃ outs, cd (fat12Kernel k) s (bytes "cd"::bytes "."::rest) = some (0,s,outs) := by
  rw [cd,if_pos rfl]
  exact ⟨_,rfl⟩

theorem cd_into (stands : At s path) (valid : ValidName target) (rest : List Str) :
    ∃ t outs path', cd (fat12Kernel k) s (bytes "cd"::target::rest) = some (0,t,outs) ∧ At t path' := by
  obtain ⟨nonempty,_,notHere,notParent⟩ := valid.shape
  obtain ⟨slots,reaches⟩ := stands.reaches
  obtain ⟨cluster,isDir,j,ran,finds⟩ := findEntry_spec stands.tree reaches target
  rw [cd,if_neg notHere,if_neg notParent,show (fat12Kernel k).findEntry = fat12FindEntry from rfl,ran]
  dsimp only
  by_cases zero : cluster = 0
  · rw [if_pos zero]
    exact ⟨_,_,path,rfl,stands.after j⟩
  rw [if_neg zero]
  by_cases file : ¬ isDir
  · rw [if_pos file]
    exact ⟨_,_,path,rfl,stands.after j⟩
  rw [if_neg file]
  rcases finds with nothing | ⟨a,member,hit,rfl,rfl⟩
  · exact absurd nothing.1 zero
  have dir : attributes s.system.disk a &&& 0x10 ≠ 0 := by simpa using file
  obtain ⟨slots',entered⟩ := reaches.enter stands.tree valid.nameable member hit dir
  refine ⟨_,_,path ++ [target],rfl,?_,?_,stands.tree.after,slots',reaches_after.mpr entered⟩
  · dsimp only
    rw [pathText_push,stands.text]
    by_cases root : path = []
    · subst root
      rfl
    · rw [if_neg (fun same => root ((pathText_root stands.names).mp same)),if_neg root,List.append_assoc]
      rfl
  · intro name inside
    rcases List.mem_append.mp inside with before | last
    · exact stands.names name before
    · rw [List.mem_singleton.mp last]
      exact valid

-- ".." is not found, so going up sets the path to that of the parent and the cluster to 0.
theorem cd_parent_result (stands : At s (front ++ [name])) (rest : List Str) :
    ∃ j outs, cd (fat12Kernel k) s (bytes "cd"::bytes ".."::rest) =
      some (0,{s with currentDirectory := pathText front, currentCluster := 0, system := s.system.after j},outs) := by
  obtain ⟨slots,reaches⟩ := stands.reaches
  have valid : ValidName name := stands.names name (by simp)
  have above : ∀ other ∈ front, ValidName other := fun other member => stands.names other (List.mem_append_left _ member)
  have belowRoot : s.currentDirectory ≠ bytes "/" := by
    rw [stands.text]
    intro same
    simpa using (pathText_root stands.names).mp same
  have text := stands.text
  rw [pathText_push] at text
  obtain ⟨j,ran⟩ := dotdot_not_found stands.tree reaches
  refine ⟨j,[.text (pathText front ++ bytes "\n")],?_⟩
  rw [cd,if_neg (by decide),if_pos rfl,if_neg belowRoot,show (fat12Kernel k).findEntry = fat12FindEntry from rfl,
    show bytes ".." = [0x2E,0x2E] from rfl,ran]
  dsimp only
  rw [if_neg (by rw [text]; simp),text,beforeLastSlash_push _ _ valid.shape.2.1]
  by_cases root : front = []
  · subst root
    rw [if_pos rfl,if_pos rfl]
    rfl
  · have textFront : pathText front ≠ [] := by
      intro empty
      have parts := components_text above
      rw [empty] at parts
      exact root parts.symm
    rw [if_neg root,if_neg textFront]
    rfl

-- So only the root, which needs no lookup, is reached by going up.
theorem cd_up (stands : At s path) (rest : List Str) :
    ∃ t outs, cd (fat12Kernel k) s (bytes "cd"::bytes ".."::rest) = some (0,t,outs) ∧
    if 2 ≤ path.length then ¬ Named t else At t [] := by
  rcases List.eq_nil_or_concat path with rfl | ⟨front,name,rfl⟩
  · have root : s.currentDirectory = bytes "/" := stands.text
    rw [cd,if_neg (by decide),if_pos rfl,if_pos root]
    exact ⟨s,_,rfl,stands⟩
  rw [List.concat_eq_append] at stands ⊢
  have above : ∀ other ∈ front, ValidName other := fun other member => stands.names other (List.mem_append_left _ member)
  obtain ⟨j,outs,ran⟩ := cd_parent_result (k := k) stands rest
  refine ⟨_,outs,ran,?_⟩
  by_cases root : front = []
  · subst root
    rw [if_neg (by simp)]
    exact ⟨rfl,above,stands.tree.after,_,.root⟩
  · have deep : 2 ≤ (front ++ [name]).length := by
      have some_ := List.length_pos_of_ne_nil root
      rw [List.length_append,List.length_singleton]
      omega
    rw [if_pos deep]
    rintro ⟨slots,named⟩
    dsimp only at named
    rw [components_text above] at named
    rcases named.shape stands.tree.after with ⟨empty,_⟩ | ⟨_,two,_⟩
    · exact root empty
    · omega

variable (k rounds fuel) in
theorem cd_step (stands : At s path) (given : Cd command target) :
    ∃ t outs, processCommand (fat12Kernel k) rounds (fuel+1) s command = some (0,t,outs) ∧
      if target = bytes ".." ∧ 2 ≤ path.length then ¬ Named t else ∃ path', At t path' := by
  obtain ⟨rest,runs⟩ := given.runs (k := k) (s := s)
  rw [runs]
  rcases given.names with rfl | rfl | valid
  · obtain ⟨outs,ran⟩ := cd_here (k := k) s rest
    rw [ran]
    refine ⟨s,_,rfl,?_⟩
    rw [if_neg (fun both => absurd both.1 (by decide))]
    exact ⟨path,stands⟩
  · obtain ⟨t,outs,ran,up⟩ := cd_up (k := k) stands rest
    rw [ran]
    refine ⟨t,_,rfl,?_⟩
    by_cases deep : 2 ≤ path.length
    · rw [if_pos deep] at up
      rwa [if_pos ⟨rfl,deep⟩]
    · rw [if_neg deep] at up
      rw [if_neg (fun both => deep both.2)]
      exact ⟨[],up⟩
  · obtain ⟨t,outs,path',ran,stands'⟩ := cd_into (k := k) stands valid rest
    rw [ran]
    refine ⟨t,_,rfl,?_⟩
    rw [if_neg (fun both => valid.shape.2.2.2 both.1)]
    exact ⟨path',stands'⟩

theorem run_agrees (stands : At s path) (commands : List Str) (cds : ∀ command ∈ commands, ∃ target, Cd command target) :
    AlwaysNamed (processCommand (fat12Kernel k) rounds (fuel+1)) s commands ↔
      NeverDeep (processCommand (fat12Kernel k) rounds (fuel+1)) s commands := by
  induction commands generalizing s path with
  | nil => exact ⟨fun _ => trivial,fun _ => stands.named⟩
  | cons command commands ih =>
    obtain ⟨target,given⟩ := cds command List.mem_cons_self
    obtain ⟨t,outs,ran,step⟩ := cd_step k rounds fuel stands given
    have later : ∀ command ∈ commands, ∃ target, Cd command target :=
      fun other member => cds other (List.mem_cons_of_mem _ member)
    rw [AlwaysNamed,NeverDeep,stands.components,ran]
    by_cases deep : target = bytes ".." ∧ 2 ≤ path.length
    · rw [if_pos deep] at step
      constructor
      · rintro ⟨_,result,t',outs',same,always⟩
        cases same
        refine absurd ?_ step
        cases commands with
        | nil => exact always
        | cons next commands => exact always.1
      · rintro ⟨shallow,_⟩
        exact absurd ⟨deep.1 ▸ given,deep.2⟩ shallow
    · rw [if_neg deep] at step
      obtain ⟨path',stands'⟩ := step
      constructor
      · rintro ⟨_,result,t',outs',same,always⟩
        cases same
        refine ⟨fun both => deep ⟨given.target_eq both.1,both.2⟩,?_⟩
        intro result t' outs' same
        cases same
        exact (ih stands' later).mp always
      · rintro ⟨_,never⟩
        exact ⟨stands.named,0,t,outs,rfl,(ih stands' later).mpr (never 0 t outs rfl)⟩

theorem NeverDeep.before {run : Session Driver → Str → Result Driver} {front rest : List Str}
    (never : NeverDeep run s (front ++ command::rest)) (ran : runLines run s front = some (result,t,outs)) :
    ¬ (Cd command (bytes "..") ∧ 2 ≤ (components t.currentDirectory).length) := by
  induction front generalizing s result outs with
  | nil =>
    cases ran
    exact never.1
  | cons first front ih =>
    rw [runLines] at ran
    cases one : run s first with
    | none =>
      rw [one] at ran
      cases ran
    | some ended =>
      obtain ⟨_,u,printed⟩ := ended
      rw [one] at ran
      obtain ⟨⟨_,_,more⟩,tail,same⟩ := Option.map_eq_some_iff.mp ran
      cases same
      exact ih (never.2 _ _ _ one) tail

theorem cluster_named_iff (tree : DirectoryTree s.system) (home : s.currentDirectory = bytes "/" ∧ s.currentCluster = 0)
    (commands : List Str) (cds : ∀ command ∈ commands, ∃ target, Cd command target) :
    AlwaysNamed (processCommand (fat12Kernel k) rounds (fuel+1)) s commands ↔
      NeverDeep (processCommand (fat12Kernel k) rounds (fuel+1)) s commands := by
  have start : At s [] := by
    refine ⟨home.1,by simp,tree,s.system.rootSlots,?_⟩
    rw [home.2]
    exact .root
  exact run_agrees start commands cds

end

def directoryEntry (name : List UInt8) (cluster : UInt8) : List UInt8 :=
  name ++ 0x10::(List.replicate 14 0 ++ [cluster,0,0,0,0,0])

def entriesAt (start : Nat) (entries : List UInt8) (x : Nat) : UInt8 := if x < start then 0 else entries.getD (x - start) 0

def nested : Driver where
  bootSector := ⟨512,1,1,1,16,8,1,0⟩
  fatStartSector := 1
  rootDirStartSector := 2
  dataStartSector := 3
  fatBuffer := fun i => if i < 6 then 0xFF else 0
  disk := fun x =>
    if x < 1536 then entriesAt 1024 (directoryEntry (name83 (bytes "A")) 2) x
    else if x < 2048 then
      entriesAt 1536 (directoryEntry dotName 2 ++ directoryEntry dotdotName 0 ++ directoryEntry (name83 (bytes "B")) 3) x
    else entriesAt 2048 (directoryEntry dotName 3 ++ directoryEntry dotdotName 2) x
  faults := fun _ => false

def floppy : Kernel Driver :=
  fat12Kernel {
    readFile := syscallReadFile
    createFile := syscallCreateFile
    findEntry := fat12FindEntry
    listDirCluster := fun s _ => some s
    exec := fun s _ _ => some (false,s)
    getchar := fun _ => none}

theorem nested_chains : EntryChain nested 1024 [2] ∧ EntryChain nested 1600 [3] :=
  ⟨.inr ⟨by decide +kernel,by simp,.cons (by decide +kernel) (.nil (by decide +kernel))⟩,
    .inr ⟨by decide +kernel,by simp,.cons (by decide +kernel) (.nil (by decide +kernel))⟩⟩

theorem nested_slots : (∀ a ∈ nested.rootSlots, nested.disk a ≠ 0 → a = 1024) ∧
    (∀ a ∈ nested.chainSlots [2], nested.disk a ≠ 0 → a = 1536 ∨ a = 1568 ∨ a = 1600) ∧
    ∀ a ∈ nested.chainSlots [3], nested.disk a ≠ 0 → a = 2048 ∨ a = 2080 := by
  decide +kernel

theorem nested_child (reaches : Reaches nested path c slots) : ((c = 0 ∧ slots = nested.rootSlots) ∨
      (c = 2 ∧ slots = nested.chainSlots [2]) ∨ (c = 3 ∧ slots = nested.chainSlots [3])) ∧
    ∀ a ∈ slots, ∀ name, Child nested a name → (c = 0 ∧ a = 1024) ∨ (c = 2 ∧ a = 1600) := by
  obtain ⟨inRoot,inFirst,inSecond⟩ := nested_slots
  have noDots (name : Str) (a : Nat) (child : Child nested a name) :
      entryName nested.disk a ≠ dotName ∧ entryName nested.disk a ≠ dotdotName := by
    rw [child.named]
    exact proper_name name
  have rootChild (a : Nat) (member : a ∈ nested.rootSlots) (name : Str) (child : Child nested a name) :
      ((0 : Nat) = 0 ∧ a = 1024) ∨ ((0 : Nat) = 2 ∧ a = 1600) := .inl ⟨rfl,inRoot a member child.live.1⟩
  have firstChild (a : Nat) (member : a ∈ nested.chainSlots [2]) (name : Str) (child : Child nested a name) :
      ((2 : Nat) = 0 ∧ a = 1024) ∨ ((2 : Nat) = 2 ∧ a = 1600) := by
    rcases inFirst a member child.live.1 with rfl | rfl | rfl
    · exact absurd (by decide +kernel) (noDots name _ child).1
    · exact absurd (by decide +kernel) (noDots name _ child).2
    · exact .inr ⟨rfl,rfl⟩
  have secondChild (a : Nat) (member : a ∈ nested.chainSlots [3]) (name : Str) (child : Child nested a name) :
      ((3 : Nat) = 0 ∧ a = 1024) ∨ ((3 : Nat) = 2 ∧ a = 1600) := by
    rcases inSecond a member child.live.1 with rfl | rfl
    · exact absurd (by decide +kernel) (noDots name _ child).1
    · exact absurd (by decide +kernel) (noDots name _ child).2
  induction reaches with
  | root => exact ⟨.inl ⟨rfl,rfl⟩,rootChild⟩
  | @sub path c slots a name cs parent member child chain ih =>
    rcases ih.2 a (List.takeWhile_subset _ member) name child with ⟨_,rfl⟩ | ⟨_,rfl⟩
    · have cluster : firstClusterLow nested.disk 1024 = 2 := by decide +kernel
      rw [chain.unique nested_chains.1,cluster]
      exact ⟨.inr (.inl ⟨rfl,rfl⟩),firstChild⟩
    · have cluster : firstClusterLow nested.disk 1600 = 3 := by decide +kernel
      rw [chain.unique nested_chains.2,cluster]
      exact ⟨.inr (.inr ⟨rfl,rfl⟩),secondChild⟩

theorem nested_tree : DirectoryTree nested := by
  refine ⟨?_,?_⟩
  · intro path c slots a name reaches member child
    rcases (nested_child reaches).2 a (List.takeWhile_subset _ member) name child with ⟨rfl,rfl⟩ | ⟨rfl,rfl⟩
    · exact ⟨2,[],nested_chains.1,by simp,by decide +kernel,by decide +kernel⟩
    · exact ⟨3,[],nested_chains.2,by simp,by decide +kernel,by decide +kernel⟩
  · obtain ⟨inRoot,inFirst,inSecond⟩ := nested_slots
    intro path c slots a reaches shown live
    have member := List.takeWhile_subset _ shown
    rcases (nested_child reaches).1 with ⟨rfl,rfl⟩ | ⟨rfl,rfl⟩ | ⟨rfl,rfl⟩
    · rw [inRoot a member live.1]
      decide +kernel
    · rcases inFirst a member live.1 with rfl | rfl | rfl <;> decide +kernel
    · rcases inSecond a member live.1 with rfl | rfl <;> decide +kernel

theorem cd_letter (c : UInt8) (letter : c = 0x41 ∨ c = 0x42) : Cd (bytes "cd " ++ [c]) [c] := by
  rcases letter with rfl | rfl
  · exact ⟨by decide,⟨[],by decide⟩,.inr (.inr ⟨⟨[0x41],[],by simp⟩,by decide⟩)⟩
  · exact ⟨by decide,⟨[],by decide⟩,.inr (.inr ⟨⟨[0x42],[],by simp⟩,by decide⟩)⟩

theorem cd_parent : Cd (bytes "cd ..") (bytes "..") := ⟨by decide,⟨[],by decide⟩,.inr (.inl rfl)⟩

theorem cluster_named_iff_up_to_root :
    AlwaysNamed (processCommand floppy 0 1) (shellStart nested) [bytes "cd A",bytes "cd .."] := by
  have cds : ∀ command ∈ [bytes "cd A",bytes "cd .."], ∃ target, Cd command target := by
    intro command member
    rcases List.mem_cons.mp member with rfl | member
    · exact ⟨_,cd_letter 0x41 (.inl rfl)⟩
    · rw [List.mem_singleton.mp member]
      exact ⟨_,cd_parent⟩
  refine (cluster_named_iff (s := shellStart nested) nested_tree ⟨rfl,rfl⟩ [bytes "cd A",bytes "cd .."] cds).mpr ⟨?_,?_⟩
  · rintro ⟨_,deep⟩
    exact absurd deep (by decide)
  · intro result t outs (ran : processCommand floppy 0 1 (shellStart nested) (bytes "cd A") = some (result,t,outs))
    refine ⟨?_,fun _ _ _ _ => trivial⟩
    rintro ⟨_,deep⟩
    have one : (processCommand floppy 0 1 (shellStart nested) (bytes "cd A")).map
        (fun r => (components r.2.1.currentDirectory).length) = some 1 := by decide +kernel
    rw [ran] at one
    have length : (components t.currentDirectory).length = 1 := Option.some.inj one
    omega

-- Back from "/A/B" the shell shows "/A", and its cluster is that of the root.
theorem parent_cluster_lost :
    (runLines (processCommand floppy 0 1) (shellStart nested) [bytes "cd A",bytes "cd B",bytes "cd .."]).map
      (fun r => (r.2.1.currentDirectory,r.2.1.currentCluster)) = some (bytes "/A",0) ∧
    Reaches nested [bytes "A"] 2 (nested.chainSlots [2]) ∧
    ¬ ((∀ command ∈ [bytes "cd A",bytes "cd B",bytes "cd .."], ∃ target, Cd command target) ∧ DirectoryTree nested →
      AlwaysNamed (processCommand floppy 0 1) (shellStart nested) [bytes "cd A",bytes "cd B",bytes "cd .."]) := by
  refine ⟨by decide +kernel,?_,?_⟩
  · have child : Child nested 1024 (bytes "A") := by
      refine ⟨⟨by decide +kernel,by decide +kernel⟩,?_,by decide +kernel⟩
      unfold IsDirectory
      decide +kernel
    exact .sub .root (by decide +kernel) child nested_chains.1
  · intro claimed
    have cds : ∀ command ∈ [bytes "cd A",bytes "cd B",bytes "cd .."], ∃ target, Cd command target := by
      intro command member
      rcases List.mem_cons.mp member with rfl | member
      · exact ⟨_,cd_letter 0x41 (.inl rfl)⟩
      rcases List.mem_cons.mp member with rfl | member
      · exact ⟨_,cd_letter 0x42 (.inr rfl)⟩
      · rw [List.mem_singleton.mp member]
        exact ⟨_,cd_parent⟩
    have start : At (shellStart nested) [] := ⟨rfl,by simp,nested_tree,_,.root⟩
    have never := (run_agrees start _ cds).mp (claimed ⟨cds,nested_tree⟩)
    have two : (runLines (processCommand floppy 0 1) (shellStart nested) [bytes "cd A",bytes "cd B"]).map
        (fun r => (components r.2.1.currentDirectory).length) = some 2 := by decide +kernel
    obtain ⟨⟨result,t,outs⟩,ran,depth⟩ := Option.map_eq_some_iff.mp two
    have shallow : ¬ (Cd (bytes "cd ..") (bytes "..") ∧ 2 ≤ (components t.currentDirectory).length) :=
      never.before ran
    exact shallow ⟨cd_parent,Nat.le_of_eq depth.symm⟩

end SantOS.Shell
