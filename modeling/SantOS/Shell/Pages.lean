import SantOS.Library.Slices
import SantOS.Shell.Commands

namespace SantOS.Shell
open CStrings Slices

def pageStep (at_ : Nat × Nat) (c : UInt8) : Nat × Nat :=
  if c = 10 then (0,at_.2 + 1) else if at_.1 + 1 ≥ pageCols then (0,at_.2 + 1) else (at_.1 + 1,at_.2)

theorem pageStartsFrom_cons (i col row pages : Nat) (c : UInt8) (rest : Str) :
    pageStartsFrom i col row pages (c::rest) =
      if pages < 1024 then
        if (pageStep (col,row) c).2 ≥ pageRows then (i+1)::pageStartsFrom (i+1) 0 0 (pages+1) rest
        else pageStartsFrom (i+1) (pageStep (col,row) c).1 (pageStep (col,row) c).2 pages rest
      else [] := rfl

theorem pageStarts_ordered (i col row pages : Nat) (text : Str) (few : pages ≤ 1024) :
    (i::pageStartsFrom i col row pages text).IsChain (· ≤ ·) ∧ (∀ a ∈ pageStartsFrom i col row pages text, a ≤ i + text.length) ∧
      pages + (pageStartsFrom i col row pages text).length ≤ 1024 := by
  induction text generalizing i col row pages with
  | nil => exact ⟨.singleton i,by simp [pageStartsFrom],by simpa [pageStartsFrom] using few⟩
  | cons c rest ih =>
    have place : i + 1 + rest.length = i + (c::rest).length := by
      rw [List.length_cons]
      omega
    rw [pageStartsFrom_cons]
    split
    · next less =>
      split
      · obtain ⟨chain,inside,count⟩ := ih (i+1) 0 0 (pages+1) less
        rw [place] at inside
        refine ⟨List.isChain_cons_cons.mpr ⟨Nat.le_succ i,chain⟩,?_,?_⟩
        · intro a member
          rcases List.mem_cons.mp member with rfl | later
          · omega
          · exact inside a later
        · rw [List.length_cons]
          omega
      · obtain ⟨chain,inside,count⟩ := ih (i+1) (pageStep (col,row) c).1 (pageStep (col,row) c).2 pages few
        rw [place] at inside
        exact ⟨chain.imp_head (fun le => Nat.le_trans (Nat.le_succ i) le),inside,count⟩
    · exact ⟨.singleton i,by simp,few⟩

def outBytes : Out → Str
  | .text s => s
  | .marked s => s
  | _ => []

-- Marked or not, every byte of the interval is printed once: a term that goes on behind the
-- end is cut there.
theorem marked_bytes (text term : Str) (inside : stop ≤ text.length) (enough : stop - i ≤ left) :
    (markedFrom text term i stop left).flatMap outBytes = (text.take stop).drop i := by
  induction left generalizing i with
  | zero =>
    rw [markedFrom,List.drop_eq_nil_of_le (by rw [List.length_take]; omega)]
    rfl
  | succ left ih =>
    rw [markedFrom]
    split
    · next before =>
      split
      · next found =>
        have some_ : 0 < term.length := List.length_pos_iff.mpr found.1
        rw [List.flatMap_cons,ih (by omega),← List.drop_drop]
        exact List.take_append_drop _ _
      · have here : (text.drop i).take 1 = ((text.take stop).drop i).take 1 := by
          rw [List.drop_take,List.take_take,Nat.min_eq_left (by omega)]
        rw [List.flatMap_cons,ih (by omega),← List.drop_drop]
        change (text.drop i).take 1 ++ _ = _
        rw [here]
        exact List.take_append_drop _ _
    · rw [List.drop_eq_nil_of_le (by rw [List.length_take]; omega)]
      rfl

theorem pageStarts_inside (text : Str) : ∀ a ∈ pageStarts text, a ≤ text.length := by
  obtain ⟨_,inside,_⟩ := pageStarts_ordered 0 0 0 1 text (by decide)
  intro a member
  rcases List.mem_cons.mp member with rfl | later
  · exact Nat.zero_le _
  · have le := inside a later
    omega

theorem sliceEnd_inside (text : Str) (page : Nat) : sliceEnd text (pageStarts text) page ≤ text.length := by
  unfold sliceEnd
  split
  · next more =>
    rw [List.getD_eq_getElem _ _ more]
    exact pageStarts_inside text _ (List.getElem_mem more)
  · exact Nat.le_refl _

def shownPage (text term : Str) (starts : List Nat) (page : Nat) : List Out :=
  .clear::markedFrom text term (starts.getD page 0) (sliceEnd text starts page) (sliceEnd text starts page - starts.getD page 0)

def nextPage (total page : Nat) (key : UInt8) : Nat :=
  if key = 0x02 then (if page + 1 < total then page + 1 else page) else if key = 0x01 then page - 1 else page

def pageAfter (total : Nat) (keys : List UInt8) : Nat := keys.foldl (nextPage total) 0

theorem nextPage_inside (inside : page < total) (key : UInt8) : nextPage total page key < total := by
  unfold nextPage
  split
  · split
    · assumption
    · exact inside
  · split
    · exact Nat.lt_of_le_of_lt (Nat.sub_le _ _) inside
    · exact inside

theorem pageAfter_inside (some_ : 0 < total) (keys : List UInt8) : pageAfter total keys < total := by
  have from_ (page : Nat) (inside : page < total) : keys.foldl (nextPage total) page < total := by
    induction keys generalizing page with
    | nil => exact inside
    | cons key keys ih => exact ih _ (nextPage_inside inside key)
  exact from_ 0 some_

theorem showPages_run {σ : Type} (k : Kernel σ) (text term : Str) (starts : List Nat) (page : Nat) (system : σ)
    {system' : σ} (left : Nat)
    (ran : showPages k text term starts page system left = some (system',outs)) :
    ∃ keys : List UInt8, outs = (List.range (keys.length + 1)).flatMap (fun n =>
      shownPage text term starts ((keys.take n).foldl (nextPage starts.length) page)) := by
  induction left generalizing page system system' outs with
  | zero => cases ran
  | succ left ih =>
    rw [showPages] at ran
    cases pressed : k.getchar system with
    | none =>
      rw [pressed] at ran
      cases ran
    | some next =>
      obtain ⟨key,after⟩ := next
      rw [pressed] at ran
      dsimp only at ran
      split at ran
      · cases ran
        exact ⟨[],by simp [shownPage,sliceEnd]⟩
      · split at ran
        · cases ran
        · next later =>
          obtain ⟨keys,same⟩ := ih _ _ later
          cases ran
          refine ⟨key::keys,?_⟩
          rw [List.length_cons,List.range_succ_eq_map,List.flatMap_cons,List.flatMap_map,same]
          rfl

-- Every stream, not only those of at most 32767 bytes.
theorem pages_exact {σ : Type} (k : Kernel σ) (rounds : Nat) (s : Session σ) :
    (pageStarts (stream s)).length ≤ 1024 ∧ (pageStarts (stream s)).head? = some 0 ∧ (pageStarts (stream s)).IsChain (· ≤ ·) ∧
    (∀ a ∈ pageStarts (stream s), a ≤ s.streamLength) ∧
    (slices (stream s) (pageStarts (stream s))).flatten = stream s ∧
    (∀ keys, pageAfter (pageStarts (stream s)).length keys < (pageStarts (stream s)).length) ∧
    (∀ page < (pageStarts (stream s)).length, (slices (stream s) (pageStarts (stream s)))[page]? =
      some ((shownPage (stream s) s.findTerm (pageStarts (stream s)) page).flatMap outBytes)) ∧
    (∀ result t outs, cmdRead k rounds s = some (result,t,outs) → s.streamLength ≠ 0 →
      ∃ keys : List UInt8, outs = (List.range (keys.length + 1)).flatMap (fun n =>
        shownPage (stream s) s.findTerm (pageStarts (stream s)) (pageAfter (pageStarts (stream s)).length (keys.take n))) ++ [.clear]) := by
  have length : (stream s).length = s.streamLength := by simp [stream]
  obtain ⟨chain,inside,count⟩ := pageStarts_ordered 0 0 0 1 (stream s) (by decide)
  have total : (pageStarts (stream s)).length ≤ 1024 := by
    rw [pageStarts,List.length_cons]
    omega
  have within : ∀ a ∈ pageStarts (stream s), a ≤ s.streamLength := by
    rw [← length]
    exact pageStarts_inside (stream s)
  refine ⟨total,rfl,chain,within,?_,pageAfter_inside (Nat.succ_pos _),?_,?_⟩
  · rw [pageStarts,slices_flatten _ chain,List.drop_zero]
  · intro page valid
    rw [slices_at _ valid,shownPage,List.flatMap_cons,marked_bytes _ _ (sliceEnd_inside _ _) (Nat.le_refl _)]
    rfl
  · intro result t outs ran some_
    rw [cmdRead,if_neg some_] at ran
    split at ran
    · cases ran
    · next shown =>
      obtain ⟨keys,same⟩ := showPages_run _ _ _ _ _ _ _ shown
      cases ran
      exact ⟨keys,by rw [same]; rfl⟩

def leaving : Kernel Unit := {noDisk with getchar := fun _ => some (0x71,())}

theorem pages_exact_leaving : ∃ keys : List UInt8,
    [Out.clear,.text [0x68],.text [0x69],.clear] = (List.range (keys.length + 1)).flatMap (fun n =>
      shownPage (bytes "hi") [] [0] (pageAfter 1 (keys.take n))) ++ [.clear] :=
  (pages_exact leaving 1 (fillStream (shellStart ()) (bytes "hi"))).2.2.2.2.2.2.2 _ _ _ rfl (by decide)

end SantOS.Shell
