import SantOS.Keyboard.Handler
import SantOS.Library.Runs

namespace SantOS.Keyboard
open RingBuffers Runs

-- Where keyboard_getchar stands between two of its loads and stores, with the values
-- it holds in registers. The comparison loads its two operands in either order.
inductive Reader where
  | idle
  | available
  | readLoaded (r : Nat)
  | writeLoaded (w : Nat)
  | compared (r w : Nat)
  | index
  | fetch (r : Nat)
  | advance (c : UInt8)
  | store (c : UInt8) (r : Nat)
  | ret (c : UInt8)

-- accepted is what the handler put into the ring, returned what keyboard_getchar gave back.
structure System where
  keyboard : State
  reader : Reader
  accepted : List UInt8
  returned : List UInt8

def added (k : State) (scancode : UInt8) : List UInt8 :=
  if (keyboardHandler k scancode).bufferWrite = k.bufferWrite then []
  else [(keyboardHandler k scancode).keyboardBuffer k.bufferWrite]

inductive Event where
  | interrupt (scancode : UInt8)
  | getchar

inductive Step : System → Event → System → Prop where
  | interrupt (s : System) (scancode : UInt8) :
      Step s (.interrupt scancode)
        {s with keyboard := keyboardHandler s.keyboard scancode, accepted := s.accepted ++ added s.keyboard scancode}
  | call (k a b) : Step ⟨k,.idle,a,b⟩ .getchar ⟨k,.available,a,b⟩
  | loadRead (k a b) : Step ⟨k,.available,a,b⟩ .getchar ⟨k,.readLoaded k.bufferRead,a,b⟩
  | thenWrite (k r a b) : Step ⟨k,.readLoaded r,a,b⟩ .getchar ⟨k,.compared r k.bufferWrite,a,b⟩
  | loadWrite (k a b) : Step ⟨k,.available,a,b⟩ .getchar ⟨k,.writeLoaded k.bufferWrite,a,b⟩
  | thenRead (k w a b) : Step ⟨k,.writeLoaded w,a,b⟩ .getchar ⟨k,.compared k.bufferRead w,a,b⟩
  -- hlt, and the loop once more
  | empty (k r a b) : Step ⟨k,.compared r r,a,b⟩ .getchar ⟨k,.available,a,b⟩
  | nonempty (k r w a b) (key : r ≠ w) : Step ⟨k,.compared r w,a,b⟩ .getchar ⟨k,.index,a,b⟩
  | loadIndex (k a b) : Step ⟨k,.index,a,b⟩ .getchar ⟨k,.fetch k.bufferRead,a,b⟩
  | loadChar (k r a b) : Step ⟨k,.fetch r,a,b⟩ .getchar ⟨k,.advance (k.keyboardBuffer r),a,b⟩
  | loadAgain (k c a b) : Step ⟨k,.advance c,a,b⟩ .getchar ⟨k,.store c k.bufferRead,a,b⟩
  | storeRead (k c r a b) :
      Step ⟨k,.store c r,a,b⟩ .getchar ⟨{k with bufferRead := (r + 1) % bufferSize},.ret c,a,b⟩
  | ret (k c a b) : Step ⟨k,.ret c,a,b⟩ .getchar ⟨k,.idle,a,b ++ [c]⟩

def start : System := ⟨⟨fun _ => 0,0,0,false,false,false⟩,.idle,[],[]⟩

def unread (k : State) : List UInt8 := contents k.keyboardBuffer bufferSize k.bufferRead k.bufferWrite

structure Bounds (k : State) : Prop where
  read : k.bufferRead < bufferSize
  write : k.bufferWrite < bufferSize

-- What a handler run does to the ring: the character it offers is appended, or dropped
-- when 255 characters are unread.
structure Handled (k k' : State) (offer : UInt8) (new : List UInt8) : Prop where
  bounds : Bounds k'
  read : k'.bufferRead = k.bufferRead
  appended : unread k' = unread k ++ new
  newEq : new = if k'.bufferWrite = k.bufferWrite then [] else [k'.keyboardBuffer k.bufferWrite]
  dropped : offer ≠ 0 → new = [] → (unread k).length = 255
  kept : new = [] ∨ new = [offer]

theorem addToBuffer_spec {k : State} (bounds : Bounds k) (offer : UInt8) :
    ∃ new, Handled k (addToBuffer k offer) offer new := by
  have same : unread k = unread k ++ [] := (List.append_nil _).symm
  unfold addToBuffer
  by_cases valid : offer ≠ 0
  · rw [if_pos valid]
    by_cases room : (k.bufferWrite + 1) % bufferSize ≠ k.bufferRead
    · dsimp only
      rw [if_pos room]
      have other : (k.bufferWrite + 1) % bufferSize ≠ k.bufferWrite := by
        have inside := bounds.write
        unfold bufferSize at inside ⊢
        omega
      refine ⟨[offer],⟨bounds.read,Nat.mod_lt _ (by decide)⟩,rfl,?_,?_,fun _ empty => (by cases empty),.inr rfl⟩
      · exact contents_push bounds.read bounds.write room offer
      · have written : Function.update k.keyboardBuffer k.bufferWrite offer k.bufferWrite = offer := Function.update_self ..
        rw [if_neg other]
        exact congrArg (fun c => [c]) written.symm
    · dsimp only
      rw [if_neg room]
      have full := (contents_full_iff k.keyboardBuffer bounds.read bounds.write).mp (not_not.mp room)
      exact ⟨[],bounds,rfl,same,(if_pos rfl).symm,fun _ _ => Nat.succ.inj full,.inl rfl⟩
  · rw [if_neg valid]
    exact ⟨[],bounds,rfl,same,(if_pos rfl).symm,fun nonzero => absurd nonzero valid,.inl rfl⟩

theorem keyboardHandler_spec {k : State} (bounds : Bounds k) (scancode : UInt8) :
    Handled k (keyboardHandler k scancode) (offered k scancode) (added k scancode) := by
  have quiet : ∀ k', k'.keyboardBuffer = k.keyboardBuffer → k'.bufferRead = k.bufferRead →
      k'.bufferWrite = k.bufferWrite → ∃ new, Handled k k' 0 new := by
    intro k' buffer read write
    have ring : unread k' = unread k := by unfold unread; rw [buffer,read,write]
    refine ⟨[],⟨by rw [read]; exact bounds.read,by rw [write]; exact bounds.write⟩,read,?_,(if_pos write).symm,?_,.inl rfl⟩
    · rw [ring,List.append_nil]
    · exact fun nonzero => absurd rfl nonzero
  have handled : ∃ new, Handled k (keyboardHandler k scancode) (offered k scancode) new := by
    unfold keyboardHandler offered
    split_ifs
    all_goals try exact quiet _ rfl rfl rfl
    obtain ⟨new,handled⟩ := addToBuffer_spec (k := {k with e0Prefix := false}) ⟨bounds.read,bounds.write⟩ (asciiOf k scancode)
    exact ⟨new,handled.bounds,handled.read,handled.appended,handled.newEq,handled.dropped,handled.kept⟩
  obtain ⟨new,handled⟩ := handled
  have same : new = added k scancode := handled.newEq
  exact same ▸ handled

-- What the registers of keyboard_getchar say about the ring. Only keyboard_getchar moves
-- the read index, and the handler only appends.
def Holds (k : State) : Reader → Prop
  | .idle | .available | .ret _ => True
  | .readLoaded r => r = k.bufferRead
  | .writeLoaded w => w ≠ k.bufferRead → unread k ≠ []
  | .compared r w => r = k.bufferRead ∧ (w ≠ k.bufferRead → unread k ≠ [])
  | .index => unread k ≠ []
  | .fetch r => r = k.bufferRead ∧ unread k ≠ []
  | .advance c => ∃ rest, unread k = c::rest
  | .store c r => r = k.bufferRead ∧ ∃ rest, unread k = c::rest

def inHand : Reader → List UInt8
  | .ret c => [c]
  | _ => []

structure Inv (s : System) : Prop where
  bounds : Bounds s.keyboard
  holds : Holds s.keyboard s.reader
  account : s.accepted = s.returned ++ inHand s.reader ++ unread s.keyboard

theorem Handled.holds (handled : Handled k k' offer new) (holds : Holds k reader) : Holds k' reader := by
  have grows : unread k ≠ [] → unread k' ≠ [] := by
    rw [handled.appended]
    exact fun some none => some (List.append_eq_nil_iff.mp none).1
  have front : ∀ {c}, (∃ rest, unread k = c::rest) → ∃ rest, unread k' = c::rest := by
    rintro c ⟨rest,shape⟩
    exact ⟨rest ++ new,by rw [handled.appended,shape,List.cons_append]⟩
  cases reader with
  | idle => trivial
  | available => trivial
  | ret c => trivial
  | readLoaded r => exact Eq.trans holds handled.read.symm
  | writeLoaded w => exact fun other => grows (holds (handled.read ▸ other))
  | compared r w => exact ⟨holds.1.trans handled.read.symm,fun other => grows (holds.2 (handled.read ▸ other))⟩
  | index => exact grows holds
  | fetch r => exact ⟨holds.1.trans handled.read.symm,grows holds.2⟩
  | advance c => exact front holds
  | store c r => exact ⟨holds.1.trans handled.read.symm,front holds.2⟩

theorem unread_pop {k : State} (bounds : Bounds k) (some : unread k ≠ []) :
    unread k = k.keyboardBuffer k.bufferRead :: unread {k with bufferRead := (k.bufferRead + 1) % bufferSize} := by
  refine contents_pop bounds.read bounds.write ?_
  intro same
  exact some ((contents_nil_iff bounds.read).mpr same)

theorem unread_some {k : State} (bounds : Bounds k) (other : k.bufferWrite ≠ k.bufferRead) : unread k ≠ [] :=
  fun none => other ((contents_nil_iff bounds.read).mp none).symm

theorem step_inv (inv : Inv s) (step : Step s event t) : Inv t := by
  obtain ⟨bounds,holds,account⟩ := inv
  cases step with
  | interrupt _ scancode =>
    have handled := keyboardHandler_spec bounds scancode
    refine ⟨handled.bounds,handled.holds holds,?_⟩
    show s.accepted ++ added s.keyboard scancode = _
    rw [handled.appended,account,List.append_assoc _ (unread _)]
  | call k a b => exact ⟨bounds,trivial,account⟩
  | loadRead k a b => exact ⟨bounds,rfl,account⟩
  | thenWrite k r a b => exact ⟨bounds,⟨holds,unread_some bounds⟩,account⟩
  | loadWrite k a b => exact ⟨bounds,unread_some bounds,account⟩
  | thenRead k w a b => exact ⟨bounds,⟨rfl,holds⟩,account⟩
  | empty k r a b => exact ⟨bounds,trivial,account⟩
  | nonempty k r w a b key => exact ⟨bounds,holds.2 (fun same => key (holds.1.trans same.symm)),account⟩
  | loadIndex k a b => exact ⟨bounds,⟨rfl,holds⟩,account⟩
  | loadChar k r a b =>
    have here : r = k.bufferRead := holds.1
    subst here
    exact ⟨bounds,⟨_,unread_pop bounds holds.2⟩,account⟩
  | loadAgain k c a b => exact ⟨bounds,⟨rfl,holds⟩,account⟩
  | storeRead k c r a b =>
    have here : r = k.bufferRead := holds.1
    subst here
    obtain ⟨rest,shape⟩ := holds.2
    have pop := unread_pop bounds (by rw [shape]; exact List.cons_ne_nil _ _)
    have same := shape.symm.trans pop
    refine ⟨⟨Nat.mod_lt _ (by decide),bounds.write⟩,trivial,?_⟩
    rw [account,shape,(List.cons.inj same).2]
    simp [inHand]
  | ret k c a b =>
    refine ⟨bounds,trivial,?_⟩
    rw [account]
    simp [inHand]

-- How far keyboard_getchar is from its next return when a character is unread.
def rank (k : State) : Reader → Nat
  | .idle => 11
  | .available => 10
  | .readLoaded _ => 8
  | .writeLoaded w => if w = k.bufferRead then 13 else 8
  | .compared r w => if r = w then 12 else 7
  | .index => 6
  | .fetch _ => 5
  | .advance _ => 4
  | .store _ _ => 3
  | .ret _ => 2

def pending (s : System) : List UInt8 := inHand s.reader ++ unread s.keyboard

theorem progress (inv : Inv s) (some : pending s ≠ []) : ∃ t, Step s .getchar t ∧ t.accepted = s.accepted ∧
    20*(pending t).length + rank t.keyboard t.reader < 20*(pending s).length + rank s.keyboard s.reader := by
  obtain ⟨bounds,holds,account⟩ := inv
  obtain ⟨k,reader,a,b⟩ := s
  cases reader with
  | idle => exact ⟨_,.call k a b,rfl,by simp [pending,inHand,rank]⟩
  | available => exact ⟨_,.loadRead k a b,rfl,by simp [pending,inHand,rank]⟩
  | readLoaded r =>
    have differs : r ≠ k.bufferWrite := by
      rintro rfl
      exact some ((contents_nil_iff bounds.read).mpr holds.symm)
    exact ⟨_,.thenWrite k r a b,rfl,by simp [pending,inHand,rank,differs]⟩
  | writeLoaded w =>
    refine ⟨_,.thenRead k w a b,rfl,?_⟩
    by_cases stale : w = k.bufferRead
    · simp [pending,inHand,rank,stale]
    · simp [pending,inHand,rank,stale,Ne.symm stale]
  | compared r w =>
    by_cases stale : r = w
    · subst stale
      exact ⟨_,.empty k r a b,rfl,by simp [pending,inHand,rank]⟩
    · exact ⟨_,.nonempty k r w a b stale,rfl,by simp [pending,inHand,rank,stale]⟩
  | index => exact ⟨_,.loadIndex k a b,rfl,by simp [pending,inHand,rank]⟩
  | fetch r => exact ⟨_,.loadChar k r a b,rfl,by simp [pending,inHand,rank]⟩
  | advance c => exact ⟨_,.loadAgain k c a b,rfl,by simp [pending,inHand,rank]⟩
  | store c r =>
    have here : r = k.bufferRead := holds.1
    subst here
    have pop := unread_pop bounds some
    refine ⟨_,.storeRead k c k.bufferRead a b,rfl,?_⟩
    simp only [pending,inHand,rank,List.nil_append,pop]
    simp
  | ret c => exact ⟨_,.ret k c a b,rfl,by simp [pending,inHand,rank]; omega⟩

theorem drains {s : System} (inv : Inv s) : ∃ n t, Run Step s (List.replicate n .getchar) t ∧ t.returned = s.accepted := by
  induction size : 20*(pending s).length + rank s.keyboard s.reader using Nat.strongRecOn generalizing s with
  | _ size ih =>
    by_cases none : pending s = []
    · refine ⟨0,s,.nil,?_⟩
      have account := inv.account
      rw [List.append_assoc] at account
      rw [account]
      exact (List.append_right_eq_self.mpr none).symm
    · obtain ⟨t,step,same,less⟩ := progress inv none
      obtain ⟨n,u,path,all⟩ := ih _ (size ▸ less) (step_inv inv step) rfl
      exact ⟨n+1,u,.cons step path,all.trans same⟩

theorem start_inv : Inv start := ⟨⟨by decide,by decide⟩,trivial,rfl⟩

-- For every placement of the interrupts: the returned characters are the accepted ones in
-- order, up to those still unread, which further calls return; and only a ring with 255
-- unread characters drops one.
theorem keys_in_order (history : Run Step start events s) :
    s.accepted = s.returned ++ inHand s.reader ++ unread s.keyboard ∧
      (∃ n t, Run Step s (List.replicate n .getchar) t ∧ t.returned = s.accepted) ∧
      ∀ scancode, offered s.keyboard scancode ≠ 0 →
        added s.keyboard scancode = [offered s.keyboard scancode] ∨
          (added s.keyboard scancode = [] ∧ (unread s.keyboard).length = 255) := by
  have inv := history.invariant (fun _ _ _ before step => step_inv before step) start_inv
  refine ⟨inv.account,drains inv,?_⟩
  intro scancode offer
  have handled := keyboardHandler_spec inv.bounds scancode
  rcases handled.kept with none | one
  · exact .inr ⟨none,handled.dropped offer none⟩
  · exact .inl one

theorem keys_in_order_between_loads :
    ∃ s, Run Step start ([.getchar,.getchar,.interrupt 0x1E] ++ List.replicate 7 .getchar) s ∧ s.returned = [0x61] ∧
      s.accepted = s.returned ++ inHand s.reader ++ unread s.keyboard := by
  have path : Run Step start ([.getchar,.getchar,.interrupt 0x1E] ++ List.replicate 7 .getchar) _ :=
    .cons (.call _ _ _) (.cons (.loadRead _ _ _) (.cons (.interrupt _ 0x1E) (.cons (.thenWrite _ _ _ _)
      (.cons (.nonempty _ _ _ _ _ (by decide)) (.cons (.loadIndex _ _ _) (.cons (.loadChar _ _ _ _)
        (.cons (.loadAgain _ _ _ _) (.cons (.storeRead _ _ _ _ _) (.cons (.ret _ _ _ _) .nil)))))))))
  exact ⟨_,path,by decide,(keys_in_order path).1⟩

end SantOS.Keyboard
