import SantOS.Fdc.Drive

namespace SantOS.Fdc
open ByteMemory Polling

structure Executes (c : Controller σ) (view : σ → Drive) : Prop where
  sent : ∀ s b, (view s).raised = false → (view s).results = [] →
    ∃ t, c.fdcWriteByte b s = (some (),t) ∧ view t = (view s).take b
  given : ∀ s b bytes, (view s).raised = false → (view s).results = b::bytes →
    ∃ t, c.fdcReadByte s = (some b,t) ∧ view t = {view s with results := bytes}
  waited : ∀ s, (view s).raised = true → ∃ t, c.fdcWaitIrq s = (some (),t) ∧ view t = {view s with raised := false}
  output : ∀ s port v, (view s).raised = false → port ≠ fdcFifo → view (c.outb port v s) = (view s).outb port v
  cleared : ∀ s, (view s).raised = false → view (c.resetIrq s) = view s
  load : ∀ s a, (view s).raised = false → c.load a s = (view s).memory a
  store : ∀ s a b, (view s).raised = false → view (c.store a b s) = {view s with memory := Function.update (view s).memory a b}

theorem Drive.quiet {d : Drive} (raised : d.raised = false) : {d with raised := false} = d := by
  rw [← raised]

section
variable {ports : Ports σ} {view : σ → Drive}

theorem Serves.lookReady (serves : Serves ports view) (s : σ) : view (ports.lookReady s).2 = view s := by
  have status := serves.status s
  rw [Ports.lookReady]
  cases h : ports.inb fdcMsr s with
  | mk v t =>
    rw [h] at status
    simp only
    split
    · exact status
    · exact status

theorem Serves.readied (serves : Serves ports view) (s : σ) (raised : (view s).raised = false) :
    ∃ t, ports.fdcWaitReady s = (some (),t) ∧ view t = view s := by
  have keeps : ∀ u, view u = view s → view (ports.lookReady u).2 = view s := fun u kept => (serves.lookReady u).trans kept
  obtain ⟨u,same,answers,ends⟩ := poll_finds keeps rfl (serves.ready s raised)
  refine ⟨(ports.lookReady u).2,?_,(serves.lookReady u).trans same⟩
  rw [Ports.fdcWaitReady,ends]
  cases found : ports.lookReady u with
  | mk answer t =>
    rw [found] at answers
    cases answer with
    | none => exact absurd rfl answers
    | some a => rfl

theorem Serves.waited (serves : Serves ports view) (s : σ) (raised : (view s).raised = true) :
    ∃ t, ports.fdcWaitIrq s = (some (),t) ∧ view t = {view s with raised := false} := by
  have keeps : ∀ u, (view u = view s ∨ view u = {view s with raised := false}) →
      (view (ports.lookIrq u).2 = view s ∨ view (ports.lookIrq u).2 = {view s with raised := false}) := by
    intro u known
    unfold Ports.lookIrq
    split
    · rename_i flag
      right
      rw [serves.taken u (.inl flag)]
      rcases known with h | h
      · rw [h]
      · rw [h]
    · rw [serves.halted]
      exact known
  obtain ⟨u,known,answers,ends⟩ := poll_finds keeps (.inl rfl) (serves.interrupt s raised)
  have flag : ports.fdcIrqReceived u = true := by
    by_contra unset
    rw [Ports.lookIrq,if_neg unset] at answers
    exact answers rfl
  refine ⟨ports.resetIrq u,?_,?_⟩
  · rw [Ports.fdcWaitIrq,ends,Ports.lookIrq,if_pos flag]
  · rw [serves.taken u (.inl flag)]
    rcases known with h | h
    · rw [h]
    · rw [h]

theorem Serves.executes (serves : Serves ports view) : Executes ports.controller view where
  sent := by
    intro s b raised results
    obtain ⟨t,ready,same⟩ := serves.readied s raised
    refine ⟨ports.outb fdcFifo b t,?_,?_⟩
    · change ports.fdcWriteByte b s = _
      rw [Ports.fdcWriteByte,ready]
    · rw [serves.output t fdcFifo b (by rw [same]; exact raised) (fun _ => by rw [same]; exact results),same]
      rfl
  given := by
    intro s b bytes raised results
    obtain ⟨t,ready,same⟩ := serves.readied s raised
    have found := serves.result t b bytes (by rw [same]; exact raised) (by rw [same]; exact results)
    refine ⟨(ports.inb fdcFifo t).2,?_,by rw [found.2,same]⟩
    change ports.fdcReadByte s = _
    rw [Ports.fdcReadByte,ready]
    simp [Prod.map,found.1]
  waited := serves.waited
  output := fun s port v raised other => serves.output s port v raised (fun same => absurd same other)
  cleared := fun s raised => (serves.taken s (.inr raised)).trans (Drive.quiet raised)
  load := serves.load
  store := serves.store

end

section
variable {c : Controller σ} {view : σ → Drive} {s : σ}

theorem Controller.sent_first (c : Controller σ) {a b : σ} (sent : c.fdcWriteBytes (byte::bytes) a = (some (),b)) :
    ∃ m, c.fdcWriteByte byte a = (some (),m) ∧ c.fdcWriteBytes bytes m = (some (),b) := by
  rw [Controller.fdcWriteBytes] at sent
  cases first : c.fdcWriteByte byte a with
  | mk answer m =>
    rw [first] at sent
    cases answer with
    | none => simp at sent
    | some u => exact ⟨m,rfl,sent⟩

theorem Executes.sent_all (runs : Executes c view) (bytes : List UInt8) (takes : Drive.Takes bytes (view s)) :
    ∃ t, c.fdcWriteBytes bytes s = (some (),t) ∧ view t = bytes.foldl Drive.take (view s) := by
  induction bytes generalizing s with
  | nil => exact ⟨s,rfl,rfl⟩
  | cons b bytes ih =>
    obtain ⟨results,raised,later⟩ := takes
    obtain ⟨t,sent,now⟩ := runs.sent s b raised results
    rw [← now] at later
    obtain ⟨u,all,after⟩ := ih later
    refine ⟨u,?_,?_⟩
    · rw [Controller.fdcWriteBytes,sent,checked_some,all]
    · rw [after,now,List.foldl_cons]

theorem Executes.commanded (runs : Executes c view) (idle : (view s).Idle) (bytes : List UInt8) (more : bytes ≠ [])
    (whole : bytes.length = Drive.commandLength bytes) :
    ∃ t, c.fdcWriteBytes bytes s = (some (),t) ∧ view t = (view s).execute bytes := by
  obtain ⟨takes,ends⟩ := Drive.takes_command idle bytes more whole
  obtain ⟨t,sent,now⟩ := runs.sent_all bytes takes
  exact ⟨t,sent,now.trans ends⟩

theorem Executes.given_each (runs : Executes c view) (bytes : List UInt8) (raised : (view s).raised = false)
    (results : (view s).results = bytes) :
    ∃ t, c.fdcReadBytes bytes.length s = (some bytes,t) ∧ view t = {view s with results := []} := by
  induction bytes generalizing s with
  | nil =>
    refine ⟨s,rfl,?_⟩
    rw [← results]
  | cons b bytes ih =>
    obtain ⟨t,given,now⟩ := runs.given s b bytes raised results
    obtain ⟨u,all,after⟩ := ih (by rw [now]; exact raised) (by rw [now])
    refine ⟨u,?_,by rw [after,now]⟩
    rw [List.length_cons,Controller.fdcReadBytes,given,checked_some,all,checked_some]

-- Reads that all succeed are the same without a look at them in between.
theorem Controller.read_all (c : Controller σ) {a b : σ} {bytes : List UInt8} (read : c.fdcReadBytes n a = (some bytes,b)) :
    c.fdcReadAll n a = (some bytes,b) := by
  induction n generalizing a bytes with
  | zero => exact read
  | succ n ih =>
    rw [Controller.fdcReadBytes] at read
    cases first : c.fdcReadByte a with
    | mk byte m =>
      cases others : c.fdcReadBytes n m with
      | mk rest t =>
        rw [first] at read
        cases byte with
        | none => simp at read
        | some byte =>
          rw [checked_some,others] at read
          cases rest with
          | none => simp at read
          | some rest =>
            cases read
            rw [Controller.fdcReadAll,first]
            simp only [ih others,Option.bind_some,Option.map_some]

theorem Executes.seeks (runs : Executes c view) (idle : (view s).Idle) (cyl head : UInt8) :
    ∃ t, c.fdcSeek cyl head s = (some (),t) ∧ view t = {view s with cylinder := cyl} := by
  have clear := runs.cleared s idle.raised
  obtain ⟨t,sent,moved⟩ := runs.commanded (by rw [clear]; exact idle) [fdcCmdSeek,head <<< 2 ||| 0,cyl] (by simp) rfl
  rw [clear] at moved
  have moved : view t = {view s with cylinder := cyl, raised := true} := moved
  obtain ⟨u,waited,taken⟩ := runs.waited t (by rw [moved])
  have still : view u = {view s with cylinder := cyl} := by
    rw [taken,moved]
    simp only [← idle.raised]
  have idleU : (view u).Idle := by
    rw [still]
    exact ⟨idle.command,idle.results,idle.raised⟩
  obtain ⟨v,sensed,answer⟩ := runs.commanded idleU [fdcCmdSenseInterrupt] (by simp) rfl
  have answer : view v = {view u with results := [0x20,(view u).cylinder]} := answer
  obtain ⟨w,given,last⟩ := runs.given_each [0x20,(view u).cylinder] (by rw [answer]; exact idleU.raised) (by rw [answer])
  refine ⟨w,?_,?_⟩
  · obtain ⟨x,one,rest⟩ := c.sent_first sensed
    cases rest
    have two : c.fdcReadBytes 2 v = (some [0x20,(view u).cylinder],w) := given
    rw [Controller.fdcSeek,sent,checked_some,waited,checked_some,one,checked_some,two,checked_some]
  · rw [last,answer,still]
    simp only [← idle.results]

theorem Executes.outputs (runs : Executes c view) (writes : List (Nat × UInt8)) (others : ∀ w ∈ writes, w.1 ≠ fdcFifo)
    (raised : (view s).raised = false) :
    view (writes.foldl (fun s w => c.outb w.1 w.2 s) s) = writes.foldl (fun d w => d.outb w.1 w.2) (view s) := by
  induction writes generalizing s with
  | nil => rfl
  | cons w writes ih =>
    have other := others w List.mem_cons_self
    have now := runs.output s w.1 w.2 raised other
    rw [List.foldl_cons,List.foldl_cons,ih (fun w member => others w (List.mem_cons_of_mem _ member)),now]
    rw [now,Drive.outb_raised _ _ other]
    exact raised

theorem Executes.programs (runs : Executes c view) (raised : (view s).raised = false) (mode n : UInt8)
    (channel : mode &&& 3 = 2)
    (some : 1 ≤ n.toNat) (few : n.toNat ≤ 18) : view (c.dmaSetup mode n s) = (view s).programmed mode n.toNat := by
  have all := runs.outputs (s := s)
    [(dmaSingleMask,0x06),(dmaFlipflop,0xFF),(dmaMode,mode),(dmaAddr2,UInt8.ofNat dmaBufferAddr),
      (dmaAddr2,UInt8.ofNat (dmaBufferAddr >>> 8)),(dmaPage2,UInt8.ofNat (dmaBufferAddr >>> 16)),
      (dmaCount2,UInt8.ofNat (n.toUInt16 * 512 - 1).toNat),
      (dmaCount2,UInt8.ofNat ((n.toUInt16 * 512 - 1).toNat >>> 8)),(dmaSingleMask,0x02)] (by simp) raised
  refine all.trans ?_
  simp only [List.foldl_cons,List.foldl_nil,Drive.outb_masked,Drive.outb_flip_flop,Drive.outb_mode _ _ channel,
    Drive.outb_address,Drive.outb_page,Drive.outb_count,Drive.outb_unmasked,Drive.putByte]
  have word := Drive.word_put (n.toNat*512 - 1) (by omega)
  simp [dma_count some few,Drive.programmed]
  refine ⟨by decide,by decide,?_⟩
  simpa using word

end

structure Carried (d d' : Drive) (t : Transfer) : Prop where
  idle : d'.Idle
  dor : d'.dor = d.dor
  issued : d'.issued = d.issued ++ [t]

section
variable {c : Controller σ} {view : σ → Drive} {a : σ}

theorem Executes.ended (runs : Executes c view) {d : Drive} {t : Transfer} (command : d.command = [])
    (finished : view a = d.finish t (Drive.success t)) :
    ∃ b, c.fdcWaitIrq a = (some (),b) ∧ (view b).raised = false ∧ (view b).results = Drive.success t ∧
      Carried d {view b with results := []} t ∧ (view b).disk = d.disk ∧ (view b).memory = d.memory := by
  obtain ⟨b,waited,taken⟩ := runs.waited a (by rw [finished]; rfl)
  rw [finished] at taken
  refine ⟨b,waited,by rw [taken],by rw [taken]; rfl,⟨⟨?_,rfl,?_⟩,?_,?_⟩,by rw [taken]; rfl,by rw [taken]; rfl⟩
  · rw [taken]
    exact command
  · rw [taken]
  · rw [taken]
    rfl
  · rw [taken]
    rfl

theorem Drive.success_status {t : Transfer} (head : t.head < heads) : (success t).headD 0 &&& 0xC0 = 0 := by
  change UInt8.ofNat (4*t.head) &&& 0xC0 = 0
  have cases : t.head = 0 ∨ t.head = 1 := by
    change t.head < 2 at head
    omega
  rcases cases with zero | one
  · rw [zero]
    decide
  · rw [one]
    decide

theorem Executes.programmed_idle (runs : Executes c view) (idle : (view a).Idle) (mode n : UInt8) (channel : mode &&& 3 = 2)
    (some : 1 ≤ n.toNat) (few : n.toNat ≤ 18) :
    view (c.resetIrq (c.dmaSetup mode n a)) = (view a).programmed mode n.toNat ∧
      (view (c.resetIrq (c.dmaSetup mode n a))).Idle := by
  have programmed := runs.programs idle.raised mode n channel some few
  have cleared := runs.cleared (c.dmaSetup mode n a) (by rw [programmed]; exact idle.raised)
  rw [cleared,programmed]
  exact ⟨rfl,idle.command,idle.results,idle.raised⟩

theorem Executes.reads_track (runs : Executes c view) (idle : (view a).Idle) (motor : (view a).dor &&& dorMotorA ≠ 0)
    (one : OneTrack cyl h s n) :
    ∃ b, c.fdcReadTrack cyl h s n a = (some (),b) ∧ Carried (view a) (view b) (transfer cyl h s n) ∧
      (view b).disk = (view a).disk ∧
      (view b).memory = blit (view a).memory dmaBufferAddr (n.toNat*512) (fun j => (view a).disk ((transfer cyl h s n).first*512+j)) := by
  obtain ⟨b,seek,moved⟩ := runs.seeks idle cyl h
  have idleB : (view b).Idle := by
    rw [moved]
    exact ⟨idle.command,idle.results,idle.raised⟩
  obtain ⟨programmed,ready⟩ := runs.programmed_idle idleB 0x46 n rfl one.some one.few
  obtain ⟨e,sent,executed⟩ := runs.commanded ready [fdcCmdReadData ||| 0x40,h <<< 2,cyl,h,s,2,s + n - 1,0x1B,0xFF] (by simp) rfl
  rw [programmed,Drive.reads (view b) one (by rw [moved]) (by rw [moved]; exact motor)] at executed
  obtain ⟨u,waited,raised,results,carried,disk,memory⟩ :=
    runs.ended (d := (view b).filled (transfer cyl h s n)) idleB.command executed
  obtain ⟨v,given,last⟩ := runs.given_each _ raised results
  have given : c.fdcReadAll 7 u = (some (Drive.success (transfer cyl h s n)),v) := c.read_all given
  refine ⟨v,?_,⟨?_,?_,?_⟩,?_,?_⟩
  · rw [Controller.fdcReadTrack,seek,checked_some,Controller.dmaSetupRead,sent,checked_some,waited,checked_some,given,checked_some,
      if_neg (not_not_intro (Drive.success_status one.head))]
  · rw [last]
    exact carried.idle
  · rw [last,carried.dor]
    change (view b).dor = _
    rw [moved]
  · rw [last,carried.issued]
    change (view b).issued ++ _ = _
    rw [moved]
  · rw [last]
    change (view u).disk = _
    rw [disk]
    change (view b).disk = _
    rw [moved]
  · rw [last]
    change (view u).memory = _
    rw [memory,Drive.filled,moved]
    rfl

theorem Executes.stores (runs : Executes c view) (raised : (view a).raised = false) (buffer : Memory) (i : UInt8) (n : Nat) :
    view ((List.range n).foldl (fun t j => c.store (dmaBufferAddr + j) (buffer (i.toNat*512+j)) t) a) =
      {view a with memory := blit (view a).memory dmaBufferAddr n (fun j => buffer (i.toNat*512+j))} := by
  induction n with
  | zero =>
    rw [blit_nothing]
    rfl
  | succ n ih =>
    rw [List.range_succ,List.foldl_append,List.foldl_cons,List.foldl_nil,runs.store _ _ _ (by rw [ih]; exact raised),ih]
    simp only [← blit_succ (view a).memory (fun j => buffer (i.toNat*512+j)) dmaBufferAddr n]

theorem Executes.fills (runs : Executes c view) (raised : (view a).raised = false) (buffer : Memory) (i : UInt8) :
    view (c.fillDmaBuffer buffer i a) =
      {view a with memory := blit (view a).memory dmaBufferAddr 512 (fun j => buffer (i.toNat*512+j))} :=
  runs.stores raised buffer i 512

theorem Executes.writes_sector (runs : Executes c view) (idle : (view a).Idle) {i : UInt8} {lba : UInt32}
    (split : lbaToChs (lba + i.toUInt32) = (cyl,h,s)) (one : OneTrack cyl h s 1) (buffer : Memory) :
    ∃ b, c.fdcWriteSector lba i buffer a = (some (),b) ∧ (view b).Idle ∧ (view b).issued = (view a).issued ++ [transfer cyl h s 1] ∧
      (view b).disk = blit (view a).disk ((transfer cyl h s 1).first*512) 512 (fun j => buffer (i.toNat*512+j)) := by
  have on : view (c.fdcMotorOn a) = {view a with dor := 0x1C} := runs.output a fdcDor _ idle.raised (by decide)
  obtain ⟨b,seek,moved⟩ := runs.seeks (s := c.fdcMotorOn a) (by rw [on]; exact ⟨idle.command,idle.results,idle.raised⟩) cyl h
  rw [on] at moved
  have filled := runs.fills (a := b) (by rw [moved]; exact idle.raised) buffer i
  have idleF : (view (c.fillDmaBuffer buffer i b)).Idle := by
    rw [filled,moved]
    exact ⟨idle.command,idle.results,idle.raised⟩
  obtain ⟨programmed,ready⟩ := runs.programmed_idle idleF 0x4A 1 rfl one.some one.few
  have programmed : view (c.resetIrq (c.dmaSetup 0x4A 1 (c.fillDmaBuffer buffer i b))) =
    (view (c.fillDmaBuffer buffer i b)).programmed 0x4A 1 := programmed
  obtain ⟨e,sent,executed⟩ := runs.commanded ready
    [fdcCmdWriteData ||| 0x40,h <<< 2 ||| 0,cyl,h,s,2,UInt8.ofNat sectorsPerTrack,0x1B,0xFF] (by simp) rfl
  have spins : (0x1C : UInt8) &&& dorMotorA ≠ 0 := by decide
  rw [programmed,Drive.writes _ one (by rw [filled,moved]) (by rw [filled,moved]; exact spins)] at executed
  obtain ⟨m,first,others⟩ := c.sent_first sent
  obtain ⟨u,waited,raised,results,carried,disk,memory⟩ :=
    runs.ended (d := (view (c.fillDmaBuffer buffer i b)).stored (transfer cyl h s 1)) idleF.command executed
  obtain ⟨v,given,last⟩ := runs.given_each _ raised results
  have given : c.fdcReadBytes 7 u = (some (Drive.success (transfer cyl h s 1)),v) := given
  refine ⟨v,?_,?_,?_,?_⟩
  · rw [Controller.fdcWriteSector,split]
    simp only
    rw [seek,checked_some,Controller.dmaSetupWrite,first,checked_some,others,checked_some,waited,checked_some,given,checked_some,
      if_neg (not_not_intro (Drive.success_status one.head))]
  · rw [last]
    exact carried.idle
  · rw [last,carried.issued,Drive.stored,filled,moved]
    rfl
  · rw [last]
    change (view u).disk = _
    rw [disk]
    have kept : (view (c.fillDmaBuffer buffer i b)).disk = (view a).disk := by rw [filled,moved]
    have width : (transfer cyl h s 1).sectors*512 = 512 := by
      change UInt8.toNat 1*512 = 512
      simp
    rw [Drive.stored_disk,kept,width]
    apply blit_same
    intro j inside
    rw [filled]
    exact dma_inside (view b).memory (fun j => buffer (i.toNat*512+j)) inside

end

end SantOS.Fdc
