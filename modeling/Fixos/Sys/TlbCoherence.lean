import Fixos.Arch.AddressSpaces
import Fixos.Sys.Vm

/-! # The TLB and the page directories

The TLB is a second copy of the page directories, loaded by the miss handler under the identifier of
the current address space.
-/

namespace Fixos.Sys

open Arch Fs Transition Option Function List

structure TlbVm where
  vm : Vm
  spaces : Spaces
  cur : Option ProcRef

def TlbVm.boot (free : List Ppn) (cells : Ppn → Nat → Cell) (smem : FileRef → SmemFile) : TlbVm :=
  ⟨.boot free cells smem, .boot, none⟩

inductive TlbAction where
  | spawn (p : ProcRef) (image : Image)
  | switchTo (p : ProcRef)
  | idle
  | fault (vpn : Nat)
  | sbrk (incr : Int)
  | fork (child : ProcRef)
  | execve (image : Image) (argv envp : Option (List Bytes))
  | exit
  | kernelTake
  | kernelRelease (ppn : Ppn)

/-- The value of `arch_adrsp_switch_to` is ignored, as in `process_contextjmp`. -/
def TlbVm.contextjmp (s : TlbVm) (p : ProcRef) : Option TlbVm :=
  (s.spaces.switchTo p).map fun (_, spaces) => { s with spaces, cur := some p }

def TlbVm.step (s : TlbVm) : TlbAction → Option TlbVm
  | .spawn p image => (s.vm.step (.spawn p image)).map fun vm => { s with vm, spaces := s.spaces.init p }
  | .switchTo p => if p ∈ s.vm.procs then s.contextjmp p else none
  | .idle => some { s with spaces := s.spaces.switchToIdle, cur := none }
  | .fault vpn => do
    let p ← s.cur
    let vm ← s.vm.step (.fault p vpn)
    let ppn ← (vm.proc p).dirs.pageAt vpn
    return { s with vm, spaces := s.spaces.load vpn ppn }
  | .sbrk incr => do
    let p ← s.cur
    let vm ← s.vm.step (.sbrk p incr)
    return { s with vm }
  | .fork child => do
    let p ← s.cur
    let vm ← s.vm.step (.fork p child)
    return { s with vm, spaces := s.spaces.init child }
  | .execve image argv envp => do
    let p ← s.cur
    let vm ← s.vm.step (.execve p image argv envp)
    let spaces ← s.spaces.release p
    TlbVm.contextjmp { s with vm, spaces } p
  | .exit => do
    let p ← s.cur
    let vm ← s.vm.step (.exit p)
    let spaces ← s.spaces.release p
    return { s with vm, spaces, cur := none }
  | .kernelTake => (s.vm.step .kernelTake).map fun vm => { s with vm }
  | .kernelRelease ppn => (s.vm.step (.kernelRelease ppn)).map fun vm => { s with vm }

def TlbVm.NoStale (s : TlbVm) (p : ProcRef) (incr : Int) : Prop :=
  ∀ e ∈ s.spaces.mmu.tlb, e.asid = s.spaces.mmu.asid → e.vpn ∉ sbrkVpns (s.vm.proc p) incr
deriving Decidable

/-- The kernel gives back only its own pages, and a shrinking heap no page that the TLB still has. -/
def TlbAction.Ok (s : TlbVm) : TlbAction → Prop
  | .sbrk incr => ∀ p ∈ s.cur, s.NoStale p incr
  | .execve _ _ _ => ∀ p ∈ s.cur, (s.vm.proc p).kernelStack ∈ s.vm.m.kernel
  | .kernelRelease ppn => ppn ∈ s.vm.m.kernel
  | _ => True

instance TlbAction.decidableOk (s : TlbVm) (a : TlbAction) : Decidable (a.Ok s) := by
  unfold TlbAction.Ok
  split <;> infer_instance

/-- The address spaces belong to the processes, and the current process holds the identifier that
the unit is set to. -/
structure Placed (procs : List ProcRef) (spaces : Spaces) (cur : Option ProcRef) : Prop where
  inv : spaces.Inv
  bound : procs.length ≤ configProcMax
  live : ∀ x ∈ spaces.live, ∃ p ∈ procs, x = spaces.id p
  holder : ∀ p a, spaces.asid p = some a → a ≠ asidInvalid → p ∈ procs
  cur : ∀ p ∈ cur, p ∈ procs ∧ spaces.asid p = some spaces.mmu.asid ∧ spaces.mmu.asid ≠ asidInvalid

section

variable {procs : List ProcRef} {spaces spaces' : Spaces} {cur : Option ProcRef} {p : ProcRef}

section

variable (h : Placed procs spaces cur)
include h

lemma Placed.init (hNew : p ∉ procs) (hBound : procs.length < configProcMax) : Placed (p :: procs) (spaces.init p) cur := by
  have hOther : ∀ q ∈ procs, q ≠ p := by
    rintro q hq rfl
    exact hNew hq
  constructor
  case inv => exact h.inv.init p
  case bound => exact hBound
  case live =>
    intro x hx
    rcases Finset.mem_insert.mp hx with rfl | hx
    · refine ⟨p, mem_cons_self, ?_⟩
      simp [Spaces.id, Spaces.init]
    · obtain ⟨q, hq, rfl⟩ := h.live x hx
      refine ⟨q, mem_cons_of_mem p hq, ?_⟩
      simp [Spaces.id, Spaces.init, update_of_ne (hOther q hq)]
  case holder =>
    intro q a hAsid hNe
    rcases eq_or_ne q p with rfl | hq
    · exact mem_cons_self
    · simp only [Spaces.init, update_of_ne hq] at hAsid
      exact mem_cons_of_mem p (h.holder q a hAsid hNe)
  case cur =>
    intro q hq
    obtain ⟨hMem, hAsid, hNe⟩ := h.cur q hq
    refine ⟨mem_cons_of_mem p hMem, ?_, hNe⟩
    simpa only [Spaces.init, update_of_ne (hOther q hMem)] using hAsid

lemma Placed.load (vpn : Nat) (ppn : Ppn) : Placed procs (spaces.load vpn ppn) cur :=
  ⟨h.inv.load vpn ppn, h.bound, h.live, h.holder, h.cur⟩

lemma Placed.idle : Placed procs spaces.switchToIdle none :=
  ⟨h.inv.switchToIdle, h.bound, h.live, h.holder, fun _ hp => nomatch hp⟩

lemma Placed.switchTo {ret : Int} (hp : p ∈ procs) (hStep : spaces.switchTo p = some (ret, spaces')) :
    Placed procs spaces' (some p) := by
  obtain ⟨hGen, hLive, hOthers, _⟩ := h.inv.switchTo_frame hStep
  have hId : ∀ q, spaces'.id q = spaces.id q := fun q => by rw [Spaces.id, Spaces.id, hGen]
  have hLive' : ∀ x ∈ spaces'.live, ∃ q ∈ procs, x = spaces'.id q := by
    intro x hx
    rw [hLive] at hx
    rcases Finset.mem_insert.mp hx with rfl | hx
    · exact ⟨p, hp, (hId p).symm⟩
    · obtain ⟨q, hq, rfl⟩ := h.live x hx
      exact ⟨q, hq, (hId q).symm⟩
  have hCard : spaces'.live.card ≤ configProcMax := (Spaces.live_card_le hLive').trans h.bound
  have hRet : ret = 0 := by
    by_contra hRet
    exact absurd (h.inv.exhausted hStep hRet) (Nat.not_lt.mpr hCard)
  refine { h with inv := ?_, live := ?_, holder := ?_, cur := ?_ }
  · exact h.inv.switchTo hStep
  · exact hLive'
  · intro q a hAsid hNe
    rcases eq_or_ne q p with rfl | hq
    · exact hp
    · rw [hOthers q hq] at hAsid
      exact h.holder q a hAsid hNe
  · intro q hq
    obtain rfl := some.inj hq
    rcases Spaces.switchTo_result hStep with ⟨_, a, hAsid, hNe, rfl⟩ | hFailed
    · exact ⟨hp, hAsid, hNe⟩
    · rw [hRet] at hFailed
      cases hFailed

lemma Placed.release {procs' : List ProcRef} (hStep : spaces.release p = some spaces')
    (hStay : ∀ q ∈ procs, q ≠ p → q ∈ procs') (hBound : procs'.length ≤ configProcMax) :
    Placed procs' spaces' none := by
  obtain ⟨hGen, hLive, hNone, hOthers, _⟩ := Spaces.release_frame hStep
  have hId : ∀ q, spaces'.id q = spaces.id q := fun q => by rw [Spaces.id, Spaces.id, hGen]
  constructor
  case inv => exact h.inv.release hStep
  case bound => exact hBound
  case live =>
    intro x hx
    rw [hLive] at hx
    obtain ⟨hNe, hx⟩ := Finset.mem_erase.mp hx
    obtain ⟨q, hq, rfl⟩ := h.live x hx
    refine ⟨q, hStay q hq ?_, (hId q).symm⟩
    rintro rfl
    exact hNe rfl
  case holder =>
    intro q a hAsid hNe
    rcases eq_or_ne q p with rfl | hq
    · rw [hNone] at hAsid
      exact absurd (some.inj hAsid).symm hNe
    · rw [hOthers q hq] at hAsid
      exact hStay q (h.holder q a hAsid hNe) hq
  case cur =>
    intro q hq
    cases hq

end

end

def Coherent (proc : ProcRef → VmProc) (spaces : Spaces) : Prop :=
  ∀ e ∈ spaces.mmu.tlb, ∀ p, spaces.asid p = some e.asid → e.asid ≠ asidInvalid →
    (proc p).dirs.pageAt e.vpn = some e.ppn

section

variable {proc proc' : ProcRef → VmProc} {spaces spaces' : Spaces} {p : ProcRef}

section

variable (h : Coherent proc spaces)
include h

lemma Coherent.init (hOthers : ∀ q, q ≠ p → proc' q = proc q) : Coherent proc' (spaces.init p) := by
  intro e he q hAsid hNe
  rcases eq_or_ne q p with rfl | hq
  · simp only [Spaces.init, update_self] at hAsid
    exact absurd (some.inj hAsid).symm hNe
  · simp only [Spaces.init, update_of_ne hq] at hAsid
    rw [hOthers q hq]
    exact h e he q hAsid hNe

lemma Coherent.switchTo {ret : Int} (hInv : spaces.Inv) (hStep : spaces.switchTo p = some (ret, spaces')) :
    Coherent proc spaces' := by
  obtain ⟨_, _, hOthers, hEntries⟩ := hInv.switchTo_frame hStep
  intro e he q hAsid hNe
  obtain ⟨hOld, hOwn⟩ := hEntries e he
  rcases eq_or_ne q p with rfl | hq
  · exact h e hOld q (hOwn hAsid hNe) hNe
  · rw [hOthers q hq] at hAsid
    exact h e hOld q hAsid hNe

lemma Coherent.release (hOthers : ∀ q, q ≠ p → proc' q = proc q) (hStep : spaces.release p = some spaces') :
    Coherent proc' spaces' := by
  obtain ⟨_, _, hNone, hSame, hTlb⟩ := Spaces.release_frame hStep
  intro e he q hAsid hNe
  rw [hTlb] at he
  rcases eq_or_ne q p with rfl | hq
  · rw [hNone] at hAsid
    exact absurd (some.inj hAsid).symm hNe
  · rw [hSame q hq] at hAsid
    rw [hOthers q hq]
    exact h e he q hAsid hNe

lemma Coherent.mono (hKeeps : ∀ e ∈ spaces.mmu.tlb, ∀ q, spaces.asid q = some e.asid → e.asid ≠ asidInvalid →
      (proc q).dirs.pageAt e.vpn = some e.ppn → (proc' q).dirs.pageAt e.vpn = some e.ppn) :
    Coherent proc' spaces :=
  fun e he q hAsid hNe => hKeeps e he q hAsid hNe (h e he q hAsid hNe)

lemma Coherent.load {vpn : Nat} {ppn : Ppn} (hInv : spaces.Inv) (hAsid : spaces.asid p = some spaces.mmu.asid)
    (hMapped : (proc p).dirs.pageAt vpn = some ppn) :
    Coherent proc (spaces.load vpn ppn) := by
  intro e he q hEntry hNe
  rcases mem_cons.mp he with rfl | he
  · obtain rfl := hInv.holder_unique hAsid hEntry hNe
    exact hMapped
  · exact h e he q hEntry hNe

end

end

structure TlbVm.Inv (s : TlbVm) : Prop where
  vm : s.vm.Exclusive
  placed : Placed s.vm.procs s.spaces s.cur
  coherent : Coherent s.vm.proc s.spaces

lemma TlbVm.boot_inv {free : List Ppn} (hFree : free.Nodup) (cells : Ppn → Nat → Cell)
    (smem : FileRef → SmemFile) : (TlbVm.boot free cells smem).Inv where
  vm := Vm.boot_exclusive hFree cells smem
  placed :=
    { inv := Spaces.boot_inv
      bound := Nat.zero_le _
      live := fun _ h => absurd h (Finset.notMem_empty _)
      holder := by
        intro _ _ h
        cases h
      cur := by
        intro _ h
        cases h }
  coherent := by
    intro _ h
    cases h

variable {s : TlbVm} {vm : Vm} {p : ProcRef}

lemma TlbVm.Inv.sbrk {incr : Int} (hs : s.Inv) (hCur : s.cur = some p)
    (hStale : s.NoStale p incr) (hVm : s.vm.step (.sbrk p incr) = some vm) :
    TlbVm.Inv { s with vm } := by
  have hExclusive := hs.vm.step hVm trivial
  obtain ⟨_, hCall⟩ := ite_none_right_eq_some.mp hVm
  obtain ⟨⟨m, _, _⟩, hSbrk, rfl⟩ := map_eq_some_iff.mp hCall
  refine ⟨hExclusive, hs.placed, hs.coherent.mono ?_⟩
  intro e he q hAsid _ hMapped
  rcases eq_or_ne q p with rfl | hq
  · -- the entry is under the identifier of the current process
    have hSame : e.asid = s.spaces.mmu.asid := by
      rw [(hs.placed.cur q hCur).2.1] at hAsid
      exact (some.inj hAsid).symm
    simp only [Vm.setProc_self]
    rw [(sysSbrk_released hSbrk).pageAt, if_neg (hStale e he hSame), hMapped]
  · simpa only [Vm.setProc_of_ne s.vm hq] using hMapped

lemma TlbVm.Inv.fault {vpn : Nat} {ppn : Ppn} (hs : s.Inv)
    (hCur : s.cur = some p) (hVm : s.vm.step (.fault p vpn) = some vm)
    (hPage : (vm.proc p).dirs.pageAt vpn = some ppn) :
    TlbVm.Inv { s with vm, spaces := s.spaces.load vpn ppn } := by
  have hExclusive := hs.vm.step hVm trivial
  obtain ⟨_, hCall⟩ := ite_none_right_eq_some.mp hVm
  obtain ⟨⟨m, proc, _⟩, hFault, rfl⟩ := map_eq_some_iff.mp hCall
  have hKept : Coherent (s.vm.setProc p m proc).proc s.spaces := by
    refine hs.coherent.mono ?_
    intro e _ q _ _ hMapped
    rcases eq_or_ne q p with rfl | hq
    · rw [Vm.setProc_self]
      exact (tlbmissHandler_faulted hFault).1.keeps _ _ hMapped
    · rwa [Vm.setProc_of_ne s.vm hq]
  exact ⟨hExclusive, hs.placed.load vpn ppn, hKept.load hs.placed.inv (hs.placed.cur p hCur).2.1 hPage⟩

lemma TlbVm.Inv.contextjmp {t : TlbVm} (hs : s.Inv) (hp : p ∈ s.vm.procs) (hStep : s.contextjmp p = some t) : t.Inv := by
  obtain ⟨⟨_, _⟩, hSwitch, rfl⟩ := map_eq_some_iff.mp hStep
  exact ⟨hs.vm, hs.placed.switchTo hp hSwitch, hs.coherent.switchTo hs.placed.inv hSwitch⟩

lemma TlbVm.Inv.step {t : TlbVm} {a : TlbAction} (hs : s.Inv) (hOk : a.Ok s) (hStep : s.step a = some t) : t.Inv := by
  cases a with
  | spawn p image =>
    obtain ⟨vm, hVm, rfl⟩ := map_eq_some_iff.mp hStep
    have hExclusive := hs.vm.step hVm trivial
    obtain ⟨hEnabled, hCall⟩ := ite_none_right_eq_some.mp hVm
    obtain ⟨⟨m, proc⟩, _, rfl⟩ := map_eq_some_iff.mp hCall
    exact ⟨hExclusive, hs.placed.init hEnabled.1 hEnabled.2, hs.coherent.init fun q hq => Vm.setProc_of_ne s.vm hq m proc⟩
  | switchTo p =>
    obtain ⟨hp, hJump⟩ := ite_none_right_eq_some.mp hStep
    exact hs.contextjmp hp hJump
  | idle =>
    cases hStep
    exact ⟨hs.vm, hs.placed.idle, hs.coherent⟩
  | fault vpn =>
    obtain ⟨p, hCur, hRest⟩ := bind_eq_some_iff.mp hStep
    obtain ⟨vm, hVm, hRest⟩ := bind_eq_some_iff.mp hRest
    obtain ⟨ppn, hPage, ⟨⟩⟩ := bind_eq_some_iff.mp hRest
    exact hs.fault hCur hVm hPage
  | sbrk incr =>
    obtain ⟨p, hCur, hRest⟩ := bind_eq_some_iff.mp hStep
    obtain ⟨vm, hVm, ⟨⟩⟩ := bind_eq_some_iff.mp hRest
    exact hs.sbrk hCur (hOk p hCur) hVm
  | fork child =>
    obtain ⟨p, _, hRest⟩ := bind_eq_some_iff.mp hStep
    obtain ⟨vm, hVm, ⟨⟩⟩ := bind_eq_some_iff.mp hRest
    have hExclusive := hs.vm.step hVm trivial
    obtain ⟨hEnabled, hCall⟩ := ite_none_right_eq_some.mp hVm
    obtain ⟨⟨m, proc⟩, _, rfl⟩ := map_eq_some_iff.mp hCall
    exact ⟨hExclusive, hs.placed.init hEnabled.2.1 hEnabled.2.2,
      hs.coherent.init fun q hq => Vm.setProc_of_ne s.vm hq m proc⟩
  | execve image argv envp =>
    obtain ⟨p, hCur, hRest⟩ := bind_eq_some_iff.mp hStep
    obtain ⟨vm, hVm, hRest⟩ := bind_eq_some_iff.mp hRest
    obtain ⟨spaces, hRelease, hJump⟩ := bind_eq_some_iff.mp hRest
    have hExclusive := hs.vm.step hVm (hOk p hCur)
    obtain ⟨hp, hCall⟩ := ite_none_right_eq_some.mp hVm
    obtain ⟨⟨m, proc⟩, _, rfl⟩ := map_eq_some_iff.mp hCall
    -- the old identifier is given up before the new image runs
    have hReleased : TlbVm.Inv ⟨s.vm.setProc p m proc, spaces, none⟩ :=
      ⟨hExclusive, hs.placed.release hRelease (fun _ hq _ => hq) hs.placed.bound,
        hs.coherent.release (fun q hq => Vm.setProc_of_ne s.vm hq m proc) hRelease⟩
    exact hReleased.contextjmp hp hJump
  | exit =>
    obtain ⟨p, _, hRest⟩ := bind_eq_some_iff.mp hStep
    obtain ⟨vm, hVm, hRest⟩ := bind_eq_some_iff.mp hRest
    obtain ⟨spaces, hRelease, ⟨⟩⟩ := bind_eq_some_iff.mp hRest
    have hExclusive := hs.vm.step hVm trivial
    obtain ⟨_, hCall⟩ := ite_none_right_eq_some.mp hVm
    obtain ⟨⟨m, proc⟩, _, rfl⟩ := map_eq_some_iff.mp hCall
    refine ⟨hExclusive, hs.placed.release hRelease ?_ ?_, ?_⟩
    · exact fun q hq hNe => (mem_erase_of_ne hNe).mpr hq
    · exact length_erase_le.trans hs.placed.bound
    · exact hs.coherent.release (fun q hq => Vm.setProc_of_ne s.vm hq m proc) hRelease
  | kernelTake =>
    obtain ⟨vm, hVm, rfl⟩ := map_eq_some_iff.mp hStep
    have hExclusive := hs.vm.step hVm trivial
    obtain ⟨_, hCall⟩ := ite_none_right_eq_some.mp hVm
    obtain ⟨_, _, rfl⟩ := map_eq_some_iff.mp hCall
    exact ⟨hExclusive, hs.placed, hs.coherent⟩
  | kernelRelease ppn =>
    obtain ⟨vm, hVm, rfl⟩ := map_eq_some_iff.mp hStep
    have hExclusive := hs.vm.step hVm hOk
    obtain ⟨_, hCall⟩ := ite_none_right_eq_some.mp hVm
    obtain ⟨_, _, rfl⟩ := map_eq_some_iff.mp hCall
    exact ⟨hExclusive, hs.placed, hs.coherent⟩

/-- As long as no shrinking heap gives up a page that the TLB still has, every TLB entry under an identifier in use is
in the directories of its process, and names no free page. -/
theorem tlb_agrees_with_directories {free : List Ppn} (hFree : free.Nodup) {cells : Ppn → Nat → Cell}
    {smem : FileRef → SmemFile} {actions : List TlbAction} {s : TlbVm}
    (h : Run TlbVm.step (fun s a => a.Ok s) (TlbVm.boot free cells smem) actions s) :
    ∀ e ∈ s.spaces.mmu.tlb, ∀ p, s.spaces.asid p = some e.asid → e.asid ≠ asidInvalid →
      (s.vm.proc p).dirs.pageAt e.vpn = some e.ppn ∧ e.ppn ∉ s.vm.m.pm.free := by
  have hInv : s.Inv := h.invariant (fun _ _ _ hOk hs hStep => hs.step hOk hStep) (TlbVm.boot_inv hFree cells smem)
  intro e he p hAsid hNe
  have hMapped := hInv.coherent e he p hAsid hNe
  exact ⟨hMapped, hInv.vm.mapped_notMem_free (hInv.placed.holder p _ hAsid hNe) (DirList.mem_owned_of_pageAt hMapped)⟩

def smallTlbBoot : TlbVm := ⟨smallBoot, .boot, none⟩

/-- After a heap grows by a page, uses it and gives it back, the TLB still has the free page. -/
theorem sbrk_leaves_stale_entry : ∃ s, exec TlbVm.step smallTlbBoot
        [.spawn 0 smallImage, .switchTo 0, .sbrk 1024, .fault 0x401, .sbrk (-1024)] = some s ∧
      ∃ e ∈ s.spaces.mmu.tlb, s.spaces.asid 0 = some e.asid ∧ e.asid ≠ asidInvalid ∧
        (s.vm.proc 0).dirs.pageAt e.vpn = none ∧ e.ppn ∈ s.vm.m.pm.free := by
  refine ⟨_, rfl, ⟨0, 0x401, 21, _⟩, mem_cons_self, ?_, ?_, ?_, ?_⟩
  · rfl
  · decide
  · rfl
  · decide

def smallTlbRun : List TlbAction :=
  [.spawn 0 smallImage, .switchTo 0, .fault 0x400, .sbrk 2048, .fault 0x401, .sbrk (-1024), .fork 1,
    .switchTo 1, .fault 0x401, .exit, .switchTo 0, .execve smallImage none none, .fault 0x400]

theorem tlb_agrees_with_directories_small : ∃ s, Run TlbVm.step (fun s a => a.Ok s) smallTlbBoot smallTlbRun s ∧
      s.spaces.mmu.tlb.length = 4 ∧
      ∀ e ∈ s.spaces.mmu.tlb, ∀ p, s.spaces.asid p = some e.asid → e.asid ≠ asidInvalid →
        (s.vm.proc p).dirs.pageAt e.vpn = some e.ppn ∧ e.ppn ∉ s.vm.m.pm.free := by
  have hLength : (exec (guarded TlbVm.step fun s a => a.Ok s) smallTlbBoot smallTlbRun).map
      (fun s => s.spaces.mmu.tlb.length) = some 4 := by
    rfl
  obtain ⟨s, hExec, hs⟩ := map_eq_some_iff.mp hLength
  have hRun := run_of_exec_guarded hExec
  exact ⟨s, hRun, hs, tlb_agrees_with_directories (by decide) hRun⟩

end Fixos.Sys
