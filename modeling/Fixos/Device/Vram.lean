import Fixos.Sys.Vm

/-! # The VRAM page (`device/display/display.c`)

The ioctl `DISPCTL_MAPVRAM` enters the page as a private page, and a private page is given back with the directories.
-/

namespace Fixos.Device

open Arch Sys Transition Option List

def vramVpn : Nat := 0x18000000 / pmPageBytes

/-- `viewers` are the processes that have mapped the VRAM and have neither exited nor replaced their image since. -/
structure DisplayVm where
  vm : Vm
  vram : Ppn
  viewers : List ProcRef

def displayInit (vm : Vm) : Option DisplayVm :=
  vm.m.archPmGetFreePage.map fun (vram, m) =>
    ⟨{ vm with m := { m with pm := m.pm.store vram 0 none (replicate 1024 0) } }, vram, []⟩

inductive DisplayAction where
  | mapVram (p : ProcRef) (virtVram : Nat)
  | system (a : VmAction)

def endedBy : VmAction → List ProcRef
  | .execve p _ _ _ | .exit p => [p]
  | _ => []

def DisplayVm.page (s : DisplayVm) : PageEntry := ⟨s.vram, true, true, true⟩

/-- The ioctl by process `p`; with a null pointer it only returns an error. -/
def DisplayVm.ioctlMapvram (s : DisplayVm) (p : ProcRef) (virtVram : Nat) : Option DisplayVm :=
  if virtVram ≠ 0 then
    (memInsertPage s.vm.m (s.vm.proc p).dirs s.page 0x18000000).map fun (m, dirs) =>
      { s with vm := s.vm.setProc p m { s.vm.proc p with dirs }, viewers := p :: s.viewers }
  else some s

def DisplayVm.step (s : DisplayVm) : DisplayAction → Option DisplayVm
  | .mapVram p virtVram => if p ∈ s.vm.procs then s.ioctlMapvram p virtVram else none
  | .system a => (s.vm.step a).map fun vm => { s with vm, viewers := s.viewers.filter (· ∉ endedBy a) }

/-- The actions of the runs: all but those by which a part of an address space, or a page of the kernel, is given
back. -/
def DisplayAction.InRun : DisplayAction → Prop
  | .mapVram _ _ => True
  | .system a =>
    match a with
    | .sbrk _ _ | .kernelRelease _ => False
    | _ => True

def DisplayAction.SparesVram (s : DisplayVm) : DisplayAction → Prop
  | .mapVram _ _ => True
  | .system a => ∀ p ∈ endedBy a, (s.vm.proc p).dirs.pageAt vramVpn ≠ some s.vram

instance : (a : DisplayAction) → Decidable a.InRun
  | .mapVram _ _ => isTrue trivial
  | .system (.sbrk _ _) | .system (.kernelRelease _) => isFalse not_false
  | .system (.spawn _ _) | .system (.fault _ _) | .system (.fork _ _) | .system (.execve _ _ _ _) | .system (.exit _)
  | .system (.write _ _ _) | .system .kernelTake | .system (.kernelWrite _ _ _) => isTrue trivial

instance (s : DisplayVm) (a : DisplayAction) : Decidable (a.SparesVram s) := by
  unfold DisplayAction.SparesVram
  split <;> infer_instance

/-- The page is neither free nor handed out to anyone who has not mapped it, and those that have mapped it see it. -/
structure DisplayVm.VramKept (s : DisplayVm) : Prop where
  notFree : s.vram ∉ s.vm.m.pm.free
  notTaken : s.vram ∉ s.vm.m.kernel ∧
    ∀ p ∈ s.vm.procs, p ∉ s.viewers → ∀ vpn, (s.vm.proc p).dirs.pageAt vpn ≠ some s.vram
  seen : ∀ p ∈ s.viewers, (s.vm.proc p).dirs.pageAt vramVpn = some s.vram

structure ProcView (vram : Ppn) (viewing : Prop) (proc : VmProc) : Prop where
  count : viewing → proc.dirs.owned.count vram = 1
  seen : viewing → proc.dirs.pageAt vramVpn = some vram
  lacks : ¬ viewing → proc.dirs.owned.count vram = 0
  stack : proc.kernelStack = 0 ∨ proc.kernelStack ≠ vram

lemma ProcView.unseen {vram : Ppn} {viewing : Prop} {proc : VmProc} (hNot : ¬ viewing)
    (hLacks : proc.dirs.owned.count vram = 0) (hStack : proc.kernelStack = 0 ∨ proc.kernelStack ≠ vram) :
    ProcView vram viewing proc :=
  ⟨fun h => absurd h hNot, fun h => absurd h hNot, fun _ => hLacks, hStack⟩

structure DisplayVm.Inv (s : DisplayVm) : Prop where
  procs : s.vm.procs.Nodup
  viewers : ∀ p ∈ s.viewers, p ∈ s.vm.procs
  holds : s.vm.m.holds s.vram = 0
  view : ∀ p ∈ s.vm.procs, ProcView s.vram (p ∈ s.viewers) (s.vm.proc p)

section

variable {s t : DisplayVm} {p : ProcRef} {m : Memory} {proc : VmProc}

lemma DisplayVm.Inv.kept (h : s.Inv) : s.VramKept := by
  have hNone : s.vm.m.pm.free.count s.vram = 0 ∧ s.vm.m.kernel.count s.vram = 0 := Nat.add_eq_zero_iff.mp h.holds
  refine ⟨count_eq_zero.mp hNone.1, ⟨count_eq_zero.mp hNone.2, fun p hp hNot vpn hPage => ?_⟩, fun p hp => ?_⟩
  · exact count_eq_zero.mp ((h.view p hp).lacks hNot) (DirList.mem_owned_of_pageAt hPage)
  · exact (h.view p (h.viewers p hp)).seen hp

lemma DisplayVm.VramKept.holds_eq_zero (h : s.VramKept) : s.vm.m.holds s.vram = 0 := by
  rw [Memory.holds, count_eq_zero.mpr h.notFree, count_eq_zero.mpr h.notTaken.1]

lemma DisplayVm.Inv.seen_iff (h : s.Inv) (hp : p ∈ s.vm.procs) :
    (s.vm.proc p).dirs.pageAt vramVpn = some s.vram ↔ p ∈ s.viewers := by
  refine ⟨fun hPage => ?_, (h.view p hp).seen⟩
  by_contra hNot
  exact count_eq_zero.mp ((h.view p hp).lacks hNot) (DirList.mem_owned_of_pageAt hPage)

variable {viewers : List ProcRef}

lemma DisplayVm.Inv.setProc (h : s.Inv) (hViewers : ∀ q ∈ viewers, q ∈ s.vm.procs)
    (hOthers : ∀ q ≠ p, q ∈ viewers ↔ q ∈ s.viewers) (hHolds : m.holds s.vram = 0)
    (hView : ProcView s.vram (p ∈ viewers) proc) : DisplayVm.Inv ⟨s.vm.setProc p m proc, s.vram, viewers⟩ := by
  refine ⟨h.procs, hViewers, hHolds, fun q hq => ?_⟩
  by_cases hqp : q = p
  · subst hqp
    rw [Vm.setProc_self]
    exact hView
  · rw [Vm.setProc_of_ne s.vm hqp]
    have hSame : (q ∈ viewers) = (q ∈ s.viewers) := propext (hOthers q hqp)
    rw [hSame]
    exact h.view q hq

lemma DisplayVm.Inv.addProc (h : s.Inv) (hNew : p ∉ s.vm.procs) (hHolds : m.holds s.vram = 0)
    (hView : ProcView s.vram False proc) : DisplayVm.Inv ⟨s.vm.addProc p m proc, s.vram, s.viewers⟩ := by
  have hNot : p ∉ s.viewers := fun hp => hNew (h.viewers p hp)
  refine ⟨nodup_cons.mpr ⟨hNew, h.procs⟩, fun q hq => mem_cons_of_mem p (h.viewers q hq), hHolds, fun q hq => ?_⟩
  by_cases hqp : q = p
  · subst hqp
    have hFalse : (q ∈ s.viewers) = False := eq_false hNot
    rw [hFalse]
    exact (Vm.setProc_self s.vm q m proc).symm ▸ hView
  · exact (Vm.setProc_of_ne s.vm hqp m proc).symm ▸ h.view q ((mem_cons.mp hq).resolve_left hqp)

lemma mem_viewers_left {q : ProcRef} : q ∈ viewers.filter (· ∉ [p]) ↔ q ∈ viewers ∧ q ≠ p := by
  simp [mem_filter]

lemma DisplayVm.Inv.removeProc (h : s.Inv) (hHolds : m.holds s.vram = 0) :
    DisplayVm.Inv ⟨s.vm.removeProc p m proc, s.vram, s.viewers.filter (· ∉ [p])⟩ := by
  refine ⟨h.procs.erase p, fun q hq => ?_, hHolds, fun q hq => ?_⟩
  · obtain ⟨hView, hqp⟩ := mem_viewers_left.mp hq
    exact (h.procs.mem_erase_iff).mpr ⟨hqp, h.viewers q hView⟩
  · obtain ⟨hqp, hMem⟩ := (h.procs.mem_erase_iff).mp hq
    have hSame : (q ∈ s.viewers.filter (· ∉ [p])) = (q ∈ s.viewers) := propext (mem_viewers_left.trans (and_iff_left hqp))
    rw [hSame]
    exact (Vm.setProc_of_ne s.vm hqp m proc).symm ▸ h.view q hMem

lemma DisplayVm.Inv.setMemory (h : s.Inv) (hHolds : m.holds s.vram = 0) :
    DisplayVm.Inv ⟨{ s.vm with m }, s.vram, s.viewers⟩ :=
  ⟨h.procs, h.viewers, hHolds, h.view⟩

lemma stack_ne {vram kernelStack : Ppn} (hHolds : m.holds vram = 0) (h : 0 < m.holds kernelStack) : kernelStack ≠ vram := by
  rintro rfl
  omega

lemma DisplayVm.Inv.ioctlMapvram (h : s.Inv) (hp : p ∈ s.vm.procs) {virtVram : Nat}
    (hStep : s.ioctlMapvram p virtVram = some t) : t.Inv := by
  unfold DisplayVm.ioctlMapvram at hStep
  split at hStep
  · obtain ⟨⟨m, _⟩, hInsert, rfl⟩ := map_eq_some_iff.mp hStep
    have hInserted := memInsertPage_inserted hInsert
    have hView := h.view p hp
    have hPage : s.page.owned = some s.vram := rfl
    have hCount := hInserted.owned s.vram
    rw [hPage, show 0x18000000 / pmPageBytes = vramVpn from rfl] at hCount
    refine h.setProc (fun q hq => ?_) (fun q hqp => ?_) ((hInserted.holds s.vram).trans h.holds) ⟨fun _ => ?_, fun _ => ?_,
      fun hNot => absurd mem_cons_self hNot, hView.stack⟩
    · rcases mem_cons.mp hq with rfl | hq
      · exact hp
      · exact h.viewers q hq
    · exact mem_cons.trans (or_iff_right hqp)
    · by_cases hViewer : p ∈ s.viewers
      · rw [hView.seen hViewer, hView.count hViewer] at hCount
        simpa using hCount
      · have hNone : (s.vm.proc p).dirs.pageAt vramVpn ≠ some s.vram := fun hSeen => hViewer ((h.seen_iff hp).mp hSeen)
        have hZero : ((s.vm.proc p).dirs.pageAt vramVpn).toList.count s.vram = 0 :=
          count_eq_zero.mpr fun hMem => hNone (mem_toList.mp hMem)
        rw [hZero, hView.lacks hViewer] at hCount
        simpa using hCount
    · exact (hInserted.pageAt vramVpn).trans (if_pos rfl)
  · cases hStep
    exact h

lemma DisplayVm.Inv.fault (h : s.Inv) (hp : p ∈ s.vm.procs) {vpn : Nat} {ppn : Ppn}
    (hFault : tlbmissHandler s.vm.smem s.vm.m (s.vm.proc p) vpn = some (m, proc, ppn)) :
    m.holds s.vram = 0 ∧ ProcView s.vram (p ∈ s.viewers) proc := by
  obtain ⟨hFaulted, _, hSame⟩ := tlbmissHandler_faulted hFault
  have hView := h.view p hp
  have hCount := hFaulted.count_le s.vram
  rw [h.holds, Nat.zero_add] at hCount
  have hStack : proc.kernelStack = (s.vm.proc p).kernelStack := by rw [hSame]
  by_cases hViewer : p ∈ s.viewers
  · have hSeen := hFaulted.keeps _ _ (hView.seen hViewer)
    have hMem := count_pos_iff.mpr (DirList.mem_owned_of_pageAt hSeen)
    rw [hView.count hViewer] at hCount
    exact ⟨by omega, fun _ => by omega, fun _ => hSeen, fun hNot => absurd hViewer hNot, hStack ▸ hView.stack⟩
  · rw [hView.lacks hViewer] at hCount
    exact ⟨by omega, .unseen hViewer (by omega) (hStack ▸ hView.stack)⟩

variable {a : VmAction}

lemma viewers_of_not_ended (h : endedBy a = []) (viewers : List ProcRef) : viewers.filter (· ∉ endedBy a) = viewers := by
  simp [h]

section

variable (h : s.Inv)
include h

lemma DisplayVm.Inv.execve_holds (hp : p ∈ s.vm.procs) {image : Image}
    {argv envp : Option (List Bytes)} (hExec : execveMemory s.vm.m (s.vm.proc p) image argv envp = some (m, proc)) :
    m.holds s.vram = (s.vm.proc p).dirs.owned.count s.vram ∧ proc.dirs.owned.count s.vram = 0 := by
  have hStack := (h.view p hp).stack.resolve_left (execveMemory_kernelStack hExec).2
  obtain ⟨_, hTaken, hHolds, _⟩ := execveMemory_holds (r := s.vram) (Or.inr hStack) hExec
  rw [h.holds] at hTaken hHolds
  omega

lemma DisplayVm.Inv.ended_holds {vm : Vm} (hEnd : p ∈ endedBy a) (hStep : s.vm.step a = some vm) :
    p ∈ s.vm.procs ∧ vm.m.holds s.vram = (s.vm.proc p).dirs.owned.count s.vram := by
  obtain ⟨hEnabled, hCall⟩ := ite_none_right_eq_some.mp hStep
  cases a with
  | execve q image argv envp =>
    obtain rfl := mem_singleton.mp hEnd
    obtain ⟨⟨m, proc⟩, hExec, rfl⟩ := map_eq_some_iff.mp hCall
    exact ⟨hEnabled, (h.execve_holds hEnabled hExec).1⟩
  | exit q =>
    obtain rfl := mem_singleton.mp hEnd
    obtain ⟨⟨m, proc⟩, hExit, rfl⟩ := map_eq_some_iff.mp hCall
    obtain ⟨_, hRelease, ⟨⟩⟩ := map_eq_some_iff.mp hExit
    have hHolds := memReleaseDirs_holds hRelease s.vram
    rw [h.holds, Nat.zero_add] at hHolds
    exact ⟨hEnabled, hHolds⟩
  | spawn | fault | sbrk | fork | write | kernelTake | kernelRelease | kernelWrite => cases hEnd

lemma DisplayVm.Inv.system {vm : Vm} (hRun : (DisplayAction.system a).InRun)
    (hSpares : (DisplayAction.system a).SparesVram s) (hStep : s.vm.step a = some vm) :
    DisplayVm.Inv ⟨vm, s.vram, s.viewers.filter (· ∉ endedBy a)⟩ := by
  obtain ⟨hEnabled, hCall⟩ := ite_none_right_eq_some.mp hStep
  cases a with
  | spawn p image =>
    rw [viewers_of_not_ended rfl]
    obtain ⟨⟨m, proc⟩, hLoad, rfl⟩ := map_eq_some_iff.mp hCall
    obtain ⟨hDirs, hHolds, _⟩ := elfloaderLoad_effect hLoad
    have hZero := (hHolds s.vram).trans h.holds
    refine h.addProc hEnabled.1 hZero (.unseen id ?_ ((elfloaderLoad_kernelStack hLoad).imp_right (stack_ne hZero)))
    rw [hDirs]
    rfl
  | fault p vpn =>
    rw [viewers_of_not_ended rfl]
    obtain ⟨⟨m, proc, ppn⟩, hFault, rfl⟩ := map_eq_some_iff.mp hCall
    obtain ⟨hZero, hView⟩ := h.fault hEnabled hFault
    exact h.setProc h.viewers (fun _ _ => Iff.rfl) hZero hView
  | sbrk p incr => exact hRun.elim
  | fork cur child =>
    rw [viewers_of_not_ended rfl]
    obtain ⟨⟨m, proc⟩, hFork, rfl⟩ := map_eq_some_iff.mp hCall
    have hCount := forkMemory_le hFork s.vram
    rw [h.holds] at hCount
    have hZero : m.holds s.vram = 0 := by omega
    exact h.addProc hEnabled.2.1 hZero (.unseen id (by omega) (Or.inr (stack_ne hZero (forkMemory_kernelStack hFork))))
  | execve p image argv envp =>
    have hNot : p ∉ s.viewers := mt (h.seen_iff hEnabled).mpr (hSpares p (mem_singleton_self p))
    obtain ⟨⟨m, proc⟩, hExec, rfl⟩ := map_eq_some_iff.mp hCall
    obtain ⟨hHolds, hLacks⟩ := h.execve_holds hEnabled hExec
    have hZero : m.holds s.vram = 0 := hHolds.trans ((h.view p hEnabled).lacks hNot)
    refine h.setProc (fun q hq => h.viewers q (mem_viewers_left.mp hq).1)
      (fun q hqp => mem_viewers_left.trans (and_iff_left hqp)) hZero
      (.unseen (fun hp => hNot (mem_viewers_left.mp hp).1) hLacks ?_)
    rcases (execveMemory_kernelStack hExec).1 with hSame | hNew
    · exact hSame ▸ (h.view p hEnabled).stack
    · exact Or.inr (stack_ne hZero hNew)
  | exit p =>
    have hNot : p ∉ s.viewers := mt (h.seen_iff hEnabled).mpr (hSpares p (mem_singleton_self p))
    have hEnded := (h.ended_holds (mem_singleton_self p) hStep).2
    rw [(h.view p hEnabled).lacks hNot] at hEnded
    obtain ⟨⟨m, proc⟩, _, rfl⟩ := map_eq_some_iff.mp hCall
    exact h.removeProc hEnded
  | write p addr byte =>
    rw [viewers_of_not_ended rfl]
    obtain ⟨ppn, _, rfl⟩ := map_eq_some_iff.mp hCall
    exact h.setMemory h.holds
  | kernelTake =>
    rw [viewers_of_not_ended rfl]
    obtain ⟨⟨ppn, m⟩, hTake, rfl⟩ := map_eq_some_iff.mp hCall
    exact h.setMemory ((Memory.holds_getKernelPage hTake s.vram).trans h.holds)
  | kernelRelease ppn => exact hRun.elim
  | kernelWrite ppn pos bytes =>
    rw [viewers_of_not_ended rfl]
    cases hCall
    exact h.setMemory h.holds

lemma DisplayVm.Inv.step {a : DisplayAction} (hRun : a.InRun) (hSpares : a.SparesVram s)
    (hStep : s.step a = some t) : t.Inv := by
  cases a with
  | mapVram p virtVram =>
    obtain ⟨hp, hIoctl⟩ := ite_none_right_eq_some.mp hStep
    exact h.ioctlMapvram hp hIoctl
  | system a =>
    obtain ⟨_, hVm, rfl⟩ := map_eq_some_iff.mp hStep
    exact h.system hRun hSpares hVm

lemma DisplayVm.Inv.spoiled {a : DisplayAction} (hNot : ¬ a.SparesVram s) (hStep : s.step a = some t) : ¬ t.VramKept := by
  intro hKept
  cases a with
  | mapVram p virtVram => exact hNot trivial
  | system a =>
    obtain ⟨vm, hVm, rfl⟩ := map_eq_some_iff.mp hStep
    simp only [DisplayAction.SparesVram, not_forall, not_not] at hNot
    obtain ⟨p, hEnd, hSeen⟩ := hNot
    obtain ⟨hp, hHolds⟩ := h.ended_holds hEnd hVm
    have hZero : vm.m.holds s.vram = 0 := hKept.holds_eq_zero
    rw [(h.view p hp).count ((h.seen_iff hp).mp hSeen), hZero] at hHolds
    cases hHolds

end

end

lemma displayInit_inv {free : List Ppn} (hFree : free.Nodup) {cells : Ppn → Nat → Cell} {smem : Fs.FileRef → SmemFile}
    {d : DisplayVm} (h : displayInit (Vm.boot free cells smem) = some d) : d.Inv := by
  obtain ⟨⟨vram, m⟩, hGet, rfl⟩ := map_eq_some_iff.mp h
  refine ⟨nodup_nil, fun p hp => absurd hp not_mem_nil, ?_, fun p hp => absurd hp not_mem_nil⟩
  have hHolds := Memory.holds_getFreePage hGet vram
  have hOnce := nodup_iff_count_le_one.mp hFree vram
  have hBoot : (Vm.boot free cells smem).m.holds vram = free.count vram := Nat.add_zero _
  rw [hBoot, count_singleton_self] at hHolds
  show m.holds vram = 0
  omega

/-- In a run after `display_init` the page is kept in every state exactly if no process ends with it mapped. -/
theorem vram_kept_iff {free : List Ppn} (hFree : free.Nodup) {cells : Ppn → Nat → Cell} {smem : Fs.FileRef → SmemFile}
    {d t : DisplayVm} (hInit : displayInit (Vm.boot free cells smem) = some d) {actions : List DisplayAction}
    (hRun : Run DisplayVm.step (fun _ a => a.InRun) d actions t) :
    (∀ before after u, actions = before ++ after → Run DisplayVm.step (fun _ a => a.InRun) d before u → u.VramKept) ↔
      Run DisplayVm.step (fun s a => a.InRun ∧ a.SparesVram s) d actions t :=
  hRun.good_throughout_iff (fun _ hs => hs.kept) (fun _ _ _ hIn hSpares hs hStep => hs.step hIn hSpares hStep)
    (fun _ _ _ _ hNot hs hStep => hs.spoiled hNot hStep) (displayInit_inv hFree hInit)

def childExits : List DisplayAction :=
  [.system (.spawn 0 smallImage), .mapVram 0 0x8000, .system (.fault 0 0x400), .system (.fork 0 1), .system (.exit 1)]

theorem vram_kept_childExits : ∃ d t, displayInit smallBoot = some d ∧ t.viewers = [0] ∧
      Run DisplayVm.step (fun _ a => a.InRun) d childExits t ∧
      ∀ before after u, childExits = before ++ after → Run DisplayVm.step (fun _ a => a.InRun) d before u → u.VramKept := by
  obtain ⟨d, hInit⟩ : ∃ d, displayInit smallBoot = some d := ⟨_, rfl⟩
  have hExec : ((displayInit smallBoot).bind fun d =>
      exec (guarded DisplayVm.step fun s a => a.InRun ∧ a.SparesVram s) d childExits).map DisplayVm.viewers = some [0] := by
    decide +kernel
  rw [hInit, bind_some] at hExec
  obtain ⟨t, hTaken, hViewers⟩ := map_eq_some_iff.mp hExec
  have hSpares := run_of_exec_guarded hTaken
  have hRun := hSpares.mono fun _ _ h => h.1
  exact ⟨d, t, hInit, hViewers, hRun, (vram_kept_iff (by decide) hInit hRun).mpr hSpares⟩

/-- The process itself exits: the page is the first of the free list, which the allocator hands out next. -/
theorem vram_page_handed_out : ((displayInit smallBoot).bind fun d => exec (guarded DisplayVm.step fun _ a => a.InRun) d
      [.system (.spawn 0 smallImage), .mapVram 0 0x8000, .system (.exit 0)]).map
        (fun s => (s.vram, s.vm.m.pm.free.head?)) = some (20, some 20) := by
  decide +kernel

end Fixos.Device
