import Fixos.Arch.AddressSpaces
import Fixos.Sys.Wait

/-! # Address space identifiers of processes that end

`process_terminate` releases the address space long before the process is a zombie, and a switch gives an identifier to
any process that has none. `gaveUp` marks the processes that are behind the release.
-/

namespace Fixos.Sys

open Arch Transition Option Function List

structure AsidRun where
  sched : Sched
  spaces : Spaces
  current : Option ProcRef
  gaveUp : ProcRef → Bool

def AsidRun.boot (stale : Process) : AsidRun := ⟨schedInit stale, .boot, none, fun _ => false⟩

inductive AsidAction where
  | start (fresh : ProcRef)
  | switchTo (p : ProcRef)
  | idle
  | wakeUp (p : ProcRef)
  | sleep
  | fork (fresh : ProcRef) (kstack : Nat)
  | execve
  | release
  | zombie (status : Int)
  | wait (wantStatus : Bool)
deriving DecidableEq

def AsidRun.caller (r : AsidRun) : Option ProcRef := r.current.filter fun p => r.gaveUp p = false

def AsidRun.born (r : AsidRun) (sched : Sched) (fresh : ProcRef) : AsidRun :=
  { r with
    sched
    spaces := r.spaces.init fresh
    gaveUp := update r.gaveUp fresh false }

def AsidRun.contextjmp (r : AsidRun) (p : ProcRef) : Option AsidRun :=
  (r.spaces.switchTo p).map fun (_, spaces) => { r with spaces, current := some p }

/-- `sys_execve` releases the address space and jumps to the new image. -/
def AsidRun.step (r : AsidRun) : AsidAction → Option AsidRun
  | .start fresh => (processAlloc r.sched fresh).map fun s => r.born (schedAddTask s fresh) fresh
  | .switchTo p => if r.sched.Runs p then r.contextjmp p else none
  | .idle => some { r with spaces := r.spaces.switchToIdle, current := none }
  | .wakeUp p => some { r with sched := r.sched.setState p (r.sched.proc p).state.wakeUp }
  | .sleep => r.caller.map fun p => { r with sched := r.sched.setState p .uninterruptible }
  | .fork fresh kstack => do
    let p ← r.caller
    let s ← sysFork r.sched p fresh kstack
    return r.born s fresh
  | .execve => do
    let p ← r.caller
    let spaces ← r.spaces.release p
    AsidRun.contextjmp { r with spaces } p
  | .release => do
    let p ← r.caller
    let spaces ← r.spaces.release p
    return { r with spaces, gaveUp := update r.gaveUp p true }
  | .zombie status =>
    (r.current.filter fun p => r.gaveUp p = true).map fun p =>
      { r with sched := processTerminate r.sched p status }
  | .wait wantStatus => r.caller.map fun p => { r with sched := (sysWaitTurn r.sched p wantStatus).1 }

/-- No process is switched to after the release in its `process_terminate`. -/
def AsidAction.Settled (r : AsidRun) : AsidAction → Prop
  | .switchTo p => r.gaveUp p = false
  | _ => True

instance (r : AsidRun) (a : AsidAction) : Decidable (a.Settled r) := by
  unfold AsidAction.Settled
  split <;> infer_instance

namespace AsidRun

structure Inv (r : AsidRun) : Prop where
  table : r.sched.Table
  spaces : r.spaces.Inv
  live : ∀ x ∈ r.spaces.live, ∃ p ∈ r.sched.processList, x = r.spaces.id p ∧ r.gaveUp p = false
  given : ∀ p ∈ r.sched.processList, r.gaveUp p = true → r.spaces.asid p = some asidInvalid
  zombie : ∀ p ∈ r.sched.processList, (r.sched.proc p).state = .zombie → r.gaveUp p = true
  current : ∀ p, r.current = some p → p ∈ r.sched.processList

lemma boot_asidInv (stale : Process) : (boot stale).Inv where
  table := (WaitRun.boot_inv stale).table
  spaces := Spaces.boot_inv
  live _ h := absurd h (Finset.notMem_empty _)
  given _ h := absurd h not_mem_nil
  zombie _ h := absurd h not_mem_nil
  current _ h := by cases h

section

variable {r r' : AsidRun} {s : Sched} {p fresh : ProcRef} {parent : Option ProcRef} {spaces' : Spaces}

lemma caller_spec (h : r.caller = some p) : r.current = some p ∧ r.gaveUp p = false := by
  obtain ⟨hCurrent, hFlag⟩ := filter_eq_some_iff.mp h
  exact ⟨hCurrent, of_decide_eq_true hFlag⟩

section

variable (h : r.Inv)
include h

lemma Inv.born (hAdds : r.sched.Adds s fresh parent) : (r.born s fresh).Inv := by
  have hOld : ∀ q ∈ s.processList, q ≠ fresh → q ∈ r.sched.processList := by
    intro q hq hNe
    rw [hAdds.processList] at hq
    exact (mem_cons.mp hq).resolve_left hNe
  have hNew : ∀ q ∈ r.sched.processList, q ∈ s.processList ∧ q ≠ fresh := by
    intro q hq
    rw [hAdds.processList]
    refine ⟨mem_cons_of_mem _ hq, ?_⟩
    rintro rfl
    exact hAdds.fresh_free hq
  refine ⟨h.table.adds hAdds, h.spaces.init fresh, fun x hx => ?_, fun q hq hFlag => ?_, fun q hq hZombie => ?_,
    fun q hq => ?_⟩
  · rcases Finset.mem_insert.mp hx with rfl | hx
    · refine ⟨fresh, by rw [AsidRun.born, hAdds.processList]; exact mem_cons_self, ?_, update_self _ _ _⟩
      simp [AsidRun.born, Spaces.id, Spaces.init]
    · obtain ⟨q, hq, rfl, hFlag⟩ := h.live x hx
      obtain ⟨hMem, hNe⟩ := hNew q hq
      refine ⟨q, hMem, ?_, (update_of_ne hNe _ _).trans hFlag⟩
      simp [AsidRun.born, Spaces.id, Spaces.init, update_of_ne hNe]
  · have hNe : q ≠ fresh := by
      rintro rfl
      simp [AsidRun.born] at hFlag
    simp only [AsidRun.born, update_of_ne hNe] at hFlag
    simpa only [AsidRun.born, Spaces.init, update_of_ne hNe] using h.given q (hOld q hq hNe) hFlag
  · have hNe : q ≠ fresh := by
      rintro rfl
      exact hAdds.state_ne.1 hZombie
    rw [AsidRun.born, hAdds.proc_other q hNe] at hZombie
    simpa only [AsidRun.born, update_of_ne hNe] using h.zombie q (hOld q hq hNe) hZombie
  · exact (hNew q (h.current q hq)).1

lemma Inv.contextjmp (hp : p ∈ r.sched.processList) (hFlag : r.gaveUp p = false)
    (hStep : r.contextjmp p = some r') : r'.Inv := by
  obtain ⟨⟨_, spaces⟩, hSwitch, rfl⟩ := map_eq_some_iff.mp hStep
  obtain ⟨hGen, hLive, hOthers, _⟩ := h.spaces.switchTo_frame hSwitch
  have hId : ∀ q, spaces.id q = r.spaces.id q := fun q => by rw [Spaces.id, Spaces.id, hGen]
  refine ⟨h.table, h.spaces.switchTo hSwitch, fun x hx => ?_, fun q hq hGiven => ?_, h.zombie, fun q hq => ?_⟩
  · rw [hLive] at hx
    rcases Finset.mem_insert.mp hx with rfl | hx
    · exact ⟨p, hp, (hId p).symm, hFlag⟩
    · obtain ⟨q, hq, rfl, hOld⟩ := h.live x hx
      exact ⟨q, hq, (hId q).symm, hOld⟩
  · have hNe : q ≠ p := by
      rintro rfl
      exact absurd (hFlag.symm.trans hGiven) (by simp)
    exact (hOthers q hNe).trans (h.given q hq hGiven)
  · cases hq
    exact hp

lemma Inv.release (hFlag : r.gaveUp p = false) (hStep : r.spaces.release p = some spaces') (flag : Bool) :
    Inv { r with spaces := spaces', gaveUp := update r.gaveUp p flag } := by
  obtain ⟨hGen, hLive, hNone, hOthers, _⟩ := Spaces.release_frame hStep
  have hId : ∀ q, spaces'.id q = r.spaces.id q := fun q => by rw [Spaces.id, Spaces.id, hGen]
  refine ⟨h.table, h.spaces.release hStep, fun x hx => ?_, fun q hq hGiven => ?_, fun q hq hZombie => ?_, h.current⟩
  · rw [hLive] at hx
    obtain ⟨hOther, hx⟩ := Finset.mem_erase.mp hx
    obtain ⟨q, hq, rfl, hOld⟩ := h.live x hx
    have hNe : q ≠ p := by
      rintro rfl
      exact hOther rfl
    exact ⟨q, hq, (hId q).symm, (update_of_ne hNe _ _).trans hOld⟩
  · rcases eq_or_ne q p with rfl | hNe
    · exact hNone
    · simp only [update_of_ne hNe] at hGiven
      exact (hOthers q hNe).trans (h.given q hq hGiven)
  · have hOld := h.zombie q hq hZombie
    have hNe : q ≠ p := by
      rintro rfl
      exact absurd (hFlag.symm.trans hOld) (by simp)
    exact (update_of_ne hNe _ _).trans hOld

lemma Inv.update {contents : Process} (hPid : contents.pid = (r.sched.proc p).pid)
    (hState : p ∈ r.sched.processList → contents.state = .zombie → r.gaveUp p = true) :
    Inv { r with sched := { r.sched with proc := update r.sched.proc p contents } } := by
  refine ⟨h.table.update hPid, h.spaces, h.live, h.given, fun q hq hZombie => ?_, h.current⟩
  dsimp only at hZombie
  rcases eq_or_ne q p with rfl | hNe
  · rw [update_self] at hZombie
    exact hState hq hZombie
  · rw [update_of_ne hNe] at hZombie
    exact h.zombie q hq hZombie

lemma Inv.wait (hCaller : r.caller = some p) (hWaits : r.sched.Waits s p) : Inv { r with sched := s } := by
  obtain ⟨hCurrent, hFlag⟩ := caller_spec hCaller
  -- a process that still has its space is not freed
  have hStay : ∀ q ∈ r.sched.processList, r.gaveUp q = false → q ∈ s.processList := by
    refine fun q hq hKept => (hWaits.listed q).mpr ⟨hq, fun i hZombie => ?_⟩
    have hDead := h.zombie q hq (Sched.mem_zombieIn.mp hZombie).2.2
    exact absurd (hKept.symm.trans hDead) (by simp)
  have hOld : ∀ q ∈ s.processList, q ∈ r.sched.processList := fun q hq => ((hWaits.listed q).mp hq).1
  refine ⟨hWaits.table, h.spaces, fun x hx => ?_, fun q hq => h.given q (hOld q hq), fun q hq hZombie => ?_, fun q hq => ?_⟩
  · obtain ⟨q, hq, hx, hKept⟩ := h.live x hx
    exact ⟨q, hStay q hq hKept, hx, hKept⟩
  · rw [hWaits.proc] at hZombie
    exact h.zombie q (hOld q hq) hZombie
  · obtain rfl : p = q := some.inj (hCurrent.symm.trans hq)
    exact hStay p (h.current p hCurrent) hFlag

lemma Inv.step {a : AsidAction} (hSettled : a.Settled r) (hStep : r.step a = some r') : r'.Inv := by
  cases a with
  | start fresh =>
    obtain ⟨s, hAlloc, rfl⟩ := map_eq_some_iff.mp hStep
    obtain ⟨hAdds, hTasks⟩ := processAlloc_adds hAlloc
    exact h.born (schedAddTask_adds hAdds hTasks)
  | switchTo p =>
    obtain ⟨⟨⟨i, _, hTask⟩, _⟩, hJump⟩ := ite_none_right_eq_some.mp hStep
    exact h.contextjmp (h.table.listed i p hTask) hSettled hJump
  | idle =>
    cases hStep
    exact ⟨h.table, h.spaces.switchToIdle, h.live, h.given, h.zombie, fun q hq => by cases hq⟩
  | wakeUp p =>
    cases hStep
    refine h.update rfl fun hp hZombie => h.zombie p hp ?_
    unfold ProcState.wakeUp at hZombie
    split at hZombie
    · cases hZombie
    · exact hZombie
  | sleep =>
    obtain ⟨p, _, rfl⟩ := map_eq_some_iff.mp hStep
    exact h.update rfl fun _ hZombie => by cases hZombie
  | fork fresh kstack =>
    obtain ⟨p, _, hRest⟩ := bind_eq_some_iff.mp hStep
    obtain ⟨s, hFork, ⟨⟩⟩ := bind_eq_some_iff.mp hRest
    exact h.born (sysFork_adds hFork)
  | execve =>
    obtain ⟨p, hCaller, hRest⟩ := bind_eq_some_iff.mp hStep
    obtain ⟨spaces, hRelease, hJump⟩ := bind_eq_some_iff.mp hRest
    obtain ⟨hCurrent, hFlag⟩ := caller_spec hCaller
    have hMid := h.release hFlag hRelease false
    rw [← hFlag, update_eq_self] at hMid
    exact hMid.contextjmp (h.current p hCurrent) hFlag hJump
  | release =>
    obtain ⟨p, hCaller, hRest⟩ := bind_eq_some_iff.mp hStep
    obtain ⟨spaces, hRelease, ⟨⟩⟩ := bind_eq_some_iff.mp hRest
    exact h.release (caller_spec hCaller).2 hRelease true
  | zombie status =>
    obtain ⟨p, hFilter, rfl⟩ := map_eq_some_iff.mp hStep
    have hFlag := of_decide_eq_true (filter_eq_some_iff.mp hFilter).2
    exact h.update rfl fun _ _ => hFlag
  | wait wantStatus =>
    obtain ⟨p, hCaller, rfl⟩ := map_eq_some_iff.mp hStep
    exact h.wait hCaller (h.table.wait p wantStatus)

end

end

end AsidRun

/-- In a run that never goes back to a process behind the release of its space, every identifier in use is held by a
process on the list, and a freed process holds none. -/
theorem asids_never_lost (stale : Process) (actions : List AsidAction) (r : AsidRun)
    (hRun : Run AsidRun.step (fun r a => a.Settled r) (AsidRun.boot stale) actions r) :
    r.spaces.used.card ≤ r.sched.processList.length ∧
    (∀ i < asidMax, r.spaces.mmu.usage i = .used → ∃ p ∈ r.sched.processList, r.spaces.asid p = some i) ∧
    ∀ wantStatus r', r.step (.wait wantStatus) = some r' → ∀ p ∈ r.sched.processList,
      p ∉ r'.sched.processList → r'.spaces.asid p = some asidInvalid := by
  have hInv : r.Inv := hRun.invariant (fun _ _ _ hSettled h hStep => h.step hSettled hStep) (AsidRun.boot_asidInv stale)
  refine ⟨?_, fun i hi hUsed => ?_, fun wantStatus r' hStep p hp hFreed => ?_⟩
  · refine hInv.spaces.used_card_le.trans (Spaces.live_card_le fun x hx => ?_)
    obtain ⟨p, hp, hEq, _⟩ := hInv.live x hx
    exact ⟨p, hp, hEq⟩
  · obtain ⟨p, hp, hEq, _⟩ := hInv.live _ (hInv.spaces.live i hi hUsed)
    exact ⟨p, hp, hInv.spaces.field i hi hUsed p hEq⟩
  · obtain ⟨cur, _, rfl⟩ := map_eq_some_iff.mp hStep
    have hWaits := hInv.table.wait cur wantStatus
    have hZombie : ∃ i, r.sched.zombieIn cur i = some p := by
      by_contra hNone
      exact hFreed ((hWaits.listed p).mpr ⟨hp, fun i hi => hNone ⟨i, hi⟩⟩)
    obtain ⟨i, hi⟩ := hZombie
    exact hInv.given p hp (hInv.zombie p hp (Sched.mem_zombieIn.mp hi).2.2)

theorem asids_never_lost_child : ∃ r, Run AsidRun.step (fun r a => a.Settled r) (AsidRun.boot blankProcess)
        [.start 0, .switchTo 0, .fork 1 7, .switchTo 1, .release, .zombie 5, .switchTo 0, .wait true] r ∧
      r.sched.processList = [0] ∧ r.spaces.used.card ≤ r.sched.processList.length := by
  refine ⟨_, run_of_exec_guarded rfl, by decide, (asids_never_lost blankProcess
    [.start 0, .switchTo 0, .fork 1 7, .switchTo 1, .release, .zombie 5, .switchTo 0, .wait true] _
    (run_of_exec_guarded rfl)).1⟩

/-- The switch back to a child preempted behind the release gives it an identifier that it still holds when it is freed.
-/
theorem preempted_exit_loses_asid :
    (exec AsidRun.step (AsidRun.boot blankProcess) [.start 0, .switchTo 0, .fork 1 7, .switchTo 1, .release,
      .switchTo 0, .switchTo 1, .zombie 5, .switchTo 0, .wait true]).map (fun r =>
        (r.sched.processList, r.spaces.used, r.spaces.asid 1)) = some ([0], {0, 2}, some 2) := by
  decide +kernel

end Fixos.Sys
