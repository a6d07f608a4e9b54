import Fixos.Sys.Zombies

/-! # Stopped processes and the ways back to user mode

On every way back to user mode the scheduler has already been asked when signals are looked at.
-/

namespace Fixos.Sys

open Interface Arch Transition Option Function

instance (proc : SigProcess) (sig : Nat) : Decidable (proc.passesOver sig) :=
  inferInstanceAs (Decidable (∀ index ∈ transNumber2index sig, _ ∨ (_ ∧ (_ ∨ _))))

instance (proc : SigProcess) : Decidable proc.TakesStop :=
  decidable_of_iff' _ proc.takesStop_def

/-- The action leads back to a user context, and the look at the signals there takes `SIGSTOP`. -/
def KernelAction.TakesStop (k : Kernel) : KernelAction → Prop
  | .back way => ∃ mid ∈ k.arrive way, ∃ p ∈ mid.current, ∃ acnt ∈ (mid.contexts p).head?,
      acnt.privileged = false ∧ (mid.view p acnt).proc.TakesStop
  | _ => False

instance (k : Kernel) (a : KernelAction) : Decidable (a.TakesStop k) := by
  unfold KernelAction.TakesStop
  split <;> infer_instance

def Kernel.StopsHold (k : Kernel) : Prop :=
  k.inUser = true → ∀ p, k.current = some p → k.state p ≠ .stopped

section

variable {trampoline : Word32} {k k' : Kernel} {a : KernelAction} {s : Sched} {p q : ProcRef}

lemma Sched.Adds.stopped {s' : Sched} {fresh : ProcRef} {parent : Option ProcRef} (hAdds : s.Adds s' fresh parent)
    (hq : q ∈ s'.processList) (h : (s'.proc q).state = .stopped) :
    q ∈ s.processList ∧ (s.proc q).state = .stopped := by
  have hNe : q ≠ fresh := by
    rintro rfl
    exact hAdds.state_ne.2 h
  rw [hAdds.processList] at hq
  rw [hAdds.proc_other q hNe] at h
  exact ⟨(List.mem_cons.mp hq).resolve_left hNe, h⟩

lemma processTerminate_stopped {status : Int}
    (h : ((processTerminate s p status).proc q).state = .stopped) : (s.proc q).state = .stopped := by
  rw [processTerminate] at h
  dsimp only at h
  rcases eq_or_ne q p with rfl | hNe
  · rw [update_self] at h
    cases h
  · rwa [update_of_ne hNe] at h

lemma Sched.setState_stopped {state : ProcState} (hState : state = .stopped → (s.proc p).state = .stopped)
    (h : ((s.setState p state).proc q).state = .stopped) : (s.proc q).state = .stopped := by
  rw [Sched.state_setState] at h
  split_ifs at h with hEq
  · subst hEq
    exact hState h
  · exact h

namespace Kernel

lemma contextSavedNext_stopped (h : k.contextSavedNext.state q = .stopped) : k.state q = .stopped := by
  unfold contextSavedNext at h
  dsimp only at h
  split at h
  · exact Sched.setState_stopped (fun hState => by cases hState) h
  · exact h

lemma arrive_stopped {way : WayBack} (hArrive : k.arrive way = some k')
    (h : k'.state q = .stopped) : k.state q = .stopped := by
  cases (arrive_spec hArrive).2 with
  | stays hSame => exact hSame ▸ h
  | selects mid hMid hSelects =>
    subst hSelects
    have hSaved := contextSavedNext_stopped h
    rcases hMid with rfl | ⟨_, _, rfl⟩
    · exact hSaved
    · rwa [state, save_sched] at hSaved
  | jumps p mid _ hSched _ _ hJump =>
    subst hJump
    rw [state, ← hSched]
    exact Sched.setState_stopped (fun hState => by cases hState) h

lemma resume_stopped (hResume : k.resume trampoline = some k')
    (hQuiet : ∀ p ∈ k.current, ∀ acnt ∈ (k.contexts p).head?, acnt.privileged = false → ¬ (k.view p acnt).proc.TakesStop)
    (h : k'.state q = .stopped) : k.state q = .stopped := by
  unfold resume at hResume
  split at hResume
  · cases hResume
    exact h
  · rename_i p hCurrent
    split at hResume
    · cases hResume
    · rename_i acnt older hContexts
      split at hResume
      · rename_i st hDeliver
        cases hResume
        refine Sched.setState_stopped (fun hState => ?_) h
        rw [deliverAndResume_state hDeliver (hQuiet p hCurrent acnt (by rw [hContexts]; rfl))] at hState
        exact hState
      · cases hResume
        exact processTerminate_stopped h
      · cases hResume

end Kernel

lemma KernelAction.TakesStop.resumed (h : a.TakesStop k) (hStep : k.step trampoline a = some k') : ¬ k'.StopsHold := by
  cases a with
  | back way =>
    obtain ⟨mid, hArrive, p, hCurrent, acnt, hHead, hUser, hTakes⟩ := h
    obtain ⟨other, hOther, hResume⟩ := bind_eq_some_iff.mp hStep
    obtain rfl : mid = other := some.inj (hArrive.symm.trans hOther)
    obtain ⟨older, hContexts⟩ : ∃ older, mid.contexts p = acnt :: older := by
      cases hList : mid.contexts p with
      | nil => simp [hList] at hHead
      | cons first older =>
        rw [hList] at hHead
        cases hHead
        exact ⟨older, rfl⟩
    obtain ⟨st, hDeliver, hState⟩ := deliverAndResume_stop trampoline (mid.view p acnt) hUser hTakes
    have hMode : st.proc.acnt.privileged = acnt.privileged := deliverAndResume_privileged hDeliver
    rw [Kernel.resume, show mid.current = some p from hCurrent] at hResume
    simp only [hContexts, hDeliver] at hResume
    cases hResume
    intro hHold
    refine hHold ?_ p hCurrent ?_
    · rw [hMode, hUser]
      rfl
    · simp [Kernel.state, Kernel.put, Sched.state_setState, hState]
  | _ => exact h.elim

lemma Kernel.Inv.step_stopped (hInv : k.Inv) (hQuiet : ¬ a.TakesStop k) (hStep : k.step trampoline a = some k')
    (hp : p ∈ k'.sched.processList) (h : k'.state p = .stopped) :
    p ∈ k.sched.processList ∧ k.state p = .stopped := by
  cases Kernel.step_move hStep with
  | enter acnt _ hSave =>
    subst hSave
    rw [k.save_sched] at hp
    rw [Kernel.state, k.save_sched] at h
    exact ⟨hp, h⟩
  | write q state hWrites =>
    rw [hWrites.sched] at hp
    rw [Kernel.state, hWrites.sched] at h
    exact ⟨hp, Sched.setState_stopped hWrites.mild.stopped h⟩
  | adds sched fresh parent hAdds acnt signals mem hBorn =>
    subst hBorn
    exact hAdds.stopped hp h
  | wait wantStatus q _ _ hWait =>
    subst hWait
    have hWaits := hInv.table.wait q wantStatus
    rw [Kernel.state, hWaits.proc] at h
    exact ⟨((hWaits.listed p).mp hp).1, h⟩
  | exit q status _ hExit =>
    subst hExit
    exact ⟨hp, processTerminate_stopped h⟩
  | back way mid hAction hArrive hResume =>
    subst hAction
    obtain ⟨hKeeps, hMid⟩ := hInv.arrive hArrive
    refine ⟨?_, Kernel.arrive_stopped hArrive (Kernel.resume_stopped hResume (fun q hq acnt hAcnt hUser hTakes => ?_) h)⟩
    · rwa [(hMid.resume hResume).1.processList, hKeeps.processList] at hp
    · exact hQuiet ⟨mid, hArrive, q, hq, acnt, hAcnt, hUser, hTakes⟩

structure Kernel.NoneStopped (k : Kernel) : Prop where
  inv : k.Inv
  running : ∀ p ∈ k.sched.processList, k.state p ≠ .stopped

lemma Kernel.NoneStopped.stopsHold (h : k.NoneStopped) : k.StopsHold := by
  intro _ p hCurrent
  obtain ⟨i, hTask⟩ := h.inv.current_task p hCurrent
  exact h.running p (h.inv.table.listed i p hTask)

lemma Kernel.NoneStopped.step (h : k.NoneStopped) (hQuiet : ¬ a.TakesStop k) (hStep : k.step trampoline a = some k') :
    k'.NoneStopped := by
  refine ⟨(h.inv.step hStep).2, fun p hp hStopped => ?_⟩
  obtain ⟨hOld, hState⟩ := h.inv.step_stopped hQuiet hStep hp hStopped
  exact h.running p hOld hState

end

/-- As long as no way back to user mode takes `SIGSTOP`, no stopped process runs; the first that does resumes the one it
stopped. -/
theorem stopped_not_resumed_iff (trampoline : Word32) (stale : Process) (signals : ProcRef → Signals)
    (mem : ProcRef → UserMem) (actions : List KernelAction) (k : Kernel)
    (hRun : Run (Kernel.step trampoline) (fun k a => ¬ a.TakesStop k) (Kernel.boot stale signals mem) actions k) :
    k.StopsHold ∧ ∀ a k', k.step trampoline a = some k' → (k'.StopsHold ↔ ¬ a.TakesStop k) := by
  have hLast : k.NoneStopped := hRun.invariant (fun _ _ _ hQuiet h hStep => h.step hQuiet hStep)
    ⟨Kernel.boot_kernelInv stale signals mem, fun p hp => absurd hp List.not_mem_nil⟩
  refine ⟨hLast.stopsHold, fun a k' hStep => ⟨fun h hTakes => hTakes.resumed hStep h, fun hQuiet => ?_⟩⟩
  exact (hLast.step hQuiet hStep).stopsHold

def stopRaised : List KernelAction :=
  [.start 0 (plainContext 0) flatMem, .back .leave, .enter (plainContext 0), .raise 0 SIGSTOP]

theorem stopped_not_resumed_iff_raised :
    ∃ k, Run (Kernel.step 0) (fun k a => ¬ a.TakesStop k) quietKernel stopRaised k ∧ k.StopsHold := by
  have hEval : (exec (guarded (Kernel.step 0) fun k a => ¬ a.TakesStop k) quietKernel stopRaised).isSome := by
    decide +kernel
  obtain ⟨k, hExec⟩ := isSome_iff_exists.mp hEval
  have hRun : Run (Kernel.step 0) (fun k a => ¬ a.TakesStop k) quietKernel stopRaised k := run_of_exec_guarded hExec
  exact ⟨k, hRun, (stopped_not_resumed_iff 0 blankProcess _ _ stopRaised k hRun).1⟩

/-- The end of the interrupt stops the process and resumes it; after a system call the timer makes it run without any
`SIGCONT`. A process that is switched to is resumed in the same way. -/
theorem sigstop_resumes_process :
    ((exec (Kernel.step 0) quietKernel (stopRaised ++ [.back .leave])).map fun k => (k.inUser, k.current, k.state 0)) =
      some (true, some 0, .stopped) ∧
    ((exec (Kernel.step 0) quietKernel (stopRaised ++ [.back .leave, .enter (plainContext 0), .sleep, .wakeUp 0])).map
      fun k => k.state 0) = some .running ∧
    ((exec (Kernel.step 0) quietKernel [.start 0 (plainContext 0) flatMem, .back .leave, .enter (plainContext 0),
        .fork 1 7, .tick, .tick, .tick, .tick, .back .leave, .enter (plainContext 0), .raise 0 SIGSTOP,
        .tick, .tick, .tick, .tick, .back .leave]).map fun k => (k.inUser, k.current, k.state 0)) =
      some (true, some 0, .stopped) := by
  decide +kernel

end Fixos.Sys
