import Fixos.Sys.ProcessTree

/-! # Processes and their slots

`process_alloc` allows a hundred processes, the table of the scheduler has ten slots.
-/

namespace Fixos.Sys

open Arch Transition Option List Function

/-- `opened` tells whether the file was found, `loads` whether its segments could be entered; `page` is for the kernel
stack. -/
def sysExecve (s : Sched) (cur : ProcRef) (opened loads : Bool) (page : Option Nat) : Option Sched :=
  if opened then
    let s := s.setState cur .create
    -- the loader returns 0 also for a file that it cannot load, and does not return when there is no page
    let stack := if loads then page.map fun ppn => (ppn + 1) * pmPageBytes else some (s.proc cur).kernelStack
    stack.map fun kernelStack =>
      Sched.setState { s with proc := update s.proc cur { s.proc cur with kernelStack } } cur .running
  else some s

inductive TaskAction where
  | call (a : WaitAction)
  | execve (cur : ProcRef) (opened loads : Bool) (page : Option Nat)
deriving DecidableEq

def TaskAction.step (r : WaitRun) : TaskAction → Option WaitRun
  | .call a => r.step a
  | .execve cur opened loads page =>
    if r.sched.Runs cur then (sysExecve r.sched cur opened loads page).map fun sched => { r with sched } else none

def Sched.FreeSlot (s : Sched) : Prop := ∃ i < schedMaxTasks, s.tasks i = none

instance (s : Sched) : Decidable s.FreeSlot := inferInstanceAs (Decidable (∃ i < schedMaxTasks, _))

def TaskAction.Fits (r : WaitRun) : TaskAction → Prop
  | .call (.start _) | .call (.fork _ _ _) => r.sched.FreeSlot
  | _ => True

structure Sched.OneSlotEach (s : Sched) : Prop where
  slot : ∀ p ∈ s.processList, ∃ i < schedMaxTasks, s.tasks i = some p ∧ ∀ j, s.tasks j = some p → j = i
  made : ∀ p ∈ s.processList, (s.proc p).state ≠ .create
  listed : ∀ i p, s.tasks i = some p → p ∈ s.processList

structure Sched.Seated (s : Sched) : Prop where
  table : s.Table
  seated : ∀ p ∈ s.processList, ∃ i, s.tasks i = some p
  made : ∀ p ∈ s.processList, (s.proc p).state ≠ .create

section

variable {s s' : Sched} {p fresh cur : ProcRef} {parent : Option ProcRef} {state : ProcState}

lemma schedAddTask_free (h : s.FreeSlot) (p : ProcRef) :
    (∃ i, (schedAddTask s p).tasks i = some p) ∧ ((schedAddTask s p).proc p).state = .running := by
  obtain ⟨i, hi, hFree⟩ := h
  unfold schedAddTask
  split
  · rename_i j _
    exact ⟨⟨j, update_self _ _ _⟩, by simp⟩
  · rename_i hNone
    have hTaken := find?_eq_none.mp hNone i (mem_range.mpr hi)
    simp [hFree] at hTaken

lemma schedAddTask_full (h : ¬ s.FreeSlot) (p : ProcRef) : schedAddTask s p = s := by
  unfold schedAddTask
  split
  · rename_i i hFind
    have hFree := find?_some hFind
    exact absurd ⟨i, mem_range.mp (mem_of_find?_eq_some hFind), of_decide_eq_true hFree⟩ h
  · rfl

namespace Sched

section

variable (h : s.Seated)
include h

lemma Seated.adds (hAdds : s.Adds s' fresh parent) (hSlot : ∃ i, s'.tasks i = some fresh)
    (hState : (s'.proc fresh).state = .running) : s'.Seated := by
  have hOld : ∀ p ∈ s'.processList, p ≠ fresh → p ∈ s.processList := by
    intro p hp hNe
    rw [hAdds.processList] at hp
    exact (mem_cons.mp hp).resolve_left hNe
  refine ⟨h.table.adds hAdds, fun p hp => ?_, fun p hp => ?_⟩
  · rcases eq_or_ne p fresh with rfl | hNe
    · exact hSlot
    · obtain ⟨i, hi⟩ := h.seated p (hOld p hp hNe)
      exact ⟨i, hAdds.tasks_kept hi⟩
  · rcases eq_or_ne p fresh with rfl | hNe
    · rw [hState]
      decide
    · rw [hAdds.proc_other p hNe]
      exact h.made p (hOld p hp hNe)

lemma Seated.update {contents : Process} (hPid : contents.pid = (s.proc p).pid)
    (hState : p ∈ s.processList → contents.state ≠ .create) :
    ({ s with proc := update s.proc p contents } : Sched).Seated := by
  refine ⟨h.table.update hPid, h.seated, fun q hq => ?_⟩
  rcases eq_or_ne q p with rfl | hNe
  · simpa using hState hq
  · simpa [hNe] using h.made q hq

lemma Seated.waits (hWaits : s.Waits s' cur) : s'.Seated := by
  refine ⟨hWaits.table, fun p hp => ?_, fun p hp => ?_⟩
  · obtain ⟨hOld, hKept⟩ := (hWaits.listed p).mp hp
    obtain ⟨i, hi⟩ := h.seated p hOld
    exact ⟨i, hWaits.slot_kept hi hKept⟩
  · rw [hWaits.proc]
    exact h.made p ((hWaits.listed p).mp hp).1

lemma Seated.oneSlotEach : s.OneSlotEach := by
  refine ⟨fun p hp => ?_, h.made, h.table.listed⟩
  obtain ⟨i, hi⟩ := h.seated p hp
  exact ⟨i, h.table.slot_lt i p hi, hi, fun j hj => h.table.slot_inj j i p hj hi⟩

lemma Seated.not_oneSlotEach (hAdds : s.Adds s' fresh parent) (hTasks : s'.tasks = s.tasks) : ¬ s'.OneSlotEach := by
  intro hEach
  obtain ⟨i, _, hi, _⟩ := hEach.slot fresh (by rw [hAdds.processList]; exact mem_cons_self)
  rw [hTasks] at hi
  exact hAdds.fresh_free (h.table.listed i fresh hi)

lemma Seated.start (hAlloc : processAlloc s fresh = some s') :
    (s.FreeSlot → (schedAddTask s' fresh).Seated) ∧ (¬ s.FreeSlot → ¬ (schedAddTask s' fresh).OneSlotEach) := by
  obtain ⟨hAdds, hTasks⟩ := processAlloc_adds hAlloc
  have hSame : s'.FreeSlot ↔ s.FreeSlot := by rw [FreeSlot, FreeSlot, hTasks]
  refine ⟨fun hFree => ?_, fun hFull => ?_⟩
  · obtain ⟨hSlot, hState⟩ := schedAddTask_free (hSame.mpr hFree) fresh
    exact h.adds (schedAddTask_adds hAdds hTasks) hSlot hState
  · rw [schedAddTask_full (mt hSame.mp hFull)]
    exact h.not_oneSlotEach hAdds hTasks

lemma Seated.fork {kstack : Nat} (hFork : sysFork s cur fresh kstack = some s') :
    (s.FreeSlot → s'.Seated ∧ (s'.proc fresh).state = .running ∧ ∃ i, s'.tasks i = some fresh) ∧
      (¬ s.FreeSlot → s'.tasks = s.tasks ∧ ¬ s'.OneSlotEach) := by
  have hAdds := sysFork_adds hFork
  obtain ⟨t, hAlloc, hEq⟩ := map_eq_some_iff.mp hFork
  have hTasks := (processAlloc_adds hAlloc).2
  refine ⟨fun hFree => ?_, fun hFull => ?_⟩
  · have hSame : FreeSlot { t with proc := Function.update t.proc fresh { t.proc fresh with
        parent := some cur, kernelStack := (kstack + 1) * pmPageBytes } } := by
      rwa [FreeSlot, hTasks]
    obtain ⟨hSlot, hState⟩ := schedAddTask_free hSame fresh
    rw [hEq] at hSlot hState
    exact ⟨h.adds hAdds hSlot hState, hState, hSlot⟩
  · have hFull' : ¬ FreeSlot { t with proc := Function.update t.proc fresh { t.proc fresh with
        parent := some cur, kernelStack := (kstack + 1) * pmPageBytes } } := by
      rwa [FreeSlot, hTasks]
    have hKept : s'.tasks = s.tasks := by
      rw [← hEq, schedAddTask_full hFull' fresh]
      exact hTasks
    exact ⟨hKept, h.not_oneSlotEach hAdds hKept⟩

lemma Seated.setState (hState : p ∈ s.processList → state ≠ .create) : (s.setState p state).Seated := h.update rfl hState

end

end Sched

lemma Sched.Seated.execve {opened loads : Bool} {page : Option Nat} (h : s.Seated)
    (hExec : sysExecve s cur opened loads page = some s') : s'.Seated := by
  unfold sysExecve at hExec
  split at hExec
  · obtain ⟨stack, _, ⟨⟩⟩ := map_eq_some_iff.mp hExec
    simp only [Sched.setState, update_idem, update_self]
    exact h.update rfl fun _ => by simp
  · cases hExec
    exact h

end

/-- In a run that fits, every process has its slot, and the next call keeps this exactly when it fits as well. -/
lemma TaskAction.step_seated {r r' : WaitRun} {a : TaskAction} (h : r.sched.Seated) (hStep : a.step r = some r') :
    (a.Fits r → r'.sched.Seated) ∧ (¬ a.Fits r → ¬ r'.sched.OneSlotEach) := by
  have hSure : r'.sched.Seated → a.Fits r → (a.Fits r → r'.sched.Seated) ∧ (¬ a.Fits r → ¬ r'.sched.OneSlotEach) :=
    fun hSeated hFits => ⟨fun _ => hSeated, fun hNot => absurd hFits hNot⟩
  cases a with
  | execve cur opened loads page =>
    obtain ⟨_, hExec⟩ := ite_none_right_eq_some.mp hStep
    obtain ⟨s, hNew, rfl⟩ := map_eq_some_iff.mp hExec
    exact hSure (h.execve hNew) trivial
  | call a =>
    cases a with
    | start fresh =>
      obtain ⟨s, hAlloc, rfl⟩ := map_eq_some_iff.mp hStep
      exact h.start hAlloc
    | fork cur fresh kstack =>
      obtain ⟨_, hFork⟩ := ite_none_right_eq_some.mp hStep
      obtain ⟨s, hNew, rfl⟩ := map_eq_some_iff.mp hFork
      obtain ⟨hFree, hFull⟩ := h.fork hNew
      exact ⟨fun hFits => (hFree hFits).1, fun hNot => (hFull hNot).2⟩
    | exit cur status =>
      obtain ⟨_, ⟨⟩⟩ := ite_none_right_eq_some.mp hStep
      exact hSure (h.update rfl fun _ => by simp) trivial
    | wait cur wantStatus =>
      obtain ⟨_, ⟨⟩⟩ := ite_none_right_eq_some.mp hStep
      exact hSure (h.waits (h.table.wait cur wantStatus)) trivial
    | sleep cur interruptible =>
      obtain ⟨_, ⟨⟩⟩ := ite_none_right_eq_some.mp hStep
      exact hSure (h.setState fun _ => by cases interruptible <;> simp) trivial
    | stop cur =>
      obtain ⟨_, ⟨⟩⟩ := ite_none_right_eq_some.mp hStep
      exact hSure (h.setState fun _ => by simp) trivial
    | wakeUp p =>
      cases hStep
      refine hSure (h.setState fun hp => ?_) trivial
      have hMade := h.made p hp
      unfold ProcState.wakeUp
      split
      · simp
      · exact hMade
    | cont p =>
      obtain ⟨_, ⟨⟩⟩ := ite_none_right_eq_some.mp hStep
      exact hSure (h.setState fun _ => by decide) trivial

section

variable {s s' : Sched} {p fresh cur : ProcRef}

lemma Sched.Table.reports {i : Nat} (h : s.Table) (hZombie : s.zombieIn cur i = some p)
    (hOnly : ∀ j q, s.zombieIn cur j = some q → q = p) (wantStatus : Bool) :
    (sysWaitTurn s cur wantStatus).2 = some (((s.proc p).pid : Int),
      if wantStatus then some (s.proc p).exitStatus else none) := by
  have hTask := (Sched.mem_zombieIn.mp hZombie).1
  have hMem : (i, p) ∈ s.zombies cur schedMaxTasks := Sched.mem_zombies.mpr ⟨h.slot_lt i p hTask, hZombie⟩
  have hOutcome := sysWaitTurn_outcome (fun j child hChild => h.pid_pos child (h.listed j child hChild)) cur wantStatus
  generalize sysWaitTurn s cur wantStatus = result at hOutcome
  cases hOutcome with
  | childless hNone | pending hNone =>
    rw [hNone] at hMem
    cases hMem
  | reaped before j child hZombies =>
    have hLast : (j, child) ∈ s.zombies cur schedMaxTasks := by
      rw [hZombies]
      exact mem_append_right _ mem_cons_self
    rw [hOnly j child (Sched.mem_zombies.mp hLast).2]

lemma Sched.Seated.fork_pid {kstack : Nat} (h : s.Seated) (hFork : sysFork s cur fresh kstack = some s') :
    0 < (s'.proc fresh).pid ∧ (s'.proc fresh).parent = some cur ∧
      (processFromPid s' (s'.proc fresh).pid = some (.task fresh) ∧ (s'.proc fresh).state = .running ↔ s.FreeSlot) := by
  have hAdds := sysFork_adds hFork
  have hTable := h.table.adds hAdds
  have hFresh : fresh ∈ s'.processList := by
    rw [hAdds.processList]
    exact mem_cons_self
  have hPos := hTable.pid_pos fresh hFresh
  obtain ⟨hFree, hFull⟩ := h.fork hFork
  refine ⟨Nat.pos_of_ne_zero hPos, hAdds.parent_eq, fun hFound => by_contra fun hNot => ?_, fun hSlot => ?_⟩
  · rw [processFromPid, if_neg (Int.natCast_ne_zero.mpr hPos)] at hFound
    obtain ⟨q, hFind, ⟨⟩⟩ := map_eq_some_iff.mp hFound.1
    obtain ⟨i, hTask, _⟩ := schedFindPid_spec hFind
    rw [(hFull hNot).1] at hTask
    exact hAdds.fresh_free (h.table.listed i fresh hTask)
  · obtain ⟨_, hState, i, hTask⟩ := hFree hSlot
    refine ⟨?_, hState⟩
    rw [processFromPid, if_neg (Int.natCast_ne_zero.mpr hPos), schedFindPid_eq hTable hTask]
    rfl

end

lemma WaitRun.boot_seated (stale : Process) : (WaitRun.boot stale).sched.Seated :=
  ⟨(WaitRun.boot_inv stale).table, fun _ hp => absurd hp not_mem_nil, fun _ hp => absurd hp not_mem_nil⟩

/-- In a run whose calls all fit, every process has its slot and is alive or a zombie for its parent; the next call
keeps this exactly when it fits, and a fork that does not returns the pid of a process that nothing finds. -/
theorem processes_have_slots_iff (stale : Process) (actions : List TaskAction) (r : WaitRun)
    (hRun : Run TaskAction.step (fun r a => a.Fits r) (WaitRun.boot stale) actions r) :
    r.sched.OneSlotEach ∧
    (∀ p ∈ r.sched.processList, (r.sched.proc p).state = .zombie → ∀ cur, (r.sched.proc p).parent = some cur →
      ∃ i, r.sched.zombieIn cur i = some p ∧ ((∀ j q, r.sched.zombieIn cur j = some q → q = p) → ∀ wantStatus,
        (sysWaitTurn r.sched cur wantStatus).2 = some (((r.sched.proc p).pid : Int),
          if wantStatus then some (r.sched.proc p).exitStatus else none))) ∧
    (∀ a r', TaskAction.step r a = some r' → (r'.sched.OneSlotEach ↔ a.Fits r)) ∧
    ∀ cur fresh kstack s', sysFork r.sched cur fresh kstack = some s' →
      0 < (s'.proc fresh).pid ∧ (s'.proc fresh).parent = some cur ∧
      (processFromPid s' (s'.proc fresh).pid = some (.task fresh) ∧ (s'.proc fresh).state = .running ↔
        r.sched.FreeSlot) := by
  have hSeated : r.sched.Seated := hRun.invariant (I := fun r => r.sched.Seated)
    (fun _ _ _ hFits h hStep => (TaskAction.step_seated h hStep).1 hFits) (WaitRun.boot_seated stale)
  refine ⟨hSeated.oneSlotEach, fun p hp hZombie cur hParent => ?_, fun a r' hStep => ?_,
    fun cur fresh kstack s' => hSeated.fork_pid⟩
  · obtain ⟨i, hi⟩ := hSeated.seated p hp
    have hIn : r.sched.zombieIn cur i = some p := Sched.mem_zombieIn.mpr ⟨hi, hParent, hZombie⟩
    exact ⟨i, hIn, hSeated.table.reports hIn⟩
  · obtain ⟨hKept, hLost⟩ := TaskAction.step_seated hSeated hStep
    exact ⟨fun hEach => by_contra fun hNot => hLost hNot hEach, fun hFits => (hKept hFits).oneSlotEach⟩

instance (r : WaitRun) (a : TaskAction) : Decidable (a.Fits r) := by
  unfold TaskAction.Fits
  split <;> infer_instance

theorem processes_have_slots_iff_two : ∃ r, Run TaskAction.step (fun r a => a.Fits r) (WaitRun.boot blankProcess)
        [.call (.start 0), .call (.fork 0 1 7), .execve 1 true false none, .call (.exit 1 5)] r ∧
      r.sched.processList = [1, 0] ∧ r.sched.OneSlotEach := by
  refine ⟨_, run_of_exec_guarded rfl, by decide, (processes_have_slots_iff blankProcess
    [.call (.start 0), .call (.fork 0 1 7), .execve 1 true false none, .call (.exit 1 5)] _ (run_of_exec_guarded rfl)).1⟩

def fullTable : List TaskAction := .call (.start 0) :: (range' 1 9).map fun child => .call (.fork 0 child child)

/-- The child is on the list without a slot, in state `CREATE`, and is not found by its pid. -/
theorem fork_into_full_table :
    ((exec TaskAction.step (WaitRun.boot blankProcess) (fullTable ++ [.call (.fork 0 10 10)])).map fun r =>
      (r.sched.processList.length, (r.sched.proc 10).pid, (r.sched.proc 10).state, processFromPid r.sched 11,
        (range schedMaxTasks).any fun i => r.sched.tasks i = some 10)) = some (11, 11, .create, none, false) := by
  decide +kernel

end Fixos.Sys
