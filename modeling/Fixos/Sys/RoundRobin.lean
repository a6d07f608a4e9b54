import Fixos.Lib.Cyclic
import Fixos.Sys.Kernel

/-! # The round of the scheduler (`sys/scheduler.c`)

`context_saved_next` takes the first slot after the current one that holds a running process.
-/

namespace Fixos.Sys

open Transition Option

inductive SlotAction where
  | select
  | setState (p : ProcRef) (state : ProcState)
  | setSlot (i : Nat) (task : Option ProcRef)
  | addTask (task : ProcRef)

namespace Kernel

def slotStep (k : Kernel) : SlotAction → Option Kernel
  | .select => some k.contextSavedNext
  | .setState p state => some { k with sched := k.sched.setState p state }
  | .setSlot i task => some { k with sched := { k.sched with tasks := Function.update k.sched.tasks i task } }
  | .addTask task => some { k with sched := schedAddTask k.sched task }

def Selects (k : Kernel) (i : Nat) (p : ProcRef) : Prop :=
  k.contextSavedNext.current = some p ∧ k.contextSavedNext.curTask = i

def RunningIn (k : Kernel) (i : Nat) (p : ProcRef) : Prop :=
  k.sched.tasks i = some p ∧ k.state p = .running
deriving Decidable

def runningIn (k : Kernel) (i : Nat) : Option ProcRef :=
  (k.sched.tasks i).filter fun p => k.state p = .running

section

variable {k : Kernel} {i j : Nat} {p q : ProcRef}

lemma runningIn_eq_some : k.runningIn i = some p ↔ k.RunningIn i p := by
  rw [runningIn, filter_eq_some_iff, decide_eq_true_eq]
  rfl

def nextSlot (k : Kernel) : Nat := (k.curTask + 1) % schedMaxTasks

lemma nextSlot_lt : k.nextSlot < schedMaxTasks := Nat.mod_lt _ (by decide)

lemma nextTask_eq_search : k.nextTask =
    (Cyclic.search schedMaxTasks (fun i => (k.runningIn i).isNone) schedMaxTasks k.nextSlot).bind fun i =>
      (k.runningIn i).map fun p => (i, p) := by
  have hScan := Cyclic.findSome?_eq_search (fun i => (k.runningIn i).map fun p => (i, p)) schedMaxTasks k.nextSlot_lt
  simp only [isNone_map] at hScan
  refine Eq.trans ?_ hScan
  refine congrArg (List.findSome? · _) (funext fun d => ?_)
  have hSlot : (d + 1 + k.curTask) % schedMaxTasks = (k.nextSlot + d) % schedMaxTasks := by
    rw [nextSlot, Nat.mod_add_mod]
    congr 1
    omega
  simp only [hSlot]
  rfl

lemma selects_iff : k.Selects i p ↔ k.nextTask = some (i, p) := by
  have hTask : ({ k with quantumLeft := schedQuantumTicks, needReschedule := false } : Kernel).nextTask = k.nextTask := rfl
  rw [Selects, contextSavedNext]
  rw [hTask]
  cases k.nextTask with
  | none => simp
  | some found =>
    obtain ⟨_, q⟩ := found
    simp only [contextjmp, some.injEq, Prod.mk.injEq]
    exact and_comm

lemma Selects.nearest (h : k.Selects i p) : i < schedMaxTasks ∧ k.RunningIn i p ∧
      ∀ j q, j < schedMaxTasks → k.RunningIn j q →
        Cyclic.dist schedMaxTasks k.nextSlot i ≤ Cyclic.dist schedMaxTasks k.nextSlot j := by
  rw [selects_iff, nextTask_eq_search] at h
  obtain ⟨_, hSearch, hTask⟩ := bind_eq_some_iff.mp h
  obtain ⟨q, hRunning, ⟨⟩⟩ := map_eq_some_iff.mp hTask
  refine ⟨Cyclic.search_lt k.nextSlot_lt hSearch, runningIn_eq_some.mp hRunning, fun j q hj hq => ?_⟩
  have hStop : (k.runningIn j).isNone = false := by rw [runningIn_eq_some.mpr hq]; rfl
  obtain ⟨r, hFound, hNear⟩ := Cyclic.search_reaches (fun i => (k.runningIn i).isNone) k.nextSlot_lt hj hStop
    (Cyclic.dist_lt k.nextSlot_lt hj)
  rw [hSearch] at hFound
  exact some.inj hFound ▸ hNear

lemma idle_iff : k.contextSavedNext.current = none ↔ ∀ i < schedMaxTasks, ∀ p, ¬ k.RunningIn i p := by
  have hNone : k.contextSavedNext.current = none ↔ k.nextTask = none := by
    constructor
    · intro hIdle
      cases hTask : k.nextTask with
      | none => rfl
      | some found =>
        have hSelects := selects_iff.mpr hTask
        rw [Selects, hIdle] at hSelects
        cases hSelects.1
    · intro hTask
      have hSame : ({ k with quantumLeft := schedQuantumTicks, needReschedule := false } : Kernel).nextTask = none := hTask
      rw [contextSavedNext]
      rw [hSame]
  rw [hNone, nextTask_eq_search]
  constructor
  · intro hEmpty i hi p hp
    rw [bind_eq_none_iff] at hEmpty
    cases hSearch : Cyclic.search schedMaxTasks (fun i => (k.runningIn i).isNone) schedMaxTasks k.nextSlot with
    | none =>
      have hPassed := (Cyclic.search_eq_none_iff k.nextSlot_lt).mp hSearch i hi
      rw [runningIn_eq_some.mpr hp] at hPassed
      cases hPassed
    | some r =>
      have hStop := Cyclic.search_stops hSearch
      rw [map_eq_none_iff.mp (hEmpty r hSearch)] at hStop
      cases hStop
  · intro hAll
    rw [(Cyclic.search_eq_none_iff k.nextSlot_lt).mpr fun i hi => ?_]
    · rfl
    · rw [isNone_iff_eq_none, eq_none_iff_forall_ne_some]
      exact fun p hp => hAll i hi p (runningIn_eq_some.mp hp)

end

def Before (i j : Nat) (k : Kernel) : Prop :=
  k.curTask < schedMaxTasks ∧ Cyclic.dist schedMaxTasks i k.curTask < Cyclic.dist schedMaxTasks i j

section

variable {k k' : Kernel} {i j r : Nat} {p q : ProcRef}

section

variable (h : k.Before i j) (hi : i < schedMaxTasks) (hj : j < schedMaxTasks) (hRunning : k.RunningIn j p)
include h hi hj hRunning

lemma Before.select (hSelects : k.Selects r q) : r ≠ i ∧ (r = j ∨ k.contextSavedNext.Before i j) := by
  obtain ⟨hr, _, hNear⟩ := hSelects.nearest
  obtain ⟨hNe, hNext⟩ := Cyclic.dist_move hi hj h.1 hr h.2 (hNear j p hj hRunning)
  refine ⟨hNe, hNext.imp_right fun hLt => ?_⟩
  rw [Before, hSelects.2]
  exact ⟨hr, hLt⟩

lemma Before.step {a : SlotAction} (hStep : k.slotStep a = some k') : k'.Before i j ∨ (a = .select ∧ k.Selects j p) := by
  cases a with
  | select =>
    cases hStep
    have hTaken : ∃ r q, k.Selects r q := by
      cases hCurrent : k.contextSavedNext.current with
      | none => exact absurd hRunning (idle_iff.mp hCurrent j hj p)
      | some q => exact ⟨_, q, hCurrent, rfl⟩
    obtain ⟨r, q, hSelects⟩ := hTaken
    rcases (h.select hi hj hRunning hSelects).2 with rfl | hBefore
    · obtain ⟨_, hOther, _⟩ := hSelects.nearest
      have hSame : q = p := some.inj (hOther.1.symm.trans hRunning.1)
      exact Or.inr ⟨rfl, hSame ▸ hSelects⟩
    · exact Or.inl hBefore
  | setState _ _ | setSlot _ _ | addTask _ =>
    cases hStep
    exact Or.inl h

end

lemma RunningIn.select_closer (h : k.RunningIn j p) (hj : j < schedMaxTasks) (hNot : ¬ k.Selects j p) :
    Cyclic.dist schedMaxTasks k.contextSavedNext.nextSlot j < Cyclic.dist schedMaxTasks k.nextSlot j := by
  cases hCurrent : k.contextSavedNext.current with
  | none => exact absurd h (idle_iff.mp hCurrent j hj p)
  | some q =>
    obtain ⟨hSlot, hOther, hNear⟩ := Selects.nearest ⟨hCurrent, rfl⟩
    apply Cyclic.dist_next_lt nextSlot_lt hj hSlot (hNear j p hj h)
    rintro rfl
    exact hNot ⟨hCurrent.trans (hOther.1.symm.trans h.1), rfl⟩

end

end Kernel

/-- Between two selections of one slot, every other process that stays running is selected; the idle task exactly when
none is running. -/
theorem round_serves_running (k : Kernel) :
    (k.contextSavedNext.current = none ↔ ∀ i < schedMaxTasks, ∀ p, ¬ k.RunningIn i p) ∧
    ∀ (i j : Nat) (p first again : ProcRef) (actions : List SlotAction) (k' : Kernel), k.Selects i first → j ≠ i →
      j < schedMaxTasks → Run Kernel.slotStep (fun k _ => k.RunningIn j p) k.contextSavedNext actions k' →
      k'.RunningIn j p → k'.Selects i again →
      ∃ before after u, actions = before ++ .select :: after ∧
        Run Kernel.slotStep (fun k _ => k.RunningIn j p) k.contextSavedNext before u ∧ u.Selects j p := by
  refine ⟨Kernel.idle_iff, fun i j p first again actions k' hFirst hNe hj hRun hRunning hAgain => ?_⟩
  have hi := hFirst.nearest.1
  have hStart : k.contextSavedNext.Before i j := by
    rw [Kernel.Before, hFirst.2, Cyclic.dist_self]
    exact ⟨hi, Cyclic.dist_pos hi hNe.symm⟩
  rcases hRun.lasts_or_ends (fun s a t hGuard hBefore hStep => hBefore.step hi hj hGuard hStep) hStart with
    hBefore | ⟨before, a, after, u, _, hSplit, hPrior, _, _, ⟨rfl, hSelects⟩, _⟩
  · exact absurd rfl (hBefore.select hi hj hRunning hAgain).1
  · exact ⟨before, after, u, hSplit, hPrior, hSelects⟩

def threeTasks : Kernel :=
  { Kernel.boot blankProcess (fun _ => emptySignals) (fun _ => ⟨fun _ => 0, fun _ => true⟩) with
    sched := { schedInit blankProcess with tasks := fun i => if i < 3 then some i else none } }

def stopTheThird : List SlotAction := [.select, .setState 2 .stopped, .select]

theorem round_serves_running_threeTasks :
    threeTasks.Selects 1 1 ∧ ∃ before after u, stopTheThird = before ++ .select :: after ∧
      Run Kernel.slotStep (fun k _ => k.RunningIn 0 0) threeTasks.contextSavedNext before u ∧ u.Selects 0 0 := by
  have hFirst : threeTasks.Selects 1 1 := ⟨by decide +kernel, by decide +kernel⟩
  have hEval : (exec (guarded Kernel.slotStep fun k _ => k.RunningIn 0 0) threeTasks.contextSavedNext stopTheThird).map
      (fun k => (decide (k.RunningIn 0 0), k.contextSavedNext.current, k.contextSavedNext.curTask)) =
        some (true, some 1, 1) := by decide +kernel
  obtain ⟨k, hExec, hEnd⟩ := map_eq_some_iff.mp hEval
  obtain ⟨hRunning, hCurrent, hTask⟩ : decide (k.RunningIn 0 0) = true ∧ k.contextSavedNext.current = some 1 ∧
      k.contextSavedNext.curTask = 1 := by simpa using hEnd
  exact ⟨hFirst, (round_serves_running threeTasks).2 1 0 0 1 1 stopTheThird k hFirst (by decide) (by decide)
    (run_of_exec_guarded hExec) (of_decide_eq_true hRunning) ⟨hCurrent, hTask⟩⟩

/-- A process that stays running is passed over by fewer selections than there are slots. -/
theorem running_waits_less_than_round {k k' : Kernel} {j : Nat} {p : ProcRef} {actions : List SlotAction}
    (hj : j < schedMaxTasks) (hRun : Run Kernel.slotStep
      (fun k a => k.RunningIn j p ∧ (a = .select → ¬ k.Selects j p)) k actions k') :
    actions.countP (· matches .select) < schedMaxTasks := by
  apply lt_of_le_of_lt _ (Cyclic.dist_lt k.nextSlot_lt hj)
  induction hRun with
  | nil => exact Nat.zero_le _
  | @cons k t _ a as hWaits hStep _ ih =>
    -- only a selection counts, and it brings the next slot closer to the process
    cases a with
    | select =>
      cases hStep
      rw [List.countP_cons_of_pos rfl]
      exact ih.trans_lt (hWaits.1.select_closer hj (hWaits.2 rfl))
    | setState | setSlot | addTask =>
      cases hStep
      exact ih

theorem running_waits_less_than_round_threeTasks : List.countP (· matches .select) [SlotAction.select] < schedMaxTasks := by
  have hWaits : threeTasks.RunningIn 2 2 ∧ ¬ threeTasks.Selects 2 2 :=
    ⟨by decide +kernel, fun hSelects => absurd hSelects.2 (by decide +kernel)⟩
  exact running_waits_less_than_round (by decide) (.cons ⟨hWaits.1, fun _ => hWaits.2⟩ rfl (.nil _))

end Fixos.Sys
