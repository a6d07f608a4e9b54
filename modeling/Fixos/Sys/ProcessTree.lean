import Fixos.Lib.Ancestry
import Fixos.Sys.Wait

/-! # Parents of processes (`sys/process.c`)

Nothing changes the pointer to the parent when that one is freed.
-/

namespace Fixos.Sys

open Transition Ancestry Option List Function

/-- What `process_from_pid` leads to; the idle task has no address in the pool. -/
inductive PidTarget where
  | idle
  | task (proc : ProcRef)
deriving DecidableEq

def processFromPid (s : Sched) (pid : Int) : Option PidTarget :=
  if pid = 0 then some .idle else (schedFindPid s pid).map .task

/-- The test `cur->parent == other`; no process has the idle task for its parent. -/
def PidTarget.isParent : PidTarget → Option ProcRef → Bool
  | .idle, _ => false
  | .task other, parent => parent = some other

def Sched.parentOf (s : Sched) (proc : ProcRef) : Option ProcRef := (s.proc proc).parent

/-- `none` when the loop has not ended within the fuel. -/
def processIsDescendant (fuel : Nat) (s : Sched) (proc : Option ProcRef) (otherpid : Int) : Option Int :=
  match processFromPid s otherpid with
  | none => some 0
  | some other => (searchUp s.parentOf other.isParent fuel proc).map fun cur =>
      match cur.bind s.parentOf with
      | none => 0
      | some parent => if ((s.proc parent).pid : Int) = otherpid then 1 else 0

def Sched.Descendant (s : Sched) (proc other : ProcRef) : Prop := Relation.TransGen (Above s.parentOf) proc other

/-- Parents are alive, and only tasks of the table are parents. -/
structure Sched.Tree (s : Sched) : Prop where
  table : s.Table
  grounded : Grounded s.parentOf s.processList
  parent_task : ∀ c ∈ s.processList, ∀ p, s.parentOf c = some p → ∃ i, s.tasks i = some p

def WaitAction.Childless (r : WaitRun) : WaitAction → Prop
  | .wait cur _ => ∀ zombie ∈ r.sched.zombies cur schedMaxTasks, ∀ c ∈ r.sched.processList,
      r.sched.parentOf c ≠ some zombie.2
  | _ => True

instance (r : WaitRun) : (a : WaitAction) → Decidable (a.Childless r)
  | .wait .. => inferInstanceAs (Decidable (∀ zombie ∈ _, ∀ c ∈ _, _))
  | .start .. | .fork .. | .exit .. | .sleep .. | .stop .. | .wakeUp .. | .cont .. => isTrue trivial

section

variable {s s' : Sched} {cur fresh child : ProcRef} {i : Nat}

lemma Sched.Tree.adds (h : s.Tree) {parent : Option ProcRef} (hAdds : s.Adds s' fresh parent)
    (hParent : ∀ p, parent = some p → ∃ i, s.tasks i = some p) : s'.Tree := by
  have hSame : ∀ c ∈ s.processList, s'.parentOf c = s.parentOf c := by
    intro c hc
    have hNe : c ≠ fresh := by
      rintro rfl
      exact hAdds.fresh_free hc
    rw [Sched.parentOf, Sched.parentOf, hAdds.proc_other c hNe]
  have hTask : ∀ {p}, (∃ i, s.tasks i = some p) → ∃ i, s'.tasks i = some p := by
    rintro p ⟨i, hi⟩
    exact ⟨i, hAdds.tasks_kept hi⟩
  have hFresh : s'.parentOf fresh = parent := hAdds.parent_eq
  refine ⟨h.table.adds hAdds, ?_, ?_⟩
  · rw [hAdds.processList]
    refine ⟨fun p hp => ?_, h.grounded.congr hSame⟩
    rw [hFresh] at hp
    obtain ⟨i, hi⟩ := hParent p hp
    exact h.table.listed i p hi
  · rw [hAdds.processList]
    intro c hc p hp
    rcases mem_cons.mp hc with rfl | hc
    · rw [hFresh] at hp
      exact hTask (hParent p hp)
    · rw [hSame c hc] at hp
      exact hTask (h.parent_task c hc p hp)

lemma Sched.Tree.update (h : s.Tree) {contents : Process} (hPid : contents.pid = (s.proc cur).pid)
    (hParent : contents.parent = (s.proc cur).parent) :
    ({ s with proc := update s.proc cur contents } : Sched).Tree := by
  have hSame : ({ s with proc := Function.update s.proc cur contents } : Sched).parentOf = s.parentOf := by
    funext c
    rcases eq_or_ne c cur with rfl | hNe
    · simp [Sched.parentOf, hParent]
    · simp [Sched.parentOf, update_of_ne hNe]
  refine ⟨h.table.update hPid, ?_, ?_⟩
  · rw [hSame]
    exact h.grounded
  · rw [hSame]
    exact h.parent_task

lemma Sched.Tree.reapSlot (h : s.Tree) (hTask : s.tasks i = some child)
    (hChildless : ∀ c ∈ s.processList, s.parentOf c ≠ some child) :
    (s.reapSlot i).Tree ∧ ∀ c ∈ (s.reapSlot i).processList, c ∈ s.processList := by
  have hList := Sched.processList_reapSlot hTask
  have hSame : (s.reapSlot i).parentOf = s.parentOf := by
    funext c
    rw [Sched.parentOf, s.proc_reapSlot i]
    rfl
  have hOld : ∀ c ∈ (s.reapSlot i).processList, c ∈ s.processList := by
    rw [hList]
    exact fun c => mem_of_mem_erase
  refine ⟨⟨h.table.reapSlot hTask, ?_, ?_⟩, hOld⟩
  · rw [hList, hSame]
    exact h.grounded.erase hChildless
  · rw [hSame]
    intro c hc p hp
    obtain ⟨j, hj⟩ := h.parent_task c (hOld c hc) p hp
    refine ⟨j, ?_⟩
    rw [Sched.tasks_reapSlot, update_of_ne, hj]
    rintro rfl
    rw [hTask] at hj
    cases hj
    exact hChildless c (hOld c hc) hp

lemma Sched.Tree.reapAll {zombies : List (Nat × ProcRef)} (h : s.Tree) (hNodup : (zombies.map Prod.fst).Nodup)
    (hTasks : ∀ zombie ∈ zombies, s.tasks zombie.1 = some zombie.2)
    (hChildless : ∀ zombie ∈ zombies, ∀ c ∈ s.processList, s.parentOf c ≠ some zombie.2) :
    (s.reapAll zombies).Tree := by
  have hAll := Sched.reapAll_rule (I := fun s' rest => s'.Tree ∧
      ∀ zombie ∈ rest, ∀ c ∈ s'.processList, s'.parentOf c ≠ some zombie.2)
    (fun s' zombie rest hTask hInv => ?_) hNodup hTasks ⟨h, hChildless⟩
  · exact hAll.1
  · obtain ⟨hTree, hOld⟩ := hInv.1.reapSlot hTask (hInv.2 zombie mem_cons_self)
    refine ⟨hTree, fun other hOther c hc => ?_⟩
    rw [Sched.parentOf, s'.proc_reapSlot]
    exact hInv.2 other (mem_cons_of_mem _ hOther) c (hOld c hc)

end

lemma WaitRun.tree_step {r r' : WaitRun} {a : WaitAction} (hChildless : a.Childless r) (h : r.sched.Tree)
    (hStep : r.step a = some r') : r'.sched.Tree := by
  cases a with
  | start fresh =>
    obtain ⟨s, hAlloc, rfl⟩ := map_eq_some_iff.mp hStep
    obtain ⟨hAdds, hTasks⟩ := processAlloc_adds hAlloc
    exact h.adds (schedAddTask_adds hAdds hTasks) fun p hp => by cases hp
  | fork cur fresh kstack =>
    obtain ⟨⟨⟨i, _, hTask⟩, _⟩, hFork⟩ := ite_none_right_eq_some.mp hStep
    obtain ⟨s, hNew, rfl⟩ := map_eq_some_iff.mp hFork
    refine h.adds (sysFork_adds hNew) fun p hp => ?_
    cases hp
    exact ⟨i, hTask⟩
  | exit cur status =>
    obtain ⟨_, ⟨⟩⟩ := ite_none_right_eq_some.mp hStep
    exact h.update rfl rfl
  | wait cur wantStatus =>
    obtain ⟨_, ⟨⟩⟩ := ite_none_right_eq_some.mp hStep
    have hScan := waitSlots_eq r.sched cur wantStatus schedMaxTasks
    simp only [sysWaitTurn, waitScan, hScan]
    refine h.reapAll (r.sched.nodup_zombies_fst cur schedMaxTasks) (fun zombie hZombie => ?_) hChildless
    exact (Sched.mem_zombieIn.mp (Sched.mem_zombies.mp hZombie).2).1
  | sleep cur interruptible =>
    obtain ⟨_, ⟨⟩⟩ := ite_none_right_eq_some.mp hStep
    exact h.update rfl rfl
  | stop cur =>
    obtain ⟨_, ⟨⟩⟩ := ite_none_right_eq_some.mp hStep
    exact h.update rfl rfl
  | wakeUp proc =>
    cases hStep
    exact h.update rfl rfl
  | cont proc =>
    obtain ⟨_, ⟨⟩⟩ := ite_none_right_eq_some.mp hStep
    exact h.update rfl rfl

lemma WaitRun.boot_tree (stale : Process) : (WaitRun.boot stale).sched.Tree :=
  ⟨(WaitRun.boot_inv stale).table, trivial, fun _ hc => absurd hc not_mem_nil⟩

section

variable {s : Sched} {proc other : ProcRef}

lemma schedFindPid_spec {pid : Int} (h : schedFindPid s pid = some other) :
    ∃ i, s.tasks i = some other ∧ ((s.proc other).pid : Int) = pid := by
  obtain ⟨i, _, hSlot⟩ := exists_of_findSome?_eq_some h
  obtain ⟨hTask, hPid⟩ := filter_eq_some_iff.mp hSlot
  exact ⟨i, hTask, by simpa using hPid⟩

lemma Sched.Tree.find_ancestor (h : s.Tree) (hProc : proc ∈ s.processList) (hDesc : s.Descendant proc other) :
    processFromPid s (s.proc other).pid = some (.task other) := by
  obtain ⟨c, hReach, hLast⟩ := Relation.TransGen.tail'_iff.mp hDesc
  have hc : c ∈ s.processList := by
    rcases Relation.reflTransGen_iff_eq_or_transGen.mp hReach with rfl | hTrans
    · exact hProc
    · exact h.grounded.mem_trans hProc hTrans
  obtain ⟨i, hTask⟩ := h.parent_task c hc other hLast
  have hPos : ((s.proc other).pid : Int) ≠ 0 := Int.natCast_ne_zero.mpr
    (h.table.pid_pos other (h.table.listed i other hTask))
  rw [processFromPid, if_neg hPos, schedFindPid_eq h.table hTask]
  rfl

lemma Sched.Tree.isDescendant (h : s.Tree) (hProc : proc ∈ s.processList) (otherpid : Int) :
    ∃ answer, (∀ fuel, s.processList.length < fuel → processIsDescendant fuel s (some proc) otherpid = some answer) ∧
      (answer = 1 ∨ answer = 0) ∧
      (answer = 1 ↔ ∃ other ∈ s.processList, ((s.proc other).pid : Int) = otherpid ∧ s.Descendant proc other) := by
  cases hTarget : processFromPid s otherpid with
  | none =>
    refine ⟨0, fun fuel _ => by rw [processIsDescendant, hTarget], Or.inr rfl, iff_of_false (by decide) ?_⟩
    rintro ⟨other, _, rfl, hDesc⟩
    rw [h.find_ancestor hProc hDesc] at hTarget
    cases hTarget
  | some target =>
    obtain ⟨result, hResult⟩ := h.grounded.searchUp_some target.isParent hProc
    obtain ⟨hSome, hNone⟩ := searchUp_spec (hResult _ (Nat.lt_succ_self _))
    -- the process that has the pid is the one the search is for
    have hOnly : ∀ other, ((s.proc other).pid : Int) = otherpid → s.Descendant proc other → target = .task other := by
      rintro other rfl hDesc
      rw [h.find_ancestor hProc hDesc] at hTarget
      exact (some.inj hTarget).symm
    have hEval : ∀ fuel, s.processList.length < fuel →
        processIsDescendant fuel s (some proc) otherpid = some (match result.bind s.parentOf with
          | none => 0
          | some parent => if ((s.proc parent).pid : Int) = otherpid then 1 else 0) := by
      intro fuel hFuel
      rw [processIsDescendant, hTarget]
      dsimp only
      rw [hResult fuel hFuel]
      rfl
    cases result with
    | none =>
      refine ⟨0, hEval, Or.inr rfl, iff_of_false (by decide) ?_⟩
      rintro ⟨other, _, hPid, hDesc⟩
      obtain ⟨c, hReach, hLast⟩ := Relation.TransGen.tail'_iff.mp hDesc
      have hNo := hNone rfl c hReach
      rw [hOnly other hPid hDesc, show s.parentOf c = some other from hLast] at hNo
      simp [PidTarget.isParent] at hNo
    | some c =>
      obtain ⟨hReach, hFound⟩ := hSome c rfl
      cases target with
      | idle => cases hFound
      | task other =>
        have hParent : s.parentOf c = some other := by simpa [PidTarget.isParent] using hFound
        have hFind : schedFindPid s otherpid = some other := by
          unfold processFromPid at hTarget
          split at hTarget
          · cases hTarget
          · obtain ⟨o, hFind, ⟨⟩⟩ := map_eq_some_iff.mp hTarget
            exact hFind
        obtain ⟨i, hTask, hPid⟩ := schedFindPid_spec hFind
        refine ⟨1, fun fuel hFuel => ?_, Or.inl rfl, iff_of_true rfl ?_⟩
        · rw [hEval fuel hFuel, bind_some, hParent]
          dsimp only
          rw [if_pos hPid]
        · exact ⟨other, h.table.listed i other hTask, hPid, Relation.TransGen.tail' hReach hParent⟩

end

/-- In every run in which no process is freed before its children, parents are alive and form a tree, and
`process_is_descendant` ends with the right answer. -/
theorem process_parents_form_tree (stale : Process) (actions : List WaitAction) (r : WaitRun)
    (hRun : Run WaitRun.step (fun r a => a.Childless r) (WaitRun.boot stale) actions r) :
    (∀ c ∈ r.sched.processList, ∀ p, (r.sched.proc c).parent = some p → p ∈ r.sched.processList) ∧
    (∀ c ∈ r.sched.processList, ¬ r.sched.Descendant c c) ∧
    ∀ proc ∈ r.sched.processList, ∀ otherpid : Int, ∃ answer, (∀ fuel, r.sched.processList.length < fuel →
        processIsDescendant fuel r.sched (some proc) otherpid = some answer) ∧
      (answer = 1 ∨ answer = 0) ∧
      (answer = 1 ↔ ∃ other ∈ r.sched.processList, ((r.sched.proc other).pid : Int) = otherpid ∧
        r.sched.Descendant proc other) := by
  have hTree : r.sched.Tree := hRun.invariant (I := fun r => r.sched.Tree)
    (fun _ _ _ hChildless h hStep => WaitRun.tree_step hChildless h hStep) (WaitRun.boot_tree stale)
  refine ⟨fun c hc p hp => hTree.grounded.mem hc hp, fun c hc => ?_, fun proc hProc otherpid => ?_⟩
  · exact hTree.grounded.acyclic hTree.table.nodup hc
  · exact hTree.isDescendant hProc otherpid

theorem process_parents_form_tree_three : ∃ r, Run WaitRun.step (fun r a => a.Childless r) (WaitRun.boot blankProcess)
        [.start 0, .fork 0 1 7, .fork 1 2 8, .exit 2 5, .wait 1 true, .fork 1 3 8] r ∧
      r.sched.processList = [3, 1, 0] ∧ ∀ c ∈ r.sched.processList, ¬ r.sched.Descendant c c := by
  refine ⟨_, run_of_exec_guarded rfl, by decide, (process_parents_form_tree blankProcess
    [.start 0, .fork 0 1 7, .fork 1 2 8, .exit 2 5, .wait 1 true, .fork 1 3 8] _ (run_of_exec_guarded rfl)).2.1⟩

/-- The child of a freed process forks into the freed object: each is the parent of the other, and the search never
ends. -/
theorem recycled_parent_cycle : ∃ r, exec WaitRun.step (WaitRun.boot blankProcess)
        [.start 0, .fork 0 1 7, .fork 1 2 8, .exit 1 5, .wait 0 true, .fork 2 1 9] = some r ∧
      r.sched.processList = [1, 2, 0] ∧ r.sched.Descendant 1 1 ∧
      ∀ fuel, processIsDescendant fuel r.sched (some 2) (r.sched.proc 0).pid = none := by
  have hEval : (exec WaitRun.step (WaitRun.boot blankProcess)
      [.start 0, .fork 0 1 7, .fork 1 2 8, .exit 1 5, .wait 0 true, .fork 2 1 9]).map (fun r =>
        (r.sched.processList, r.sched.parentOf 1, r.sched.parentOf 2, processFromPid r.sched (r.sched.proc 0).pid)) =
      some ([1, 2, 0], some 2, some 1, some (.task 0)) := by
    decide
  obtain ⟨r, hExec, hEq⟩ := map_eq_some_iff.mp hEval
  simp only [Prod.mk.injEq] at hEq
  obtain ⟨hList, hOne, hTwo, hTarget⟩ := hEq
  have hReach : ∀ c, Relation.ReflTransGen (Above r.sched.parentOf) 2 c → c = 1 ∨ c = 2 := by
    intro c hc
    induction hc with
    | refl => exact Or.inr rfl
    | tail _ hStep ih =>
      rcases ih with rfl | rfl
      · rw [Above, hOne] at hStep
        exact Or.inr (some.inj hStep).symm
      · rw [Above, hTwo] at hStep
        exact Or.inl (some.inj hStep).symm
  refine ⟨r, hExec, hList, .tail (.single hOne) hTwo, fun fuel => ?_⟩
  rw [processIsDescendant, hTarget]
  dsimp only
  rw [searchUp_cycle (fun c hc => ?_) (fun c hc => ?_)]
  · rfl
  · rcases hReach c hc with rfl | rfl
    · exact ⟨2, hOne⟩
    · exact ⟨1, hTwo⟩
  · rcases hReach c hc with rfl | rfl
    · rw [hOne]
      rfl
    · rw [hTwo]
      rfl

end Fixos.Sys
