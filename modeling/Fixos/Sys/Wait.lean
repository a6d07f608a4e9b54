import Fixos.Lib.Run
import Fixos.Sys.Scheduler

/-! # Children reported by `sys_wait` over a run

A `struct process` is used again once freed, so a process is known by its address together with the number of times that
address has been handed out.
-/

namespace Fixos.Sys

open Transition Option List Function

structure Life where
  ref : ProcRef
  number : Nat
deriving DecidableEq

structure Ended where
  who : Life
  parent : Option Life
  pid : Nat
  status : Int
deriving DecidableEq

structure Report where
  caller : Life
  child : Option Life
  pid : Int
  wanted : Bool
  status : Option Int
deriving DecidableEq

structure WaitRun where
  sched : Sched
  life : ProcRef → Nat
  forkedBy : ProcRef → Option Life
  ended : List Ended
  reports : List Report

def WaitRun.boot (stale : Process) : WaitRun := ⟨schedInit stale, fun _ => 0, fun _ => none, [], []⟩

inductive WaitAction where
  | start (fresh : ProcRef)
  | fork (cur fresh : ProcRef) (kstack : Nat)
  | exit (cur : ProcRef) (status : Int)
  | wait (cur : ProcRef) (wantStatus : Bool)
  | sleep (cur : ProcRef) (interruptible : Bool)
  | stop (cur : ProcRef)
  | wakeUp (proc : ProcRef)
  | cont (proc : ProcRef)
deriving DecidableEq

def schedFindPid (s : Sched) (pid : Int) : Option ProcRef :=
  (range schedMaxTasks).findSome? fun i =>
    (s.tasks i).filter fun proc => ((s.proc proc).pid : Int) = pid

def Sched.Runs (s : Sched) (cur : ProcRef) : Prop :=
  (∃ i < schedMaxTasks, s.tasks i = some cur) ∧ (s.proc cur).state = .running

instance (s : Sched) (cur : ProcRef) : Decidable (s.Runs cur) :=
  inferInstanceAs (Decidable (_ ∧ _))

def WaitRun.identity (r : WaitRun) (proc : ProcRef) : Life := ⟨proc, r.life proc⟩

def WaitRun.born (r : WaitRun) (sched : Sched) (fresh : ProcRef) (forker : Option Life) : WaitRun :=
  { r with
    sched
    life := update r.life fresh (r.life fresh + 1)
    forkedBy := update r.forkedBy fresh forker }

def WaitRun.reported (r : WaitRun) (cur : ProcRef) (wanted : Bool) :
    Option (Int × Option Int) → List Report
  | none => []
  | some (pid, status) =>
    if pid = -1 then []
    else [⟨r.identity cur, (schedFindPid r.sched pid).map r.identity, pid, wanted, status⟩]

def WaitRun.step (r : WaitRun) : WaitAction → Option WaitRun
  | .start fresh =>
    (processAlloc r.sched fresh).map fun s => r.born (schedAddTask s fresh) fresh none
  | .fork cur fresh kstack =>
    if r.sched.Runs cur then
      (sysFork r.sched cur fresh kstack).map fun s => r.born s fresh (some (r.identity cur))
    else none
  | .exit cur status =>
    if r.sched.Runs cur then
      some { r with
        sched := processTerminate r.sched cur status
        ended := r.ended ++
          [⟨r.identity cur, r.forkedBy cur, (r.sched.proc cur).pid, status⟩] }
    else none
  | .wait cur wantStatus =>
    if r.sched.Runs cur then
      let turn := sysWaitTurn r.sched cur wantStatus
      some { r with
        sched := turn.1
        reports := r.reports ++ r.reported cur wantStatus turn.2 }
    else none
  | .sleep cur interruptible =>
    if r.sched.Runs cur then
      some { r with
        sched := r.sched.setState cur (if interruptible then .interruptible else .uninterruptible) }
    else none
  | .stop cur =>
    if r.sched.Runs cur then some { r with sched := r.sched.setState cur .stopped } else none
  | .wakeUp proc =>
    some { r with sched := r.sched.setState proc (r.sched.proc proc).state.wakeUp }
  | .cont proc =>
    if (r.sched.proc proc).state = .stopped then
      some { r with sched := r.sched.setState proc .cont }
    else none

/-- A turn sees at most one zombie child, and a `struct process` is not handed out again while it is a parent. -/
def WaitAction.Ok (r : WaitRun) : WaitAction → Prop
  | .wait cur _ => (r.sched.zombies cur schedMaxTasks).length ≤ 1
  | .start fresh | .fork _ fresh _ =>
    ∀ i < schedMaxTasks, ∀ c ∈ r.sched.tasks i, (r.sched.proc c).parent ≠ some fresh
  | _ => True

instance (r : WaitRun) (a : WaitAction) : Decidable (a.Ok r) := by
  unfold WaitAction.Ok
  split <;> infer_instance

def WaitRun.reportsOf (r : WaitRun) (e : Ended) : List Report :=
  r.reports.filter fun report => report.child = some e.who

structure WaitRun.Awaiting (r : WaitRun) (e : Ended) : Prop where
  slot : ∃ i < schedMaxTasks, r.sched.tasks i = some e.who.ref
  life : r.identity e.who.ref = e.who
  state : (r.sched.proc e.who.ref).state = .zombie
  pid : (r.sched.proc e.who.ref).pid = e.pid
  status : (r.sched.proc e.who.ref).exitStatus = e.status
  parent : (r.sched.proc e.who.ref).parent.map r.identity = e.parent

structure Report.Tells (report : Report) (e : Ended) : Prop where
  caller : e.parent = some report.caller
  pid : report.pid = e.pid
  status : report.status = if report.wanted then some e.status else none

def WaitRun.Accounted (r : WaitRun) (e : Ended) : Prop :=
  (r.Awaiting e ∧ r.reportsOf e = []) ∨ ∃ report, r.reportsOf e = [report] ∧ report.Tells e

structure Sched.Table (s : Sched) : Prop where
  slot_lt : ∀ i c, s.tasks i = some c → i < schedMaxTasks
  slot_inj : ∀ i j c, s.tasks i = some c → s.tasks j = some c → i = j
  listed : ∀ i c, s.tasks i = some c → c ∈ s.processList
  nodup : s.processList.Nodup
  pid_used : ∀ c ∈ s.processList, s.pidUsed (s.proc c).pid = true
  pid_pos : ∀ c ∈ s.processList, (s.proc c).pid ≠ 0
  pid_inj : ∀ c ∈ s.processList, ∀ d ∈ s.processList, (s.proc c).pid = (s.proc d).pid → c = d
  idle_used : s.pidUsed 0 = true

structure WaitRun.Inv (r : WaitRun) : Prop where
  table : r.sched.Table
  parent : ∀ i c, r.sched.tasks i = some c →
    r.forkedBy c = (r.sched.proc c).parent.map r.identity
  past : ∀ e ∈ r.ended, e.who.number ≤ r.life e.who.ref
  alive : ∀ i c, r.sched.tasks i = some c → (r.sched.proc c).state ≠ .zombie →
    ∀ e ∈ r.ended, e.who ≠ r.identity c
  ended : ∀ i c, r.sched.tasks i = some c → (r.sched.proc c).state = .zombie →
    ∃ e ∈ r.ended, e.who = r.identity c
  unreported : ∀ i c, r.sched.tasks i = some c →
    ∀ report ∈ r.reports, report.child ≠ some (r.identity c)
  reported : ∀ report ∈ r.reports, ∃ e ∈ r.ended, report.child = some e.who
  accounted : ∀ e ∈ r.ended, r.Accounted e

lemma pidSearch_unused {used : Nat → Bool} {fuel start pid : Nat}
    (h : pidSearch used fuel start = some pid) : used pid = false := by
  induction fuel generalizing start with
  | zero => cases h
  | succ fuel ih =>
    rw [pidSearch] at h
    split_ifs at h with hFree
    · exact ih h
    · cases h
      exact Bool.not_eq_true _ ▸ hFree

structure Sched.Adds (s s' : Sched) (fresh : ProcRef) (parent : Option ProcRef) : Prop where
  fresh_free : fresh ∉ s.processList
  proc_other : ∀ c ≠ fresh, s'.proc c = s.proc c
  parent_eq : (s'.proc fresh).parent = parent
  state_new : (s'.proc fresh).state = .create ∨ (s'.proc fresh).state = .running
  pid_unused : s.pidUsed (s'.proc fresh).pid = false
  pidUsed : s'.pidUsed = update s.pidUsed (s'.proc fresh).pid true
  processList : s'.processList = fresh :: s.processList
  tasks : s'.tasks = s.tasks ∨
    ∃ i < schedMaxTasks, s.tasks i = none ∧ s'.tasks = update s.tasks i (some fresh)

variable {s s' : Sched} {fresh : ProcRef} {parent : Option ProcRef}

lemma Sched.Adds.state_ne (h : s.Adds s' fresh parent) :
    (s'.proc fresh).state ≠ .zombie ∧ (s'.proc fresh).state ≠ .stopped := by
  rcases h.state_new with hNew | hNew <;> rw [hNew] <;> decide

lemma schedAddTask_adds (h : s.Adds s' fresh parent) (hTasks : s'.tasks = s.tasks) :
    s.Adds (schedAddTask s' fresh) fresh parent := by
  unfold schedAddTask
  split
  · rename_i i hFind
    obtain ⟨hFree, hMem⟩ := And.intro (find?_some hFind) (mem_of_find?_eq_some hFind)
    refine ⟨h.fresh_free, ?_, ?_, ?_, ?_, ?_, h.processList, Or.inr ⟨i, mem_range.mp hMem, ?_, ?_⟩⟩
    · intro c hc
      exact (update_of_ne hc _ _).trans (h.proc_other c hc)
    · simp [h.parent_eq]
    · simp
    · simp [h.pid_unused]
    · simp [h.pidUsed]
    · rw [← hTasks]
      exact of_decide_eq_true hFree
    · simp only [hTasks]
  · exact h

lemma processAlloc_adds (h : processAlloc s fresh = some s') : s.Adds s' fresh none ∧ s'.tasks = s.tasks := by
  unfold processAlloc at h
  split at h
  · rename_i hFree
    obtain ⟨⟨_, t⟩, hPid, rfl⟩ := map_eq_some_iff.mp h
    obtain ⟨_, hSearch, ⟨⟩⟩ := map_eq_some_iff.mp hPid
    refine ⟨⟨hFree.2, ?_, ?_, ?_, ?_, ?_, rfl, Or.inl rfl⟩, rfl⟩
    · intro c hc
      exact update_of_ne hc _ _
    · simp
    · simp
    · simp [pidSearch_unused hSearch]
    · simp
  · cases h

variable {cur : ProcRef}

lemma sysFork_adds {kstack : Nat} (h : sysFork s cur fresh kstack = some s') : s.Adds s' fresh (some cur) := by
  obtain ⟨t, hAlloc, rfl⟩ := map_eq_some_iff.mp h
  obtain ⟨hAdds, hTasks⟩ := processAlloc_adds hAlloc
  refine schedAddTask_adds ⟨hAdds.fresh_free, ?_, ?_, ?_, ?_, ?_, hAdds.processList, Or.inl hTasks⟩ hTasks
  · intro c hc
    exact (update_of_ne hc _ _).trans (hAdds.proc_other c hc)
  · simp
  · simpa using hAdds.state_new
  · simpa using hAdds.pid_unused
  · simpa using hAdds.pidUsed

variable {i : Nat} {c : ProcRef}

lemma Sched.Adds.tasks_cases (h : s.Adds s' fresh parent) (hTask : s'.tasks i = some c) : s.tasks i = some c ∨
      (c = fresh ∧ i < schedMaxTasks ∧ s'.tasks = update s.tasks i (some fresh)) := by
  rcases h.tasks with hSame | ⟨j, hj, _, hNew⟩
  · exact Or.inl (hSame ▸ hTask)
  · rcases eq_or_ne i j with rfl | hi
    · rw [hNew, update_self] at hTask
      cases hTask
      exact Or.inr ⟨rfl, hj, hNew⟩
    · rw [hNew, update_of_ne hi] at hTask
      exact Or.inl hTask

lemma Sched.Adds.tasks_kept (h : s.Adds s' fresh parent) (hTask : s.tasks i = some c) : s'.tasks i = some c := by
  rcases h.tasks with hSame | ⟨j, _, hFree, hNew⟩
  · rw [hSame, hTask]
  · rw [hNew, update_of_ne _ _ _, hTask]
    rintro rfl
    rw [hFree] at hTask
    cases hTask

lemma Sched.Table.adds (h : s.Table) (hAdds : s.Adds s' fresh parent) : s'.Table := by
  have hOld : ∀ i, s.tasks i ≠ some fresh := fun i hTask => hAdds.fresh_free (h.listed i fresh hTask)
  have hProc : ∀ c ∈ s.processList, s'.proc c = s.proc c := by
    intro c hc
    refine hAdds.proc_other c ?_
    rintro rfl
    exact hAdds.fresh_free hc
  have hUnused : ∀ c ∈ s.processList, (s.proc c).pid ≠ (s'.proc fresh).pid := by
    intro c hc hSame
    have hUsed := h.pid_used c hc
    rw [hSame, hAdds.pid_unused] at hUsed
    cases hUsed
  constructor
  case slot_lt =>
    intro i c hTask
    rcases hAdds.tasks_cases hTask with hTask | ⟨_, hi, _⟩
    · exact h.slot_lt i c hTask
    · exact hi
  case slot_inj =>
    intro i j c hi hj
    rcases hAdds.tasks_cases hi with hiOld | ⟨rfl, _, hNew⟩
    · rcases hAdds.tasks_cases hj with hjOld | ⟨rfl, _, _⟩
      · exact h.slot_inj i j c hiOld hjOld
      · exact absurd hiOld (hOld i)
    · rcases eq_or_ne j i with rfl | hNe
      · rfl
      · rw [hNew, update_of_ne hNe] at hj
        exact absurd hj (hOld j)
  case listed =>
    intro i c hTask
    rw [hAdds.processList]
    rcases hAdds.tasks_cases hTask with hTask | ⟨rfl, _⟩
    · exact mem_cons_of_mem _ (h.listed i c hTask)
    · exact mem_cons_self
  case nodup =>
    rw [hAdds.processList]
    exact nodup_cons.mpr ⟨hAdds.fresh_free, h.nodup⟩
  case pid_used =>
    rw [hAdds.processList, hAdds.pidUsed]
    intro c hc
    rcases mem_cons.mp hc with rfl | hc
    · exact update_self _ _ _
    · rw [hProc c hc, update_apply, h.pid_used c hc, ite_self]
  case pid_pos =>
    rw [hAdds.processList]
    intro c hc
    rcases mem_cons.mp hc with rfl | hc
    · intro hZero
      have hUnused := hAdds.pid_unused
      rw [hZero, h.idle_used] at hUnused
      cases hUnused
    · rw [hProc c hc]
      exact h.pid_pos c hc
  case pid_inj =>
    rw [hAdds.processList]
    intro c hc d hd hSame
    rcases mem_cons.mp hc with rfl | hcOld <;> rcases mem_cons.mp hd with rfl | hdOld
    · rfl
    · rw [hProc d hdOld] at hSame
      exact absurd hSame.symm (hUnused d hdOld)
    · rw [hProc c hcOld] at hSame
      exact absurd hSame (hUnused c hcOld)
    · rw [hProc c hcOld, hProc d hdOld] at hSame
      exact h.pid_inj c hcOld d hdOld hSame
  case idle_used => rw [hAdds.pidUsed, update_apply, h.idle_used, ite_self]

variable {proc : ProcRef}

lemma Sched.Table.update (h : s.Table) {contents : Process} (hPid : contents.pid = (s.proc proc).pid) :
    ({ s with proc := update s.proc proc contents } : Sched).Table := by
  have hSame : ∀ c, (Function.update s.proc proc contents c).pid = (s.proc c).pid := by
    intro c
    rcases eq_or_ne c proc with rfl | hNe
    · rw [update_self, hPid]
    · rw [update_of_ne hNe]
  refine ⟨h.slot_lt, h.slot_inj, h.listed, h.nodup, ?_, ?_, ?_, h.idle_used⟩
  · simpa only [hSame] using h.pid_used
  · simpa only [hSame] using h.pid_pos
  · simpa only [hSame] using h.pid_inj

lemma processFree_pidUsed {pid : Nat} (h : pid ≠ (s.proc proc).pid) : (processFree s proc).pidUsed pid = s.pidUsed pid := by
  simp only [processFree, processReleasePid]
  split
  · exact update_of_ne h _ _
  · rfl

lemma Sched.Table.reapSlot (h : s.Table) {child : ProcRef} (hTask : s.tasks i = some child) : (s.reapSlot i).Table := by
  have hTasks : ∀ j c, (s.reapSlot i).tasks j = some c → s.tasks j = some c ∧ c ≠ child := by
    intro j c hSlot
    rw [tasks_reapSlot, update_apply] at hSlot
    split at hSlot
    · cases hSlot
    · rename_i hNe
      refine ⟨hSlot, ?_⟩
      rintro rfl
      exact hNe (h.slot_inj j i c hSlot hTask)
  have hList := Sched.processList_reapSlot hTask
  have hUsed : ∀ pid, pid ≠ (s.proc child).pid → (s.reapSlot i).pidUsed pid = s.pidUsed pid := by
    intro pid hPid
    simp only [Sched.reapSlot, hTask]
    exact processFree_pidUsed hPid
  have hMem : ∀ c, c ∈ s.processList.erase child → c ∈ s.processList ∧ c ≠ child := by
    intro c hc
    exact ⟨mem_of_mem_erase hc, (List.Nodup.mem_erase_iff h.nodup).mp hc |>.1⟩
  have hChild := h.listed i child hTask
  constructor
  case slot_lt => exact fun j c hSlot => h.slot_lt j c (hTasks j c hSlot).1
  case slot_inj => exact fun j k c hj hk => h.slot_inj j k c (hTasks j c hj).1 (hTasks k c hk).1
  case listed =>
    intro j c hSlot
    obtain ⟨hOld, hNe⟩ := hTasks j c hSlot
    rw [hList]
    exact (mem_erase_of_ne hNe).mpr (h.listed j c hOld)
  case nodup =>
    rw [hList]
    exact h.nodup.erase child
  case pid_used =>
    rw [hList, proc_reapSlot]
    intro c hc
    obtain ⟨hOld, hNe⟩ := hMem c hc
    rw [hUsed _ fun hSame => hNe (h.pid_inj c hOld child hChild hSame)]
    exact h.pid_used c hOld
  case pid_pos =>
    rw [hList, proc_reapSlot]
    exact fun c hc => h.pid_pos c (hMem c hc).1
  case pid_inj =>
    rw [hList, proc_reapSlot]
    exact fun c hc d hd => h.pid_inj c (hMem c hc).1 d (hMem d hd).1
  case idle_used =>
    rw [hUsed 0 (h.pid_pos child hChild).symm]
    exact h.idle_used

structure Sched.Waits (s s' : Sched) (cur : ProcRef) : Prop where
  table : s'.Table
  proc : s'.proc = s.proc
  tasks : ∀ i, s'.tasks i = if (s.zombieIn cur i).isSome then none else s.tasks i
  listed : ∀ p, p ∈ s'.processList ↔ p ∈ s.processList ∧ ∀ i, s.zombieIn cur i ≠ some p

lemma Sched.Waits.slot_kept {p : ProcRef} (h : s.Waits s' cur) (hTask : s.tasks i = some p)
    (hKept : ∀ j, s.zombieIn cur j ≠ some p) : s'.tasks i = some p := by
  rw [h.tasks i, if_neg, hTask]
  intro hSome
  obtain ⟨_, hChild⟩ := isSome_iff_exists.mp hSome
  have hSame := (Sched.mem_zombieIn.mp hChild).1
  rw [hTask] at hSame
  cases hSame
  exact hKept i hChild

lemma Sched.Table.reapAll {zombies : List (Nat × ProcRef)} (h : s.Table) (hNodup : (zombies.map Prod.fst).Nodup)
    (hTasks : ∀ zombie ∈ zombies, s.tasks zombie.1 = some zombie.2) :
    (s.reapAll zombies).Table ∧
      ∀ p, p ∈ (s.reapAll zombies).processList ↔ p ∈ s.processList ∧ p ∉ zombies.map Prod.snd := by
  have hAll := Sched.reapAll_rule (I := fun s' rest => s'.Table ∧
      ∀ p, p ∈ s'.processList ∧ p ∉ rest.map Prod.snd ↔ p ∈ s.processList ∧ p ∉ zombies.map Prod.snd)
    (fun s' zombie rest hTask hInv => ?_) hNodup hTasks ⟨h, fun _ => Iff.rfl⟩
  · simpa using hAll
  · refine ⟨hInv.1.reapSlot hTask, fun p => Iff.trans ?_ (hInv.2 p)⟩
    rw [Sched.processList_reapSlot hTask, hInv.1.nodup.mem_erase_iff, map_cons, mem_cons, not_or,
      and_comm (a := p ≠ zombie.2), and_assoc]

lemma Sched.Table.wait (h : s.Table) (cur : ProcRef) (wantStatus : Bool) :
    s.Waits (sysWaitTurn s cur wantStatus).1 cur := by
  have hScan := waitSlots_eq s cur wantStatus schedMaxTasks
  have hTasks : ∀ zombie ∈ s.zombies cur schedMaxTasks, s.tasks zombie.1 = some zombie.2 := fun zombie hZombie =>
    (Sched.mem_zombieIn.mp (Sched.mem_zombies.mp hZombie).2).1
  have hMem : ∀ i p, (i, p) ∈ s.zombies cur schedMaxTasks ↔ s.zombieIn cur i = some p := by
    intro i p
    refine Sched.mem_zombies.trans ⟨And.right, fun hZombie => ⟨?_, hZombie⟩⟩
    exact h.slot_lt i p (Sched.mem_zombieIn.mp hZombie).1
  obtain ⟨hTable, hListed⟩ := h.reapAll (s.nodup_zombies_fst cur schedMaxTasks) hTasks
  simp only [sysWaitTurn, waitScan, hScan]
  refine ⟨hTable, s.proc_reapAll _, fun i => ?_, fun p => (hListed p).trans (and_congr_right fun _ => ?_)⟩
  · rw [Sched.tasks_reapAll]
    refine if_congr ?_ rfl rfl
    simp only [List.mem_map, Prod.exists, exists_eq_right, exists_and_right, hMem, isSome_iff_exists]
  · simp [hMem]

lemma schedFindPid_eq (h : s.Table) (hTask : s.tasks i = some c) : schedFindPid s (s.proc c).pid = some c := by
  have hOnly : ∀ j d, s.tasks j = some d → ((s.proc d).pid : Int) = (s.proc c).pid → d = c := by
    intro j d hSlot hSame
    exact h.pid_inj d (h.listed j d hSlot) c (h.listed i c hTask) (Int.ofNat.inj hSame)
  cases hFind : schedFindPid s (s.proc c).pid with
  | none =>
    have hNone := findSome?_eq_none_iff.mp hFind i (mem_range.mpr (h.slot_lt i c hTask))
    rw [hTask, filter_some, if_pos (decide_eq_true rfl)] at hNone
    cases hNone
  | some d =>
    obtain ⟨j, _, hSlot⟩ := exists_of_findSome?_eq_some hFind
    obtain ⟨hOld, hSame⟩ := filter_eq_some_iff.mp hSlot
    rw [hOnly j d hOld (of_decide_eq_true hSame)]

variable {r r' : WaitRun}

namespace WaitRun

lemma Awaiting.frame {e : Ended} (h : r.Awaiting e)
    (hSlot : ∀ i, r.sched.tasks i = some e.who.ref → r'.sched.tasks i = some e.who.ref)
    (hProc : r'.sched.proc e.who.ref = r.sched.proc e.who.ref) (hLife : r'.identity e.who.ref = r.identity e.who.ref)
    (hParent : (r.sched.proc e.who.ref).parent.map r'.identity =
      (r.sched.proc e.who.ref).parent.map r.identity) : r'.Awaiting e := by
  obtain ⟨i, hi, hTask⟩ := h.slot
  refine ⟨⟨i, hi, hSlot i hTask⟩, hLife.trans h.life, ?_, ?_, ?_, ?_⟩
  · rw [hProc, h.state]
  · rw [hProc, h.pid]
  · rw [hProc, h.status]
  · rw [hProc, hParent, h.parent]

lemma Accounted.frame {e : Ended} (h : r.Accounted e) (hReports : r'.reportsOf e = r.reportsOf e)
    (hAwaiting : r.Awaiting e → r'.Awaiting e) :
    r'.Accounted e := by
  rcases h with ⟨hWaits, hNone⟩ | ⟨report, hOnce, hTells⟩
  · exact Or.inl ⟨hAwaiting hWaits, hReports.trans hNone⟩
  · exact Or.inr ⟨report, hReports.trans hOnce, hTells⟩

variable {sched : Sched}

lemma identity_born {forker : Option Life} (h : c ≠ fresh) : (r.born sched fresh forker).identity c = r.identity c := by
  simp only [identity, born, update_of_ne h]

lemma Inv.identity_fresh (h : r.Inv) {forker : Option Life} :
    ∀ e ∈ r.ended, e.who ≠ (r.born sched fresh forker).identity fresh := by
  intro e he hWho
  have hPast := h.past e he
  rw [hWho] at hPast
  simp only [identity, born, update_self] at hPast
  omega

lemma Inv.born (h : r.Inv) (hAdds : r.sched.Adds sched fresh parent) (hParent : parent ≠ some fresh)
    (hOrphans : ∀ i < schedMaxTasks, ∀ c ∈ r.sched.tasks i, (r.sched.proc c).parent ≠ some fresh) :
    (r.born sched fresh (parent.map r.identity)).Inv := by
  have hOld : ∀ i c, r.sched.tasks i = some c → c ≠ fresh := by
    rintro i c hTask rfl
    exact hAdds.fresh_free (h.table.listed i c hTask)
  have hProc : ∀ i c, r.sched.tasks i = some c → sched.proc c = r.sched.proc c :=
    fun i c hTask => hAdds.proc_other c (hOld i c hTask)
  have hIdentity : ∀ q : Option ProcRef, q ≠ some fresh →
      q.map (r.born sched fresh (parent.map r.identity)).identity = q.map r.identity := by
    rintro (_ | q) hq
    · rfl
    · simp [identity_born fun hEq => hq (congrArg some hEq)]
  have hParents : ∀ i c, r.sched.tasks i = some c → (r.sched.proc c).parent ≠ some fresh :=
    fun i c hTask => hOrphans i (h.table.slot_lt i c hTask) c hTask
  refine { h with table := ?_, parent := ?_, past := ?_, alive := ?_, ended := ?_, unreported := ?_, accounted := ?_ }
  · exact h.table.adds hAdds
  · intro i c hTask
    rcases hAdds.tasks_cases hTask with hTask | ⟨rfl, _⟩
    · show update r.forkedBy fresh _ c = (sched.proc c).parent.map _
      rw [update_of_ne (hOld i c hTask), hProc i c hTask, hIdentity _ (hParents i c hTask)]
      exact h.parent i c hTask
    · show update r.forkedBy c _ c = (sched.proc c).parent.map _
      rw [update_self, hAdds.parent_eq, hIdentity _ hParent]
  · intro e he
    show e.who.number ≤ update r.life fresh _ e.who.ref
    have hPast := h.past e he
    rcases eq_or_ne e.who.ref fresh with hSame | hNe
    · rw [← hSame, update_self]
      omega
    · rwa [update_of_ne hNe]
  · intro i c hTask _ e he
    rcases hAdds.tasks_cases hTask with hTask | ⟨rfl, _⟩
    · rw [identity_born (hOld i c hTask)]
      refine h.alive i c hTask ?_ e he
      rwa [← hProc i c hTask]
    · exact h.identity_fresh e he
  · intro i c hTask hZombie
    rcases hAdds.tasks_cases hTask with hTask | ⟨rfl, _⟩
    · rw [identity_born (hOld i c hTask)]
      refine h.ended i c hTask ?_
      rwa [← hProc i c hTask]
    · exact absurd hZombie hAdds.state_ne.1
  · intro i c hTask report hReport
    rcases hAdds.tasks_cases hTask with hTask | ⟨rfl, _⟩
    · rw [identity_born (hOld i c hTask)]
      exact h.unreported i c hTask report hReport
    · obtain ⟨e, he, hChild⟩ := h.reported report hReport
      rw [hChild]
      exact fun hSame => h.identity_fresh e he (some.inj hSame)
  · intro e he
    refine (h.accounted e he).frame rfl fun hWaits => ?_
    obtain ⟨i, _, hTask⟩ := hWaits.slot
    exact hWaits.frame (fun _ => hAdds.tasks_kept) (hProc i _ hTask)
      (identity_born (hOld i _ hTask)) (hIdentity _ (hParents i _ hTask))

lemma Inv.setState (h : r.Inv) {state : ProcState} (hZombie : state = .zombie ↔ (r.sched.proc proc).state = .zombie) :
    ({ r with sched := r.sched.setState proc state } : WaitRun).Inv := by
  have hFields : ∀ c, ((r.sched.setState proc state).proc c).parent = (r.sched.proc c).parent ∧
      ((r.sched.setState proc state).proc c).pid = (r.sched.proc c).pid ∧
      ((r.sched.setState proc state).proc c).exitStatus = (r.sched.proc c).exitStatus ∧
      (((r.sched.setState proc state).proc c).state = .zombie ↔ (r.sched.proc c).state = .zombie) := by
    intro c
    simp only [Sched.setState]
    rcases eq_or_ne c proc with rfl | hNe
    · rw [update_self]
      exact ⟨rfl, rfl, rfl, hZombie⟩
    · rw [update_of_ne hNe]
      exact ⟨rfl, rfl, rfl, Iff.rfl⟩
  refine { h with table := ?_, parent := ?_, alive := ?_, ended := ?_, accounted := ?_ }
  · exact h.table.update rfl
  · intro i c hTask
    exact (h.parent i c hTask).trans (congrArg (Option.map r.identity) (hFields c).1.symm)
  · intro i c hTask hNe
    exact h.alive i c hTask fun hc => hNe ((hFields c).2.2.2.mpr hc)
  · exact fun i c hTask hc => h.ended i c hTask ((hFields c).2.2.2.mp hc)
  · intro e he
    refine (h.accounted e he).frame rfl fun hWaits => ?_
    obtain ⟨hParent, hPid, hStatus, hState⟩ := hFields e.who.ref
    exact ⟨hWaits.slot, hWaits.life, hState.mpr hWaits.state, hPid.trans hWaits.pid,
      hStatus.trans hWaits.status, (congrArg (Option.map r.identity) hParent).trans hWaits.parent⟩

lemma Inv.exit (h : r.Inv) (hRuns : r.sched.Runs cur) (status : Int) : ({ r with
      sched := processTerminate r.sched cur status
      ended := r.ended ++ [⟨r.identity cur, r.forkedBy cur, (r.sched.proc cur).pid, status⟩] } : WaitRun).Inv := by
  obtain ⟨⟨slot, hLt, hSlot⟩, hRunning⟩ := hRuns
  have hAlive : (r.sched.proc cur).state ≠ .zombie := by
    rw [hRunning]
    decide
  have hOther : ∀ c ≠ cur, (processTerminate r.sched cur status).proc c = r.sched.proc c := fun c hc => update_of_ne hc _ _
  have hSelf : (processTerminate r.sched cur status).proc cur =
      { r.sched.proc cur with exitStatus := status, state := .zombie } := update_self _ _ _
  have hParents : ∀ c, ((processTerminate r.sched cur status).proc c).parent = (r.sched.proc c).parent := by
    intro c
    rcases eq_or_ne c cur with rfl | hNe
    · rw [hSelf]
    · rw [hOther c hNe]
  refine { h with table := ?_, parent := ?_, past := ?_, alive := ?_, ended := ?_, reported := ?_, accounted := ?_ }
  · exact h.table.update rfl
  · intro i c hTask
    exact (h.parent i c hTask).trans (congrArg (Option.map r.identity) (hParents c).symm)
  · intro e he
    rcases mem_append.mp he with he | he
    · exact h.past e he
    · rw [mem_singleton.mp he]
      exact le_rfl
  · intro i c hTask hNe e he
    have hc : c ≠ cur := by
      rintro rfl
      exact hNe (congrArg Process.state hSelf)
    rcases mem_append.mp he with he | he
    · refine h.alive i c hTask ?_ e he
      rwa [← hOther c hc]
    · rw [mem_singleton.mp he]
      exact fun hSame => hc (congrArg Life.ref hSame).symm
  · intro i c hTask hZombie
    rcases eq_or_ne c cur with rfl | hc
    · exact ⟨_, mem_append_right _ (mem_singleton.mpr rfl), rfl⟩
    · obtain ⟨e, he, hWho⟩ := h.ended i c hTask (hOther c hc ▸ hZombie)
      exact ⟨e, mem_append_left _ he, hWho⟩
  · intro report hReport
    obtain ⟨e, he, hChild⟩ := h.reported report hReport
    exact ⟨e, mem_append_left _ he, hChild⟩
  · intro e he
    rcases mem_append.mp he with he | he
    · refine (h.accounted e he).frame rfl fun hWaits => ?_
      have hc : e.who.ref ≠ cur := by
        intro hSame
        rw [← hSame] at hAlive
        exact hAlive hWaits.state
      exact hWaits.frame (fun _ hTask => hTask) (hOther _ hc) rfl rfl
    · rw [mem_singleton.mp he]
      refine Or.inl ⟨⟨⟨slot, hLt, hSlot⟩, rfl, ?_, ?_, ?_, ?_⟩, ?_⟩
      · exact congrArg Process.state hSelf
      · show ((processTerminate r.sched cur status).proc cur).pid = _
        rw [hSelf]
      · exact congrArg Process.exitStatus hSelf
      · exact (congrArg (Option.map r.identity) (hParents cur)).trans (h.parent slot cur hSlot).symm
      · refine filter_eq_nil_iff.mpr fun report hReport => ?_
        simpa using h.unreported slot cur hSlot report hReport

def reportOf (r : WaitRun) (cur child : ProcRef) (wanted : Bool) : Report :=
  ⟨r.identity cur, some (r.identity child), (r.sched.proc child).pid, wanted,
    if wanted then some (r.sched.proc child).exitStatus else none⟩

lemma Inv.reap (h : r.Inv) {child : ProcRef} (wanted : Bool) (hZombie : (i, child) ∈ r.sched.zombies cur schedMaxTasks) :
    ({ r with
      sched := r.sched.reapSlot i
      reports := r.reports ++ [r.reportOf cur child wanted] } : WaitRun).Inv := by
  obtain ⟨hSlot, hParent, hState⟩ := Sched.mem_zombieIn.mp (Sched.mem_zombies.mp hZombie).2
  have hProc := r.sched.proc_reapSlot i
  have hTasks : ∀ j c, (r.sched.reapSlot i).tasks j = some c → r.sched.tasks j = some c ∧ j ≠ i := by
    intro j c hTask
    rw [Sched.tasks_reapSlot] at hTask
    rcases eq_or_ne j i with rfl | hNe
    · rw [update_self] at hTask
      cases hTask
    · rw [update_of_ne hNe] at hTask
      exact ⟨hTask, hNe⟩
  have hOther : ∀ j c, (r.sched.reapSlot i).tasks j = some c → r.identity child ≠ r.identity c := by
    intro j c hTask hSame
    obtain ⟨hOld, hNe⟩ := hTasks j c hTask
    have hRef : child = c := congrArg Life.ref hSame
    rw [← hRef] at hOld
    exact hNe (h.table.slot_inj j i child hOld hSlot)
  constructor
  case table => exact h.table.reapSlot hSlot
  case parent =>
    intro j c hTask
    exact (h.parent j c (hTasks j c hTask).1).trans (by rw [hProc]; rfl)
  case past => exact h.past
  case alive =>
    intro j c hTask hNe
    exact h.alive j c (hTasks j c hTask).1 (hProc ▸ hNe)
  case ended =>
    intro j c hTask hc
    exact h.ended j c (hTasks j c hTask).1 (hProc ▸ hc)
  case unreported =>
    intro j c hTask report hReport
    rcases mem_append.mp hReport with hReport | hReport
    · exact h.unreported j c (hTasks j c hTask).1 report hReport
    · rw [mem_singleton.mp hReport]
      exact fun hSame => hOther j c hTask (some.inj hSame)
  case reported =>
    intro report hReport
    rcases mem_append.mp hReport with hReport | hReport
    · exact h.reported report hReport
    · obtain ⟨e, he, hWho⟩ := h.ended i child hSlot hState
      rw [mem_singleton.mp hReport]
      exact ⟨e, he, congrArg some hWho.symm⟩
  case accounted =>
    intro e he
    rcases eq_or_ne e.who (r.identity child) with hWho | hWho
    · rcases h.accounted e he with ⟨hWaits, hNone⟩ | ⟨report, hOnce, _⟩
      · have hRef : e.who.ref = child := congrArg Life.ref hWho
        refine Or.inr ⟨r.reportOf cur child wanted, ?_, ?_, ?_, ?_⟩
        · simp only [reportsOf, filter_append] at hNone ⊢
          rw [hNone, nil_append, hWho]
          simp [reportOf]
        · rw [← hWaits.parent, hRef, hParent]
          rfl
        · rw [← hWaits.pid, hRef]
          rfl
        · rw [← hWaits.status, hRef]
          rfl
      · have hMem : report ∈ r.reportsOf e := by simp [hOnce]
        obtain ⟨hReport, hChild⟩ := mem_filter.mp hMem
        rw [hWho] at hChild
        exact absurd (of_decide_eq_true hChild) (h.unreported i child hSlot report hReport)
    · refine (h.accounted e he).frame ?_ fun hWaits => ?_
      · have hNew : [r.reportOf cur child wanted].filter (fun report => report.child = some e.who) = [] := by
          refine filter_eq_nil_iff.mpr fun report hReport => ?_
          rw [mem_singleton.mp hReport]
          simpa [reportOf] using fun hSame => hWho hSame.symm
        simp [reportsOf, hNew]
      · refine hWaits.frame ?_ (congrFun hProc _) rfl rfl
        intro j hTask
        have hNe : j ≠ i := by
          rintro rfl
          rw [hSlot] at hTask
          have hRef := some.inj hTask
          exact hWho (hRef ▸ hWaits.life.symm)
        rw [Sched.tasks_reapSlot, update_of_ne hNe, hTask]

lemma Inv.wait (h : r.Inv) (cur : ProcRef) (wanted : Bool) (hOne : (r.sched.zombies cur schedMaxTasks).length ≤ 1) :
    ({ r with
      sched := (sysWaitTurn r.sched cur wanted).1
      reports := r.reports ++ r.reported cur wanted (sysWaitTurn r.sched cur wanted).2 } : WaitRun).Inv := by
  have hOutcome := sysWaitTurn_outcome (fun i c hTask => h.table.pid_pos c (h.table.listed i c hTask)) cur wanted
  generalize sysWaitTurn r.sched cur wanted = turn at hOutcome ⊢
  cases hOutcome with
  | childless hNone =>
    simp only [WaitRun.reported, if_true, append_nil]
    exact h
  | pending hNone =>
    simp only [WaitRun.reported, append_nil]
    exact h
  | reaped before i child hZombies =>
    have hEmpty : before = [] := by
      rw [hZombies, length_append, length_singleton] at hOne
      exact length_eq_zero_iff.mp (by omega)
    subst hEmpty
    have hMem : (i, child) ∈ r.sched.zombies cur schedMaxTasks := by simp [hZombies]
    have hSlot := (Sched.mem_zombieIn.mp (Sched.mem_zombies.mp hMem).2).1
    have hPid : ((r.sched.proc child).pid : Int) ≠ -1 := by omega
    simp only [WaitRun.reported, if_neg hPid, schedFindPid_eq h.table hSlot, map_some]
    exact h.reap wanted hMem

lemma Inv.step (h : r.Inv) {a : WaitAction} (hOk : a.Ok r) (hStep : r.step a = some r') : r'.Inv := by
  cases a with
  | start fresh =>
    obtain ⟨s, hAlloc, rfl⟩ := map_eq_some_iff.mp hStep
    obtain ⟨hAdds, hTasks⟩ := processAlloc_adds hAlloc
    exact h.born (schedAddTask_adds hAdds hTasks) (by simp) hOk
  | fork cur fresh kstack =>
    obtain ⟨⟨⟨i, _, hSlot⟩, _⟩, hResult⟩ := ite_none_right_eq_some.mp hStep
    obtain ⟨s, hFork, rfl⟩ := map_eq_some_iff.mp hResult
    have hAdds := sysFork_adds hFork
    refine h.born hAdds ?_ hOk
    intro hSame
    rw [some.inj hSame] at hSlot
    exact hAdds.fresh_free (h.table.listed i fresh hSlot)
  | exit cur status =>
    obtain ⟨hRuns, ⟨⟩⟩ := ite_none_right_eq_some.mp hStep
    exact h.exit hRuns status
  | wait cur wantStatus =>
    obtain ⟨_, ⟨⟩⟩ := ite_none_right_eq_some.mp hStep
    exact h.wait cur wantStatus hOk
  | sleep cur interruptible =>
    obtain ⟨⟨_, hRunning⟩, ⟨⟩⟩ := ite_none_right_eq_some.mp hStep
    refine h.setState ?_
    rw [hRunning]
    cases interruptible <;> decide
  | stop cur =>
    obtain ⟨⟨_, hRunning⟩, ⟨⟩⟩ := ite_none_right_eq_some.mp hStep
    refine h.setState ?_
    rw [hRunning]
    decide
  | wakeUp proc =>
    cases hStep
    refine h.setState ?_
    cases (r.sched.proc proc).state <;> decide
  | cont proc =>
    obtain ⟨hStopped, ⟨⟩⟩ := ite_none_right_eq_some.mp hStep
    refine h.setState ?_
    rw [hStopped]
    decide

lemma boot_inv (stale : Process) : (boot stale).Inv where
  table := ⟨by simp [boot, schedInit], by simp [boot, schedInit], by simp [boot, schedInit],
    nodup_nil, by simp [boot, schedInit], by simp [boot, schedInit], by simp [boot, schedInit],
    by simp [boot, schedInit]⟩
  parent := by simp [boot, schedInit]
  past := by simp [boot]
  alive := by simp [boot]
  ended := by simp [boot, schedInit]
  unreported := by simp [boot]
  reported := by simp [boot]
  accounted := by simp [boot]

end WaitRun

/-- A turn reaps exactly one child exactly when there is exactly one zombie child. In a run where no turn finds two and
no parent's `struct process` is handed out again, every process that ended is reported at most once, to its parent and
with its own pid and status, and stays in the table until then. -/
theorem wait_reports_each_child (stale : Process) :
    (∀ s : Sched, (∀ i child, s.tasks i = some child → (s.proc child).pid ≠ 0) →
      ∀ cur wanted, (∃ i child, s.ReapsOne cur wanted (sysWaitTurn s cur wanted) i child) ↔
        (s.zombies cur schedMaxTasks).length = 1) ∧
    ∀ actions r, Run WaitRun.step (fun r a => a.Ok r) (WaitRun.boot stale) actions r → (∀ e ∈ r.ended, r.Accounted e) ∧
        ∀ report ∈ r.reports, ∃ e ∈ r.ended, report.child = some e.who := by
  refine ⟨fun s hPid cur wanted => sysWaitTurn_reapsOne_iff hPid cur wanted, ?_⟩
  intro actions r hRun
  have hInv : r.Inv := hRun.invariant (fun _ _ _ hOk h hStep => h.step hOk hStep) (WaitRun.boot_inv stale)
  exact ⟨hInv.accounted, hInv.reported⟩

def blankProcess : Process := ⟨0, none, .running, 0, 0⟩

/-- Of two children that end before their parent waits one is never reported, and a `struct process` used again adopts
an orphan. -/
theorem wait_loses_child : (∃ r, exec WaitRun.step (WaitRun.boot blankProcess)
        [.start 0, .fork 0 1 7, .fork 0 2 8, .exit 1 5, .exit 2 6, .wait 0 true] = some r ∧
      r.ended.map (fun e => (e.who, e.status)) = [(⟨1, 1⟩, 5), (⟨2, 1⟩, 6)] ∧
      r.reports.map (fun report => (report.child, report.status)) = [(some ⟨2, 1⟩, some 6)] ∧
      ∀ i < schedMaxTasks, r.sched.tasks i = some 0 ∨ r.sched.tasks i = none) ∧
    ∃ r, exec WaitRun.step (WaitRun.boot blankProcess)
        [.start 0, .fork 0 1 7, .fork 1 2 8, .exit 1 5, .wait 0 true, .fork 0 1 7, .exit 2 6, .wait 1 true] = some r ∧
      r.ended.map (fun e => (e.who, e.parent)) = [(⟨1, 1⟩, some ⟨0, 1⟩), (⟨2, 1⟩, some ⟨1, 1⟩)] ∧
      r.reports.map (fun report => (report.child, report.caller)) = [(some ⟨1, 1⟩, ⟨0, 1⟩), (some ⟨2, 1⟩, ⟨1, 2⟩)] :=
  ⟨⟨_, rfl, by decide, by decide, by decide⟩, _, rfl, by decide, by decide⟩

theorem wait_reports_each_child_two : ∃ r, exec WaitRun.step (WaitRun.boot blankProcess)
        [.start 0, .fork 0 1 7, .wait 0 true, .exit 1 5, .wait 0 true, .fork 0 2 8, .exit 2 6, .wait 0 false] = some r ∧
      (∀ e ∈ r.ended, r.Accounted e) ∧ ∀ report ∈ r.reports, ∃ e ∈ r.ended, report.child = some e.who := by
  refine ⟨_, rfl, (wait_reports_each_child blankProcess).2
    [.start 0, .fork 0 1 7, .wait 0 true, .exit 1 5, .wait 0 true, .fork 0 2 8, .exit 2 6,
      .wait 0 false] _ (run_of_exec_guarded rfl)⟩

end Fixos.Sys
