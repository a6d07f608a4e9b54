import Fixos.Arch.PhysicalMemory
import Fixos.Sys.Signal

/-! # The task table (`sys/scheduler.c`) and process allocation (`sys/process.c`)

A `struct process` is known by its address in the pool; the table `_tasks` holds addresses.
-/

namespace Fixos.Sys

open Arch Option Function List

def schedMaxTasks : Nat := 10
def configProcMax : Nat := 100
def configPidMax : Nat := 1024

abbrev ProcRef := Nat

structure Process where
  pid : Nat
  parent : Option ProcRef
  state : ProcState
  exitStatus : Int
  kernelStack : Nat
deriving DecidableEq

/-- `proc` gives the contents of every object of the process pool, the freed ones included. -/
structure Sched where
  proc : ProcRef → Process
  tasks : Nat → Option ProcRef
  processList : List ProcRef
  processNumber : Int
  pidUsed : Nat → Bool
  pidNext : Nat
  releasedPages : List Nat

def schedInit (stale : Process) : Sched where
  proc := fun _ => stale
  tasks := fun _ => none
  processList := []
  processNumber := 0
  pidUsed := fun pid => pid = 0
  pidNext := 1
  releasedPages := []

/-- The search of `process_get_pid`, which never ends when every pid is used. -/
def pidSearch (used : Nat → Bool) : Nat → Nat → Option Nat
  | 0, _ => none
  | fuel + 1, pid => if used pid then pidSearch used fuel ((pid + 1) % configPidMax) else some pid

def processGetPid (s : Sched) : Option (Nat × Sched) :=
  (pidSearch s.pidUsed configPidMax s.pidNext).map fun pid =>
    (pid, { s with
      pidNext := (pid + 1) % configPidMax
      pidUsed := update s.pidUsed pid true })

def processReleasePid (s : Sched) (pid : Nat) : Sched :=
  if pid < configPidMax then { s with pidUsed := update s.pidUsed pid false } else s

def processAlloc (s : Sched) (fresh : ProcRef) : Option Sched :=
  if s.processNumber < configProcMax ∧ fresh ∉ s.processList then
    (processGetPid s).map fun (pid, s) => { s with
      proc := update s.proc fresh
        { s.proc fresh with pid, parent := none, state := .create }
      processList := fresh :: s.processList
      processNumber := s.processNumber + 1 }
  else none

def processFree (s : Sched) (proc : ProcRef) : Sched :=
  { processReleasePid s (s.proc proc).pid with
    processList := s.processList.erase proc
    processNumber := s.processNumber - 1 }

def schedAddTask (s : Sched) (task : ProcRef) : Sched :=
  match (range schedMaxTasks).find? fun i => s.tasks i = none with
  | some i => { s with
    tasks := update s.tasks i (some task)
    proc := update s.proc task { s.proc task with state := .running } }
  | none => s

def sysFork (s : Sched) (cur fresh : ProcRef) (kstack : Nat) : Option Sched :=
  (processAlloc s fresh).map fun s =>
    schedAddTask { s with
      proc := update s.proc fresh { s.proc fresh with
        parent := some cur
        kernelStack := (kstack + 1) * pmPageBytes } } fresh

def processTerminate (s : Sched) (proc : ProcRef) (status : Int) : Sched :=
  { s with
    proc := update s.proc proc
      { s.proc proc with exitStatus := status, state := .zombie } }

def Sched.setState (s : Sched) (proc : ProcRef) (state : ProcState) : Sched :=
  { s with proc := update s.proc proc { s.proc proc with state } }

def archPmReleasePage (s : Sched) (address : Nat) : Sched :=
  { s with releasedPages := s.releasedPages ++ [address / pmPageBytes] }

structure WaitScan where
  ret : Int
  status : Option Int
  childFound : Bool
  sched : Sched

def Sched.reapSlot (s : Sched) (i : Nat) : Sched :=
  match s.tasks i with
  | none => s
  | some child =>
    { processFree (archPmReleasePage s ((s.proc child).kernelStack - 1)) child with
      tasks := update s.tasks i none }

def Sched.childIn (s : Sched) (cur : ProcRef) (i : Nat) : Option ProcRef :=
  (s.tasks i).filter fun child => (s.proc child).parent = some cur

def waitSlot (cur : ProcRef) (wantStatus : Bool) (scan : WaitScan) (i : Nat) : WaitScan :=
  match scan.sched.childIn cur i with
  | none => scan
  | some child =>
    let task := scan.sched.proc child
    if task.state = .zombie then
      { ret := task.pid
        status := if wantStatus then some task.exitStatus else scan.status
        childFound := true
        sched := scan.sched.reapSlot i }
    else { scan with childFound := true }

def waitScan (s : Sched) (cur : ProcRef) (wantStatus : Bool) : WaitScan :=
  (range schedMaxTasks).foldl (waitSlot cur wantStatus) ⟨0, none, false, s⟩

/-- One turn of the loop of `sys_wait`: what it returns, or `none` when it has to schedule and
try again. -/
def sysWaitTurn (s : Sched) (cur : ProcRef) (wantStatus : Bool) :
    Sched × Option (Int × Option Int) :=
  let scan := waitScan s cur wantStatus
  let ret := if scan.childFound then scan.ret else -1
  (scan.sched, if ret = 0 then none else some (ret, scan.status))

def Sched.zombieIn (s : Sched) (cur : ProcRef) (i : Nat) : Option ProcRef :=
  (s.childIn cur i).filter fun child => (s.proc child).state = .zombie

def Sched.zombies (s : Sched) (cur : ProcRef) (n : Nat) : List (Nat × ProcRef) :=
  (range n).filterMap fun i => (s.zombieIn cur i).map fun child => (i, child)

def Sched.reapAll (s : Sched) (zombies : List (Nat × ProcRef)) : Sched :=
  zombies.foldl (fun s zombie => s.reapSlot zombie.1) s

lemma Sched.proc_reapSlot (s : Sched) (i : Nat) : (s.reapSlot i).proc = s.proc := by
  simp only [reapSlot]
  split
  · rfl
  · simp only [processFree, processReleasePid]
    split <;> rfl

lemma Sched.tasks_reapSlot (s : Sched) (i : Nat) : (s.reapSlot i).tasks = update s.tasks i none := by
  simp only [reapSlot]
  split
  · rename_i hEmpty
    rw [← hEmpty, update_eq_self]
  · rfl

variable {s : Sched} {i : Nat} {child : ProcRef}

lemma Sched.processList_reapSlot (h : s.tasks i = some child) : (s.reapSlot i).processList = s.processList.erase child := by
  simp only [reapSlot, h]
  rfl

lemma Sched.reapAll_rule {I : Sched → List (Nat × ProcRef) → Prop}
    (hStep : ∀ s zombie zombies, s.tasks zombie.1 = some zombie.2 → I s (zombie :: zombies) →
      I (s.reapSlot zombie.1) zombies) {zombies : List (Nat × ProcRef)} (hNodup : (zombies.map Prod.fst).Nodup)
    (hTasks : ∀ zombie ∈ zombies, s.tasks zombie.1 = some zombie.2) (hInit : I s zombies) :
    I (s.reapAll zombies) [] := by
  induction zombies generalizing s with
  | nil => exact hInit
  | cons zombie zombies ih =>
    obtain ⟨hNew, hRest⟩ := nodup_cons.mp hNodup
    refine ih hRest (fun other hOther => ?_) (hStep s zombie zombies (hTasks zombie mem_cons_self) hInit)
    rw [tasks_reapSlot, update_of_ne, hTasks other (mem_cons_of_mem _ hOther)]
    intro hEq
    exact hNew (hEq ▸ mem_map_of_mem hOther)

lemma Sched.proc_reapAll (s : Sched) (zombies : List (Nat × ProcRef)) : (s.reapAll zombies).proc = s.proc := by
  induction zombies generalizing s with
  | nil => rfl
  | cons zombie zombies ih => exact (ih (s.reapSlot zombie.1)).trans (proc_reapSlot s _)

lemma Sched.tasks_reapAll (s : Sched) (zombies : List (Nat × ProcRef)) (i : Nat) :
    (s.reapAll zombies).tasks i = if i ∈ zombies.map Prod.fst then none else s.tasks i := by
  induction zombies generalizing s with
  | nil => rfl
  | cons zombie zombies ih =>
    refine (ih (s.reapSlot zombie.1)).trans ?_
    rw [tasks_reapSlot, map_cons, update_apply]
    rcases eq_or_ne i zombie.1 with rfl | hOther
    · simp
    · simp only [hOther, if_false, mem_cons, false_or]

lemma Sched.reapAll_append (s : Sched) (zombies others : List (Nat × ProcRef)) :
    s.reapAll (zombies ++ others) = (s.reapAll zombies).reapAll others :=
  foldl_append

variable {cur : ProcRef}

lemma Sched.mem_zombies {n : Nat} : (i, child) ∈ s.zombies cur n ↔ i < n ∧ s.zombieIn cur i = some child := by
  simp only [zombies, mem_filterMap, mem_range, map_eq_some_iff, Prod.mk.injEq]
  constructor
  · rintro ⟨j, hj, c, hc, rfl, rfl⟩
    exact ⟨hj, hc⟩
  · rintro ⟨hi, hc⟩
    exact ⟨i, hi, child, hc, rfl, rfl⟩

lemma Sched.mem_zombieIn : s.zombieIn cur i = some child ↔ s.tasks i = some child ∧
      (s.proc child).parent = some cur ∧ (s.proc child).state = .zombie := by
  simp [zombieIn, childIn]

lemma Sched.zombies_succ (s : Sched) (cur : ProcRef) (n : Nat) : s.zombies cur (n + 1) =
      s.zombies cur n ++ ((s.zombieIn cur n).map fun child => (n, child)).toList := by
  simp only [zombies, range_succ, filterMap_append, filterMap_cons, filterMap_nil]
  cases s.zombieIn cur n <;> rfl

lemma Sched.tasks_reapAll_zombies (s : Sched) (cur : ProcRef) {n : Nat} (h : n ≤ i) :
    (s.reapAll (s.zombies cur n)).tasks i = s.tasks i := by
  rw [tasks_reapAll, if_neg]
  intro hMem
  obtain ⟨⟨j, _⟩, hZombie, rfl⟩ := mem_map.mp hMem
  have hLt := (mem_zombies.mp hZombie).1
  exact absurd h (Nat.not_le.mpr hLt)

/-- The pid and the exit status of the last zombie found are what a scan reports, while every
zombie found is destroyed. -/
lemma waitSlots_eq (s : Sched) (cur : ProcRef) (wantStatus : Bool) (n : Nat) :
    (range n).foldl (waitSlot cur wantStatus) ⟨0, none, false, s⟩ =
      { ret := ((s.zombies cur n).getLast?.map fun zombie => ((s.proc zombie.2).pid : Int)).getD 0
        status := (s.zombies cur n).getLast?.bind fun zombie =>
          if wantStatus then some (s.proc zombie.2).exitStatus else none
        childFound := (range n).any fun i => (s.childIn cur i).isSome
        sched := s.reapAll (s.zombies cur n) } := by
  induction n with
  | zero => rfl
  | succ n ih =>
    have hChild : (s.reapAll (s.zombies cur n)).childIn cur n = s.childIn cur n := by
      rw [Sched.childIn, Sched.tasks_reapAll_zombies s cur le_rfl, Sched.proc_reapAll]
      rfl
    rw [range_succ, foldl_append, ih, foldl_cons, foldl_nil, waitSlot]
    simp only [hChild, Sched.proc_reapAll, Sched.zombies_succ, Sched.zombieIn, any_append, any_cons, any_nil, Bool.or_false]
    cases hSlot : s.childIn cur n with
    | none => simp
    | some child =>
      rcases eq_or_ne (s.proc child).state .zombie with hZombie | hAlive
      · simp only [hZombie, filter_some, decide_true, if_true, map_some,
          toList_some, getLast?_append, getLast?_singleton, some_or,
          getD_some, bind_some, isSome_some, Bool.or_true,
          Sched.reapAll_append]
        cases wantStatus with
        | true => rfl
        | false => simp only [Bool.false_eq_true, if_false, bind_fun_none]; rfl
      · have hNone : (some child).filter (fun child => (s.proc child).state = .zombie) = none := by
          rw [filter_some, if_neg (by simpa using hAlive)]
        simp [hNone, if_neg hAlive]

inductive WaitOutcome (s : Sched) (cur : ProcRef) (wantStatus : Bool) :
    Sched × Option (Int × Option Int) → Prop
  | childless (hNone : s.zombies cur schedMaxTasks = []) : WaitOutcome s cur wantStatus (s, some (-1, none))
  | pending (hNone : s.zombies cur schedMaxTasks = []) : WaitOutcome s cur wantStatus (s, none)
  | reaped (before : List (Nat × ProcRef)) (i : Nat) (child : ProcRef)
      (hZombies : s.zombies cur schedMaxTasks = before ++ [(i, child)]) :
    WaitOutcome s cur wantStatus (s.reapAll (before ++ [(i, child)]),
      some (((s.proc child).pid : Int), if wantStatus then some (s.proc child).exitStatus else none))

lemma sysWaitTurn_outcome (hPid : ∀ i child, s.tasks i = some child → (s.proc child).pid ≠ 0) (cur : ProcRef)
    (wantStatus : Bool) :
    WaitOutcome s cur wantStatus (sysWaitTurn s cur wantStatus) := by
  have hScan := waitSlots_eq s cur wantStatus schedMaxTasks
  simp only [sysWaitTurn, waitScan, hScan]
  rcases eq_nil_or_concat (s.zombies cur schedMaxTasks) with hNone | ⟨before, ⟨i, child⟩, hZombies⟩
  · simp only [hNone, getLast?_nil, map_none, getD_none, bind_none]
    split
    · exact .pending hNone
    · exact .childless hNone
  · rw [concat_eq_append] at hZombies
    have hLast : (i, child) ∈ s.zombies cur schedMaxTasks := by simp [hZombies]
    obtain ⟨hi, hChild⟩ := Sched.mem_zombies.mp hLast
    have hTask := (Sched.mem_zombieIn.mp hChild).1
    have hFound : (range schedMaxTasks).any (fun i => (s.childIn cur i).isSome) = true := by
      refine any_eq_true.mpr ⟨i, mem_range.mpr hi, ?_⟩
      rw [(filter_eq_some_iff.mp hChild).1]
      rfl
    have hRet : ((s.proc child).pid : Int) ≠ 0 := Int.natCast_ne_zero.mpr (hPid i child hTask)
    simp only [hFound, if_true, hZombies, getLast?_append, getLast?_singleton,
      some_or, map_some, getD_some, bind_some, if_neg hRet]
    exact .reaped before i child hZombies

/-- One zombie child of `cur` is destroyed and reported, and nothing else is touched. -/
structure Sched.ReapsOne (s : Sched) (cur : ProcRef) (wantStatus : Bool)
    (result : Sched × Option (Int × Option Int)) (i : Nat) (child : ProcRef) : Prop where
  zombie : (i, child) ∈ s.zombies cur schedMaxTasks
  returned : result.2 = some (((s.proc child).pid : Int),
    if wantStatus then some (s.proc child).exitStatus else none)
  tasks : result.1.tasks = update s.tasks i none
  processList : result.1.processList = s.processList.erase child
  releasedPages : result.1.releasedPages =
    s.releasedPages ++ [((s.proc child).kernelStack - 1) / pmPageBytes]
  proc : result.1.proc = s.proc

lemma Sched.reapsOne_reapSlot (wantStatus : Bool) (h : (i, child) ∈ s.zombies cur schedMaxTasks) :
    s.ReapsOne cur wantStatus (s.reapSlot i, some (((s.proc child).pid : Int),
      if wantStatus then some (s.proc child).exitStatus else none)) i child := by
  have hTask := (mem_zombieIn.mp (mem_zombies.mp h).2).1
  refine ⟨h, rfl, tasks_reapSlot s i, processList_reapSlot hTask, ?_, proc_reapSlot s i⟩
  simp only [reapSlot, hTask, processFree, processReleasePid]
  split <;> rfl

lemma Sched.nodup_zombies (s : Sched) (cur : ProcRef) (n : Nat) : (s.zombies cur n).Nodup := by
  refine List.Nodup.filterMap ?_ nodup_range
  intro i j _ hi hj
  obtain ⟨_, _, rfl⟩ := map_eq_some_iff.mp hi
  obtain ⟨_, _, hSame⟩ := map_eq_some_iff.mp hj
  exact (congrArg Prod.fst hSame).symm

lemma Sched.nodup_zombies_fst (s : Sched) (cur : ProcRef) (n : Nat) : ((s.zombies cur n).map Prod.fst).Nodup := by
  refine (nodup_map_iff_inj_on (s.nodup_zombies cur n)).mpr ?_
  rintro ⟨i, c⟩ hc ⟨j, d⟩ hd hEq
  obtain rfl : i = j := hEq
  have hSame := (Sched.mem_zombies.mp hc).2.symm.trans (Sched.mem_zombies.mp hd).2
  rw [some.inj hSame]

lemma tasks_sysWaitTurn (wantStatus : Bool) (h : (i, child) ∈ s.zombies cur schedMaxTasks) :
    (sysWaitTurn s cur wantStatus).1.tasks i = none := by
  simp only [sysWaitTurn, waitScan, waitSlots_eq]
  rw [Sched.tasks_reapAll, if_pos (mem_map_of_mem h)]

lemma sysWaitTurn_reapsOne_iff (hPid : ∀ i child, s.tasks i = some child → (s.proc child).pid ≠ 0) (cur : ProcRef)
    (wantStatus : Bool) :
    (∃ i child, s.ReapsOne cur wantStatus (sysWaitTurn s cur wantStatus) i child) ↔
      (s.zombies cur schedMaxTasks).length = 1 := by
  constructor
  · rintro ⟨i, child, hOne⟩
    have hOnly : ∀ z ∈ s.zombies cur schedMaxTasks, z = (i, child) := by
      rintro ⟨j, other⟩ hOther
      have hTask := (Sched.mem_zombieIn.mp (Sched.mem_zombies.mp hOther).2).1
      have hChild := (Sched.mem_zombieIn.mp (Sched.mem_zombies.mp hOne.zombie).2).1
      have hGone := tasks_sysWaitTurn wantStatus hOther
      rw [hOne.tasks, update_apply] at hGone
      rcases eq_or_ne j i with rfl | hNe
      · rw [hTask] at hChild
        rw [some.inj hChild]
      · rw [if_neg hNe, hTask] at hGone
        cases hGone
    have hNodup := s.nodup_zombies cur schedMaxTasks
    rw [eq_replicate_of_mem hOnly, nodup_replicate] at hNodup
    have hPos : 0 < (s.zombies cur schedMaxTasks).length := length_pos_of_mem hOne.zombie
    exact Nat.le_antisymm hNodup hPos
  · intro hLength
    obtain ⟨⟨i, child⟩, hZombies⟩ := length_eq_one_iff.mp hLength
    have hMem : (i, child) ∈ s.zombies cur schedMaxTasks := by simp [hZombies]
    have hOutcome := sysWaitTurn_outcome hPid cur wantStatus
    refine ⟨i, child, ?_⟩
    generalize sysWaitTurn s cur wantStatus = result at hOutcome ⊢
    cases hOutcome with
    | childless hNone | pending hNone => simp [hNone] at hLength
    | reaped before j other hLast =>
      have hSame : before = [] ∧ (j, other) = (i, child) := by
        rw [hZombies, ← nil_append [(i, child)]] at hLast
        exact ⟨(append_inj_left' hLast rfl).symm, by simpa using (append_inj_right' hLast rfl).symm⟩
      obtain ⟨rfl, ⟨⟩⟩ := hSame
      exact Sched.reapsOne_reapSlot wantStatus hMem

end Fixos.Sys
