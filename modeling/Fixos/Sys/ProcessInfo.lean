import Fixos.Sys.Scheduler

/-! # The list of processes for `sysctl` (`sys/process.c`) -/

namespace Fixos.Sys

open List

structure ProcUinfo where
  pid : Nat
  ppid : Nat
  state : ProcState
  exitStatus : Int
  uticks : Nat
  kticks : Nat
  cpuUsage : Int
deriving DecidableEq

def procUinfoBytes : Nat := 28

/-- `loadAverage` is what `load_proc_average` answers for a process. -/
structure ProcStats where
  sched : Sched
  current : ProcRef
  uticks : ProcRef → Nat
  kticks : ProcRef → Nat
  loadAverage : ProcRef → Int
  number_eq : sched.processNumber = sched.processList.length

namespace ProcStats

variable (s : ProcStats)

def parentPid (proc : ProcRef) : Nat :=
  match (s.sched.proc proc).parent with
  | none => 0
  | some parent => (s.sched.proc parent).pid

/-- The argument of the calls is not a parameter of the function. -/
def processGetPpid : Nat := s.parentPid s.current

def copyProcUser (proc : ProcRef) : ProcUinfo where
  cpuUsage := s.loadAverage proc
  kticks := s.kticks proc
  uticks := s.uticks proc
  pid := (s.sched.proc proc).pid
  ppid := s.processGetPpid
  state := (s.sched.proc proc).state
  exitStatus := (s.sched.proc proc).exitStatus

/-- The records with their offsets in the buffer. -/
def copyProcs (size : Nat) : Nat → List ProcRef → List (Nat × ProcUinfo)
  | _, [] => []
  | curUinfo, proc :: rest => (curUinfo, s.copyProcUser proc) ::
      if curUinfo + procUinfoBytes > size then [] else copyProcs size (curUinfo + procUinfoBytes) rest

/-- The value returned, the length afterwards and what is written. -/
def accessProcAll (oldbuf : Bool) : Option Nat → Int × Option Nat × List (Nat × ProcUinfo)
  | none => (-1, none, [])
  | some oldlen =>
    let size := s.sched.processNumber.toNat * procUinfoBytes
    if oldlen ≥ size ∧ oldbuf then (0, some size, s.copyProcs size 0 s.sched.processList)
    else (-1, some (size + procUinfoBytes), [])

def info (proc : ProcRef) : ProcUinfo :=
  let p := s.sched.proc proc
  ⟨p.pid, s.parentPid proc, p.state, p.exitStatus, s.uticks proc, s.kticks proc, s.loadAverage proc⟩

end ProcStats

section

variable (s : ProcStats)

lemma copyProcs_eq {size curUinfo : Nat} {l : List ProcRef} (hSize : curUinfo + l.length * procUinfoBytes ≤ size) :
    s.copyProcs size curUinfo l = l.mapIdx fun i proc => (curUinfo + i * procUinfoBytes, s.copyProcUser proc) := by
  induction l generalizing curUinfo with
  | nil => rfl
  | cons proc l ih =>
    rw [length_cons, Nat.succ_mul] at hSize
    rw [ProcStats.copyProcs, if_neg (by omega), ih (by omega), mapIdx_cons]
    simp only [Nat.zero_mul, Nat.add_zero, Nat.succ_mul, Nat.add_assoc, Nat.add_comm procUinfoBytes]

end

/-- The records are right exactly if all processes have the parent pid of the one that asks. The length reported has
room for one more process. -/
theorem access_proc_all_iff (s : ProcStats) :
    (∀ oldlen, (s.sched.processList.length * procUinfoBytes ≤ oldlen → s.accessProcAll true (some oldlen) =
        (0, some (s.sched.processList.length * procUinfoBytes),
          s.sched.processList.mapIdx fun i proc => (i * procUinfoBytes, s.info proc))) ∧
      (oldlen < s.sched.processList.length * procUinfoBytes → ∀ oldbuf, s.accessProcAll oldbuf (some oldlen) =
        (-1, some ((s.sched.processList.length + 1) * procUinfoBytes), []))) ↔
      ∀ proc ∈ s.sched.processList, s.parentPid proc = s.parentPid s.current := by
  have hRecord (i : Nat) (proc : ProcRef) : (i * procUinfoBytes, s.copyProcUser proc) = (i * procUinfoBytes, s.info proc) ↔
      s.parentPid proc = s.parentPid s.current := by
    simp [ProcStats.info, ProcStats.copyProcUser, ProcStats.processGetPpid, eq_comm]
  have hSame : (s.copyProcs (s.sched.processList.length * procUinfoBytes) 0 s.sched.processList =
      s.sched.processList.mapIdx fun i proc => (i * procUinfoBytes, s.info proc)) ↔
        ∀ proc ∈ s.sched.processList, s.parentPid proc = s.parentPid s.current := by
    rw [copyProcs_eq s (Nat.le_of_eq (Nat.zero_add _)), mapIdx_eq_mapIdx_iff, forall_mem_iff_forall_getElem]
    simp [hRecord]
  simp only [ProcStats.accessProcAll, s.number_eq, Int.toNat_natCast]
  rw [← hSame]
  constructor
  · intro h
    have hAll := (h _).1 (Nat.le_refl _)
    rw [if_pos ⟨Nat.le_refl _, trivial⟩] at hAll
    exact (Prod.mk.inj (Prod.mk.inj hAll).2).2
  · intro h oldlen
    refine ⟨fun hLarge => ?_, fun hSmall oldbuf => ?_⟩
    · rw [if_pos ⟨hLarge, trivial⟩, h]
    · rw [if_neg fun hLarge => Nat.not_le.mpr hSmall hLarge.1, Nat.succ_mul]

/-- A process without a parent and a child of it: no parent is shown for the child. -/
theorem access_proc_all_own_parent : ∃ s : ProcStats, s.sched.processList = [2, 1] ∧ s.parentPid 2 = 1 ∧
    (s.accessProcAll true (some 56)).2.2.map (fun record => (record.2.pid, record.2.ppid)) = [(2, 0), (1, 0)] :=
  ⟨⟨{ schedInit ⟨0, none, .running, 0, 0⟩ with
      proc := fun p => ⟨p, if p = 2 then some 1 else none, .running, 0, 0⟩
      processList := [2, 1]
      processNumber := 2 }, 1, fun _ => 0, fun _ => 0, fun _ => 0, rfl⟩, by decide⟩

end Fixos.Sys
