import Fixos.Lib.Cyclic
import Fixos.Utils.Bitfield
import Fixos.Sys.Wait

/-! # Processes and their pids (`sys/process.c`)

The search for a free pid goes around the bits of `_pid_used`, and ends because fewer processes are allowed than there
are pids.
-/

namespace Fixos.Sys

open Transition Utils Option Function List

structure ProcConfig where
  procMax : Nat
  pidMax : Nat
  lt : procMax < pidMax

def configured : ProcConfig := ⟨configProcMax, configPidMax, by decide⟩

/-- `pid` gives the pid field of every object of the process pool. -/
structure ProcTable (cfg : ProcConfig) where
  pidUsed : Bitfield cfg.pidMax
  pidNext : Nat
  processList : List ProcRef
  processNumber : Int
  pid : ProcRef → Nat

section

variable {cfg : ProcConfig}

def processInit (stale : Bitfield cfg.pidMax) (pid : ProcRef → Nat) : Option (ProcTable cfg) := do
  let field ← bitfieldAllClear stale cfg.pidMax
  let pidUsed ← bitfieldSet field 0
  return { pidUsed, pidNext := 1, processList := [], processNumber := 0, pid }

/-- It comes back to its first pid after as many turns as there are pids, so it ends within these or never. -/
def pidLoop (field : Bitfield cfg.pidMax) : Nat → Nat → Option Nat
  | 0, _ => none
  | turns + 1, ret => (bitfieldGet field ret).bind fun used =>
    if used then pidLoop field turns ((ret + 1) % cfg.pidMax) else some ret

namespace ProcTable

def processGetPid (t : ProcTable cfg) : Option (Nat × ProcTable cfg) := do
  let ret ← pidLoop t.pidUsed cfg.pidMax t.pidNext
  let pidUsed ← bitfieldSet t.pidUsed ret
  return (ret, { t with pidUsed, pidNext := (ret + 1) % cfg.pidMax })

def processReleasePid (t : ProcTable cfg) (pid : Nat) : Option (ProcTable cfg) :=
  if pid < cfg.pidMax then (bitfieldClear t.pidUsed pid).map fun pidUsed => { t with pidUsed } else some t

/-- `object` is what the process pool answers, and the result of the call is returned with the new table. -/
def processAlloc (t : ProcTable cfg) (object : Option ProcRef) : Option (ProcTable cfg × Option ProcRef) :=
  if t.processNumber < cfg.procMax then
    match object with
    | none => some (t, none)
    | some proc => t.processGetPid.map fun (ret, t) => ({ t with
        pid := update t.pid proc ret
        processList := proc :: t.processList
        processNumber := t.processNumber + 1 }, some proc)
  else some (t, none)

def processFree (t : ProcTable cfg) (proc : ProcRef) : Option (ProcTable cfg) :=
  (t.processReleasePid (t.pid proc)).map fun u => { u with
    processList := t.processList.erase proc
    processNumber := t.processNumber - 1 }

end ProcTable

inductive ProcCall where
  | alloc (object : Option ProcRef)
  | free (proc : ProcRef)

def ProcTable.step (t : ProcTable cfg) : ProcCall → Option (ProcTable cfg)
  | .alloc object => (t.processAlloc object).map Prod.fst
  | .free proc => t.processFree proc

/-- The pool does not hand out the object of a live process, and only live processes are freed. -/
def ProcTable.Allowed (t : ProcTable cfg) : ProcCall → Prop
  | .alloc object => ∀ proc, object = some proc → proc ∉ t.processList
  | .free proc => proc ∈ t.processList

instance ProcTable.decidableAllowed (t : ProcTable cfg) (a : ProcCall) : Decidable (t.Allowed a) := by
  unfold ProcTable.Allowed
  split <;> infer_instance

def ProcTable.held (t : ProcTable cfg) (pid : Nat) : Bool := decide (pid = 0 ∨ ∃ c ∈ t.processList, t.pid c = pid)

structure ProcTable.Sound (t : ProcTable cfg) : Prop where
  nodup : t.processList.Nodup
  pid_inj : ∀ c ∈ t.processList, ∀ d ∈ t.processList, t.pid c = t.pid d → c = d
  pid_pos : ∀ c ∈ t.processList, t.pid c ≠ 0
  pid_lt : ∀ c ∈ t.processList, t.pid c < cfg.pidMax
  shows : t.pidUsed.Shows t.held
  number_eq : t.processNumber = t.processList.length
  number_le : t.processList.length ≤ cfg.procMax
  next_lt : 0 < cfg.procMax → t.pidNext < cfg.pidMax

end

section

variable {cfg : ProcConfig} {t : ProcTable cfg}

lemma pidLoop_eq_search {field : Bitfield cfg.pidMax} {value : Nat → Bool} (h : field.Shows value) {turns ret : Nat}
    (hRet : ret < cfg.pidMax) : pidLoop field turns ret = Cyclic.search cfg.pidMax value turns ret := by
  induction turns generalizing ret with
  | zero => rfl
  | succ turns ih =>
    rw [pidLoop, h ret hRet, bind_some, Cyclic.search]
    split
    · exact ih (Nat.mod_lt _ (Nat.zero_lt_of_lt hRet))
    · rfl

lemma ProcTable.free_pid (hRoom : t.processList.length < cfg.procMax) : ∃ pid < cfg.pidMax, t.held pid = false := by
  have hCard : (0 :: t.processList.map t.pid).toFinset.card < (Finset.range cfg.pidMax).card := by
    have hLe := toFinset_card_le (0 :: t.processList.map t.pid)
    have hLt := cfg.lt
    rw [length_cons, length_map] at hLe
    rw [Finset.card_range]
    omega
  obtain ⟨pid, hPid, hNotMem⟩ := Finset.exists_mem_notMem_of_card_lt_card hCard
  refine ⟨pid, Finset.mem_range.mp hPid, decide_eq_false fun hHeld => hNotMem ?_⟩
  rw [List.mem_toFinset, mem_cons, List.mem_map]
  exact hHeld

lemma ProcTable.Sound.pidLoop_ends (h : t.Sound) (hRoom : t.processList.length < cfg.procMax) :
    ∃ ret < cfg.pidMax, pidLoop t.pidUsed cfg.pidMax t.pidNext = some ret ∧ t.held ret = false := by
  have hNext := h.next_lt (Nat.zero_lt_of_lt hRoom)
  obtain ⟨_, hPid, hFree⟩ := ProcTable.free_pid hRoom
  obtain ⟨ret, hSearch, _⟩ := Cyclic.search_reaches t.held hNext hPid hFree (Cyclic.dist_lt hNext hPid)
  exact ⟨ret, Cyclic.search_lt hNext hSearch, (pidLoop_eq_search h.shows hNext).trans hSearch, Cyclic.search_stops hSearch⟩

end

section

variable {cfg : ProcConfig} {t : ProcTable cfg} {proc : ProcRef}

namespace ProcTable

def withProc (t : ProcTable cfg) (proc : ProcRef) (pid : Nat) (pidUsed : Bitfield cfg.pidMax) : ProcTable cfg :=
  { t with
    pidUsed
    pidNext := (pid + 1) % cfg.pidMax
    pid := update t.pid proc pid
    processList := proc :: t.processList
    processNumber := t.processNumber + 1 }

lemma withProc_pid (pid : Nat) {c : ProcRef} (hNew : proc ∉ t.processList) (hc : c ∈ proc :: t.processList) :
    (c = proc ∧ update t.pid proc pid c = pid) ∨ (c ∈ t.processList ∧ update t.pid proc pid c = t.pid c) := by
  rcases mem_cons.mp hc with rfl | hOld
  · exact Or.inl ⟨rfl, update_self _ _ _⟩
  · refine Or.inr ⟨hOld, update_of_ne ?_ _ _⟩
    rintro rfl
    exact hNew hOld

section

variable (h : t.Sound) (hRoom : t.processList.length < cfg.procMax) (hNew : proc ∉ t.processList)
include h hRoom hNew

lemma Sound.withProc {ret : Nat} {pidUsed : Bitfield cfg.pidMax} (hRet : ret < cfg.pidMax)
    (hFree : t.held ret = false) (hShows : pidUsed.Shows (update t.held ret true)) :
    (t.withProc proc ret pidUsed).Sound := by
  have hNotHeld : ret ≠ 0 ∧ ∀ c ∈ t.processList, t.pid c ≠ ret := by
    rw [held, decide_eq_false_iff_not, not_or, not_exists] at hFree
    exact ⟨hFree.1, fun c hc hEq => hFree.2 c ⟨hc, hEq⟩⟩
  constructor
  case nodup => exact nodup_cons.mpr ⟨hNew, h.nodup⟩
  case pid_inj =>
    intro c hc d hd hSame
    dsimp only [ProcTable.withProc] at hSame
    rcases withProc_pid ret hNew hc with ⟨hcNew, hcPid⟩ | ⟨hcOld, hcPid⟩ <;> rw [hcPid] at hSame <;>
      rcases withProc_pid ret hNew hd with ⟨hdNew, hdPid⟩ | ⟨hdOld, hdPid⟩ <;> rw [hdPid] at hSame
    · exact hcNew.trans hdNew.symm
    · exact absurd hSame.symm (hNotHeld.2 d hdOld)
    · exact absurd hSame (hNotHeld.2 c hcOld)
    · exact h.pid_inj c hcOld d hdOld hSame
  case pid_pos =>
    intro c hc
    dsimp only [ProcTable.withProc]
    rcases withProc_pid ret hNew hc with ⟨_, hPid⟩ | ⟨hOld, hPid⟩ <;> rw [hPid]
    · exact hNotHeld.1
    · exact h.pid_pos c hOld
  case pid_lt =>
    intro c hc
    dsimp only [ProcTable.withProc]
    rcases withProc_pid ret hNew hc with ⟨_, hPid⟩ | ⟨hOld, hPid⟩ <;> rw [hPid]
    · exact hRet
    · exact h.pid_lt c hOld
  case shows =>
    intro pid hPid
    refine (hShows pid hPid).trans (congrArg some ?_)
    have hOthers : (∃ c ∈ t.processList, update t.pid proc ret c = pid) ↔ ∃ c ∈ t.processList, t.pid c = pid := by
      refine exists_congr fun c => and_congr_right fun hc => ?_
      have hNe : c ≠ proc := by
        rintro rfl
        exact hNew hc
      rw [update_of_ne hNe]
    rw [update_apply, Bool.eq_iff_iff]
    simp only [ProcTable.withProc, held, decide_eq_true_eq, mem_cons, or_and_right, exists_or, exists_eq_left,
      update_self, hOthers]
    split_ifs with hEq
    · simp [hEq]
    · simp [Ne.symm hEq]
  case number_eq =>
    dsimp only [ProcTable.withProc]
    rw [h.number_eq, length_cons, Int.natCast_succ]
  case number_le => exact hRoom
  case next_lt => exact fun _ => Nat.mod_lt _ (Nat.zero_lt_of_lt cfg.lt)

lemma Sound.alloc_object : ∃ u, t.processAlloc (some proc) = some (u, some proc) ∧ u.Sound := by
  obtain ⟨ret, hRet, hLoop, hFree⟩ := h.pidLoop_ends hRoom
  obtain ⟨pidUsed, hSet, hShows⟩ := h.shows.set hRet
  have hRoomInt : t.processNumber < cfg.procMax := by
    rw [h.number_eq]
    exact Int.ofNat_lt.mpr hRoom
  have hGet : t.processGetPid = some (ret, { t with pidUsed, pidNext := (ret + 1) % cfg.pidMax }) := by
    rw [processGetPid, hLoop, bind_eq_bind, bind_some, hSet]
    rfl
  refine ⟨t.withProc proc ret pidUsed, ?_, h.withProc hRoom hNew hRet hFree hShows⟩
  rw [processAlloc, if_pos hRoomInt]
  simp only [hGet, map_some]
  rfl

end

lemma Sound.alloc (h : t.Sound) {object : Option ProcRef} (hNew : ∀ proc, object = some proc → proc ∉ t.processList) :
    ∃ u result, t.processAlloc object = some (u, result) ∧ u.Sound := by
  rcases lt_or_ge t.processNumber cfg.procMax with hRoom | hFull
  · cases object with
    | none => exact ⟨t, none, if_pos hRoom, h⟩
    | some proc =>
      rw [h.number_eq, Int.ofNat_lt] at hRoom
      obtain ⟨u, hAlloc, hSound⟩ := h.alloc_object hRoom (hNew proc rfl)
      exact ⟨u, some proc, hAlloc, hSound⟩
  · exact ⟨t, none, if_neg (Int.not_lt.mpr hFull), h⟩

lemma Sound.free (h : t.Sound) (hLive : proc ∈ t.processList) : ∃ u, t.processFree proc = some u ∧ u.Sound := by
  obtain ⟨pidUsed, hClear, hShows⟩ := h.shows.clear (h.pid_lt proc hLive)
  have hMem : ∀ c, c ∈ t.processList.erase proc ↔ c ≠ proc ∧ c ∈ t.processList := fun c => h.nodup.mem_erase_iff
  have hLength := length_erase_of_mem hLive
  have hPos := length_pos_of_mem hLive
  have hRelease : t.processReleasePid (t.pid proc) = some { t with pidUsed } := by
    rw [processReleasePid, if_pos (h.pid_lt proc hLive), hClear]
    rfl
  refine ⟨{ t with
    pidUsed
    processList := t.processList.erase proc
    processNumber := t.processNumber - 1 }, by rw [processFree, hRelease]; rfl, ?_⟩
  constructor
  case nodup => exact h.nodup.erase proc
  case pid_inj => exact fun c hc d hd => h.pid_inj c ((hMem c).mp hc).2 d ((hMem d).mp hd).2
  case pid_pos => exact fun c hc => h.pid_pos c ((hMem c).mp hc).2
  case pid_lt => exact fun c hc => h.pid_lt c ((hMem c).mp hc).2
  case shows =>
    intro pid hPid
    refine (hShows pid hPid).trans (congrArg some ?_)
    rw [update_apply, Bool.eq_iff_iff]
    split
    · rename_i hEq
      subst hEq
      simp only [held, Bool.false_eq_true, decide_eq_true_eq, false_iff, not_or, not_exists]
      refine ⟨h.pid_pos proc hLive, fun c hc => ?_⟩
      obtain ⟨hNe, hOld⟩ := (hMem c).mp hc.1
      exact hNe (h.pid_inj c hOld proc hLive hc.2)
    · rename_i hNe
      rw [held, held, decide_eq_true_eq, decide_eq_true_eq]
      refine or_congr_right (exists_congr fun c => and_congr_left fun hPid => ((hMem c).trans ?_).symm)
      exact and_iff_right fun hEq => hNe (hEq ▸ hPid.symm)
  case number_eq =>
    dsimp only
    rw [h.number_eq, hLength]
    omega
  case number_le =>
    have hLe := h.number_le
    dsimp only
    omega
  case next_lt => exact h.next_lt

lemma Sound.step_total (h : t.Sound) {a : ProcCall} (hAllowed : t.Allowed a) : ∃ u, t.step a = some u ∧ u.Sound := by
  cases a with
  | alloc object =>
    obtain ⟨u, _, hAlloc, hSound⟩ := h.alloc hAllowed
    exact ⟨u, by rw [step, hAlloc]; rfl, hSound⟩
  | free proc => exact h.free hAllowed

end ProcTable

lemma processInit_sound (stale : Bitfield cfg.pidMax) (pid : ProcRef → Nat) :
    ∃ t, processInit stale pid = some t ∧ t.Sound := by
  have hPos : 0 < cfg.pidMax := Nat.zero_lt_of_lt cfg.lt
  obtain ⟨_, hClear, hZero⟩ := bitfieldAllClear_shows stale
  obtain ⟨_, hSet, hShows⟩ := hZero.set hPos
  refine ⟨_, by rw [processInit, hClear, bind_eq_bind, bind_some, hSet]; rfl, ?_⟩
  constructor
  case nodup => exact nodup_nil
  case pid_inj => exact fun c hc => absurd hc not_mem_nil
  case pid_pos => exact fun c hc => absurd hc not_mem_nil
  case pid_lt => exact fun c hc => absurd hc not_mem_nil
  case shows =>
    intro bit hBit
    refine (hShows bit hBit).trans (congrArg some ?_)
    rw [update_apply]
    split <;> simp [ProcTable.held, *]
  case number_eq => rfl
  case number_le => exact Nat.zero_le _
  case next_lt =>
    intro _
    have hLt := cfg.lt
    dsimp only
    omega

end

/-- In every state that allocations and frees lead to: no call gets stuck, the pids are good ones, `_pid_used` has the
bits of these and of the idle task, and the counter is right. -/
theorem process_calls_sound (cfg : ProcConfig) (stale : Bitfield cfg.pidMax) (pid : ProcRef → Nat) :
    ∃ t₀, processInit stale pid = some t₀ ∧
      ∀ (calls : List ProcCall) (t : ProcTable cfg), Run ProcTable.step ProcTable.Allowed t₀ calls t →
        (∀ c ∈ t.processList, ∀ d ∈ t.processList, c ≠ d → t.pid c ≠ t.pid d) ∧
        (∀ c ∈ t.processList, t.pid c ≠ 0 ∧ t.pid c < cfg.pidMax) ∧
        (t.processNumber < cfg.procMax → ∃ ret, pidLoop t.pidUsed cfg.pidMax t.pidNext = some ret) ∧
        (∀ a, t.Allowed a → ∃ u, t.step a = some u) ∧
        (∀ bit < cfg.pidMax, bitfieldGet t.pidUsed bit = some (decide (bit = 0 ∨ ∃ c ∈ t.processList, t.pid c = bit))) ∧
        t.processList.Nodup ∧ t.processNumber = t.processList.length ∧ t.processNumber ≤ cfg.procMax := by
  obtain ⟨t₀, hInit, hSound₀⟩ := processInit_sound stale pid
  refine ⟨t₀, hInit, fun calls t hRun => ?_⟩
  have h : t.Sound := by
    refine hRun.invariant (fun s a u hAllowed hSound hStep => ?_) hSound₀
    obtain ⟨_, hTaken, hNext⟩ := hSound.step_total hAllowed
    rw [hStep] at hTaken
    exact some.inj hTaken ▸ hNext
  refine ⟨fun c hc d hd hNe hSame => hNe (h.pid_inj c hc d hd hSame), fun c hc => ⟨h.pid_pos c hc, h.pid_lt c hc⟩,
    fun hRoom => ?_, fun a hAllowed => ?_, h.shows, h.nodup, h.number_eq, ?_⟩
  · rw [h.number_eq, Int.ofNat_lt] at hRoom
    obtain ⟨ret, _, hLoop, _⟩ := h.pidLoop_ends hRoom
    exact ⟨ret, hLoop⟩
  · obtain ⟨u, hStep, _⟩ := h.step_total hAllowed
    exact ⟨u, hStep⟩
  · rw [h.number_eq]
    exact Int.ofNat_le.mpr h.number_le

def threePids : ProcConfig := ⟨2, 3, by decide⟩

def threeCalls : List ProcCall :=
  [.alloc (some 7), .alloc (some 8), .alloc (some 9), .free 8, .alloc none, .alloc (some 9)]

theorem process_calls_sound_threeCalls : ∃ t₀ t : ProcTable threePids,
    processInit ⟨[0xFFFFFFFF#32], rfl⟩ (fun _ => 0) = some t₀ ∧
    Run ProcTable.step ProcTable.Allowed t₀ threeCalls t ∧ t.processList = [9, 7] ∧ t.processList.map t.pid = [2, 1] ∧
    (∀ bit < 3, bitfieldGet t.pidUsed bit = some (decide (bit = 0 ∨ ∃ c ∈ t.processList, t.pid c = bit))) := by
  obtain ⟨t₀, hInit, hAll⟩ := process_calls_sound threePids ⟨[0xFFFFFFFF#32], rfl⟩ fun _ => 0
  have hRun : ((processInit ⟨[0xFFFFFFFF#32], rfl⟩ (fun _ => 0) : Option (ProcTable threePids)).bind fun t =>
      exec (guarded ProcTable.step ProcTable.Allowed) t threeCalls).map
        (fun t => (t.processList, t.processList.map t.pid)) = some ([9, 7], [2, 1]) := by decide +kernel
  rw [hInit, bind_some] at hRun
  obtain ⟨t, hExec, hEnd⟩ := map_eq_some_iff.mp hRun
  have hCalls := run_of_exec_guarded hExec
  obtain ⟨_, _, _, _, hBits, _⟩ := hAll threeCalls t hCalls
  exact ⟨t₀, t, hInit, hCalls, congrArg Prod.fst hEnd, congrArg Prod.snd hEnd, hBits⟩

end Fixos.Sys
