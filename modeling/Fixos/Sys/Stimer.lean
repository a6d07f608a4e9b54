import Fixos.Lib.Run
import Fixos.Lib.Word
import Fixos.Sys.Scheduler

/-! # Soft timers and their four clients (`sys/stimer.c`)

None of the clients looks at what `stimer_add` returns. A job that is called still occupies its slot, so one that adds
itself again needs a second slot. The code does not have `keysStarted`. What a call needs of the table is written
beside it: `delayFlushFits` and its like ask for a free slot at each `stimer_add` that the call makes.
-/

namespace Fixos.Sys

open Transition Word Function List Option

def stimerMaxJobs : Nat := 10

def tickHz : Nat := 256

def vtMaxTerminals : Int := 2

def ticksMsecNotnull (msec : Nat) : Nat := if msec * tickHz / 1000 = 0 then 1 else msec * tickHz / 1000

inductive JobFunc where
  | nanosleepTimeout (p : ProcRef)
  | flushDisplay
  | toggleCursor
  | keycheckTimer
deriving DecidableEq

structure StimerJob where
  func : JobFunc
  remainingTicks : Nat
deriving DecidableEq

structure StimerRun where
  jobs : Nat → Option StimerJob
  state : ProcRef → ProcState
  flushDelayed : Bool
  blinkScheduled : Bool
  vtCurrent : Int
  keysStarted : Bool

def stimerInit : StimerRun where
  jobs := fun _ => none
  state := fun _ => .running
  flushDelayed := false
  blinkScheduled := false
  vtCurrent := -1
  keysStarted := false

/-- The first free slot is taken. With none free the job is dropped: the clients ignore the `NULL`. -/
def stimerAdd (r : StimerRun) (func : JobFunc) (duration : Nat) : StimerRun :=
  match (range stimerMaxJobs).find? fun i => r.jobs i = none with
  | some i => { r with jobs := update r.jobs i (some ⟨func, duration⟩) }
  | none => r

def StimerRun.freeSlot (r : StimerRun) : Bool := (range stimerMaxJobs).any fun i => r.jobs i = none

def vtDelayFlush (r : StimerRun) : StimerRun :=
  if r.flushDelayed then r
  else stimerAdd { r with flushDelayed := true } .flushDisplay (ticksMsecNotnull 20)

def delayFlushFits (r : StimerRun) : Bool := r.flushDelayed || r.freeSlot

def vtCursorScheduleBlink (r : StimerRun) : StimerRun :=
  if r.blinkScheduled then r
  else { stimerAdd r .toggleCursor (ticksMsecNotnull 750) with blinkScheduled := true }

def scheduleBlinkFits (r : StimerRun) : Bool := r.blinkScheduled || r.freeSlot

def vtToggleCursor (r : StimerRun) : StimerRun :=
  if 0 ≤ r.vtCurrent ∧ r.vtCurrent < vtMaxTerminals then
    vtCursorScheduleBlink { vtDelayFlush r with blinkScheduled := false }
  else { r with blinkScheduled := false }

def toggleCursorFits (r : StimerRun) : Bool :=
  if 0 ≤ r.vtCurrent ∧ r.vtCurrent < vtMaxTerminals then
    delayFlushFits r && scheduleBlinkFits { vtDelayFlush r with blinkScheduled := false }
  else true

def vtSetActive (r : StimerRun) (term : Int) : StimerRun :=
  if -1 ≤ term ∧ term < vtMaxTerminals ∧ term ≠ r.vtCurrent then
    { (if term ≠ -1 then vtCursorScheduleBlink r else r) with vtCurrent := term }
  else r

def setActiveFits (r : StimerRun) (term : Int) : Bool :=
  if 0 ≤ term ∧ term < vtMaxTerminals ∧ term ≠ r.vtCurrent then scheduleBlinkFits r else true

/-- The display part of a write: the active terminal is flushed, and any terminal whose cursor an escape code moves. -/
def vtTtyWrite (r : StimerRun) (term : Int) (moves : Bool) : StimerRun :=
  if moves ∨ term = r.vtCurrent then vtDelayFlush r else r

inductive KeyEffect where
  | echo
  | activate (term : Int)
deriving DecidableEq

def KeyEffect.apply (r : StimerRun) : KeyEffect → StimerRun
  | .echo => vtDelayFlush r
  | .activate term => vtSetActive r term

def KeyEffect.fits (r : StimerRun) : KeyEffect → Bool
  | .echo => delayFlushFits r
  | .activate term => setActiveFits r term

/-- `keys` are the effects of the keys that `hwkbd_update_status` finds. -/
def periodicKeycheckTimer (r : StimerRun) (keys : List KeyEffect) : StimerRun :=
  stimerAdd (keys.foldl KeyEffect.apply r) .keycheckTimer (ticksMsecNotnull 30)

def keycheckFits (r : StimerRun) : List KeyEffect → Bool
  | [] => r.freeSlot
  | key :: keys => key.fits r && keycheckFits (key.apply r) keys

def JobFunc.call (r : StimerRun) (keys : List KeyEffect) : JobFunc → StimerRun
  | .nanosleepTimeout p => { r with state := update r.state p (r.state p).wakeUp }
  | .flushDisplay => { r with flushDelayed := false }
  | .toggleCursor => vtToggleCursor r
  | .keycheckTimer => periodicKeycheckTimer r keys

def JobFunc.fits (r : StimerRun) (keys : List KeyEffect) : JobFunc → Bool
  | .nanosleepTimeout _ | .flushDisplay => true
  | .toggleCursor => toggleCursorFits r
  | .keycheckTimer => keycheckFits r keys

/-- `remaining_ticks` is unsigned, so it is 0 when the test for at most 0 succeeds. -/
def tickSlot (keys : List KeyEffect) (r : StimerRun) (i : Nat) : StimerRun :=
  match r.jobs i with
  | none => r
  | some job =>
    let remainingTicks := sub job.remainingTicks 1
    let r := { r with jobs := update r.jobs i (some { job with remainingTicks }) }
    if remainingTicks = 0 then
      let r := job.func.call r keys
      { r with jobs := update r.jobs i none }
    else r

def slotFits (keys : List KeyEffect) (r : StimerRun) (i : Nat) : Bool :=
  match r.jobs i with
  | none => true
  | some job =>
    let remainingTicks := sub job.remainingTicks 1
    if remainingTicks = 0 then job.func.fits { r with jobs := update r.jobs i (some { job with remainingTicks }) } keys
    else true

def stimerDoTick (r : StimerRun) (keys : List KeyEffect) : StimerRun :=
  (range stimerMaxJobs).foldl (tickSlot keys) r

def slotsFit (keys : List KeyEffect) (r : StimerRun) : List Nat → Bool
  | [] => true
  | i :: slots => slotFits keys r i && slotsFit keys (tickSlot keys r i) slots

inductive StimerAction where
  | nanosleep (p : ProcRef) (ticks : Nat)
  | write (term : Int) (moves : Bool)
  | setActive (term : Int)
  | startKeyboard (keys : List KeyEffect)
  | tick (keys : List KeyEffect)
deriving DecidableEq

def StimerRun.step (r : StimerRun) : StimerAction → Option StimerRun
  | .nanosleep p ticks =>
    if r.state p = .running then
      some { stimerAdd r (.nanosleepTimeout p) ticks with
        state := update r.state p .uninterruptible }
    else none
  | .write term moves => some (vtTtyWrite r term moves)
  | .setActive term => some (vtSetActive r term)
  | .startKeyboard keys => some (periodicKeycheckTimer { r with keysStarted := true } keys)
  | .tick keys => some (stimerDoTick r keys)

/-- Each `stimer_add` of the step finds a free slot. -/
def StimerRun.fits (r : StimerRun) : StimerAction → Bool
  | .nanosleep _ _ => r.freeSlot
  | .write term moves => if moves ∨ term = r.vtCurrent then delayFlushFits r else true
  | .setActive term => setActiveFits r term
  | .startKeyboard keys => keycheckFits { r with keysStarted := true } keys
  | .tick keys => slotsFit keys r (range stimerMaxJobs)

def StimerRun.Needs (r : StimerRun) : JobFunc → Prop
  | .nanosleepTimeout p => r.state p = .uninterruptible
  | .flushDisplay => r.flushDelayed = true
  | .toggleCursor => r.blinkScheduled = true
  | .keycheckTimer => r.keysStarted = true

def StimerRun.HasJobBut (r : StimerRun) (i : Nat) (func : JobFunc) : Prop :=
  ∃ j < stimerMaxJobs, j ≠ i ∧ ∃ job, r.jobs j = some job ∧ job.func = func

def StimerRun.Armed (r : StimerRun) : Prop :=
  ∀ func, r.Needs func → ∃ j < stimerMaxJobs, ∃ job, r.jobs j = some job ∧ job.func = func

/-- Without slot `i`, whose job is called, all clients except those of `but` are served. -/
structure StimerRun.Covered (r : StimerRun) (i : Nat) (but : List JobFunc) : Prop where
  served : ∀ g ∉ but, r.Needs g → r.HasJobBut i g
  busy : i < stimerMaxJobs → r.jobs i ≠ none

section

variable {r r' : StimerRun} {i : Nat} {but : List JobFunc}

lemma stimerAdd_spec (hFree : r.freeSlot) (g : JobFunc) (duration : Nat) : ∃ k < stimerMaxJobs, r.jobs k = none ∧
    stimerAdd r g duration = { r with jobs := update r.jobs k (some ⟨g, duration⟩) } := by
  unfold stimerAdd
  split
  · rename_i k hFind
    have hFree : r.jobs k = none := by simpa using find?_some hFind
    exact ⟨k, mem_range.mp (mem_of_find?_eq_some hFind), hFree, rfl⟩
  · rename_i hFind
    obtain ⟨k, hk, hFree⟩ := any_eq_true.mp hFree
    exact absurd hFree (find?_eq_none.mp hFind k hk)

lemma needs_stimerAdd (hFree : r.freeSlot) (g : JobFunc) (duration : Nat) (other : JobFunc) :
    (stimerAdd r g duration).Needs other ↔ r.Needs other := by
  obtain ⟨k, _, _, hAdd⟩ := stimerAdd_spec hFree g duration
  rw [hAdd]
  cases other <;> exact Iff.rfl

namespace StimerRun

namespace Covered

lemma mono {but' : List JobFunc} (h : r.Covered i but) (hJobs : r'.jobs = r.jobs)
    (hNeeds : ∀ g ∉ but', r'.Needs g → g ∉ but ∧ r.Needs g) : r'.Covered i but' := by
  refine ⟨fun g hg hNeed => ?_, fun hi => hJobs ▸ h.busy hi⟩
  obtain ⟨hOld, hOldNeed⟩ := hNeeds g hg hNeed
  obtain ⟨j, hj, hji, job, hJob, hFunc⟩ := h.served g hOld hOldNeed
  exact ⟨j, hj, hji, job, hJobs ▸ hJob, hFunc⟩

variable {g : JobFunc}

lemma weaken (h : r.Covered i but) (hJobs : r'.jobs = r.jobs)
    (hNeeds : ∀ other ≠ g, r'.Needs other → r.Needs other) : r'.Covered i (g :: but) := by
  refine h.mono hJobs fun other hOther hNeed => ?_
  obtain ⟨hNe, hNot⟩ := ne_and_not_mem_of_not_mem_cons hOther
  exact ⟨hNot, hNeeds other hNe hNeed⟩

lemma add {duration : Nat} (h : r.Covered i (g :: but)) (hFree : r.freeSlot)
    (hJobs : r'.jobs = (stimerAdd r g duration).jobs)
    (hNeeds : ∀ other ≠ g, r'.Needs other → r.Needs other) : r'.Covered i but := by
  obtain ⟨k, hk, hNone, hAdd⟩ := stimerAdd_spec hFree g duration
  rw [hAdd] at hJobs
  dsimp only at hJobs
  have hNe : k ≠ i := by
    rintro rfl
    exact h.busy hk hNone
  refine ⟨fun other hOther hNeed => ?_, fun hi => ?_⟩
  · rcases eq_or_ne other g with rfl | hDiff
    · exact ⟨k, hk, hNe, _, by rw [hJobs, update_self], rfl⟩
    · obtain ⟨j, hj, hji, job, hJob, hFunc⟩ :=
        h.served other (not_mem_cons_of_ne_of_not_mem hDiff hOther) (hNeeds other hDiff hNeed)
      have hjk : j ≠ k := by
        rintro rfl
        exact some_ne_none job (hJob.symm.trans hNone)
      exact ⟨j, hj, hji, job, by rw [hJobs, update_of_ne hjk, hJob], hFunc⟩
  · rw [hJobs, update_of_ne hNe.symm]
    exact h.busy hi

lemma stimerAdd (h : r.Covered i (g :: but)) (hFree : r.freeSlot) (duration : Nat) :
    (stimerAdd r g duration).Covered i but :=
  h.add hFree rfl fun other _ hNeed => (needs_stimerAdd hFree g duration other).mp hNeed

section

variable (h : r.Covered i but)
include h

lemma vtDelayFlush (hFits : delayFlushFits r) : (vtDelayFlush r).Covered i but := by
  unfold Sys.vtDelayFlush
  split_ifs with hDelayed
  · exact h
  · have hSet : ({ r with flushDelayed := true } : StimerRun).Covered i (.flushDisplay :: but) := by
      refine h.weaken rfl fun g hg hNeed => ?_
      cases g <;> first | exact hNeed | exact absurd rfl hg
    exact hSet.stimerAdd ((Bool.or_eq_true_iff.mp hFits).resolve_left hDelayed) _

lemma vtCursorScheduleBlink (hFits : scheduleBlinkFits r) : (vtCursorScheduleBlink r).Covered i but := by
  unfold Sys.vtCursorScheduleBlink
  split_ifs with hScheduled
  · exact h
  · have hFree := (Bool.or_eq_true_iff.mp hFits).resolve_left hScheduled
    refine (h.weaken rfl fun _ _ => id).add hFree rfl fun g hg hNeed => ?_
    refine (needs_stimerAdd hFree .toggleCursor (ticksMsecNotnull 750) g).mp ?_
    cases g <;> first | exact hNeed | exact absurd rfl hg

lemma vtSetActive {term : Int} (hFits : setActiveFits r term) : (vtSetActive r term).Covered i but := by
  unfold Sys.vtSetActive
  split
  · rename_i hTerm
    split_ifs with hSome
    · rw [setActiveFits, if_pos ⟨by omega, hTerm.2⟩] at hFits
      exact (h.vtCursorScheduleBlink hFits).mono rfl fun g hg hNeed => ⟨hg, by cases g <;> exact hNeed⟩
    · exact h.mono rfl fun g hg hNeed => ⟨hg, by cases g <;> exact hNeed⟩
  · exact h

lemma key {key : KeyEffect} (hFits : key.fits r) : (key.apply r).Covered i but := by
  cases key with
  | echo => exact h.vtDelayFlush hFits
  | activate term => exact h.vtSetActive hFits

end

lemma periodicKeycheckTimer {keys : List KeyEffect} (h : r.Covered i (.keycheckTimer :: but))
    (hFits : keycheckFits r keys) : (periodicKeycheckTimer r keys).Covered i but := by
  induction keys generalizing r with
  | nil => exact h.stimerAdd hFits _
  | cons key keys ih =>
    obtain ⟨hKey, hKeys⟩ := Bool.and_eq_true_iff.mp hFits
    exact ih (h.key hKey) hKeys

lemma settled (h : r.Covered i (g :: but)) (hJobs : r'.jobs = r.jobs) (hg : ¬ r'.Needs g)
    (hNeeds : ∀ other ≠ g, r'.Needs other → r.Needs other) : r'.Covered i but := by
  refine h.mono hJobs fun other hOther hNeed => ?_
  have hDiff : other ≠ g := by
    rintro rfl
    exact hg hNeed
  exact ⟨not_mem_cons_of_ne_of_not_mem hDiff hOther, hNeeds other hDiff hNeed⟩

lemma blink_cleared (h : r.Covered i (.toggleCursor :: but)) :
    ({ r with blinkScheduled := false } : StimerRun).Covered i but := by
  refine h.settled rfl Bool.false_ne_true fun g hg hNeed => ?_
  cases g <;> first | exact hNeed | exact absurd rfl hg

lemma vtToggleCursor (h : r.Covered i (.toggleCursor :: but)) (hFits : toggleCursorFits r) :
    (vtToggleCursor r).Covered i but := by
  unfold Sys.vtToggleCursor
  unfold toggleCursorFits at hFits
  split_ifs with hTerm
  · rw [if_pos hTerm] at hFits
    obtain ⟨hFlush, hBlink⟩ := Bool.and_eq_true_iff.mp hFits
    exact (h.vtDelayFlush hFlush).blink_cleared.vtCursorScheduleBlink hBlink
  · exact h.blink_cleared

lemma call {keys : List KeyEffect} (h : r.Covered i [g]) (hFits : g.fits r keys) : (g.call r keys).Covered i [] := by
  cases g with
  | nanosleepTimeout p =>
    refine h.settled rfl ?_ fun g hg hNeed => ?_
    · show update r.state p (r.state p).wakeUp p ≠ .uninterruptible
      rw [update_self]
      exact ProcState.wakeUp_ne_uninterruptible _
    · cases g with
      | nanosleepTimeout q =>
        have hqp : q ≠ p := fun hEq => hg (congrArg _ hEq)
        exact (update_of_ne hqp _ _).symm.trans hNeed
      | _ => exact hNeed
  | flushDisplay =>
    refine h.settled rfl Bool.false_ne_true fun g hg hNeed => ?_
    cases g <;> first | exact hNeed | exact absurd rfl hg
  | toggleCursor => exact h.vtToggleCursor hFits
  | keycheckTimer => exact h.periodicKeycheckTimer hFits

section

variable {keys : List KeyEffect} (h : r.Covered stimerMaxJobs [])
include h

lemma tickSlot (hi : i < stimerMaxJobs) (hFits : slotFits keys r i) : (tickSlot keys r i).Covered stimerMaxJobs [] := by
  unfold Sys.tickSlot
  unfold slotFits at hFits
  cases hJob : r.jobs i with
  | none => exact h
  | some job =>
    rw [hJob] at hFits
    dsimp only at hFits ⊢
    set r₁ : StimerRun :=
      { r with jobs := update r.jobs i (some { job with remainingTicks := sub job.remainingTicks 1 }) } with hr₁
    have hSlot : r₁.jobs i = some { job with remainingTicks := sub job.remainingTicks 1 } := update_self _ _ _
    have hOff : ∀ g ≠ job.func, r.HasJobBut stimerMaxJobs g → r₁.HasJobBut i g := by
      rintro g hg ⟨j, hj, _, job', hJob', rfl⟩
      have hji : j ≠ i := by
        rintro rfl
        rw [hJob] at hJob'
        cases hJob'
        exact hg rfl
      exact ⟨j, hj, hji, job', (update_of_ne hji _ _).trans hJob', rfl⟩
    have hCalled : r₁.Covered i [job.func] := by
      refine ⟨fun g hg hNeed => hOff g (by simpa using hg) (h.served g (by simp) ?_), fun _ => ?_⟩
      · cases g <;> exact hNeed
      · rw [hSlot]
        exact some_ne_none _
    split_ifs with hZero
    · rw [if_pos hZero] at hFits
      have hDone := hCalled.call hFits
      refine ⟨fun g hg hNeed => ?_, fun hi => absurd hi (Nat.lt_irrefl _)⟩
      obtain ⟨j, hj, hji, job', hJob', hFunc⟩ := hDone.served g hg (by cases g <;> exact hNeed)
      exact ⟨j, hj, hj.ne, job', (update_of_ne hji _ _).trans hJob', hFunc⟩
    · refine ⟨fun g hg hNeed => ?_, fun hi => absurd hi (Nat.lt_irrefl _)⟩
      rcases eq_or_ne g job.func with rfl | hDiff
      · exact ⟨i, hi, hi.ne, _, hSlot, rfl⟩
      · obtain ⟨j, hj, hji, found⟩ := hCalled.served g (by simpa using hDiff) hNeed
        exact ⟨j, hj, hj.ne, found⟩

lemma stimerDoTick (hFits : slotsFit keys r (range stimerMaxJobs)) : (stimerDoTick r keys).Covered stimerMaxJobs [] := by
  unfold Sys.stimerDoTick
  have hAll : ∀ i ∈ range stimerMaxJobs, i < stimerMaxJobs := fun i => mem_range.mp
  generalize range stimerMaxJobs = slots at hAll hFits
  induction slots generalizing r with
  | nil => exact h
  | cons i slots ih =>
    obtain ⟨hSlot, hSlots⟩ := Bool.and_eq_true_iff.mp hFits
    exact ih (h.tickSlot (hAll i mem_cons_self) hSlot) (fun j hj => hAll j (mem_cons_of_mem i hj)) hSlots

end

end Covered

lemma Covered.step {a : StimerAction} (h : r.Covered stimerMaxJobs []) (hFits : r.fits a)
    (hStep : r.step a = some r') : r'.Covered stimerMaxJobs [] := by
  cases a with
  | nanosleep p ticks =>
    obtain ⟨_, ⟨⟩⟩ := ite_none_right_eq_some.mp hStep
    refine (h.weaken rfl fun _ _ => id).add hFits rfl fun g hg hNeed => ?_
    cases g with
    | nanosleepTimeout q =>
      have hqp : q ≠ p := fun hEq => hg (congrArg _ hEq)
      exact (update_of_ne hqp _ _).symm.trans hNeed
    | _ => exact (needs_stimerAdd hFits _ _ _).mp hNeed
  | write term moves =>
    cases hStep
    unfold vtTtyWrite
    split_ifs with hShown
    · exact h.vtDelayFlush ((if_pos hShown).symm.trans hFits)
    · exact h
  | setActive term =>
    cases hStep
    exact h.vtSetActive hFits
  | startKeyboard keys =>
    cases hStep
    have hSet : ({ r with keysStarted := true } : StimerRun).Covered stimerMaxJobs [.keycheckTimer] := by
      refine h.weaken rfl fun g hg hNeed => ?_
      cases g <;> first | exact hNeed | exact absurd rfl hg
    exact hSet.periodicKeycheckTimer hFits
  | tick keys =>
    cases hStep
    exact h.stimerDoTick hFits

end StimerRun

end

lemma stimerInit_covered : stimerInit.Covered stimerMaxJobs [] := by
  refine ⟨fun g _ hNeed => ?_, fun hi => absurd hi (Nat.lt_irrefl _)⟩
  cases g <;> cases hNeed

/-- As long as every job that is added finds a free slot, no client waits for a call that will not
come. -/
theorem timers_stay_armed (actions : List StimerAction) (r : StimerRun)
    (hRun : Run StimerRun.step (fun r a => r.fits a) stimerInit actions r) : r.Armed := by
  have hCovered := hRun.invariant (I := fun r => r.Covered stimerMaxJobs [])
    (fun _ _ _ hFits h hStep => h.step hFits hStep) stimerInit_covered
  intro func hNeed
  obtain ⟨j, hj, _, found⟩ := hCovered.served func not_mem_nil hNeed
  exact ⟨j, hj, found⟩

/-- The first poll has re-armed itself when seven of the ten ticks are over. -/
theorem timers_stay_armed_poll : ∃ r, Run StimerRun.step (fun r a => r.fits a) stimerInit
        ([.startKeyboard [], .setActive 0, .nanosleep 1 10, .write 0 false] ++ replicate 7 (.tick [.echo])) r ∧
      r.Armed ∧ (r.keysStarted, r.state 1, r.flushDelayed) = (true, .uninterruptible, true) := by
  have hExec : ((exec (guarded StimerRun.step (fun r a => r.fits a)) stimerInit
      ([.startKeyboard [], .setActive 0, .nanosleep 1 10, .write 0 false] ++ replicate 7 (.tick [.echo]))).map
        fun r => (r.keysStarted, r.state 1, r.flushDelayed)) = some (true, .uninterruptible, true) := by
    decide +kernel
  obtain ⟨r, hRun, hFields⟩ := map_eq_some_iff.mp hExec
  have hRun := run_of_exec_guarded hRun
  exact ⟨r, hRun, timers_stay_armed _ r hRun, hFields⟩

/-- A ninth sleeper has no job, a write to the display is never shown, and the poll of the keyboard cannot be added
beside itself. -/
theorem full_table_drops_jobs : ((exec StimerRun.step stimerInit
      ([.startKeyboard [], .setActive 0] ++ (range 9).map (.nanosleep · 1000) ++ [.write 0 false] ++
        replicate 7 (.tick []))).map fun r =>
      (r.state 8, r.flushDelayed, r.keysStarted, (range stimerMaxJobs).map fun i => (r.jobs i).map (·.func))) =
    some (.uninterruptible, true, true, [none, some .toggleCursor] ++
      (range 8).map fun p => some (.nanosleepTimeout p)) := by
  decide +kernel

end Fixos.Sys
