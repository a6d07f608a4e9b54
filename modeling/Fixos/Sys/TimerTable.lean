import Fixos.Lib.RefCount
import Fixos.Sys.Stimer
import Mathlib.Data.Real.Basic
import Mathlib.Tactic.Linarith

/-! # The table of soft timers (`sys/stimer.c`)

Any value stands for a callback with its data, and a call touches no timer. Every job is labelled with its number and
the tick it is due at, so that it is told from the others that its slot holds over time.
-/

namespace Fixos.Sys

open Transition Word Function List RefCount Option

universe u

structure TimerJob (γ : Type u) where
  call : γ
  remainingTicks : Nat

abbrev TimerTable (γ : Type u) := Nat → Option (TimerJob γ)

namespace TimerTable

variable {γ : Type u}

def add (jobs : TimerTable γ) (call : γ) (duration : Nat) : TimerTable γ × Option Nat :=
  match (range stimerMaxJobs).find? fun i => (jobs i).isNone with
  | some i => (update jobs i (some ⟨call, duration⟩), some i)
  | none => (jobs, none)

def remove (jobs : TimerTable γ) (slot : Nat) : TimerTable γ := update jobs slot none

def tickSlot (s : TimerTable γ × List γ) (i : Nat) : TimerTable γ × List γ :=
  match s.1 i with
  | none => s
  | some job =>
    let remainingTicks := sub job.remainingTicks 1
    if remainingTicks = 0 then (update s.1 i none, s.2 ++ [job.call])
    else (update s.1 i (some { job with remainingTicks }), s.2)

def doTick (jobs : TimerTable γ) : TimerTable γ × List γ := (range stimerMaxJobs).foldl tickSlot (jobs, [])

def held (jobs : TimerTable γ) (i : Nat) : List γ := (jobs i).toList.map TimerJob.call

end TimerTable

structure TimerLabel (γ : Type u) where
  number : Nat
  due : Nat
  call : γ
deriving DecidableEq

/-- The ticks until a counter that is decremented before it is tested reaches 0. -/
def ticksUntilZero (remaining : Nat) : Nat := if remaining = 0 then 2 ^ 32 else remaining

/-- The table with its history: all jobs added, the calls with the tick each was made at, and the jobs
removed. -/
structure TimerRun (γ : Type u) where
  jobs : TimerTable (TimerLabel γ)
  now : Nat
  added : List (TimerLabel γ)
  calls : List (Nat × TimerLabel γ)
  removed : List (TimerLabel γ)

inductive TimerAction (γ : Type u) where
  | add (call : γ) (duration : Nat)
  | remove (slot : Nat)
  | tick

namespace TimerRun

variable {γ : Type u}

def init : TimerRun γ := ⟨fun _ => none, 0, [], [], []⟩

def label (r : TimerRun γ) (call : γ) (duration : Nat) : TimerLabel γ :=
  ⟨r.added.length, r.now + ticksUntilZero duration, call⟩

def step (r : TimerRun γ) : TimerAction γ → Option (TimerRun γ)
  | .add call duration =>
    match r.jobs.add (r.label call duration) duration with
    | (jobs, some _) => some { r with jobs, added := r.added ++ [r.label call duration] }
    | (jobs, none) => some { r with jobs }
  | .remove slot => some { r with jobs := r.jobs.remove slot, removed := r.removed ++ r.jobs.held slot }
  | .tick =>
    let ticked := r.jobs.doTick
    some { r with
      jobs := ticked.1
      now := r.now + 1
      calls := r.calls ++ ticked.2.map fun label => (r.now + 1, label) }

end TimerRun

def TimerAction.Ok {γ : Type u} : TimerAction γ → Prop
  | .add _ duration => duration < 2 ^ 32
  | .remove slot => slot < stimerMaxJobs
  | .tick => True

section

variable {γ : Type u} [DecidableEq γ] {r r' : TimerRun γ}

def TimerTable.pending (jobs : TimerTable γ) (call : γ) : Nat := total (range stimerMaxJobs) jobs.held call

lemma TimerTable.pending_update (jobs : TimerTable γ) {i : Nat} (hi : i < stimerMaxJobs) (slot : Option (TimerJob γ))
    (call : γ) :
    pending (update jobs i slot) call + (jobs.held i).count call =
      jobs.pending call + (slot.toList.map TimerJob.call).count call := by
  have hHeld : held (update jobs i slot) = update jobs.held i (slot.toList.map TimerJob.call) := by
    funext j
    exact apply_update (fun _ slot => slot.toList.map TimerJob.call) jobs i slot j
  rw [pending, hHeld]
  exact total_update nodup_range (mem_range.mpr hi) jobs.held _ call

omit [DecidableEq γ] in
lemma TimerTable.add_spec (jobs : TimerTable γ) (call : γ) (duration : Nat) :
    (∃ i < stimerMaxJobs, jobs i = none ∧ jobs.add call duration = (update jobs i (some ⟨call, duration⟩), some i)) ∨
      (∀ i < stimerMaxJobs, (jobs i).isSome) ∧ jobs.add call duration = (jobs, none) := by
  rw [TimerTable.add]
  split
  · rename_i i hFind
    exact .inl ⟨i, mem_range.mp (mem_of_find?_eq_some hFind), by simpa using find?_some hFind, rfl⟩
  · rename_i hFind
    refine .inr ⟨fun i hi => isSome_iff_ne_none.mpr ?_, rfl⟩
    simpa using find?_eq_none.mp hFind i (mem_range.mpr hi)

/-- Every job ends when it is due. The slots before `done` have been counted for the coming tick. -/
def TimerTable.Due (now : Nat) (jobs : TimerTable (TimerLabel γ)) (done : Nat) : Prop :=
  ∀ i job, jobs i = some job → i < stimerMaxJobs ∧ job.remainingTicks < 2 ^ 32 ∧
    now + (if i < done then 1 else 0) + ticksUntilZero job.remainingTicks = job.call.due

/-- The loop of a tick that began with `jobs` has reached the slot `done`. -/
structure Ticking (now : Nat) (jobs : TimerTable (TimerLabel γ)) (s : TimerTable (TimerLabel γ) × List (TimerLabel γ))
    (done : Nat) : Prop where
  due : s.1.Due now done
  calls : ∀ label ∈ s.2, label.due = now + 1
  kept : ∀ label, s.1.pending label + s.2.count label = jobs.pending label

variable {now : Nat} {jobs : TimerTable (TimerLabel γ)} {s : TimerTable (TimerLabel γ) × List (TimerLabel γ)} {i : Nat}

omit [DecidableEq γ] in
/-- Only slot `i` is touched, and what it now holds has been counted for the coming tick. -/
lemma TimerTable.Due.update (h : jobs.Due now i) {slot : Option (TimerJob (TimerLabel γ))}
    (hSlot : ∀ job ∈ slot, i < stimerMaxJobs ∧ job.remainingTicks < 2 ^ 32 ∧
      now + 1 + ticksUntilZero job.remainingTicks = job.call.due) :
    TimerTable.Due now (update jobs i slot) (i + 1) := by
  intro j job hJob
  rcases eq_or_ne j i with rfl | hNe
  · rw [update_self] at hJob
    rw [if_pos (Nat.lt_succ_self j)]
    exact hSlot job hJob
  · rw [update_of_ne hNe] at hJob
    rw [if_congr (show j < i + 1 ↔ j < i by omega) rfl rfl]
    exact h j job hJob

lemma Ticking.tickSlot (h : Ticking now jobs s i) (hi : i < stimerMaxJobs) :
    Ticking now jobs (TimerTable.tickSlot s i) (i + 1) := by
  unfold TimerTable.tickSlot
  cases hJob : s.1 i with
  | none =>
    have hDue : TimerTable.Due now (update s.1 i none) (i + 1) :=
      h.due.update fun job hMem => absurd hMem (not_mem_none job)
    rw [← hJob, update_eq_self] at hDue
    exact ⟨hDue, h.calls, h.kept⟩
  | some job =>
    obtain ⟨-, _, hLabel⟩ := h.due i job hJob
    rw [if_neg (Nat.lt_irrefl i), Nat.add_zero, ticksUntilZero] at hLabel
    have hHeld : s.1.held i = [job.call] := by rw [TimerTable.held, hJob]; rfl
    dsimp only
    split_ifs with hZero
    · have hOne : job.remainingTicks = 1 := by unfold sub at hZero; omega
      rw [hOne] at hLabel
      refine ⟨h.due.update fun job hMem => absurd hMem (not_mem_none job), fun label hMem => ?_, fun label => ?_⟩
      · rcases mem_append.mp hMem with hMem | hMem
        · exact h.calls label hMem
        · rw [mem_singleton.mp hMem, ← hLabel]
          rfl
      · have hKept := h.kept label
        have hUpdate := s.1.pending_update hi none label
        rw [hHeld] at hUpdate
        simp only [toList_none, map_nil, count_nil] at hUpdate
        dsimp only
        rw [count_append]
        omega
    · refine ⟨h.due.update ?_, h.calls, fun label => ?_⟩
      · rintro _ ⟨⟩
        refine ⟨hi, Nat.mod_lt _ (by decide), ?_⟩
        dsimp only
        rw [← hLabel, ticksUntilZero, if_neg hZero]
        unfold sub at hZero ⊢
        split <;> omega
      · have hUpdate := s.1.pending_update hi (some { job with remainingTicks := sub job.remainingTicks 1 }) label
        rw [hHeld] at hUpdate
        have hKept := h.kept label
        simp only [toList_some, map_cons, map_nil] at hUpdate ⊢
        omega

lemma TimerTable.Due.doTick (h : jobs.Due now 0) : Ticking now jobs jobs.doTick stimerMaxJobs := by
  have hLoop : ∀ n ≤ stimerMaxJobs, Ticking now jobs ((range n).foldl TimerTable.tickSlot (jobs, [])) n := by
    intro n
    induction n with
    | zero => exact fun _ => ⟨h, fun label hMem => absurd hMem not_mem_nil, fun label => rfl⟩
    | succ n ih =>
      intro hn
      rw [range_succ, foldl_append]
      exact (ih (by omega)).tickSlot hn
  exact hLoop stimerMaxJobs (Nat.le_refl _)

/-- Every job that was added is pending, was called when it was due or was removed, and only one of
these. -/
structure TimerRun.Inv (r : TimerRun γ) : Prop where
  due : r.jobs.Due r.now 0
  numbered : r.added.map TimerLabel.number = range r.added.length
  called : ∀ call ∈ r.calls, call.1 = call.2.due ∧ call.1 ≤ r.now
  kept : ∀ label, r.jobs.pending label + (r.calls.map Prod.snd).count label + r.removed.count label = r.added.count label

namespace TimerRun

lemma init_inv : (init : TimerRun γ).Inv where
  due := fun _ _ hJob => nomatch hJob
  numbered := rfl
  called := fun call hMem => absurd hMem not_mem_nil
  kept := fun label => by simp [init, TimerTable.pending, total, TimerTable.held]

section

variable (h : r.Inv)
include h

lemma Inv.add {call : γ} {duration : Nat} (hWord : duration < 2 ^ 32)
    (hStep : r.step (.add call duration) = some r') : r'.Inv := by
  rw [TimerRun.step] at hStep
  rcases r.jobs.add_spec (r.label call duration) duration with ⟨i, hi, hFree, hAdd⟩ | ⟨-, hAdd⟩
  · rw [hAdd] at hStep
    cases hStep
    refine ⟨fun j job hJob => ?_, by simp [h.numbered, label, range_succ], h.called, fun label => ?_⟩
    · dsimp only at hJob ⊢
      rcases eq_or_ne j i with rfl | hNe
      · rw [update_self] at hJob
        cases hJob
        exact ⟨hi, hWord, rfl⟩
      · rw [update_of_ne hNe] at hJob
        exact h.due j job hJob
    · have hKept := h.kept label
      have hUpdate := r.jobs.pending_update hi (some ⟨r.label call duration, duration⟩) label
      simp only [TimerTable.held, hFree, toList_none, toList_some, map_nil, map_cons, count_nil] at hUpdate
      dsimp only
      rw [count_append]
      omega
  · rw [hAdd] at hStep
    cases hStep
    exact h

lemma Inv.remove {slot : Nat} (hSlot : slot < stimerMaxJobs) (hStep : r.step (.remove slot) = some r') : r'.Inv := by
  cases hStep
  refine ⟨fun j job hJob => ?_, h.numbered, h.called, fun label => ?_⟩
  · rcases eq_or_ne j slot with rfl | hNe
    · simp [TimerTable.remove] at hJob
    · exact h.due j job ((update_of_ne hNe _ _).symm.trans hJob)
  · have hKept := h.kept label
    have hUpdate := r.jobs.pending_update hSlot none label
    simp only [toList_none, map_nil, count_nil] at hUpdate
    simp only [TimerTable.remove, count_append]
    omega

lemma Inv.tick (hStep : r.step .tick = some r') : r'.Inv := by
  cases hStep
  obtain ⟨hDue, hCalls, hKept⟩ := h.due.doTick
  refine ⟨fun j job hJob => ?_, h.numbered, fun call hMem => ?_, fun label => ?_⟩
  · obtain ⟨hj, hWord, hEnd⟩ := hDue j job hJob
    rw [if_pos hj] at hEnd
    exact ⟨hj, hWord, hEnd⟩
  · rcases mem_append.mp hMem with hMem | hMem
    · exact ⟨(h.called call hMem).1, Nat.le_succ_of_le (h.called call hMem).2⟩
    · obtain ⟨label, hLabel, rfl⟩ := mem_map.mp hMem
      exact ⟨(hCalls label hLabel).symm, Nat.le_refl _⟩
  · have hHere := h.kept label
    have hTick := hKept label
    simp only [map_append, List.map_map, count_append]
    rw [show (Prod.snd ∘ fun label => (r.now + 1, label)) = id from rfl, List.map_id]
    omega

lemma Inv.step {a : TimerAction γ} (hOk : a.Ok) (hStep : r.step a = some r') : r'.Inv := by
  cases a with
  | add call duration => exact h.add hOk hStep
  | remove slot => exact h.remove hOk hStep
  | tick => exact h.tick hStep

lemma Inv.pending_of_due {label : TimerLabel γ} (hDue : label.due ≤ r.now) : r.jobs.pending label = 0 := by
  refine sum_eq_zero fun n hn => ?_
  obtain ⟨i, -, rfl⟩ := mem_map.mp hn
  refine count_eq_zero.mpr fun hMem => ?_
  obtain ⟨job, hJob, rfl⟩ := mem_map.mp hMem
  have hEnd := (h.due i job (mem_toList.mp hJob)).2.2
  rw [if_neg (Nat.not_lt_zero i), ticksUntilZero] at hEnd
  split at hEnd <;> omega

lemma Inv.calls_of_mem {label : TimerLabel γ} (hMem : label ∈ r.added) : (r.calls.filter fun call => call.2 = label) =
      if label ∈ r.removed then [] else if label.due ≤ r.now then [(label.due, label)] else [] := by
  have hOnce : r.added.count label = 1 := count_eq_one_of_mem (Nodup.of_map _ (h.numbered ▸ nodup_range)) hMem
  have hKept := h.kept label
  have hCount : (r.calls.map Prod.snd).count label = (r.calls.filter fun call => call.2 = label).length := by
    rw [count, countP_map, countP_eq_length_filter]
    rfl
  split
  · have hRemoved := count_pos_iff.mpr ‹label ∈ r.removed›
    exact length_eq_zero_iff.mp (by omega)
  · rw [count_eq_zero.mpr ‹label ∉ r.removed›] at hKept
    split
    · rw [h.pending_of_due ‹_›] at hKept
      obtain ⟨call, hCall⟩ := length_eq_one_iff.mp (show (r.calls.filter fun call => call.2 = label).length = 1 by omega)
      obtain ⟨hIn, hLabel⟩ := mem_filter.mp (hCall ▸ mem_singleton_self call)
      obtain rfl := of_decide_eq_true hLabel
      rw [hCall, ← (h.called call hIn).1]
    · refine filter_eq_nil_iff.mpr fun call hIn hLabel => ?_
      have hCalled := h.called call hIn
      rw [of_decide_eq_true hLabel] at hCalled
      omega

end

end TimerRun

def TimerAction.Proper (r : TimerRun γ) : TimerAction γ → Prop
  | .add _ duration => 1 ≤ duration ∧ duration < 2 ^ 32
  | .remove slot => slot < stimerMaxJobs ∧ (r.jobs slot).isSome
  | .tick => True

omit [DecidableEq γ] in
lemma TimerAction.Proper.ok {a : TimerAction γ} (h : a.Proper r) : a.Ok := by
  cases a with
  | add call duration => exact h.2
  | remove slot => exact h.1
  | tick => trivial

/-- A job is called once, when it is due, unless it was removed before; nothing else is called, and only a full table
refuses a job. -/
theorem timers_called_once {actions : List (TimerAction γ)}
    (hRun : Run TimerRun.step (fun r a => a.Proper r) TimerRun.init actions r) :
    (∀ label ∈ r.added, (r.calls.filter fun call => call.2 = label) =
      if label ∈ r.removed then [] else if label.due ≤ r.now then [(label.due, label)] else []) ∧
    (∀ call ∈ r.calls, call.2 ∈ r.added) ∧
    (∀ call duration, 1 ≤ duration → (r.label call duration).due = r.now + duration) ∧
    ∀ (label : TimerLabel γ) duration, (r.jobs.add label duration).2 = none ↔ ∀ i < stimerMaxJobs, (r.jobs i).isSome := by
  have hInv : r.Inv := hRun.invariant (fun _ _ _ hProper h hStep => h.step hProper.ok hStep) TimerRun.init_inv
  refine ⟨fun _ => hInv.calls_of_mem, fun call hMem => ?_, fun call duration hPos => ?_, fun label duration => ?_⟩
  · have hKept := hInv.kept call.2
    have hCount := count_pos_iff.mpr (mem_map_of_mem (f := Prod.snd) hMem)
    exact count_pos_iff.mp (by omega)
  · rw [TimerRun.label, ticksUntilZero, if_neg (by omega)]
  · rcases r.jobs.add_spec label duration with ⟨i, hi, hFree, hAdd⟩ | ⟨hAll, hAdd⟩
    · rw [hAdd]
      refine iff_of_false (some_ne_none i) fun hAll => ?_
      simpa [hFree] using hAll i hi
    · rw [hAdd]
      exact iff_of_true rfl hAll

end

def sharedSlots : List (TimerAction Char) :=
  [.add 'a' 2, .add 'b' 1, .add 'c' 9, .remove 2, .tick, .add 'd' 1, .tick]

theorem timers_called_once_shared : ∃ r, exec TimerRun.step TimerRun.init sharedSlots = some r ∧ ∀ label ∈ r.added,
      (r.calls.filter fun call => call.2 = label) =
        if label ∈ r.removed then [] else if label.due ≤ r.now then [(label.due, label)] else [] := by
  have hRun : Run TimerRun.step (fun r a => a.Proper r) TimerRun.init sharedSlots _ :=
    .cons ⟨by decide, by decide⟩ rfl (.cons ⟨by decide, by decide⟩ rfl (.cons ⟨by decide, by decide⟩ rfl
      (.cons ⟨by decide, by decide⟩ rfl (.cons trivial rfl (.cons ⟨by decide, by decide⟩ rfl
        (.cons trivial rfl (.nil _)))))))
  exact ⟨_, rfl, (timers_called_once hRun).1⟩

structure Timespec where
  tvSec : Nat
  tvNsec : Nat

def tickTime : Nat := 1000 * 1000 * 1000 / tickHz

namespace Timespec

def nanoseconds (req : Timespec) : Nat := req.tvSec * (1000 * 1000 * 1000) + req.tvNsec

def sleepTicks (req : Timespec) : Nat := (req.tvSec * tickHz + req.tvNsec / tickTime) % 2 ^ 32

/-- The time from the call to the tick its timer ends at, with `phase` left until the next tick. -/
noncomputable def sleepTime (req : Timespec) (phase : ℝ) : ℝ := (ticksUntilZero req.sleepTicks - 1 : ℝ) * tickTime + phase

def SleepsFor (req : Timespec) (phase : ℝ) : Prop :=
  (req.nanoseconds : ℝ) ≤ req.sleepTime phase ∧ req.sleepTime phase < req.nanoseconds + 2 * tickTime

lemma sleepsFor_iff {req : Timespec} (hTotal : req.tvSec * tickHz + req.tvNsec / tickTime < 2 ^ 32) {phase : ℝ}
    (hPos : 0 < phase) (hPhase : phase ≤ tickTime) :
    req.SleepsFor phase ↔ req.sleepTicks ≠ 0 ∧ req.tvNsec % tickTime = 0 ∧ phase = tickTime := by
  have hTicks : req.sleepTicks = req.tvSec * tickHz + req.tvNsec / tickTime := Nat.mod_eq_of_lt hTotal
  have hTick : tickTime = 3906250 := rfl
  have hSplit : req.nanoseconds = req.sleepTicks * 3906250 + req.tvNsec % tickTime := by
    rw [hTicks, nanoseconds, hTick, show tickHz = 256 from rfl]
    omega
  have hRest : req.tvNsec % tickTime < 3906250 := Nat.mod_lt _ (by decide)
  have hRest' : ((req.tvNsec % tickTime : Nat) : ℝ) < 3906250 := by exact_mod_cast hRest
  rw [SleepsFor, sleepTime, hSplit, ticksUntilZero]
  generalize req.tvNsec % tickTime = rest at hRest'
  generalize req.sleepTicks = ticks
  rw [hTick] at hPhase ⊢
  push_cast at hPhase ⊢
  rcases eq_or_ne ticks 0 with rfl | hNe
  · refine iff_of_false (fun ⟨_, hLate⟩ => ?_) fun ⟨hTicks, _⟩ => hTicks rfl
    rw [if_pos rfl] at hLate
    norm_num at hLate
    linarith
  · rw [if_neg hNe]
    constructor
    · rintro ⟨_, _⟩
      have hZero : (rest : ℝ) = 0 := by linarith
      exact ⟨hNe, by exact_mod_cast hZero, by linarith⟩
    · rintro ⟨_, rfl, rfl⟩
      constructor
      · push_cast
        linarith
      · push_cast
        linarith

end Timespec

variable {γ : Type u} [DecidableEq γ] {r mid r' : TimerRun γ}

omit [DecidableEq γ] in
lemma TimerRun.mem_added_step {a : TimerAction γ} (hStep : r.step a = some r') {label : TimerLabel γ}
    (hMem : label ∈ r.added) : label ∈ r'.added := by
  cases a with
  | add call duration =>
    simp only [TimerRun.step] at hStep
    split at hStep <;> cases hStep
    · exact mem_append_left _ hMem
    · exact hMem
  | remove slot | tick =>
    cases hStep
    exact hMem

omit [DecidableEq γ] in
lemma TimerRun.mem_added_add {call : γ} {duration : Nat} (hFree : ∃ i < stimerMaxJobs, r.jobs i = none)
    (hStep : r.step (.add call duration) = some r') : r.label call duration ∈ r'.added := by
  obtain ⟨i, hi, hNone⟩ := hFree
  rw [TimerRun.step] at hStep
  rcases r.jobs.add_spec (r.label call duration) duration with ⟨j, -, -, hAdd⟩ | ⟨hAll, -⟩
  · rw [hAdd] at hStep
    cases hStep
    exact mem_append_right _ (mem_singleton_self _)
  · simpa [hNone] using hAll i hi

/-- It keeps to the request only if that is a positive number of whole ticks and the call comes right after a tick. -/
theorem nanosleep_timer {before after : List (TimerAction γ)}
    (hBefore : Run TimerRun.step (fun _ a => a.Ok) TimerRun.init before r)
    (req : Timespec) (hTotal : req.tvSec * tickHz + req.tvNsec / tickTime < 2 ^ 32) (call : γ)
    (hFree : ∃ i < stimerMaxJobs, r.jobs i = none)
    (hAdd : r.step (.add call req.sleepTicks) = some mid)
    (hAfter : Run TimerRun.step (fun _ a => a.Ok) mid after r')
    (hKept : r.label call req.sleepTicks ∉ r'.removed) :
    (r'.calls.filter fun done => done.2 = r.label call req.sleepTicks) = (if r.now + ticksUntilZero req.sleepTicks ≤ r'.now
        then [(r.now + ticksUntilZero req.sleepTicks, r.label call req.sleepTicks)] else []) ∧
    ∀ phase : ℝ, 0 < phase → phase ≤ tickTime →
      (req.SleepsFor phase ↔ req.sleepTicks ≠ 0 ∧ req.tvNsec % tickTime = 0 ∧ phase = tickTime) := by
  have hInv : r.Inv := hBefore.invariant (fun _ _ _ hOk h hStep => h.step hOk hStep) TimerRun.init_inv
  obtain ⟨hLast, hMem⟩ := hAfter.invariant (I := fun s => s.Inv ∧ r.label call req.sleepTicks ∈ s.added)
    (fun _ _ _ hOk h hStep => ⟨h.1.step hOk hStep, TimerRun.mem_added_step hStep h.2⟩)
    ⟨hInv.step (a := .add call req.sleepTicks) (Nat.mod_lt _ (by decide)) hAdd, TimerRun.mem_added_add hFree hAdd⟩
  refine ⟨?_, fun phase => Timespec.sleepsFor_iff hTotal⟩
  rw [hLast.calls_of_mem hMem, if_neg hKept]
  rfl

/-- Less than one tick sleeps for `2 ^ 32` of them, and a tick and a half can be over before one tick has passed. -/
theorem nanosleep_wraps_and_truncates :
    ticksUntilZero (Timespec.sleepTicks ⟨0, 1000000⟩) = 2 ^ 32 ∧ ¬ Timespec.SleepsFor ⟨0, 1000000⟩ 1000000 ∧
    Timespec.sleepTime ⟨0, 5859375⟩ 1953125 < (Timespec.nanoseconds ⟨0, 5859375⟩ : ℝ) ∧
    ¬ Timespec.SleepsFor ⟨0, 5859375⟩ 1953125 := by
  have hTick : (1000000 : ℝ) ≤ tickTime ∧ (1953125 : ℝ) ≤ tickTime := by
    rw [show tickTime = 3906250 from rfl]
    norm_num
  refine ⟨by decide, fun h => ?_, ?_, fun h => ?_⟩
  · exact ((Timespec.sleepsFor_iff (by decide) (by norm_num) hTick.1).mp h).1 (by decide)
  · rw [Timespec.sleepTime, show ticksUntilZero (Timespec.sleepTicks ⟨0, 5859375⟩) = 1 by decide,
      show Timespec.nanoseconds ⟨0, 5859375⟩ = 5859375 by decide]
    norm_num
  · exact absurd ((Timespec.sleepsFor_iff (by decide) (by norm_num) hTick.2).mp h).2.1 (by decide)

theorem nanosleep_timer_one_tick :
    ∃ r mid r' : TimerRun Char, Run TimerRun.step (fun _ a => a.Ok) TimerRun.init [.add 'q' 5, .tick] r ∧
      r.step (.add 'p' (Timespec.sleepTicks ⟨0, 3906250⟩)) = some mid ∧
      Run TimerRun.step (fun _ a => a.Ok) mid [.tick, .tick] r' ∧
      (r'.calls.filter fun done => done.2 = r.label 'p' (Timespec.sleepTicks ⟨0, 3906250⟩)) =
        [(2, r.label 'p' (Timespec.sleepTicks ⟨0, 3906250⟩))] ∧ Timespec.SleepsFor ⟨0, 3906250⟩ tickTime := by
  have hBefore : Run TimerRun.step (fun _ a => a.Ok) (TimerRun.init (γ := Char)) [.add 'q' 5, .tick] _ :=
    .cons (show 5 < 2 ^ 32 by decide) rfl (.cons trivial rfl (.nil _))
  have hOk : (TimerAction.tick : TimerAction Char).Ok := trivial
  obtain ⟨hCalls, hSleeps⟩ := nanosleep_timer hBefore ⟨0, 3906250⟩ (by decide) 'p' ⟨1, by decide, rfl⟩ rfl
    (.cons hOk rfl (.cons hOk rfl (.nil _))) (by decide)
  refine ⟨_, _, _, hBefore, rfl, .cons hOk rfl (.cons hOk rfl (.nil _)), hCalls, (hSleeps tickTime ?_ le_rfl).mpr ?_⟩
  · rw [show tickTime = 3906250 from rfl]
    norm_num
  · exact ⟨by decide, by decide, rfl⟩

end Fixos.Sys
