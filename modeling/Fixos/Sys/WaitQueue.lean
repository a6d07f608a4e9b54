import Fixos.Utils.CyclicFifo
import Fixos.Sys.Scheduler

/-! # Readers of a terminal (`sys/tty.c`, `sys/waitqueue.c`)

A reader that finds the fifo empty enters the wait queue, marks itself as sleeping and gives up the processor; input may
arrive between any two of these statements. Echoes, and signals for processes that do not sleep interruptibly, are left
out.
-/

namespace Fixos.Sys

open Utils Transition Function List Option

def ttyInputBuffer : Nat := 256
def ttyLineBuffer : Nat := 128

def VEOF : Nat := 0
def VEOL : Nat := 1
def VERASE : Nat := 2
def VINTR : Nat := 3
def VKILL : Nat := 4
def VMIN : Nat := 5
def VQUIT : Nat := 6
def VSUSP : Nat := 9

/-- The local modes that decide what happens to a character, and the control characters. -/
structure Termios where
  isig : Bool
  icanon : Bool
  echok : Bool
  cc : Nat → UInt8

/-- `line` are the characters of the line buffer below `line_pos`. -/
structure Tty where
  termios : Termios
  fifo : CyclicFifo
  line : Bytes
  towake : List ProcRef

def ttyDefaultCc : Bytes := [4, 0, 8, 3, 21, 1, 28, 0, 0, 26, 0]

def ttyDefaultInit : Tty where
  termios := ⟨true, true, true, fun i => ttyDefaultCc.getD i 0⟩
  fifo := ⟨ttyInputBuffer, 0, 0, replicate ttyInputBuffer 0⟩
  line := []
  towake := []

/-- A `char`, which is signed, compared with an unsigned control character. -/
def Termios.isControl (ios : Termios) (c : UInt8) (i : Nat) : Bool := c < 128 && c == ios.cc i

/-- Whether the character is discarded, what is stored instead and the line after it. -/
def Tty.canonical (tty : Tty) (c : UInt8) : Bool × UInt8 × Bytes :=
  if tty.termios.icanon then
    if tty.termios.isControl c VERASE then (true, c, tty.line.dropLast)
    else if tty.termios.isControl c VKILL then (true, c, if tty.termios.echok then [] else tty.line)
    else if tty.termios.isControl c VEOF then (true, c, tty.line)
    else if c = 10 ∨ tty.termios.isControl c VEOL ∨ c = 13 then (false, 10, tty.line)
    else (false, c, tty.line)
  else (false, c, tty.line)

def Tty.raisesSignal (tty : Tty) (c : UInt8) : Bool :=
  tty.termios.isig && (tty.termios.isControl c VINTR || tty.termios.isControl c VQUIT || tty.termios.isControl c VSUSP)

def Tty.edit (tty : Tty) (c : UInt8) : Bytes × Bool :=
  if c = 0 then (tty.line, false)
  else
    let signal := tty.raisesSignal c
    let (discard, c, line) := tty.canonical c
    if (signal || discard) = false ∧ line.length + 1 < ttyLineBuffer then
      let line := line ++ [c]
      (line, if tty.termios.icanon then c = 10 else (tty.termios.cc VMIN).toNat ≤ line.length)
    else (line, false)

def wqueueWakeup (state : ProcRef → ProcState) (towake : List ProcRef) : ProcRef → ProcState :=
  towake.foldl (fun state p => update state p (state p).wakeUp) state

inductive ReaderPos where
  | away
  | testing (len : Nat)
  | pushing (len : Nat)
  | marking (len : Nat)
  | scheduling (len : Nat)
  | descheduled (len : Nat)
  | taking (len readlen : Nat)
deriving DecidableEq

structure TtyRun where
  tty : Tty
  state : ProcRef → ProcState
  pos : ProcRef → ReaderPos

def TtyRun.boot (termios : Termios) : TtyRun where
  tty := { ttyDefaultInit with termios }
  state := fun _ => .running
  pos := fun _ => .away

inductive TtyAction where
  | read (p : ProcRef) (len : Nat)
  | turn (p : ProcRef)
  | input (c : UInt8)
deriving DecidableEq

def TtyRun.goTo (r : TtyRun) (p : ProcRef) (pos : ReaderPos) : TtyRun :=
  { r with pos := update r.pos p pos }

def TtyRun.turn (r : TtyRun) (p : ProcRef) : Option TtyRun :=
  match r.pos p with
  | .away => none
  | .testing len => some (r.goTo p (if 0 < r.tty.fifo.size then .taking len r.tty.fifo.size else .pushing len))
  | .pushing len => some (TtyRun.goTo { r with tty := { r.tty with towake := r.tty.towake ++ [p] } } p (.marking len))
  | .marking len =>
    some (TtyRun.goTo { r with state := update r.state p .uninterruptible } p (.scheduling len))
  | .scheduling len => some (r.goTo p (.descheduled len))
  | .descheduled len => if r.state p = .running then some (r.goTo p (.testing len)) else none
  | .taking len readlen =>
    (cfifoPop r.tty.fifo (replicate len 0) (if readlen > len then len else readlen)).map fun popped =>
      TtyRun.goTo { r with tty := { r.tty with fifo := popped.1 } } p .away

def TtyRun.inputChar (r : TtyRun) (c : UInt8) : Option TtyRun :=
  let (line, flush) := r.tty.edit c
  if flush then
    (cfifoPush r.tty.fifo line line.length).map fun fifo =>
      { r with
        tty := { r.tty with fifo, line := [], towake := [] }
        state := wqueueWakeup r.state r.tty.towake }
  else some { r with tty := { r.tty with line } }

/-- Only a process that runs calls `tty_read`. -/
def TtyRun.step (r : TtyRun) : TtyAction → Option TtyRun
  | .read p len => if r.pos p = .away ∧ r.state p = .running then some (r.goTo p (.testing len)) else none
  | .turn p => r.turn p
  | .input c => r.inputChar c

def ReaderPos.Exposed : ReaderPos → Prop
  | .pushing _ | .marking _ => True
  | _ => False

def TtyAction.Timely (r : TtyRun) : TtyAction → Prop
  | .input c => (r.tty.edit c).2 = true → ∀ p, ¬ (r.pos p).Exposed
  | _ => True

def TtyRun.SleepersQueued (r : TtyRun) : Prop :=
  ∀ p len, r.pos p = .descheduled len → r.state p = .uninterruptible →
    p ∈ r.tty.towake ∧ r.tty.fifo.size = 0

def TtyRun.Meets (r : TtyRun) (p : ProcRef) : ReaderPos → Prop
  | .away | .testing _ | .taking _ _ => True
  | .pushing _ => r.tty.fifo.size = 0
  | .marking _ => p ∈ r.tty.towake ∧ r.tty.fifo.size = 0
  | .scheduling _ | .descheduled _ => r.state p = .uninterruptible → p ∈ r.tty.towake ∧ r.tty.fifo.size = 0

def TtyRun.Waiting (r : TtyRun) (p : ProcRef) : Prop := r.Meets p (r.pos p)

section

variable {r r' : TtyRun} {p q : ProcRef}

lemma ProcState.wakeUp_wakeUp (state : ProcState) : state.wakeUp.wakeUp = state.wakeUp := by
  cases state <;> rfl

lemma wqueueWakeup_eq (state : ProcRef → ProcState) (towake : List ProcRef) (p : ProcRef) :
    wqueueWakeup state towake p = if p ∈ towake then (state p).wakeUp else state p := by
  unfold wqueueWakeup
  induction towake generalizing state with
  | nil => rfl
  | cons q towake ih =>
    rw [foldl_cons, ih, update_apply]
    rcases eq_or_ne p q with rfl | hNe
    · simp [ProcState.wakeUp_wakeUp]
    · simp [hNe]

lemma cfifoPop_empty {fifo fifo' : CyclicFifo} {data data' : Bytes} {nb : Nat}
    (h : cfifoPop fifo data nb = some (fifo', data')) (hEmpty : fifo.size = 0) : fifo'.size = 0 := by
  have hNone : (if nb > fifo.size then fifo.size else nb) = 0 := by
    split <;> omega
  simp only [cfifoPop, hNone, Nat.lt_irrefl, if_false] at h
  cases h
  exact hEmpty

namespace TtyRun

lemma Waiting.frame (h : r.Waiting p) (hPos : r'.pos p = r.pos p)
    (hState : r'.state p = .uninterruptible → r.state p = .uninterruptible)
    (hQueue : p ∈ r.tty.towake → p ∈ r'.tty.towake) (hFifo : r.tty.fifo.size = 0 → r'.tty.fifo.size = 0) :
    r'.Waiting p := by
  unfold Waiting at h ⊢
  rw [hPos]
  cases hAt : r.pos p with
  | away | testing | taking => trivial
  | pushing len =>
    rw [hAt] at h
    exact hFifo h
  | marking len =>
    rw [hAt] at h
    exact ⟨hQueue h.1, hFifo h.2⟩
  | scheduling len | descheduled len =>
    rw [hAt] at h
    intro hSleeps
    obtain ⟨hMem, hEmpty⟩ := h (hState hSleeps)
    exact ⟨hQueue hMem, hFifo hEmpty⟩

lemma goTo_waiting {pos : ReaderPos} (hOther : ∀ q ≠ p, r.Waiting q) (hSelf : r.Meets p pos) (q : ProcRef) :
    (r.goTo p pos).Waiting q := by
  rcases eq_or_ne q p with rfl | hNe
  · have hHere : (r.goTo q pos).pos q = pos := update_self _ _ _
    rw [Waiting, hHere]
    cases pos <;> exact hSelf
  · exact (hOther q hNe).frame (update_of_ne hNe _ _) id id id

lemma turn_waiting (h : ∀ q, r.Waiting q) (hStep : r.turn p = some r') (q : ProcRef) : r'.Waiting q := by
  have hSelf := h p
  unfold turn at hStep
  unfold Waiting at hSelf
  cases hAt : r.pos p with
  | away => simp [hAt] at hStep
  | testing len =>
    simp only [hAt] at hStep
    cases hStep
    refine goTo_waiting (fun q _ => h q) ?_ q
    split_ifs with hEmpty
    · trivial
    · exact Nat.eq_zero_of_not_pos hEmpty
  | pushing len =>
    simp only [hAt] at hStep hSelf
    cases hStep
    refine goTo_waiting ?_ ?_ q
    · exact fun q _ => (h q).frame rfl id (mem_append_left _) id
    · exact ⟨mem_append_right _ mem_cons_self, hSelf⟩
  | marking len =>
    simp only [hAt] at hStep hSelf
    cases hStep
    refine goTo_waiting ?_ ?_ q
    · refine fun q hq => (h q).frame rfl (fun hState => ?_) id id
      dsimp only at hState
      rwa [update_of_ne hq] at hState
    · exact fun _ => hSelf
  | scheduling len =>
    simp only [hAt] at hStep hSelf
    cases hStep
    refine goTo_waiting (fun q _ => h q) ?_ q
    exact hSelf
  | descheduled len =>
    simp only [hAt] at hStep
    obtain ⟨_, ⟨⟩⟩ := ite_none_right_eq_some.mp hStep
    refine goTo_waiting (fun q _ => h q) ?_ q
    trivial
  | taking len readlen =>
    simp only [hAt] at hStep
    obtain ⟨⟨_, _⟩, hPop, rfl⟩ := map_eq_some_iff.mp hStep
    refine goTo_waiting ?_ ?_ q
    · exact fun q _ => (h q).frame rfl id id (cfifoPop_empty hPop)
    · trivial

lemma inputChar_waiting {c : UInt8} (h : ∀ q, r.Waiting q) (hTimely : (r.tty.edit c).2 = true → ∀ q, ¬ (r.pos q).Exposed)
    (hStep : r.inputChar c = some r') (q : ProcRef) : r'.Waiting q := by
  unfold inputChar at hStep
  cases hFlush : (r.tty.edit c).2 with
  | false =>
    simp only [hFlush, Bool.false_eq_true, if_false] at hStep
    cases hStep
    exact (h q).frame rfl id id id
  | true =>
    simp only [hFlush, if_true] at hStep
    obtain ⟨_, _, rfl⟩ := map_eq_some_iff.mp hStep
    have hCalm := hTimely hFlush q
    have hOld := h q
    unfold Waiting at hOld ⊢
    cases hAt : r.pos q with
    | away | testing | taking => trivial
    | pushing len | marking len =>
      rw [hAt] at hCalm
      exact absurd trivial hCalm
    | scheduling len | descheduled len =>
      rw [hAt] at hOld
      intro hSleeps
      dsimp only at hSleeps
      rw [wqueueWakeup_eq] at hSleeps
      split_ifs at hSleeps with hNot
      · exact absurd hSleeps (ProcState.wakeUp_ne_uninterruptible _)
      · exact absurd (hOld hSleeps).1 hNot

lemma step_waiting {a : TtyAction} (h : ∀ q, r.Waiting q) (hTimely : a.Timely r) (hStep : r.step a = some r')
    (q : ProcRef) : r'.Waiting q := by
  cases a with
  | read p len =>
    obtain ⟨_, ⟨⟩⟩ := ite_none_right_eq_some.mp hStep
    refine goTo_waiting (fun q _ => h q) ?_ q
    trivial
  | turn p => exact turn_waiting h hStep q
  | input c => exact inputChar_waiting h hTimely hStep q

end TtyRun

end

/-- With no input between the test of a reader and its mark, every reader that sleeps is queued and has nothing to read.
-/
theorem readers_sleep_queued (termios : Termios) (actions : List TtyAction) (r : TtyRun)
    (hRun : Run TtyRun.step (fun r a => a.Timely r) (TtyRun.boot termios) actions r) : r.SleepersQueued := by
  have hWaiting : ∀ q, r.Waiting q := hRun.invariant (I := fun r => ∀ q, r.Waiting q)
    (fun _ _ _ hTimely h hStep => TtyRun.step_waiting h hTimely hStep) fun _ => trivial
  intro p _ hPos hState
  have hHere := hWaiting p
  rw [TtyRun.Waiting, hPos] at hHere
  exact hHere hState

theorem readers_sleep_queued_one : ∃ r, Run TtyRun.step (fun r a => a.Timely r) (TtyRun.boot ttyDefaultInit.termios)
        [.read 1 5, .turn 1, .turn 1, .turn 1, .turn 1, .input 97] r ∧
      r.pos 1 = .descheduled 5 ∧ r.state 1 = .uninterruptible ∧ 1 ∈ r.tty.towake ∧ r.tty.fifo.size = 0 := by
  have hRun : ∃ r, Run TtyRun.step (fun r a => a.Timely r) (TtyRun.boot ttyDefaultInit.termios)
      [.read 1 5, .turn 1, .turn 1, .turn 1, .turn 1, .input 97] r ∧
      r.pos 1 = .descheduled 5 ∧ r.state 1 = .uninterruptible :=
    ⟨_, .cons trivial rfl <| .cons trivial rfl <| .cons trivial rfl <| .cons trivial rfl <| .cons trivial rfl <|
      .cons (fun hFlush => absurd hFlush (by decide)) rfl (.nil _), rfl, rfl⟩
  obtain ⟨r, hRun, hPos, hState⟩ := hRun
  exact ⟨r, hRun, hPos, hState, readers_sleep_queued _ _ r hRun 1 5 hPos hState⟩

/-- A line before the mark takes the reader off the queue: it sleeps with a byte to read, and the next line does not
wake it. One before the queue finds nobody to wake. -/
theorem input_before_mark_lost : ((exec TtyRun.step (TtyRun.boot ttyDefaultInit.termios)
      [.read 1 5, .turn 1, .turn 1, .input 10, .turn 1, .turn 1]).map fun r =>
        (r.pos 1, r.state 1, r.tty.towake, r.tty.fifo.size)) = some (.descheduled 5, .uninterruptible, [], 1) ∧
    ((exec TtyRun.step (TtyRun.boot ttyDefaultInit.termios)
      [.read 1 5, .turn 1, .turn 1, .input 10, .turn 1, .turn 1, .input 10]).map fun r => r.state 1) =
        some .uninterruptible ∧
    ((exec TtyRun.step (TtyRun.boot ttyDefaultInit.termios)
      [.read 1 5, .turn 1, .input 10, .turn 1, .turn 1, .turn 1]).map fun r =>
        (r.pos 1, r.state 1, r.tty.towake, r.tty.fifo.size)) = some (.descheduled 5, .uninterruptible, [1], 1) := by
  decide +kernel

end Fixos.Sys
