import Fixos.Sys.WaitQueue

/-! # Lines of a terminal in canonical mode (`sys/tty.c`)

The line buffer and the fifo behind it against a line editor that only knows what the keys are for.
-/

namespace Fixos.Sys

open Utils Transition Buffer

def ttyInputChar (tty : Tty) (c : UInt8) : Option Tty :=
  let (line, flush) := tty.edit c
  if flush then (cfifoPush tty.fifo line line.length).map fun fifo => { tty with fifo, line := [], towake := [] }
  else some { tty with line }

def ttyRead (tty : Tty) (dest : Bytes) (len : Nat) : Option (Tty × Nat × Bytes) :=
  if 0 < tty.fifo.size then
    let readlen := if tty.fifo.size > len then len else tty.fifo.size
    (cfifoPop tty.fifo dest readlen).map fun (fifo, dest) => ({ tty with fifo }, readlen, dest)
  else none

def lineEdit (ios : Termios) (pending : Bytes) (c : UInt8) : Bytes × Bytes :=
  if c = 0 ∨ c = ios.cc VEOF ∨ (ios.isig = true ∧ (c = ios.cc VINTR ∨ c = ios.cc VQUIT ∨ c = ios.cc VSUSP)) then
    (pending, [])
  else if c = ios.cc VERASE then (pending.dropLast, [])
  else if c = ios.cc VKILL then ([], [])
  else if c = 10 ∨ c = 13 ∨ c = ios.cc VEOL then ([], pending ++ [10])
  else (pending ++ [c], [])

def controlChars : List Nat := [VEOF, VEOL, VERASE, VINTR, VKILL, VQUIT, VSUSP]

/-- The control characters differ from each other, where they are not disabled, and from the ends of a line. -/
structure Termios.Canonical (ios : Termios) : Prop where
  icanon : ios.icanon = true
  echok : ios.echok = true
  distinct : ∀ i ∈ controlChars, ∀ j ∈ controlChars, ios.cc i = ios.cc j → ios.cc i = 0 ∨ i = j
  not_newline : ∀ i ∈ controlChars, ios.cc i ≠ 10 ∧ ios.cc i ≠ 13

section

variable {tty : Tty} {c : UInt8}

lemma Termios.isControl_eq {ios : Termios} (hc : c < 128) (i : Nat) : ios.isControl c i = decide (c = ios.cc i) := by
  rw [Termios.isControl, decide_eq_true hc, Bool.true_and, beq_eq_decide]

lemma Termios.Canonical.only {ios : Termios} (h : ios.Canonical) (hc : c ≠ 0) {i : Nat} (hi : i ∈ controlChars)
    (hEq : c = ios.cc i) : c ≠ 10 ∧ c ≠ 13 ∧ ∀ j ∈ controlChars, j ≠ i → c ≠ ios.cc j := by
  subst hEq
  refine ⟨(h.not_newline i hi).1, (h.not_newline i hi).2, fun j hj hNe hSame => ?_⟩
  rcases h.distinct i hi j hj hSame with hZero | hIndex
  · exact hc hZero
  · exact hNe hIndex.symm

lemma Tty.edit_ignored (h : tty.termios.Canonical) (hc : c < 128)
    (hIgnored : c = 0 ∨ c = tty.termios.cc VEOF ∨ (tty.termios.isig = true ∧
      (c = tty.termios.cc VINTR ∨ c = tty.termios.cc VQUIT ∨ c = tty.termios.cc VSUSP))) :
    tty.edit c = (tty.line, false) := by
  rcases eq_or_ne c 0 with hNul | hNul
  · rw [Tty.edit, if_pos hNul]
  -- the character is one of four, so the tests for the others fail
  have hCanonical : ∀ i ∈ controlChars, i ≠ VERASE → i ≠ VKILL → i ≠ VEOL → c = tty.termios.cc i →
      (tty.canonical c).2.2 = tty.line ∧ (i = VEOF → (tty.canonical c).1 = true) := by
    intro i hi hErase hKill hEol hEq
    obtain ⟨hLf, hCr, hOthers⟩ := h.only hNul hi hEq
    have hNotErase := hOthers VERASE (by decide) hErase.symm
    have hNotKill := hOthers VKILL (by decide) hKill.symm
    have hNotEol := hOthers VEOL (by decide) hEol.symm
    unfold Tty.canonical
    simp only [Termios.isControl_eq hc, h.icanon, hNotErase, hNotKill, hNotEol, hLf, hCr, decide_false, decide_eq_true_eq,
      if_true, if_false, Bool.false_eq_true, or_self]
    constructor
    · split <;> rfl
    · rintro rfl
      rw [if_pos hEq]
  rw [Tty.edit, if_neg hNul]
  dsimp only
  rcases hIgnored with hZero | hEof | ⟨hIsig, hSignal⟩
  · exact absurd hZero hNul
  · obtain ⟨hLine, hDiscard⟩ := hCanonical VEOF (by decide) (by decide) (by decide) (by decide) hEof
    rw [hDiscard rfl, Bool.or_true, hLine]
    simp
  · have hRaises : tty.raisesSignal c = true := by
      simp only [Tty.raisesSignal, Termios.isControl_eq hc, hIsig, Bool.true_and, Bool.or_eq_true, decide_eq_true_eq]
      exact or_assoc.mpr hSignal
    have hLine : (tty.canonical c).2.2 = tty.line := by
      rcases hSignal with hEq | hEq | hEq
      · exact (hCanonical VINTR (by decide) (by decide) (by decide) (by decide) hEq).1
      · exact (hCanonical VQUIT (by decide) (by decide) (by decide) (by decide) hEq).1
      · exact (hCanonical VSUSP (by decide) (by decide) (by decide) (by decide) hEq).1
    rw [hRaises, Bool.true_or, hLine]
    simp

lemma Tty.edit_eq (h : tty.termios.Canonical) (hc : c < 128) (hShort : tty.line.length + 1 < ttyLineBuffer) :
    tty.edit c = if (lineEdit tty.termios tty.line c).2 = [] then ((lineEdit tty.termios tty.line c).1, false)
      else ((lineEdit tty.termios tty.line c).2, true) := by
  unfold lineEdit
  split
  · rename_i hIgnored
    rw [Tty.edit_ignored h hc hIgnored]
    rfl
  · rename_i hUsed
    obtain ⟨hNul, hEof, hSignal⟩ : c ≠ 0 ∧ c ≠ tty.termios.cc VEOF ∧ tty.raisesSignal c = false := by
      simp only [not_or] at hUsed
      refine ⟨hUsed.1, hUsed.2.1, ?_⟩
      simp only [Tty.raisesSignal, Termios.isControl_eq hc]
      cases hIsig : tty.termios.isig with
      | false => rfl
      | true => simpa [hIsig, and_assoc] using hUsed.2.2
    unfold Tty.edit Tty.canonical
    simp only [Termios.isControl_eq hc, h.icanon, h.echok, hNul, hEof, hSignal, decide_eq_true_eq, decide_false, if_true,
      if_false, Bool.false_or, Bool.false_eq_true]
    split
    · simp
    · split
      · simp
      · have hEnds : (c = 10 ∨ c = tty.termios.cc VEOL ∨ c = 13) ↔ (c = 10 ∨ c = 13 ∨ c = tty.termios.cc VEOL) := by
          rw [or_comm (a := c = tty.termios.cc VEOL)]
        rw [if_congr hEnds rfl rfl]
        split
        · simp [hShort]
        · rename_i hOrdinary
          have hLf : c ≠ 10 := fun hEq => hOrdinary (Or.inl hEq)
          simp [hShort, hLf]

end

/-- `completed` are the lines that the terminal has completed and `received` the bytes that the reads have returned. -/
structure TtyUse where
  tty : Tty
  pending : Bytes
  completed : Bytes
  received : Bytes

inductive TtyCall where
  | input (c : UInt8)
  | read (dest : Bytes) (len : Nat)
deriving DecidableEq

namespace TtyUse

def init (termios : Termios) (buffer : Bytes) : TtyUse where
  tty := { ttyDefaultInit with termios, fifo := ⟨ttyInputBuffer, 0, 0, buffer⟩ }
  pending := []
  completed := []
  received := []

def step (s : TtyUse) : TtyCall → Option TtyUse
  | .input c => (ttyInputChar s.tty c).map fun tty => { s with
      tty
      pending := (lineEdit tty.termios s.pending c).1
      completed := s.completed ++ (lineEdit tty.termios s.pending c).2 }
  | .read dest len => (ttyRead s.tty dest len).map fun (tty, count, dest) => { s with
      tty
      received := s.received ++ dest.take count }

/-- The line has at most 126 characters, the fifo has room for it, and a read finds a fifo that is not empty. -/
def Allowed (s : TtyUse) : TtyCall → Prop
  | .input c => c < 128 ∧ (lineEdit s.tty.termios s.pending c).1.length ≤ 126 ∧
      (lineEdit s.tty.termios s.pending c).2.length ≤ s.tty.fifo.maxSize - s.tty.fifo.size
  | .read dest len => 0 < s.tty.fifo.size ∧ len ≤ dest.length

instance decidableAllowed (s : TtyUse) (a : TtyCall) : Decidable (s.Allowed a) := by
  unfold TtyUse.Allowed
  split <;> infer_instance

structure Inv (s : TtyUse) : Prop where
  mode : s.tty.termios.Canonical
  line_eq : s.tty.line = s.pending
  short : s.pending.length ≤ 126
  carries : s.tty.fifo.Carries ttyInputBuffer s.completed s.received

section

variable {s t : TtyUse}

lemma Inv.input (h : s.Inv) {c : UInt8} (hAllowed : s.Allowed (.input c)) : ∃ t, s.step (.input c) = some t ∧ t.Inv := by
  obtain ⟨hc, hShort, hRoom⟩ := hAllowed
  have hLength : s.tty.line.length + 1 < ttyLineBuffer := by
    have hPending := h.short
    have hSize : ttyLineBuffer = 128 := rfl
    rw [h.line_eq, hSize]
    omega
  have hEdit := Tty.edit_eq h.mode hc hLength
  rw [h.line_eq] at hEdit
  cases hLine : (lineEdit s.tty.termios s.pending c).2 with
  | nil =>
    have hInput : ttyInputChar s.tty c = some { s.tty with line := (lineEdit s.tty.termios s.pending c).1 } := by
      rw [ttyInputChar, hEdit, if_pos hLine]
      rfl
    refine ⟨_, congrArg (Option.map _) hInput, Inv.mk h.mode rfl hShort ?_⟩
    dsimp only
    rw [hLine, List.append_nil]
    exact h.carries
  | cons first rest =>
    rw [h.carries.maxSize_eq] at hRoom
    obtain ⟨fifo, hPush, hCarries⟩ := h.carries.push le_rfl hRoom
    have hPending : (lineEdit s.tty.termios s.pending c).1 = [] := by
      revert hLine
      unfold lineEdit
      split_ifs <;> simp
    have hInput : ttyInputChar s.tty c = some { s.tty with fifo, line := [], towake := [] } := by
      rw [ttyInputChar, hEdit, if_neg (by rw [hLine]; exact List.cons_ne_nil _ _)]
      exact congrArg (Option.map _) hPush
    rw [List.take_length] at hCarries
    exact ⟨_, congrArg (Option.map _) hInput, Inv.mk h.mode hPending.symm hShort hCarries⟩

lemma Inv.read (h : s.Inv) {dest : Bytes} {len : Nat} (hAllowed : s.Allowed (.read dest len)) :
    ∃ t, s.step (.read dest len) = some t ∧ t.Inv := by
  obtain ⟨hSome, hDest⟩ := hAllowed
  obtain ⟨readlen, hReadlen⟩ : ∃ readlen, readlen = if s.tty.fifo.size > len then len else s.tty.fifo.size := ⟨_, rfl⟩
  have hLe : readlen ≤ s.tty.fifo.size ∧ readlen ≤ len := by
    rw [hReadlen]
    split <;> omega
  obtain ⟨fifo, bytes, hPop, hLength, hCarries⟩ := h.carries.pop (hLe.2.trans hDest) hLe.1
  have hRead : ttyRead s.tty dest len = some ({ s.tty with fifo }, readlen, splice dest 0 bytes) := by
    rw [ttyRead, if_pos hSome]
    dsimp only
    rw [← hReadlen, hPop]
    rfl
  refine ⟨_, congrArg (Option.map _) hRead, Inv.mk h.mode h.line_eq h.short ?_⟩
  dsimp only
  rw [← hLength, splice, List.take_zero, List.nil_append, List.take_left]
  exact hCarries

lemma Inv.step_total (h : s.Inv) {a : TtyCall} (hAllowed : s.Allowed a) : ∃ t, s.step a = some t ∧ t.Inv := by
  cases a with
  | input c => exact h.input hAllowed
  | read dest len => exact h.read hAllowed

lemma init_inv {termios : Termios} (hMode : termios.Canonical) {buffer : Bytes}
    (hBuffer : buffer.length = ttyInputBuffer) : (init termios buffer).Inv where
  mode := hMode
  line_eq := rfl
  short := Nat.zero_le _
  carries := by
    have hSize : ttyInputBuffer = 256 := rfl
    have hValid : CyclicFifo.Valid ⟨ttyInputBuffer, 0, 0, buffer⟩ := by
      constructor <;> simp only [hBuffer, hSize] <;> omega
    exact CyclicFifo.carries_of_empty hValid rfl

end

end TtyUse

/-- The reads return the lines of the reference editor, byte by byte and in order. -/
theorem tty_lines_in_order (termios : Termios) (hMode : termios.Canonical) (buffer : Bytes)
    (hBuffer : buffer.length = ttyInputBuffer) (calls : List TtyCall) (s : TtyUse)
    (hRun : Run TtyUse.step TtyUse.Allowed (TtyUse.init termios buffer) calls s) :
    s.received <+: s.completed ∧ s.tty.line = s.pending ∧ ∀ a, s.Allowed a → ∃ t, s.step a = some t := by
  have h : s.Inv := by
    refine hRun.invariant (fun s a t hAllowed hInv hStep => ?_) (TtyUse.init_inv hMode hBuffer)
    obtain ⟨_, hTaken, hNext⟩ := hInv.step_total hAllowed
    exact Option.some.inj (hTaken.symm.trans hStep) ▸ hNext
  refine ⟨h.carries.in_order, h.line_eq, fun a hAllowed => ?_⟩
  obtain ⟨t, hStep, _⟩ := h.step_total hAllowed
  exact ⟨t, hStep⟩

lemma ttyDefaultInit_canonical : ttyDefaultInit.termios.Canonical := ⟨rfl, rfl, by decide, by decide⟩

def twoLines : List TtyCall :=
  [.input 97, .input 8, .input 98, .input 4, .input 3, .input 13, .read [0, 0] 1, .input 99, .input 21, .input 100,
    .input 10, .read [0, 0, 0, 0] 2]

theorem tty_lines_in_order_twoLines : ∃ s,
    Run TtyUse.step TtyUse.Allowed (TtyUse.init ttyDefaultInit.termios (List.replicate ttyInputBuffer 0)) twoLines s ∧
    s.completed = [98, 10, 100, 10] ∧ s.received = [98, 10, 100] ∧ s.received <+: s.completed := by
  have hEval : (exec (guarded TtyUse.step TtyUse.Allowed)
      (TtyUse.init ttyDefaultInit.termios (List.replicate ttyInputBuffer 0)) twoLines).map
        (fun s => (s.completed, s.received)) = some ([98, 10, 100, 10], [98, 10, 100]) := by decide +kernel
  obtain ⟨s, hExec, hEnd⟩ := Option.map_eq_some_iff.mp hEval
  have hRun := run_of_exec_guarded hExec
  obtain ⟨hOrder, _⟩ := tty_lines_in_order _ ttyDefaultInit_canonical _ List.length_replicate _ s hRun
  exact ⟨s, hRun, congrArg Prod.fst hEnd, congrArg Prod.snd hEnd, hOrder⟩

end Fixos.Sys
