import Fixos.Sys.TtyLines

/-! # When a terminal takes its input (`sys/tty.c`)

A newline that does not fit into the line buffer is dropped, and what is pending stays pending.
-/

namespace Fixos.Sys

open Utils Transition Buffer List Option

def ttySetTermios (tty : Tty) (ios : Termios) : Tty := { tty with termios := ios }

inductive TtyEvent where
  | input (c : UInt8)
  | read (dest : Bytes) (len : Nat)
  | setTermios (ios : Termios)

def Tty.step (tty : Tty) : TtyEvent → Option Tty
  | .input c => ttyInputChar tty c
  | .read dest len => (ttyRead tty dest len).map Prod.fst
  | .setTermios ios => some (ttySetTermios tty ios)

def TtyEvent.Proper : TtyEvent → Prop
  | .read dest len => len ≤ dest.length
  | .input _ | .setTermios _ => True

instance (a : TtyEvent) : Decidable a.Proper := by
  unfold TtyEvent.Proper
  split <;> infer_instance

def ttyFresh (buffer : Bytes) : Tty :=
  { ttyDefaultInit with fifo := ⟨ttyInputBuffer, 0, 0, buffer⟩ }

def Tty.feed (tty : Tty) (cs : Bytes) : Option Tty := cs.foldlM ttyInputChar tty

def Tty.Ordinary (tty : Tty) (c : UInt8) : Prop := c ≠ 0 ∧ tty.raisesSignal c = false

def Tty.Delivered (tty tty' : Tty) : Prop := tty.fifo.contents ++ tty.line <+: tty'.fifo.contents

/-- A newline completes the line or, in non-canonical mode, some number of characters has the pending ones delivered. -/
def Tty.Unwedged (tty : Tty) : Prop :=
  if tty.termios.icanon then
    ∃ tty', ttyInputChar tty 10 = some tty' ∧ tty'.line = [] ∧
      tty'.fifo.contents = tty.fifo.contents ++ (tty.line ++ [10])
  else
    ∃ n, ∀ cs : Bytes, cs.length = n → (∀ c ∈ cs, tty.Ordinary c) →
      ∃ tty', tty.feed cs = some tty' ∧ tty.Delivered tty'

def Tty.room (tty : Tty) : Nat := tty.fifo.maxSize - tty.fifo.size

def Termios.PassesNewline (ios : Termios) : Prop :=
  (∀ i ∈ [VERASE, VKILL, VEOF], ios.cc i ≠ 10) ∧ (ios.isig = true → ∀ i ∈ [VINTR, VQUIT, VSUSP], ios.cc i ≠ 10)
deriving Decidable

/-- The line has a place left for one more character, VMIN is within the buffer and the fifo has room. -/
def Tty.Open (tty : Tty) : Prop :=
  if tty.termios.icanon then
    tty.termios.PassesNewline ∧ tty.line.length + 1 < ttyLineBuffer ∧ tty.line.length + 1 ≤ tty.room
  else
    tty.line = [] ∨ (tty.line.length + 1 < ttyLineBuffer ∧ (tty.termios.cc VMIN).toNat < ttyLineBuffer ∧
      tty.line.length ≤ tty.room)

instance Tty.decidableOpen (tty : Tty) : Decidable tty.Open := by
  unfold Tty.Open
  infer_instance

structure Tty.Sound (tty : Tty) : Prop where
  valid : tty.fifo.Valid
  short : tty.line.length < ttyLineBuffer

section

variable {tty tty' : Tty} {c : UInt8}

lemma Tty.line_canonical_le (tty : Tty) (c : UInt8) : (tty.canonical c).2.2.length ≤ tty.line.length := by
  unfold Tty.canonical
  split_ifs <;> simp

section

variable (h : tty.Sound)
include h

lemma Tty.Sound.edit_short (c : UInt8) : (tty.edit c).1.length < ttyLineBuffer := by
  have hLine := tty.line_canonical_le c
  have hShort := h.short
  unfold Tty.edit
  dsimp only
  split
  · exact hShort
  · split
    · rename_i hFits
      rw [length_append, length_singleton]
      exact hFits.2
    · exact hLine.trans_lt hShort

lemma Tty.Sound.input (c : UInt8) : ∃ tty', ttyInputChar tty c = some tty' ∧ tty'.Sound ∧
    tty'.termios = tty.termios ∧ tty'.fifo.maxSize = tty.fifo.maxSize ∧
    if (tty.edit c).2 then
      tty'.line = [] ∧ tty'.fifo.contents = BoundedQueue.push tty.fifo.maxSize tty.fifo.contents (tty.edit c).1
    else tty'.line = (tty.edit c).1 ∧ tty'.fifo = tty.fifo := by
  unfold ttyInputChar
  dsimp only
  split
  · obtain ⟨_, hPush, hValid, hSize, hContents⟩ := cfifoPush_spec h.valid (Nat.le_refl (tty.edit c).1.length)
    rw [take_length] at hContents
    exact ⟨_, congrArg (Option.map _) hPush, ⟨hValid, Nat.zero_lt_of_lt h.short⟩, rfl, hSize, rfl, hContents⟩
  · exact ⟨_, rfl, ⟨h.valid, h.edit_short c⟩, rfl, rfl, rfl, rfl⟩

lemma Tty.Sound.read {dest : Bytes} {len : Nat} (hDest : len ≤ dest.length)
    (hRead : (ttyRead tty dest len).map Prod.fst = some tty') : tty'.Sound := by
  unfold ttyRead at hRead
  split at hRead
  · have hLe : (if tty.fifo.size > len then len else tty.fifo.size) ≤ dest.length := by
      split <;> omega
    obtain ⟨_, hPop, hValid, _⟩ := cfifoPop_spec h.valid hLe
    dsimp only at hRead
    rw [hPop] at hRead
    cases hRead
    exact ⟨hValid, h.short⟩
  · cases hRead

lemma Tty.Sound.step {a : TtyEvent} (hProper : a.Proper) (hStep : tty.step a = some tty') : tty'.Sound := by
  cases a with
  | input c =>
    obtain ⟨_, hNext, hSound, _⟩ := h.input c
    rw [Tty.step, hNext] at hStep
    cases hStep
    exact hSound
  | read dest len => exact h.read hProper hStep
  | setTermios ios =>
    cases hStep
    exact ⟨h.valid, h.short⟩

end

section

variable {buffer : Bytes} (hBuffer : buffer.length = ttyInputBuffer)
include hBuffer

lemma ttyFresh_sound : (ttyFresh buffer).Sound := by
  have hSize : ttyInputBuffer = 256 := rfl
  have hLine : ttyLineBuffer = 128 := rfl
  refine ⟨⟨?_, ?_, ?_, ?_, hBuffer⟩, ?_⟩ <;> simp only [ttyFresh, ttyDefaultInit, length_nil] <;> omega

lemma Tty.reachable_sound {events : List TtyEvent}
    (hRun : Run Tty.step (fun _ a => a.Proper) (ttyFresh buffer) events tty) : tty.Sound :=
  hRun.invariant (fun _ _ _ hProper hs hStep => hs.step hProper hStep) (ttyFresh_sound hBuffer)

end

end

section

variable {tty : Tty}

section

variable (hMode : tty.termios.icanon = true)
include hMode

lemma Tty.canonical_newline (hKept : (tty.canonical 10).1 = false) : tty.canonical 10 = (false, 10, tty.line) := by
  revert hKept
  unfold Tty.canonical
  rw [if_pos hMode]
  split_ifs <;> simp

lemma Tty.passesNewline_iff : tty.termios.PassesNewline ↔ tty.raisesSignal 10 = false ∧ (tty.canonical 10).1 = false := by
  have hControl (i : Nat) : tty.termios.isControl 10 i = decide (tty.termios.cc i = 10) := by
    rw [Termios.isControl_eq (by decide), decide_eq_decide]
    exact eq_comm
  simp only [Termios.PassesNewline, Tty.raisesSignal, Tty.canonical, hControl, hMode, if_true, forall_mem_cons,
    not_mem_nil, false_imp_iff, implies_true, and_true]
  constructor
  · rintro ⟨⟨hErase, hKill, hEof⟩, hSignal⟩
    refine ⟨?_, by simp [hErase, hKill, hEof]⟩
    cases hIsig : tty.termios.isig with
    | false => rfl
    | true => simpa [and_assoc] using hSignal hIsig
  · rintro ⟨hSignal, hKept⟩
    refine ⟨?_, fun hIsig => by simpa [hIsig, and_assoc] using hSignal⟩
    split_ifs at hKept <;> simp_all

lemma Tty.edit_newline :
    tty.edit 10 = if tty.termios.PassesNewline ∧ tty.line.length + 1 < ttyLineBuffer then (tty.line ++ [10], true)
      else ((tty.canonical 10).2.2, false) := by
  simp only [Tty.passesNewline_iff hMode]
  rw [Tty.edit, if_neg (by decide)]
  dsimp only
  cases hKept : (tty.canonical 10).1 with
  | true => simp
  | false => simp [Tty.canonical_newline hMode hKept, hMode]

end

lemma Tty.Sound.newline_iff (h : tty.Sound) (hMode : tty.termios.icanon = true) : tty.Unwedged ↔ tty.Open := by
  obtain ⟨_, hNext, _, _, _, hEffect⟩ := h.input 10
  have hQueued := CyclicFifo.length_contents h.valid
  simp only [Tty.Unwedged, Tty.Open, hMode, if_true, hNext, some_inj, exists_eq_left']
  have hEdit := Tty.edit_newline hMode
  rw [← and_assoc]
  split_ifs at hEdit with hPasses
  · rw [hEdit, if_pos rfl] at hEffect
    obtain ⟨hLine, hContents⟩ := hEffect
    rw [hContents, BoundedQueue.push, append_cancel_left_eq, take_eq_self_iff, hQueued]
    simp [hLine, Tty.room, hPasses]
  · rw [hEdit, if_neg Bool.false_ne_true] at hEffect
    obtain ⟨_, hFifo⟩ := hEffect
    simp [hFifo, hPasses]

end

section

variable {tty tty' : Tty} {c : UInt8}

namespace Tty

lemma edit_ordinary (hMode : tty.termios.icanon = false) (hc : tty.Ordinary c) :
    tty.edit c = if tty.line.length + 1 < ttyLineBuffer then
      (tty.line ++ [c], decide ((tty.termios.cc VMIN).toNat ≤ tty.line.length + 1)) else (tty.line, false) := by
  have hCanonical : tty.canonical c = (false, c, tty.line) := by
    simp [canonical, hMode]
  unfold edit
  rw [if_neg hc.1]
  rw [hCanonical, hc.2]
  simp [hMode]

lemma Ordinary.congr (hc : tty.Ordinary c) (hSame : tty'.termios = tty.termios) : tty'.Ordinary c := by
  obtain ⟨hNul, hSignal⟩ := hc
  refine ⟨hNul, ?_⟩
  rw [raisesSignal, hSame]
  exact hSignal

lemma ordinary_high (tty : Tty) : tty.Ordinary 200 := by
  refine ⟨by decide, ?_⟩
  simp [raisesSignal, Termios.isControl]

section

variable (h : tty.Sound)
include h

lemma Sound.feed_flush {cs : Bytes} (hMode : tty.termios.icanon = false)
    (hShort : tty.line.length + 1 < ttyLineBuffer) (hMin : (tty.termios.cc VMIN).toNat < ttyLineBuffer)
    (hCount : cs.length = max 1 ((tty.termios.cc VMIN).toNat - tty.line.length)) (hcs : ∀ c ∈ cs, tty.Ordinary c) :
    ∃ tty', tty.feed cs = some tty' ∧
      tty'.fifo.contents = BoundedQueue.push tty.fifo.maxSize tty.fifo.contents (tty.line ++ cs) := by
  induction cs generalizing tty with
  | nil =>
    rw [length_nil] at hCount
    omega
  | cons c rest ih =>
    obtain ⟨next, hNext, hSound, hSame, _, hEffect⟩ := h.input c
    rw [edit_ordinary hMode (hcs c mem_cons_self), if_pos hShort] at hEffect
    rw [length_cons] at hCount
    rw [feed, foldlM_cons, hNext]
    rcases Nat.lt_or_ge (tty.line.length + 1) (tty.termios.cc VMIN).toNat with hMore | hReached
    · rw [if_neg (by simpa using hMore)] at hEffect
      obtain ⟨hLine, hFifo⟩ := hEffect
      have hLength : next.line.length = tty.line.length + 1 := by
        rw [hLine, length_append, length_singleton]
      obtain ⟨last, hLast, hContents⟩ := ih hSound (hSame ▸ hMode) (by omega) (hSame ▸ hMin)
        (by rw [hSame, hLength]; omega) (fun d hd => (hcs d (mem_cons_of_mem c hd)).congr hSame)
      refine ⟨last, hLast, ?_⟩
      rw [hContents, hFifo, hLine, append_assoc, singleton_append]
    · obtain rfl : rest = [] := length_eq_zero_iff.mp (by omega)
      rw [if_pos (by simpa using hReached)] at hEffect
      exact ⟨next, rfl, hEffect.2⟩

lemma Sound.feed_stuck {cs : Bytes} (hMode : tty.termios.icanon = false)
    (hStuck : ttyLineBuffer ≤ tty.line.length + 1 ∨ ttyLineBuffer ≤ (tty.termios.cc VMIN).toNat)
    (hcs : ∀ c ∈ cs, tty.Ordinary c) (hFeed : tty.feed cs = some tty') : tty'.fifo = tty.fifo := by
  have hAll : tty'.Sound ∧ tty'.termios = tty.termios ∧ tty'.fifo = tty.fifo ∧
      (ttyLineBuffer ≤ tty'.line.length + 1 ∨ ttyLineBuffer ≤ (tty.termios.cc VMIN).toNat) := by
    refine foldlM_invariant (I := fun t : Tty => t.Sound ∧ t.termios = tty.termios ∧ t.fifo = tty.fifo ∧
      (ttyLineBuffer ≤ t.line.length + 1 ∨ ttyLineBuffer ≤ (tty.termios.cc VMIN).toNat))
      (fun c hc s t hs hStep => ?_) ⟨h, rfl, rfl, hStuck⟩ hFeed
    obtain ⟨hSound, hSame, hFifo, hStill⟩ := hs
    obtain ⟨_, hNext, hNextSound, hNextSame, _, hEffect⟩ := hSound.input c
    cases hNext.symm.trans hStep
    rw [edit_ordinary (hSame ▸ hMode) ((hcs c hc).congr hSame), hSame] at hEffect
    refine ⟨hNextSound, hNextSame.trans hSame, ?_⟩
    split at hEffect
    · have hFar : ttyLineBuffer ≤ (tty.termios.cc VMIN).toNat := hStill.resolve_left (by omega)
      rw [if_neg (by simp only [decide_eq_true_eq]; omega)] at hEffect
      exact ⟨hEffect.2.trans hFifo, Or.inr hFar⟩
    · obtain ⟨hLine, hNextFifo⟩ := hEffect
      rw [hLine]
      exact ⟨hNextFifo.trans hFifo, hStill⟩
  exact hAll.2.2.1

lemma Sound.feed_total (cs : Bytes) : ∃ tty', tty.feed cs = some tty' ∧ tty'.Sound ∧
    tty'.fifo.maxSize = tty.fifo.maxSize := by
  refine foldlM_total (I := fun t : Tty => t.Sound ∧ t.fifo.maxSize = tty.fifo.maxSize) (fun c _ s hs => ?_) ⟨h, rfl⟩
  obtain ⟨t, hStep, hSound, _, hSize, _⟩ := hs.1.input c
  exact ⟨t, hStep, hSound, hSize.trans hs.2⟩

lemma Sound.raw_iff (hMode : tty.termios.icanon = false) : tty.Unwedged ↔ tty.Open := by
  have hQueued := CyclicFifo.length_contents h.valid
  rw [Unwedged, Open, if_neg (by simp [hMode]), if_neg (by simp [hMode])]
  constructor
  · rintro ⟨n, hAll⟩
    have hcs : ∀ c ∈ replicate n (200 : UInt8), tty.Ordinary c := by
      intro c hc
      rw [eq_of_mem_replicate hc]
      exact tty.ordinary_high
    obtain ⟨last, hFeed, hDelivered⟩ := hAll _ length_replicate hcs
    obtain ⟨_, hFeed', hLast, _⟩ := h.feed_total (replicate n 200)
    cases hFeed.symm.trans hFeed'
    rcases eq_or_ne tty.line [] with hNone | hSome
    · exact Or.inl hNone
    -- what is delivered has room, and it cannot be delivered to a fifo that never changes
    have hNotStuck : ¬ (ttyLineBuffer ≤ tty.line.length + 1 ∨ ttyLineBuffer ≤ (tty.termios.cc VMIN).toNat) := by
      intro hStuck
      have hLength := hDelivered.length_le
      rw [h.feed_stuck hMode hStuck hcs hFeed, length_append] at hLength
      have := length_pos_iff.mpr hSome
      omega
    have hFits := hDelivered.length_le
    have hLastSize := hLast.valid.size_le
    rw [CyclicFifo.length_contents hLast.valid, length_append, hQueued] at hFits
    rw [room]
    omega
  · rintro (hNone | ⟨hShort, hMin, hRoom⟩)
    · refine ⟨0, fun cs hLength _ => ⟨tty, ?_, ?_⟩⟩
      · rw [length_eq_zero_iff.mp hLength]
        rfl
      · rw [Delivered, hNone, append_nil]
    · refine ⟨max 1 ((tty.termios.cc VMIN).toNat - tty.line.length), fun cs hLength hcs => ?_⟩
      obtain ⟨last, hFeed, hContents⟩ := h.feed_flush hMode hShort hMin hLength hcs
      refine ⟨last, hFeed, ?_⟩
      rw [room] at hRoom
      rw [Delivered, hContents, BoundedQueue.push, hQueued, take_append, take_of_length_le hRoom, ← append_assoc]
      exact prefix_append _ _

end

end Tty

end

/-- Whatever the settings were and are, the input of a terminal moves on exactly if it is open. -/
theorem tty_unwedged_iff (buffer : Bytes) (hBuffer : buffer.length = ttyInputBuffer) (events : List TtyEvent)
    (tty : Tty) (hRun : Run Tty.step (fun _ a => a.Proper) (ttyFresh buffer) events tty) :
    tty.Unwedged ↔ tty.Open := by
  have h := Tty.reachable_sound hBuffer hRun
  cases hMode : tty.termios.icanon with
  | true => exact h.newline_iff hMode
  | false => exact h.raw_iff hMode

def rawTermios (vmin : UInt8) : Termios :=
  { ttyDefaultInit.termios with icanon := false, cc := Function.update ttyDefaultInit.termios.cc VMIN vmin }

theorem tty_unwedged_raw : ∃ tty, Run Tty.step (fun _ a => a.Proper) (ttyFresh (replicate ttyInputBuffer 0))
      [.input 97, .input 98, .setTermios (rawTermios 3)] tty ∧ tty.line = [97, 98] ∧ tty.Unwedged := by
  have hEval : (exec (guarded Tty.step fun _ a => a.Proper) (ttyFresh (replicate ttyInputBuffer 0))
      [.input 97, .input 98, .setTermios (rawTermios 3)]).map
        (fun tty => decide (tty.line = [97, 98] ∧ tty.Open)) = some true := by
    decide +kernel
  obtain ⟨tty, hExec, hTest⟩ := map_eq_some_iff.mp hEval
  obtain ⟨hLine, hOpen⟩ := of_decide_eq_true hTest
  have hRun := run_of_exec_guarded hExec
  exact ⟨tty, hRun, hLine, (tty_unwedged_iff _ length_replicate _ tty hRun).mpr hOpen⟩

/-- After 127 characters the newline is dropped, and with more asked for than the line buffer holds nothing gets out of
it. -/
theorem tty_input_wedged : (∃ tty, Run Tty.step (fun _ a => a.Proper) (ttyFresh (replicate ttyInputBuffer 0))
      (replicate 127 (.input 97)) tty ∧ tty.termios.icanon = true ∧ ¬ tty.Unwedged) ∧
    ∃ tty, Run Tty.step (fun _ a => a.Proper) (ttyFresh (replicate ttyInputBuffer 0))
      [.input 97, .setTermios (rawTermios 200)] tty ∧ tty.termios.icanon = false ∧ ¬ tty.Unwedged := by
  have hSound {events tty} (hRun : Run Tty.step (fun _ a => a.Proper) (ttyFresh (replicate ttyInputBuffer 0))
      events tty) : tty.Sound := Tty.reachable_sound length_replicate hRun
  constructor
  · have hEval : (exec (guarded Tty.step fun _ a => a.Proper) (ttyFresh (replicate ttyInputBuffer 0))
        (replicate 127 (.input 97))).map (fun tty => decide (tty.termios.icanon = true ∧ ¬ tty.Open)) = some true := by
      decide +kernel
    obtain ⟨tty, hExec, hTest⟩ := map_eq_some_iff.mp hEval
    obtain ⟨hMode, hShut⟩ := of_decide_eq_true hTest
    have hRun := run_of_exec_guarded hExec
    exact ⟨tty, hRun, hMode, fun hMoves => hShut (((hSound hRun).newline_iff hMode).mp hMoves)⟩
  · have hEval : (exec (guarded Tty.step fun _ a => a.Proper) (ttyFresh (replicate ttyInputBuffer 0))
        [.input 97, .setTermios (rawTermios 200)]).map
          (fun tty => decide (tty.termios.icanon = false ∧ ¬ tty.Open)) = some true := by
      decide +kernel
    obtain ⟨tty, hExec, hTest⟩ := map_eq_some_iff.mp hEval
    obtain ⟨hMode, hShut⟩ := of_decide_eq_true hTest
    have hRun := run_of_exec_guarded hExec
    exact ⟨tty, hRun, hMode, fun hMoves => hShut (((hSound hRun).raw_iff hMode).mp hMoves)⟩

end Fixos.Sys
