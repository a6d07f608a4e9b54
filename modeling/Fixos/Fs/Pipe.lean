import Fixos.Arch.PhysicalMemory
import Fixos.Utils.CyclicFifo

/-! # Pipes (`fs/pipe.c`)

`pipe_read` and `pipe_write` give up the processor as long as the fifo has not enough bytes, or not enough room, and
then transfer all their bytes at once. A turn of such a loop is one step of the system.
-/

namespace Fixos.Fs

open Arch Utils Transition Buffer Option Function List

def pipeBufferSize : Nat := pmPageBytes - 16 - 4

def pipeFifo (buffer : Bytes) : CyclicFifo :=
  { size := 0, maxSize := pipeBufferSize, buffer, top := 0 }

inductive PipeCall where
  | read (dest : Bytes) (len : Nat)
  | write (source : Bytes) (len : Nat)
deriving DecidableEq

structure PipeReturn where
  call : PipeCall
  ret : Nat
  data : Bytes
deriving DecidableEq

def pipeReadTurn (fifo : CyclicFifo) (dest : Bytes) (len : Nat) :
    Option (CyclicFifo × Option PipeReturn) :=
  if fifo.size < len then some (fifo, none)
  else (cfifoPop fifo dest len).map fun (fifo, data) => (fifo, some ⟨.read dest len, len, data⟩)

def pipeWriteTurn (fifo : CyclicFifo) (source : Bytes) (len : Nat) :
    Option (CyclicFifo × Option PipeReturn) :=
  if Word.sub fifo.maxSize fifo.size < len then some (fifo, none)
  else (cfifoPush fifo source len).map fun fifo => (fifo, some ⟨.write source len, len, source⟩)

def pipeTurn (fifo : CyclicFifo) : PipeCall → Option (CyclicFifo × Option PipeReturn)
  | .read dest len => pipeReadTurn fifo dest len
  | .write source len => pipeWriteTurn fifo source len

/-- At most one call is under way for a process; `returned` is in the order of completion. -/
structure PipeSystem where
  fifo : CyclicFifo
  calls : Nat → Option PipeCall
  returned : List PipeReturn

def pipeSystem (buffer : Bytes) : PipeSystem := ⟨pipeFifo buffer, fun _ => none, []⟩

inductive PipeAction where
  | call (proc : Nat) (call : PipeCall)
  | turn (proc : Nat)

def PipeSystem.step (s : PipeSystem) : PipeAction → Option PipeSystem
  | .call proc call =>
    match s.calls proc with
    | none => some { s with calls := update s.calls proc (some call) }
    | some _ => none
  | .turn proc => do
    let call ← s.calls proc
    let (fifo, done) ← pipeTurn s.fifo call
    return match done with
    | none => { s with fifo }
    | some ret => { fifo, calls := update s.calls proc none, returned := s.returned ++ [ret] }

/-- The caller's buffer has `len` bytes, and these are not more than the pipe can hold. -/
def PipeCall.Fits : PipeCall → Prop
  | .read dest len => len ≤ dest.length ∧ len ≤ pipeBufferSize
  | .write source len => len ≤ source.length ∧ len ≤ pipeBufferSize

instance PipeCall.decidableFits (call : PipeCall) : Decidable call.Fits := by
  unfold PipeCall.Fits
  split <;> infer_instance

def PipeSystem.Allowed (_ : PipeSystem) : PipeAction → Prop
  | .call _ call => call.Fits
  | .turn _ => True

instance PipeSystem.decidableAllowed (s : PipeSystem) (a : PipeAction) : Decidable (s.Allowed a) := by
  unfold PipeSystem.Allowed
  split <;> infer_instance

def PipeReturn.readBytes : PipeReturn → Bytes
  | ⟨.read _ len, _, data⟩ => data.take len
  | ⟨.write _ _, _, _⟩ => []

def PipeReturn.writtenBytes : PipeReturn → Bytes
  | ⟨.read _ _, _, _⟩ => []
  | ⟨.write source len, _, _⟩ => source.take len

def PipeSystem.read (s : PipeSystem) : Bytes := s.returned.flatMap PipeReturn.readBytes

def PipeSystem.written (s : PipeSystem) : Bytes := s.returned.flatMap PipeReturn.writtenBytes

/-- The call returned its length; a read filled just as many bytes of its buffer, a write took as many. -/
def PipeReturn.Exact : PipeReturn → Prop
  | ⟨.read dest len, ret, data⟩ => ret = len ∧ (data.take len).length = len ∧ data.drop len = dest.drop len
  | ⟨.write source len, ret, data⟩ => ret = len ∧ (source.take len).length = len ∧ data = source

structure PipeSystem.Inv (s : PipeSystem) : Prop where
  carries : s.fifo.Carries pipeBufferSize s.written s.read
  fits : ∀ proc call, s.calls proc = some call → call.Fits
  exact_returns : ∀ ret ∈ s.returned, ret.Exact

section

variable {fifo : CyclicFifo} {sent received : Bytes}

lemma take_splice_zero {data bytes : Bytes} {len : Nat} (h : bytes.length = len) (hFit : len ≤ data.length) :
    (splice data 0 bytes).take len = bytes ∧ (splice data 0 bytes).drop len = data.drop len := by
  subst h
  rw [splice, take_zero, nil_append, Nat.zero_add]
  exact ⟨take_left, drop_left⟩

lemma pipeTurn_carries (h : fifo.Carries pipeBufferSize sent received) {call : PipeCall} (hFits : call.Fits) :
    pipeTurn fifo call = some (fifo, none) ∨ ∃ fifo' ret, pipeTurn fifo call = some (fifo', some ret) ∧ ret.Exact ∧
        fifo'.Carries pipeBufferSize (sent ++ ret.writtenBytes) (received ++ ret.readBytes) := by
  cases call with
  | read dest len =>
    obtain ⟨hDest, _⟩ := hFits
    unfold pipeTurn pipeReadTurn
    dsimp only
    split_ifs with hReady
    · exact Or.inl rfl
    · obtain ⟨fifo', bytes, hPop, hLength, hCarries⟩ := h.pop hDest (by omega)
      obtain ⟨hTake, hDrop⟩ := take_splice_zero hLength hDest
      refine Or.inr ⟨fifo', ⟨.read dest len, len, splice dest 0 bytes⟩, by rw [hPop]; rfl, ⟨rfl, ?_, hDrop⟩, ?_⟩
      · rw [hTake, hLength]
      · rw [PipeReturn.writtenBytes, PipeReturn.readBytes, append_nil, hTake]
        exact hCarries
  | write source len =>
    obtain ⟨hSource, _⟩ := hFits
    have hSize := h.valid.size_le
    have hSmall := h.valid.small
    unfold pipeTurn pipeWriteTurn
    dsimp only
    rw [Word.sub_of_le hSize (by omega), h.maxSize_eq]
    split_ifs with hRoom
    · exact Or.inl rfl
    · obtain ⟨fifo', hPush, hCarries⟩ := h.push hSource (by omega)
      refine Or.inr ⟨fifo', ⟨.write source len, len, source⟩, by rw [hPush]; rfl, ⟨rfl, ?_, rfl⟩, ?_⟩
      · rw [length_take, Nat.min_eq_left hSource]
      · rw [PipeReturn.writtenBytes, PipeReturn.readBytes, append_nil]
        exact hCarries

end

section

variable {s t : PipeSystem}

lemma PipeSystem.Inv.turn (h : s.Inv) {proc : Nat} {call : PipeCall} (hCall : s.calls proc = some call) :
    ∃ t, s.step (.turn proc) = some t ∧ t.Inv := by
  have hFits := h.fits proc call hCall
  rcases pipeTurn_carries h.carries hFits with hWaits | ⟨fifo', ret, hDone, hExact, hCarries⟩
  · refine ⟨s, ?_, h⟩
    simp only [PipeSystem.step, hCall, hWaits, bind_eq_bind, bind_some]
    rfl
  · refine ⟨⟨fifo', update s.calls proc none, s.returned ++ [ret]⟩, ?_, ?_, ?_, ?_⟩
    · simp only [PipeSystem.step, hCall, hDone, bind_eq_bind, bind_some]
      rfl
    · simpa [PipeSystem.written, PipeSystem.read] using hCarries
    · intro other c hOther
      dsimp only at hOther
      rw [update_apply] at hOther
      split at hOther
      · cases hOther
      · exact h.fits other c hOther
    · intro r hr
      rcases mem_append.mp hr with hOld | hNew
      · exact h.exact_returns r hOld
      · exact mem_singleton.mp hNew ▸ hExact

lemma PipeSystem.Inv.step (h : s.Inv) {a : PipeAction} (hAllowed : s.Allowed a) (hStep : s.step a = some t) : t.Inv := by
  cases a with
  | call proc call =>
    rw [PipeSystem.step] at hStep
    split at hStep
    · cases some.inj hStep
      refine ⟨h.carries, fun other c hOther => ?_, h.exact_returns⟩
      dsimp only at hOther
      rw [update_apply] at hOther
      split at hOther
      · exact some.inj hOther ▸ hAllowed
      · exact h.fits other c hOther
    · cases hStep
  | turn proc =>
    obtain ⟨call, hCall, _⟩ := bind_eq_some_iff.mp hStep
    obtain ⟨_, hTurn, hInv⟩ := h.turn hCall
    exact some.inj (hTurn.symm.trans hStep) ▸ hInv

section

variable {buffer : Bytes} (hBuffer : buffer.length = pipeBufferSize)
include hBuffer

lemma pipeFifo_valid : (pipeFifo buffer).Valid := by
  have hSize : pipeBufferSize = 1004 := rfl
  constructor <;> simp only [pipeFifo, hBuffer, hSize] <;> omega

lemma pipeSystem_inv : (pipeSystem buffer).Inv where
  carries := CyclicFifo.carries_of_empty (pipeFifo_valid hBuffer) rfl
  fits := fun _ _ hCall => by cases hCall
  exact_returns := fun _ hMem => absurd hMem not_mem_nil

end

end

/-- In every interleaving: the bytes read are the first of the bytes written, all calls that returned transferred their
length, the bytes in flight fit in the buffer, and no call under way can fail. -/
theorem pipe_stream (buffer : Bytes) (hBuffer : buffer.length = pipeBufferSize) (actions : List PipeAction)
    (s : PipeSystem) (hRun : Run PipeSystem.step PipeSystem.Allowed (pipeSystem buffer) actions s) :
    s.read <+: s.written ∧ (∀ ret ∈ s.returned, ret.Exact) ∧ s.written.length - s.read.length ≤ pipeBufferSize ∧
    s.written.length = s.read.length + s.fifo.size ∧
    ∀ proc call, s.calls proc = some call → ∃ t, s.step (.turn proc) = some t := by
  have h : s.Inv := hRun.invariant (fun _ _ _ hAllowed hInv => hInv.step hAllowed) (pipeSystem_inv hBuffer)
  have hLength := h.carries.length_sent_le
  refine ⟨h.carries.in_order, h.exact_returns, by omega, h.carries.length_sent, fun proc call hCall => ?_⟩
  obtain ⟨t, hTurn, _⟩ := h.turn hCall
  exact ⟨t, hTurn⟩

def pipeActions : List PipeAction :=
  [.call 1 (.read [0, 0, 0, 0] 3), .turn 1, .call 2 (.write [7, 8] 2), .call 3 (.write [9, 9, 9] 2), .turn 3, .turn 1,
    .turn 2, .turn 1]

theorem pipe_stream_pipeActions : ∃ s,
    Run PipeSystem.step PipeSystem.Allowed (pipeSystem (replicate pipeBufferSize 0)) pipeActions s ∧
    s.written = [9, 9, 7, 8] ∧ s.read = [9, 9, 7] ∧ s.read <+: s.written ∧ (∀ ret ∈ s.returned, ret.Exact) := by
  have hEval : (exec (guarded PipeSystem.step PipeSystem.Allowed) (pipeSystem (replicate pipeBufferSize 0))
      pipeActions).map (fun s => (s.written, s.read)) = some ([9, 9, 7, 8], [9, 9, 7]) := by decide +kernel
  obtain ⟨s, hExec, hEnd⟩ := map_eq_some_iff.mp hEval
  have hRun := run_of_exec_guarded hExec
  obtain ⟨hOrder, hExact, _⟩ := pipe_stream _ length_replicate _ s hRun
  exact ⟨s, hRun, congrArg Prod.fst hEnd, congrArg Prod.snd hEnd, hOrder, hExact⟩

end Fixos.Fs
