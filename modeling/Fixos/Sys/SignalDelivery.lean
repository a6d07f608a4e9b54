import Fixos.Sys.Signal
import Mathlib.Data.List.TakeWhile

/-! # One call of `signal_deliver_pending`

The loop runs over the signals that are deliverable when it starts and is left by a jump at the
first one that enters a handler or ends the process.
-/

namespace Fixos.Sys

open Interface Arch List Option

inductive Disposition where
  | pass
  | stop
  | term
  | handler (action : Sigaction)
deriving DecidableEq

def Disposition.leaves : Disposition → Bool
  | .pass | .stop => false
  | .term | .handler _ => true

namespace SigProcess

def disposition (proc : SigProcess) (sig : Nat) : Disposition :=
  match transNumber2index sig with
  | none => .pass
  | some index =>
    if (proc.sigArray index).saHandler = SIG_IGN then .pass
    else if (proc.sigArray index).saHandler = SIG_DFL then
      match transIndex2default index with
      | .ign | .cont => .pass
      | .stop => .stop
      | .term => .term
    else .handler (proc.sigArray index)

def Deliverable (proc : SigProcess) (sig : Nat) : Prop :=
  sig < signalMax ∧ sigismember proc.sigPending sig = true ∧ sigismember proc.sigBlocked sig = false

def leaves (proc : SigProcess) (sig : Nat) : Bool := (proc.disposition sig).leaves

def stops (proc : SigProcess) (sig : Nat) : Bool := proc.disposition sig = .stop

def due (proc : SigProcess) : List Nat := (range signalMax).filter (sigismember (signalPending proc))

def passed (proc : SigProcess) : List Nat := proc.due.takeWhile fun sig => !proc.leaves sig

def treated (proc : SigProcess) : List Nat := proc.passed ++ (proc.due.find? proc.leaves).toList

end SigProcess

def SigState.treat (st : SigState) (sigs : List Nat) : SigState where
  proc := { st.proc with
    sigPending := sigs.foldl sigdelset st.proc.sigPending
    state := if sigs.any st.proc.stops then .stopped else st.proc.state }
  mem := st.mem
  needReschedule := sigs.any st.proc.stops || st.needReschedule

section

variable {l : List Nat} {p : Nat → Bool} {a : Nat}

lemma mem_takeWhile_find? (hSorted : l.Pairwise (· < ·)) :
    a ∈ l.takeWhile (fun b => !p b) ++ (l.find? p).toList ↔ a ∈ l ∧ ∀ b ∈ l, b < a → p b = false := by
  induction l with
  | nil => simp
  | cons b l ih =>
    obtain ⟨hHead, hTail⟩ := pairwise_cons.mp hSorted
    rw [forall_mem_cons]
    cases hb : p b with
    | true =>
      rw [takeWhile_cons_of_neg (by simp [hb]), find?_cons_of_pos hb]
      simp only [nil_append, toList_some, mem_singleton, Bool.true_eq_false]
      refine ⟨fun hEq => ⟨mem_cons.mpr (.inl hEq), fun hLt => by omega, fun c hc hLt => ?_⟩, fun ⟨hMem, hNot, _⟩ => ?_⟩
      · have := hHead c hc
        omega
      · exact (mem_cons.mp hMem).resolve_right fun hMem => hNot (hHead a hMem)
    | false =>
      rw [takeWhile_cons_of_pos (by simp [hb]), find?_cons_of_neg (by simp [hb]), cons_append, mem_cons, mem_cons, ih hTail]
      refine ⟨fun h => ?_, fun ⟨hMem, _, hRest⟩ => hMem.imp_right fun h => ⟨h, hRest⟩⟩
      rcases h with rfl | ⟨hMem, hRest⟩
      · refine ⟨.inl rfl, fun _ => rfl, fun c hc hLt => ?_⟩
        have := hHead c hc
        omega
      · exact ⟨.inr hMem, fun _ => rfl, hRest⟩

lemma takeWhile_find?_sublist (l : List Nat) (p : Nat → Bool) :
    (l.takeWhile (fun b => !p b) ++ (l.find? p).toList).Sublist l := by
  induction l with
  | nil => exact Sublist.refl []
  | cons b l ih =>
    cases hb : p b with
    | true => simp [hb]
    | false => simpa [hb] using ih

lemma sigismember_foldl_sigdelset (set : Sigset) (sigs : List Nat) {sig : Nat} (h : sig < signalMax) :
    sigismember (sigs.foldl sigdelset set) sig = (sigismember set sig && !decide (sig ∈ sigs)) := by
  induction sigs generalizing set with
  | nil => simp
  | cons other sigs ih =>
    rw [foldl_cons, ih, sigismember_eq_getLsbD _ h, sigismember_eq_getLsbD _ h, getLsbD_sigdelset _ _ h, Bool.and_assoc]
    simp [Bool.decide_or]

end

variable {trampoline : Word32} {st st' : SigState} {sig : Nat} {sigs : List Nat}

lemma SigState.treat_nil (st : SigState) : st.treat [] = st := rfl

lemma SigState.treat_append (st : SigState) (first second : List Nat) :
    (st.treat first).treat second = st.treat (first ++ second) := by
  have hSame : (st.treat first).proc.stops = st.proc.stops := rfl
  rw [SigState.treat, hSame]
  simp only [SigState.treat, foldl_append, any_append]
  cases first.any st.proc.stops <;> cases second.any st.proc.stops <;> rfl

lemma tryDeliverOne_eq (trampoline : Word32) (st : SigState) (sig : Nat) : tryDeliverOne trampoline st sig =
      match st.proc.disposition sig with
      | .pass | .stop => .returned (st.treat [sig])
      | .term => .terminated (st.treat [sig]) (wstatusTermsig sig)
      | .handler action => startHandler trampoline (st.treat [sig]) action sig := by
  have hNe : SIG_DFL ≠ SIG_IGN := by decide
  simp only [tryDeliverOne, SigState.treat]
  cases hIndex : transNumber2index sig with
  | none => simp [SigProcess.stops, SigProcess.disposition, hIndex]
  | some index =>
    by_cases hIgn : (st.proc.sigArray index).saHandler = SIG_IGN
    · simp [SigProcess.stops, SigProcess.disposition, hIndex, hIgn]
    by_cases hDfl : (st.proc.sigArray index).saHandler = SIG_DFL
    · cases hDefault : transIndex2default index <;>
        simp [SigProcess.stops, SigProcess.disposition, hIndex, hDfl, hNe, hDefault, schedStopProc]
    · simp [SigProcess.stops, SigProcess.disposition, hIndex, hIgn, hDfl]

lemma tryDeliverOne_passes (h : st.proc.leaves sig = false) :
    tryDeliverOne trampoline st sig = .returned (st.treat [sig]) := by
  rw [SigProcess.leaves] at h
  rw [tryDeliverOne_eq]
  cases hDisposition : st.proc.disposition sig with
  | pass | stop => rfl
  | term | handler action => simp [hDisposition, Disposition.leaves] at h

variable {action : Sigaction}

lemma startHandler_resumed (h : startHandler trampoline st action sig = .resumed st') : ∃ mem, st' = { st with
      mem
      proc := { st.proc with
        acnt := handlerContext st.proc.acnt action sig (frameAddress st.proc.acnt - 4)
        sigBlocked := st.proc.sigBlocked ||| (action.saMask &&& maskable) } } := by
  unfold startHandler at h
  split at h
  · cases h
  · rename_i hPrepare
    cases h
    rw [archSignalPrepareSigcontext_context hPrepare]
    exact ⟨_, rfl⟩

lemma startHandler_not_returned : startHandler trampoline st action sig ≠ .returned st' := by
  unfold startHandler
  split <;> simp

lemma tryDeliverOne_leaves (h : st.proc.leaves sig = true) : tryDeliverOne trampoline st sig ≠ .returned st' := by
  rw [SigProcess.leaves] at h
  rw [tryDeliverOne_eq]
  cases hDisposition : st.proc.disposition sig with
  | pass | stop => simp [hDisposition, Disposition.leaves] at h
  | term => simp
  | handler action => exact startHandler_not_returned

lemma deliverLoop_eq (trampoline : Word32) (todeliver : Sigset) (sigs : List Nat) (st : SigState) :
    deliverLoop trampoline todeliver sigs st = let due := sigs.filter (sigismember todeliver)
      let mid := st.treat (due.takeWhile fun sig => !st.proc.leaves sig)
      match due.find? st.proc.leaves with
      | none => .returned mid
      | some sig => tryDeliverOne trampoline mid sig := by
  induction sigs generalizing st with
  | nil => rfl
  | cons sig sigs ih =>
    rw [deliverLoop]
    cases hSet : sigismember todeliver sig with
    | false => simpa [hSet] using ih st
    | true =>
      cases hLeaves : st.proc.leaves sig with
      | false =>
        have hSame : (st.treat [sig]).proc.leaves = st.proc.leaves := rfl
        simp only [tryDeliverOne_passes hLeaves, ih, hSame, filter_cons_of_pos hSet, SigState.treat_append]
        simp [hLeaves]
      | true =>
        simp only [filter_cons_of_pos hSet, find?_cons_of_pos hLeaves, if_true]
        rw [takeWhile_cons_of_neg (by simp [hLeaves]), SigState.treat_nil]
        split
        · exact absurd ‹_› (tryDeliverOne_leaves hLeaves)
        · rfl

variable {proc : SigProcess}

lemma SigProcess.deliverable_iff (hSig : sig < signalMax) :
    proc.Deliverable sig ↔ sigismember (signalPending proc) sig = true := by
  simp only [Deliverable, sigismember_eq_getLsbD _ hSig, signalPending, BitVec.getLsbD_and, BitVec.getLsbD_not]
  simp [hSig, show sig < 32 from hSig]

lemma SigProcess.mem_due : sig ∈ proc.due ↔ proc.Deliverable sig := by
  rw [due, mem_filter, mem_range]
  exact ⟨fun h => (deliverable_iff h.1).mpr h.2, fun h => ⟨h.1, (deliverable_iff h.1).mp h⟩⟩

lemma SigProcess.mem_treated : sig ∈ proc.treated ↔
      proc.Deliverable sig ∧ ∀ other < sig, proc.Deliverable other → proc.leaves other = false := by
  have hSorted : proc.due.Pairwise (· < ·) := pairwise_lt_range.filter _
  rw [treated, passed, mem_takeWhile_find? hSorted, mem_due]
  refine and_congr_right fun _ => forall_congr' fun other => ?_
  rw [mem_due, imp.swap]

lemma SigProcess.leaves_passed (h : sig ∈ proc.passed) : proc.leaves sig = false := by
  simpa using mem_takeWhile_imp h

lemma signalDeliverPending_loop (trampoline : Word32) (st : SigState) : signalDeliverPending trampoline st =
      match st.proc.due.find? st.proc.leaves with
      | none => .returned (st.treat st.proc.passed)
      | some sig => tryDeliverOne trampoline (st.treat st.proc.passed) sig := by
  refine Eq.trans ?_ (deliverLoop_eq trampoline (signalPending st.proc) (range signalMax) st)
  rw [signalDeliverPending]
  split_ifs with hZero
  · rfl
  · rw [not_not.mp hZero, deliverLoop_eq, filter_eq_nil_iff.mpr (by simp [sigismember])]
    rfl

lemma signalDeliverPending_eq (trampoline : Word32) (st : SigState) : signalDeliverPending trampoline st =
      match st.proc.due.find? st.proc.leaves with
      | none => .returned (st.treat st.proc.treated)
      | some sig =>
        match st.proc.disposition sig with
        | .handler action => startHandler trampoline (st.treat st.proc.treated) action sig
        | _ => .terminated (st.treat st.proc.treated) (wstatusTermsig sig) := by
  have hSame : (st.treat st.proc.passed).proc.disposition = st.proc.disposition := rfl
  rw [signalDeliverPending_loop, SigProcess.treated]
  cases hFind : st.proc.due.find? st.proc.leaves with
  | none => simp
  | some sig =>
    have hLeaves : st.proc.leaves sig = true := find?_some hFind
    rw [SigProcess.leaves] at hLeaves
    simp only [tryDeliverOne_eq, SigState.treat_append, hSame, toList_some]
    cases hDisposition : st.proc.disposition sig with
    | pass | stop => simp [hDisposition, Disposition.leaves] at hLeaves
    | term | handler action => rfl

lemma signalDeliverPending_returned (h : signalDeliverPending trampoline st = .returned st') :
    st' = st.treat st.proc.treated := by
  rw [signalDeliverPending_eq] at h
  split at h
  · cases h
    rfl
  · split at h
    · exact absurd h startHandler_not_returned
    · cases h

lemma signalDeliverPending_resumed (h : signalDeliverPending trampoline st = .resumed st') :
    ∃ sig action, st.proc.due.find? st.proc.leaves = some sig ∧ st.proc.disposition sig = .handler action ∧
      startHandler trampoline (st.treat st.proc.treated) action sig = .resumed st' := by
  rw [signalDeliverPending_eq] at h
  split at h
  · cases h
  · split at h
    · exact ⟨_, _, ‹_›, ‹_›, h⟩
    · cases h

lemma deliverAndResume_resumed (h : deliverAndResume trampoline st = .resumed st') :
    st.proc.acnt.privileged = true ∧ st' = st ∨ st.proc.acnt.privileged = false ∧ (st' = st.treat st.proc.treated ∨
        ∃ sig action, startHandler trampoline (st.treat st.proc.treated) action sig = .resumed st') := by
  unfold deliverAndResume at h
  split at h
  · refine .inr ⟨(archProcessMode_eq_one _).mp ‹_›, ?_⟩
    split at h
    · cases h
      exact .inl (signalDeliverPending_returned ‹_›)
    · obtain ⟨sig, action, -, -, hStart⟩ := signalDeliverPending_resumed h
      exact .inr ⟨sig, action, hStart⟩
  · cases h
    exact .inl ⟨Bool.not_eq_false _ ▸ mt (archProcessMode_eq_one _).mpr ‹_›, rfl⟩

end Fixos.Sys
