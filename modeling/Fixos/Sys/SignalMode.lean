import Fixos.Lib.Run
import Fixos.Sys.SignalDelivery

/-! # The mode a process resumes in

Delivering signals never changes the mode of the context that is resumed, except that a handler
always starts in user mode.
-/

namespace Fixos.Sys

open Interface Arch Transition

def SigState.frameSr (st : SigState) : Word32 :=
  st.mem.word (wordAt (st.proc.acnt.reg 15 + 4) 20)

def SigState.FrameUnprivileged (st : SigState) : Prop :=
  st.mem.accessible (st.proc.acnt.reg 15 + 4) sigcontextWords = true →
    st.frameSr &&& SR_MD_MASK = 0

variable {trampoline : Word32} {st st' : SigState} {sig : Nat}

lemma deliverAndResume_privileged (h : deliverAndResume trampoline st = .resumed st') :
    st'.proc.acnt.privileged = st.proc.acnt.privileged := by
  rcases deliverAndResume_resumed h with ⟨_, rfl⟩ | ⟨hUser, rfl | ⟨sig, action, hStart⟩⟩
  · rfl
  · rfl
  · obtain ⟨_, rfl⟩ := startHandler_resumed hStart
    rw [hUser]
    exact privileged_handlerContext _ action sig _

lemma deliverAndResume_of_privileged (h : st.proc.acnt.privileged = true) :
    deliverAndResume trampoline st = .resumed st := by
  unfold deliverAndResume
  rw [if_neg]
  rw [archProcessMode_eq_one, h]
  simp

lemma sysSigreturn_resumed (h : sysSigreturn trampoline st = .resumed st') :
    st.mem.accessible (st.proc.acnt.reg 15 + 4) sigcontextWords = true ∧
      st'.proc.acnt.privileged = (st.frameSr &&& SR_MD_MASK != 0) := by
  unfold sysSigreturn at h
  cases hRestore : archSignalRestoreSigcontext st.proc.acnt st.mem with
  | none => simp [hRestore] at h
  | some found =>
    simp only [hRestore] at h
    obtain ⟨_, hRead, rfl⟩ := Option.map_eq_some_iff.mp hRestore
    have hMode := deliverAndResume_privileged h
    unfold UserMem.readSigcontext at hRead
    split at hRead
    · cases hRead
      exact ⟨‹_›, hMode⟩
    · cases hRead

lemma sysSigreturn_of_privileged (trampoline : Word32)
    (hReadable : st.mem.accessible (st.proc.acnt.reg 15 + 4) sigcontextWords = true)
    (hSet : st.frameSr &&& SR_MD_MASK ≠ 0) :
    ∃ st', sysSigreturn trampoline st = .resumed st' ∧ st'.proc.acnt.privileged = true := by
  have hMd : (st.frameSr &&& SR_MD_MASK != 0) = true := bne_iff_ne.mpr hSet
  simp only [sysSigreturn, archSignalRestoreSigcontext, UserMem.readSigcontext, hReadable, if_true,
    Option.map_some, processContextjmp]
  exact ⟨_, deliverAndResume_of_privileged hMd, hMd⟩

lemma sysSigreturn_unprivileged_iff (trampoline : Word32) (st : SigState) :
    (∀ st', sysSigreturn trampoline st = .resumed st' → st'.proc.acnt.privileged = false) ↔ st.FrameUnprivileged := by
  constructor
  · intro h hReadable
    by_contra hSet
    obtain ⟨st', hResumed, hMode⟩ := sysSigreturn_of_privileged trampoline hReadable hSet
    rw [h st' hResumed] at hMode
    cases hMode
  · intro h st' hResumed
    obtain ⟨hReadable, hMode⟩ := sysSigreturn_resumed hResumed
    rw [hMode, h hReadable]
    simp

/-- `user` stands for any amount of user code, which is free to rewrite all registers and the whole memory but cannot
enter privileged mode by itself. -/
inductive ModeAction where
  | user (acnt : Context) (mem : UserMem)
  | raise (sig : Nat)
  | sigaction (sig : Int) (act : Option Sigaction)
  | sigprocmask (how : Int) (set : Option Sigset)
  | trapReturn
  | contextjmp
  | sigreturn

def Delivered.resumedState : Delivered → Option SigState
  | .resumed st => some st
  | _ => none

def modeStep (trampoline : Word32) (st : SigState) : ModeAction → Option SigState
  | .user acnt mem =>
    if st.proc.acnt.privileged = false → acnt.privileged = false then
      some { st with mem, proc := { st.proc with acnt } }
    else none
  | .raise sig => some { st with proc := signalRaise st.proc sig }
  | .sigaction sig act => some { st with proc := (sysSigaction st.proc sig act).2.1 }
  | .sigprocmask how set => some { st with proc := (sysSigprocmask st.proc how set).1 }
  | .trapReturn => (deliverAndResume trampoline st).resumedState
  | .contextjmp => (processContextjmp trampoline st).resumedState
  | .sigreturn => (sysSigreturn trampoline st).resumedState

def ModeAction.FrameOk (st : SigState) : ModeAction → Prop
  | .sigreturn => st.FrameUnprivileged
  | _ => True

lemma Delivered.resumed_of_resumedState {d : Delivered} (h : d.resumedState = some st) : d = .resumed st := by
  cases d <;> cases h
  rfl

lemma modeStep_unprivileged {a : ModeAction} (hFrame : a.FrameOk st) (h : st.proc.acnt.privileged = false)
    (hStep : modeStep trampoline st a = some st') : st'.proc.acnt.privileged = false := by
  cases a with
  | user acnt mem =>
    simp only [modeStep] at hStep
    split at hStep
    · cases hStep
      exact ‹_ → _› h
    · cases hStep
  | raise sig =>
    cases hStep
    obtain ⟨_, hEq⟩ := signalRaise_eq st.proc sig
    rwa [hEq]
  | sigaction sig act =>
    cases hStep
    obtain ⟨_, hEq⟩ := sysSigaction_eq st.proc sig act
    rwa [hEq]
  | sigprocmask how set =>
    cases hStep
    obtain ⟨_, hEq⟩ := sysSigprocmask_eq st.proc how set
    rwa [hEq]
  | trapReturn =>
    rw [deliverAndResume_privileged (Delivered.resumed_of_resumedState hStep), h]
  | contextjmp =>
    rw [deliverAndResume_privileged (Delivered.resumed_of_resumedState hStep)]
    exact h
  | sigreturn =>
    exact (sysSigreturn_unprivileged_iff trampoline st).mpr hFrame st' (Delivered.resumed_of_resumedState hStep)

/-- `sys_sigreturn` resumes in user mode exactly when the frame has the MD bit clear, and a run with only such frames
never leaves it. -/
theorem sigreturn_user_mode (trampoline : Word32) :
    (∀ st, (∀ st', sysSigreturn trampoline st = .resumed st' → st'.proc.acnt.privileged = false) ↔ st.FrameUnprivileged) ∧
    ∀ st actions st', st.proc.acnt.privileged = false → Run (modeStep trampoline) (fun s a => a.FrameOk s) st actions st' →
      st'.proc.acnt.privileged = false :=
  ⟨sysSigreturn_unprivileged_iff trampoline, fun _ _ _ hInit hRun =>
    hRun.invariant (I := fun st => st.proc.acnt.privileged = false)
      (fun _ _ _ hFrame h hStep => modeStep_unprivileged hFrame h hStep) hInit⟩

def forgedFrame : SigState where
  proc := {
    acnt := ⟨fun _ => 0x3FFF0000, 0, 0, 0, 0x10000000, 0, 0, 0⟩
    state := .running
    sigBlocked := 0
    sigPending := 0
    sigArray := fun _ => ⟨SIG_DFL, 0, 0⟩ }
  mem := ⟨fun _ => 0x40000000, fun _ => true⟩
  needReschedule := false

theorem sigreturn_forged_privileged : forgedFrame.proc.acnt.privileged = false ∧
      ∃ st', sysSigreturn 0 forgedFrame = .resumed st' ∧ st'.proc.acnt.privileged = true :=
  ⟨by decide, sysSigreturn_of_privileged 0 (by decide) (by decide)⟩

theorem sigreturn_user_mode_zero :
    ∀ st', sysSigreturn 0 { forgedFrame with mem := ⟨fun _ => 0, fun _ => true⟩ } = .resumed st' →
      st'.proc.acnt.privileged = false :=
  ((sigreturn_user_mode 0).1 _).mpr (fun _ => by decide)

end Fixos.Sys
