import Fixos.Sys.SignalMode

/-! # The blocked mask over a run

The mask is followed next to the one that was asked for. The code masks requested sets with `~(SIGKILL | SIGSTOP)`,
which clears the bits of signals 0, 1, 3 and 4 instead of those of signals 9 and 19.
-/

namespace Fixos.Sys

open Interface Arch Transition Option

inductive MaskEvent where
  | setmask (set : Sigset)
  | block (set : Sigset)
  | unblock (set : Sigset)
  | deliver (saMask : Sigset)
  | sigreturn (frame : Nat)
  | other
deriving DecidableEq

structure Requested where
  mask : Sigset
  saved : List Sigset
deriving DecidableEq

def blockable (set : Sigset) : Sigset := sigdelset (sigdelset set SIGKILL) SIGSTOP

def Requested.step (r : Requested) : MaskEvent → Requested
  | .setmask set => { r with mask := blockable set }
  | .block set => { r with mask := r.mask ||| blockable set }
  | .unblock set => { r with mask := r.mask &&& ~~~set }
  | .deliver saMask => ⟨r.mask ||| blockable saMask, r.saved ++ [r.mask]⟩
  | .sigreturn frame => { r with mask := r.saved.getD frame r.mask }
  | .other => r

/-- `frames` lists the frames the kernel wrote, oldest first; `requested` is the specification. -/
structure MaskRun where
  st : SigState
  frames : List Sigcontext
  requested : Requested

inductive MaskAction where
  | sigprocmask (how : Int) (set : Option Sigset)
  | sigaction (sig : Int) (act : Option Sigaction)
  | raise (sig : Nat)
  | deliver (sig : Nat)
  | sigreturn (frame : Nat)
  | user (acnt : Context) (mem : UserMem)

/-- The action whose handler `try_deliver_one` starts, if it starts one. -/
def handlerOf (proc : SigProcess) (sig : Nat) : Option Sigaction :=
  (transNumber2index sig).bind fun index =>
    let action := proc.sigArray index
    if action.saHandler = SIG_IGN ∨ action.saHandler = SIG_DFL then none else some action

def MaskAction.event (proc : SigProcess) : MaskAction → MaskEvent
  | .sigprocmask how set =>
    match set with
    | none => .other
    | some set =>
      if how = SIG_SETMASK then .setmask set
      else if how = SIG_BLOCK then .block set
      else if how = SIG_UNBLOCK then .unblock set
      else .other
  | .deliver sig =>
    match handlerOf proc sig with
    | none => .other
    | some action => .deliver action.saMask
  | .sigreturn frame => .sigreturn frame
  | _ => .other

/-- A return is taken only through a frame that the kernel wrote and that the process has left unmodified. -/
def MaskRun.kernelStep (trampoline : Word32) (r : MaskRun) :
    MaskAction → Option (SigState × List Sigcontext)
  | .sigprocmask how set =>
    some ({ r.st with proc := (sysSigprocmask r.st.proc how set).1 }, r.frames)
  | .sigaction sig act => some ({ r.st with proc := (sysSigaction r.st.proc sig act).2.1 }, r.frames)
  | .raise sig => some ({ r.st with proc := signalRaise r.st.proc sig }, r.frames)
  | .deliver sig =>
    match tryDeliverOne trampoline r.st sig with
    | .returned st => some (st, r.frames)
    | .resumed st => some (st, r.frames ++ [⟨r.st.proc.acnt, r.st.proc.sigBlocked⟩])
    | _ => none
  | .sigreturn frame =>
    if r.st.mem.readSigcontext (r.st.proc.acnt.reg 15 + 4) = r.frames[frame]? then
      (archSignalRestoreSigcontext r.st.proc.acnt r.st.mem).map fun (acnt, oldmask) =>
        ({ r.st with
          proc := { r.st.proc with acnt, sigBlocked := oldmask, state := .running } }, r.frames)
    else none
  | .user acnt mem => some ({ r.st with mem, proc := { r.st.proc with acnt } }, r.frames)

def MaskRun.step (trampoline : Word32) (r : MaskRun) (a : MaskAction) : Option MaskRun :=
  (r.kernelStep trampoline a).map fun (st, frames) =>
    ⟨st, frames, r.requested.step (a.event r.st.proc)⟩

/-- A set that replaces the mask holds none of the six signals; one that is added holds neither `SIGKILL` nor `SIGSTOP`,
and of the other four only those already blocked. -/
def MaskEvent.Representable (blocked : Sigset) : MaskEvent → Prop
  | .setmask set => ∀ sig ∈ [0, 1, 3, 4, SIGKILL, SIGSTOP], set.getLsbD sig = false
  | .block set | .deliver set =>
    (∀ sig ∈ [SIGKILL, SIGSTOP], set.getLsbD sig = false) ∧
      ∀ sig ∈ [0, 1, 3, 4], set.getLsbD sig = true → blocked.getLsbD sig = true
  | _ => True

lemma getLsbD_maskable (i : Fin 32) : maskable.getLsbD i = !decide (i.val ∈ [0, 1, 3, 4]) := by
  revert i
  decide

lemma getLsbD_blockable (set : Sigset) (i : Fin 32) :
    (blockable set).getLsbD i = (set.getLsbD i && !decide (i.val ∈ [SIGKILL, SIGSTOP])) := by
  rw [blockable, getLsbD_sigdelset _ _ i.isLt, getLsbD_sigdelset _ _ i.isLt, Bool.and_assoc]
  simp [List.mem_cons, Bool.decide_or]

lemma block_eq_iff (blocked set : Sigset) (h : ∀ sig ∈ [SIGKILL, SIGSTOP], blocked.getLsbD sig = false) :
    blocked ||| (set &&& maskable) = blocked ||| blockable set ↔ (∀ sig ∈ [SIGKILL, SIGSTOP], set.getLsbD sig = false) ∧
      ∀ sig ∈ [0, 1, 3, 4], set.getLsbD sig = true → blocked.getLsbD sig = true := by
  have hBits : blocked ||| (set &&& maskable) = blocked ||| blockable set ↔ ∀ i : Fin 32,
      (blocked.getLsbD i || (set.getLsbD i && !decide (i.val ∈ [0, 1, 3, 4]))) =
        (blocked.getLsbD i || (set.getLsbD i && !decide (i.val ∈ [SIGKILL, SIGSTOP]))) := by
    constructor
    · intro hEq i
      have hBit := congrArg (fun w => BitVec.getLsbD w i) hEq
      simpa only [BitVec.getLsbD_or, BitVec.getLsbD_and, getLsbD_maskable, getLsbD_blockable] using hBit
    · intro hAll
      apply BitVec.eq_of_getLsbD_eq
      intro i hi
      have hBit := hAll ⟨i, hi⟩
      simp only [BitVec.getLsbD_or, BitVec.getLsbD_and]
      rw [getLsbD_maskable ⟨i, hi⟩, getLsbD_blockable set ⟨i, hi⟩]
      exact hBit
  have hUnblockable : ∀ sig ∈ [SIGKILL, SIGSTOP], sig < 32 ∧ sig ∉ [0, 1, 3, 4] := by decide
  have hMangled : ∀ sig ∈ [0, 1, 3, 4], sig < 32 ∧ sig ∉ [SIGKILL, SIGSTOP] := by decide
  rw [hBits]
  constructor
  · intro hAll
    constructor
    · intro sig hSig
      obtain ⟨hLt, hOther⟩ := hUnblockable sig hSig
      have hBit := hAll ⟨sig, hLt⟩
      simpa [h sig hSig, hSig, hOther] using hBit
    · intro sig hSig hSet
      obtain ⟨hLt, hOther⟩ := hMangled sig hSig
      have hBit := hAll ⟨sig, hLt⟩
      simpa [hSig, hOther, hSet] using hBit
  · rintro ⟨hKept, hCleared⟩ i
    cases hSet : set.getLsbD i with
    | false => rw [Bool.false_and, Bool.false_and]
    | true =>
      have hHigh : i.val ∉ [SIGKILL, SIGSTOP] := by
        intro hMem
        rw [hKept i hMem] at hSet
        cases hSet
      by_cases hLow : i.val ∈ [0, 1, 3, 4]
      · rw [hCleared i hLow hSet, Bool.true_or, Bool.true_or]
      · simp [hLow, hHigh]

lemma setmask_eq_iff (set : Sigset) : set &&& maskable = blockable set ↔
      ∀ sig ∈ [0, 1, 3, 4, SIGKILL, SIGSTOP], set.getLsbD sig = false := by
  have hEmpty := block_eq_iff 0#32 set (by simp)
  rw [BitVec.zero_or, BitVec.zero_or] at hEmpty
  rw [hEmpty]
  simp only [List.forall_mem_cons, BitVec.getLsbD_zero, Bool.false_eq_true, imp_false, Bool.not_eq_true]
  tauto

/-- What the code does to the mask and to the saved masks, with its own masking expression. -/
def Requested.codeStep (r : Requested) : MaskEvent → Requested
  | .setmask set => { r with mask := set &&& maskable }
  | .block set => { r with mask := r.mask ||| (set &&& maskable) }
  | .unblock set => { r with mask := r.mask &&& ~~~set }
  | .deliver saMask => ⟨r.mask ||| (saMask &&& maskable), r.saved ++ [r.mask]⟩
  | .sigreturn frame => { r with mask := r.saved.getD frame r.mask }
  | .other => r

def Requested.Sound (r : Requested) : Prop :=
  ∀ mask ∈ r.mask :: r.saved, ∀ sig ∈ [SIGKILL, SIGSTOP], mask.getLsbD sig = false

lemma Requested.codeStep_eq_iff {r : Requested} (h : r.Sound) (e : MaskEvent) :
    r.codeStep e = r.step e ↔ e.Representable r.mask := by
  have hMask := h r.mask List.mem_cons_self
  cases e with
  | setmask set =>
    rw [MaskEvent.Representable, ← setmask_eq_iff]
    simp [codeStep, step]
  | block set =>
    rw [MaskEvent.Representable, ← block_eq_iff r.mask set hMask]
    simp [codeStep, step]
  | deliver set =>
    rw [MaskEvent.Representable, ← block_eq_iff r.mask set hMask]
    simp [codeStep, step]
  | unblock set | sigreturn frame | other => simp [codeStep, step, MaskEvent.Representable]

lemma blockable_sound (set : Sigset) : ∀ sig ∈ [SIGKILL, SIGSTOP], (blockable set).getLsbD sig = false := by
  intro sig hSig
  have hLt : sig < 32 := by
    revert sig
    decide
  rw [getLsbD_blockable set ⟨sig, hLt⟩]
  simp [hSig]

lemma Requested.Sound.step {r : Requested} (h : r.Sound) (e : MaskEvent) : (r.step e).Sound := by
  have hMask := h r.mask List.mem_cons_self
  have hSaved : ∀ mask ∈ r.saved, ∀ sig ∈ [SIGKILL, SIGSTOP], mask.getLsbD sig = false :=
    fun mask hMem => h mask (List.mem_cons_of_mem _ hMem)
  have hAdded : ∀ set, ∀ sig ∈ [SIGKILL, SIGSTOP], (r.mask ||| blockable set).getLsbD sig = false := by
    intro set sig hSig
    rw [BitVec.getLsbD_or, hMask sig hSig, blockable_sound set sig hSig, Bool.false_or]
  cases e with
  | setmask set => exact List.forall_mem_cons.mpr ⟨blockable_sound set, hSaved⟩
  | block set => exact List.forall_mem_cons.mpr ⟨hAdded set, hSaved⟩
  | unblock set =>
    refine List.forall_mem_cons.mpr ⟨fun sig hSig => ?_, hSaved⟩
    rw [Requested.step, BitVec.getLsbD_and, hMask sig hSig, Bool.false_and]
  | deliver set =>
    refine List.forall_mem_cons.mpr ⟨hAdded set, ?_⟩
    intro mask hMem
    rcases List.mem_append.mp hMem with hMem | hMem
    · exact hSaved mask hMem
    · rwa [List.mem_singleton.mp hMem]
  | sigreturn frame =>
    refine List.forall_mem_cons.mpr ⟨?_, hSaved⟩
    cases hFrame : r.saved[frame]? with
    | none => rwa [Requested.step, List.getD_eq_getElem?_getD, hFrame]
    | some mask =>
      rw [Requested.step, List.getD_eq_getElem?_getD, hFrame]
      exact hSaved mask (List.mem_of_getElem? hFrame)
  | other => exact h

variable {trampoline : Word32} {st : SigState} {sig : Nat}

lemma handlerOf_eq (proc : SigProcess) (sig : Nat) : handlerOf proc sig = match proc.disposition sig with
      | .handler action => some action
      | _ => none := by
  have hNe : SIG_DFL ≠ SIG_IGN := by decide
  unfold handlerOf SigProcess.disposition
  cases transNumber2index sig with
  | none => rfl
  | some index =>
    by_cases hIgn : (proc.sigArray index).saHandler = SIG_IGN
    · simp [hIgn]
    by_cases hDfl : (proc.sigArray index).saHandler = SIG_DFL
    · cases hDefault : transIndex2default index <;> simp [hDfl, hNe, hDefault]
    · simp [hIgn, hDfl]

def keptMasks (st : SigState) (frames : List Sigcontext) : Requested :=
  ⟨st.proc.sigBlocked, frames.map Sigcontext.oldmask⟩

variable {r : MaskRun}

lemma MaskRun.kernelStep_masks {a : MaskAction} {frames : List Sigcontext}
    (h : r.kernelStep trampoline a = some (st, frames)) :
    keptMasks st frames = (keptMasks r.st r.frames).codeStep (a.event r.st.proc) := by
  cases a with
  | sigprocmask how set =>
    cases h
    cases set with
    | none => rfl
    | some set =>
      simp only [MaskAction.event, sysSigprocmask]
      split
      · rfl
      · split
        · rfl
        · split <;> rfl
  | sigaction sig act =>
    cases h
    obtain ⟨_, hEq⟩ := sysSigaction_eq r.st.proc sig act
    simp [keptMasks, MaskAction.event, Requested.codeStep, hEq]
  | raise sig =>
    cases h
    obtain ⟨_, hEq⟩ := signalRaise_eq r.st.proc sig
    simp [keptMasks, MaskAction.event, Requested.codeStep, hEq]
  | user acnt mem =>
    cases h
    rfl
  | deliver sig =>
    simp only [kernelStep, tryDeliverOne_eq] at h
    simp only [MaskAction.event, handlerOf_eq]
    cases hDisposition : r.st.proc.disposition sig with
    | pass | stop =>
      rw [hDisposition] at h
      cases h
      rfl
    | term => simp [hDisposition] at h
    | handler action =>
      simp only [hDisposition] at h
      split at h
      · exact absurd ‹_› startHandler_not_returned
      · obtain ⟨mem, rfl⟩ := startHandler_resumed ‹_›
        cases h
        simp only [keptMasks, Requested.codeStep, List.map_append, List.map_cons, List.map_nil]
        rfl
      · cases h
  | sigreturn frame =>
    simp only [kernelStep] at h
    split at h
    · rename_i hUnmodified
      obtain ⟨⟨acnt, _⟩, hRestore, hResult⟩ := map_eq_some_iff.mp h
      obtain ⟨_, hRead, ⟨⟩⟩ := map_eq_some_iff.mp hRestore
      cases hResult
      rw [hRead] at hUnmodified
      simp [keptMasks, MaskAction.event, Requested.codeStep, ← hUnmodified]
    · cases h

structure MaskRun.Agrees (r : MaskRun) : Prop where
  kept_eq : keptMasks r.st r.frames = r.requested
  sound : r.requested.Sound

lemma MaskRun.step_agrees_iff {r' : MaskRun} {a : MaskAction} (h : r.Agrees) (hStep : r.step trampoline a = some r') :
    r'.Agrees ↔ (a.event r.st.proc).Representable r.st.proc.sigBlocked := by
  obtain ⟨⟨_, _⟩, hKernel, rfl⟩ := map_eq_some_iff.mp hStep
  have hMasks := kernelStep_masks hKernel
  rw [h.kept_eq] at hMasks
  have hIff := Requested.codeStep_eq_iff h.sound (a.event r.st.proc)
  have hBlocked : r.st.proc.sigBlocked = r.requested.mask := congrArg Requested.mask h.kept_eq
  rw [hBlocked, ← hIff, ← hMasks]
  exact ⟨fun h' => h'.kept_eq, fun hEq => ⟨hEq, h.sound.step _⟩⟩

def MaskRun.fresh (st : SigState) : MaskRun := ⟨st, [], ⟨sigemptyset, []⟩⟩

lemma MaskRun.fresh_agrees (h : st.proc.sigBlocked = sigemptyset) : (MaskRun.fresh st).Agrees := by
  refine ⟨by simp only [keptMasks, fresh, h, List.map_nil], ?_⟩
  intro _ hMem _ _
  rw [List.mem_singleton.mp hMem]
  exact BitVec.getLsbD_zero

lemma MaskRun.Agrees.not_member (h : r.Agrees) (hSig : sig ∈ [SIGKILL, SIGSTOP]) :
    sigismember r.st.proc.sigBlocked sig = false := by
  have hLt : sig < 32 := by
    revert sig
    decide
  have hBlocked : r.st.proc.sigBlocked = r.requested.mask := congrArg Requested.mask h.kept_eq
  rw [sigismember_eq_getLsbD _ hLt, hBlocked]
  exact h.sound _ List.mem_cons_self sig hSig

/-- A step leaves the mask that was asked for exactly when its set is representable; so it is in a run of such steps,
and `SIGKILL` and `SIGSTOP` are never in it. -/
theorem blocked_mask_as_requested (trampoline : Word32) : (∀ r a r', r.Agrees → MaskRun.step trampoline r a = some r' →
      (r'.Agrees ↔ (a.event r.st.proc).Representable r.st.proc.sigBlocked)) ∧
    ∀ st actions r, st.proc.sigBlocked = sigemptyset → Run (MaskRun.step trampoline)
        (fun r a => (a.event r.st.proc).Representable r.st.proc.sigBlocked)
        (MaskRun.fresh st) actions r →
      r.st.proc.sigBlocked = r.requested.mask ∧ sigismember r.st.proc.sigBlocked SIGKILL = false ∧
        sigismember r.st.proc.sigBlocked SIGSTOP = false := by
  refine ⟨fun r a r' h hStep => MaskRun.step_agrees_iff h hStep, ?_⟩
  intro st actions r hFresh hRun
  have hAgrees : r.Agrees := hRun.invariant (fun _ _ _ hGuard h hStep => (MaskRun.step_agrees_iff h hStep).mpr hGuard)
    (MaskRun.fresh_agrees hFresh)
  exact ⟨congrArg Requested.mask hAgrees.kept_eq, hAgrees.not_member (by simp), hAgrees.not_member (by simp)⟩

def idleProcess : SigState where
  proc := {
    acnt := ⟨fun _ => 0x3FFFFF00, 0, 0, 0, 0x10000000, 0, 0, 0⟩
    state := .create
    sigBlocked := sigemptyset
    sigPending := sigemptyset
    sigArray := fun _ => ⟨SIG_DFL, 0, 0⟩ }
  mem := ⟨fun _ => 0, fun _ => true⟩
  needReschedule := false

/-- Asking to block `SIGKILL` blocks it, and asking to block `SIGQUIT` does not. -/
theorem setmask_blocks_sigkill : (∃ r, exec (MaskRun.step 0) (MaskRun.fresh idleProcess)
        [.sigprocmask SIG_SETMASK (some (sigaddset 0 SIGKILL))] = some r ∧
      sigismember r.st.proc.sigBlocked SIGKILL = true) ∧
    ∃ r, exec (MaskRun.step 0) (MaskRun.fresh idleProcess)
        [.sigprocmask SIG_SETMASK (some (sigaddset 0 SIGQUIT))] = some r ∧
      sigismember r.requested.mask SIGQUIT = true ∧
      sigismember r.st.proc.sigBlocked SIGQUIT = false :=
  ⟨⟨_, rfl, by decide⟩, _, rfl, by decide, by decide⟩

theorem blocked_mask_as_requested_sigalrm : ∃ r, exec (MaskRun.step 0) (MaskRun.fresh idleProcess)
        [.sigprocmask SIG_BLOCK (some (sigaddset (sigaddset 0 SIGINT) SIGALRM)),
          .sigprocmask SIG_UNBLOCK (some (sigaddset 0 SIGINT))] = some r ∧
      r.st.proc.sigBlocked = r.requested.mask ∧ sigismember r.st.proc.sigBlocked SIGKILL = false ∧
        sigismember r.st.proc.sigBlocked SIGSTOP = false := by
  refine ⟨_, rfl, (blocked_mask_as_requested 0).2 idleProcess
    [.sigprocmask SIG_BLOCK (some (sigaddset (sigaddset 0 SIGINT) SIGALRM)),
      .sigprocmask SIG_UNBLOCK (some (sigaddset 0 SIGINT))] _ rfl ?_⟩
  refine .cons ?_ rfl (.cons ?_ rfl (.nil _))
  · show (∀ sig ∈ [SIGKILL, SIGSTOP], _) ∧ ∀ sig ∈ [0, 1, 3, 4], _
    decide
  · trivial

end Fixos.Sys
