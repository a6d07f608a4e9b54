import Fixos.Arch.Context

/-! # Signal delivery (`sys/signal.c`)

The state is the part of `struct process` that signals use, the user memory and the scheduler's
request flag.
-/

namespace Fixos.Sys

open Interface Arch

inductive ProcState where
  | running
  | create
  | zombie
  | stopped
  | interruptible
  | uninterruptible
deriving DecidableEq

def ProcState.wakeUp (state : ProcState) : ProcState :=
  if state = .interruptible ∨ state = .uninterruptible then .running else state

lemma ProcState.wakeUp_ne_uninterruptible (state : ProcState) : state.wakeUp ≠ .uninterruptible := by
  cases state <;> decide

def ProcState.cont : ProcState := ProcState.wakeUp .running

inductive SigDefault where
  | ign
  | stop
  | term
  | cont
deriving DecidableEq

def transNumber2index (sig : Nat) : Option Nat :=
  [none, none, some 0, some 1, some 2, none, none, none, none, some 3, none, some 4, none, none,
    some 5, none, none, some 6, some 7, some 8].getD sig none

def transIndex2default (index : Nat) : SigDefault :=
  [.term, .term, .term, .term, .term, .term, .ign, .cont, .stop].getD index .ign

structure SigProcess where
  acnt : Context
  state : ProcState
  sigBlocked : Sigset
  sigPending : Sigset
  sigArray : Nat → Sigaction

structure SigState where
  proc : SigProcess
  mem : UserMem
  needReschedule : Bool

inductive Delivered where
  | returned (st : SigState)
  | resumed (st : SigState)
  | terminated (st : SigState) (status : Nat)
  | oops

def wstatusTermsig (signum : Nat) : Nat := (signum &&& 0xFF) ||| 0x100

/-- `~(SIGKILL | SIGSTOP)`, as the three places that mask a requested set write it. -/
def maskable : Sigset := ~~~BitVec.ofNat 32 (SIGKILL ||| SIGSTOP)

def signalPending (proc : SigProcess) : Sigset := proc.sigPending &&& ~~~proc.sigBlocked

def schedStopProc (st : SigState) : SigState :=
  { st with proc := { st.proc with state := .stopped }, needReschedule := true }

def schedWakeUp (proc : SigProcess) : SigProcess := { proc with state := proc.state.wakeUp }

def schedContProc (proc : SigProcess) : SigProcess := { proc with state := ProcState.cont }

def startHandler (trampoline : Word32) (st : SigState) (action : Sigaction) (sig : Nat) : Delivered :=
  match archSignalPrepareSigcontext trampoline st.proc.acnt st.proc.sigBlocked action sig st.mem with
  | none => .oops
  | some (acnt, mem) =>
    .resumed { st with
      mem
      proc := { st.proc with
        acnt
        sigBlocked := st.proc.sigBlocked ||| (action.saMask &&& maskable) } }

def tryDeliverOne (trampoline : Word32) (st : SigState) (sig : Nat) : Delivered :=
  let st := { st with proc := { st.proc with sigPending := sigdelset st.proc.sigPending sig } }
  match transNumber2index sig with
  | none => .returned st
  | some index =>
    let action := st.proc.sigArray index
    if action.saHandler = SIG_IGN ∨
        (action.saHandler = SIG_DFL ∧ transIndex2default index = .ign) then .returned st
    else if action.saHandler = SIG_DFL then
      match transIndex2default index with
      | .term => .terminated st (wstatusTermsig sig)
      | .stop => .returned (schedStopProc st)
      | .cont => .returned st
      | .ign => .returned st
    else startHandler trampoline st action sig

def signalRaise (proc : SigProcess) (sig : Nat) : SigProcess :=
  let proc := { proc with sigPending := sigaddset proc.sigPending sig }
  let proc := if signalPending proc ≠ 0 ∧ proc.state = .interruptible then schedWakeUp proc else proc
  if sig = SIGCONT ∧ proc.state = .stopped then schedContProc proc else proc

def deliverLoop (trampoline : Word32) (todeliver : Sigset) : List Nat → SigState → Delivered
  | [], st => .returned st
  | sig :: sigs, st =>
    if sigismember todeliver sig then
      match tryDeliverOne trampoline st sig with
      | .returned st => deliverLoop trampoline todeliver sigs st
      | other => other
    else deliverLoop trampoline todeliver sigs st

def signalDeliverPending (trampoline : Word32) (st : SigState) : Delivered :=
  let todeliver := signalPending st.proc
  if todeliver ≠ 0 then deliverLoop trampoline todeliver (List.range signalMax) st
  else .returned st

def deliverAndResume (trampoline : Word32) (st : SigState) : Delivered :=
  if archProcessMode st.proc.acnt = 1 then
    match signalDeliverPending trampoline st with
    | .returned st => .resumed st
    | other => other
  else .resumed st

def processContextjmp (trampoline : Word32) (st : SigState) : Delivered :=
  deliverAndResume trampoline { st with proc := { st.proc with state := .running } }

def sysSigaction (proc : SigProcess) (sig : Int) (act : Option Sigaction) :
    Int × SigProcess × Option Sigaction :=
  if 0 ≤ sig ∧ sig < signalMax then
    match transNumber2index sig.toNat with
    | none => (-1, proc, none)
    | some index =>
      let oact := some (proc.sigArray index)
      match act with
      | none => (0, proc, oact)
      | some act =>
        if sig = SIGKILL ∨ sig = SIGSTOP then (-1, proc, oact)
        else (0, { proc with sigArray := Function.update proc.sigArray index act }, oact)
  else (-1, proc, none)

def sysSigprocmask (proc : SigProcess) (how : Int) (set : Option Sigset) : SigProcess × Sigset :=
  let oldset := proc.sigBlocked
  match set with
  | none => (proc, oldset)
  | some set =>
    if how = SIG_SETMASK then ({ proc with sigBlocked := set &&& maskable }, oldset)
    else if how = SIG_BLOCK then
      ({ proc with sigBlocked := proc.sigBlocked ||| (set &&& maskable) }, oldset)
    else if how = SIG_UNBLOCK then ({ proc with sigBlocked := proc.sigBlocked &&& ~~~set }, oldset)
    else (proc, oldset)

lemma signalRaise_eq (proc : SigProcess) (sig : Nat) :
    ∃ state, signalRaise proc sig = { proc with sigPending := sigaddset proc.sigPending sig, state } := by
  simp only [signalRaise]
  split <;> split <;> exact ⟨_, rfl⟩

lemma sysSigaction_eq (proc : SigProcess) (sig : Int) (act : Option Sigaction) :
    ∃ array, (sysSigaction proc sig act).2.1 = { proc with sigArray := array } := by
  simp only [sysSigaction]
  split
  · split
    · exact ⟨_, rfl⟩
    · split
      · exact ⟨_, rfl⟩
      · split <;> exact ⟨_, rfl⟩
  · exact ⟨_, rfl⟩

lemma sysSigprocmask_eq (proc : SigProcess) (how : Int) (set : Option Sigset) :
    ∃ blocked, (sysSigprocmask proc how set).1 = { proc with sigBlocked := blocked } := by
  simp only [sysSigprocmask]
  split
  · exact ⟨_, rfl⟩
  · split
    · exact ⟨_, rfl⟩
    · split
      · exact ⟨_, rfl⟩
      · split <;> exact ⟨_, rfl⟩

def sysSigreturn (trampoline : Word32) (st : SigState) : Delivered :=
  match archSignalRestoreSigcontext st.proc.acnt st.mem with
  | none => .oops
  | some (acnt, oldmask) =>
    processContextjmp trampoline { st with proc := { st.proc with acnt, sigBlocked := oldmask } }

end Fixos.Sys
