import Fixos.Sys.SignalMode
import Fixos.Sys.Wait

/-! # The kernel as the processes see it (`sys/scheduler.c`, `sys/process.c`, `arch/sh`)

A trap or an interrupt saves the interrupted context on top of those of the current process; four paths lead back to a
saved context: the end of a handler, `sched_schedule`, the jump into a loaded image and `sys_sigreturn`. On each of them
the signals of a process that goes back to user mode are looked at last. What interrupt handlers do are steps of their
own.
-/

namespace Fixos.Sys

open Interface Arch Transition Function

def schedQuantumTicks : Int := 4

structure Signals where
  blocked : Sigset
  pending : Sigset
  array : Nat → Sigaction

/-- `contexts` are linked by `previous`, the newest first; `current` is `none` for the idle task. -/
structure Kernel where
  sched : Sched
  current : Option ProcRef
  curTask : Nat
  quantumLeft : Int
  needReschedule : Bool
  preemptLevel : Nat
  inUser : Bool
  contexts : ProcRef → List Context
  signals : ProcRef → Signals
  mem : ProcRef → UserMem

/-- After `sched_start`, which lets the idle task run with a reschedule requested. -/
def Kernel.boot (stale : Process) (signals : ProcRef → Signals) (mem : ProcRef → UserMem) : Kernel where
  sched := schedInit stale
  current := none
  curTask := 0
  quantumLeft := schedQuantumTicks
  needReschedule := true
  preemptLevel := 0
  inUser := false
  contexts := fun _ => []
  signals
  mem

variable (trampoline : Word32)

namespace Kernel

def state (k : Kernel) (p : ProcRef) : ProcState := (k.sched.proc p).state

def view (k : Kernel) (p : ProcRef) (acnt : Context) : SigState where
  proc :=
    { acnt
      state := k.state p
      sigBlocked := (k.signals p).blocked
      sigPending := (k.signals p).pending
      sigArray := (k.signals p).array }
  mem := k.mem p
  needReschedule := k.needReschedule

def put (k : Kernel) (p : ProcRef) (st : SigState) : Kernel :=
  { k with
    sched := k.sched.setState p st.proc.state
    signals := update k.signals p
      { blocked := st.proc.sigBlocked, pending := st.proc.sigPending, array := st.proc.sigArray }
    mem := update k.mem p st.mem
    needReschedule := st.needReschedule }

/-- `process_terminate` never returns, so the contexts saved below it are not resumed any more. -/
def terminate (k : Kernel) (p : ProcRef) (status : Int) : Kernel :=
  { k with
    sched := processTerminate k.sched p status
    inUser := false
    contexts := update k.contexts p [] }

/-- Look at the signals of a process that goes back to user mode, then restore its newest context. -/
def resume (k : Kernel) : Option Kernel :=
  match k.current with
  | none => some { k with inUser := false }
  | some p =>
    match k.contexts p with
    | [] => none
    | acnt :: older =>
      match deliverAndResume trampoline (k.view p acnt) with
      | .resumed st => some { k.put p st with
        inUser := !st.proc.acnt.privileged
        contexts := update k.contexts p older }
      | .terminated _ status => some (k.terminate p status)
      | _ => none

/-- `process_contextjmp` up to its look at the signals. -/
def contextjmp (k : Kernel) (p : ProcRef) : Kernel :=
  { k with current := some p, sched := k.sched.setState p .running }

def nextTask (k : Kernel) : Option (Nat × ProcRef) :=
  (List.range schedMaxTasks).findSome? fun i =>
    let slot := (i + 1 + k.curTask) % schedMaxTasks
    ((k.sched.tasks slot).filter fun p => k.state p = .running).map fun p => (slot, p)

def contextSavedNext (k : Kernel) : Kernel :=
  let k := { k with quantumLeft := schedQuantumTicks, needReschedule := false }
  match k.nextTask with
  | some (slot, p) => contextjmp { k with curTask := slot } p
  | none => { k with current := none }

def schedIfNeeded (k : Kernel) : Kernel :=
  if k.needReschedule ∧ k.preemptLevel = 0 then k.contextSavedNext else k

def schedCheck (k : Kernel) : Kernel :=
  { k with
    quantumLeft := k.quantumLeft - 1
    needReschedule := k.needReschedule || k.quantumLeft - 1 ≤ 0 }

def save (k : Kernel) (acnt : Context) : Kernel :=
  match k.current with
  | none => { k with inUser := false }
  | some p => { k with inUser := false, contexts := update k.contexts p (acnt :: k.contexts p) }

/-- The process whose system call is running. A zombie only calls `sched_schedule`. -/
def caller (k : Kernel) : Option ProcRef :=
  if k.inUser then none else k.current.filter fun p => k.state p ≠ .zombie

end Kernel

/-- The ways back to a saved context, `leave` being the end of `interrupt_handler` and of
`exception_handler`. -/
inductive WayBack where
  | leave
  | schedule (acnt : Context)
  | execJump (acnt : Context)
  | sigreturn

def Kernel.arrive (k : Kernel) : WayBack → Option Kernel
  | .leave => if k.inUser then none else some k.schedIfNeeded
  | .schedule acnt => if k.inUser ∨ acnt.privileged = false then none else some (k.save acnt).contextSavedNext
  | .execJump acnt =>
    if acnt.privileged then none
    else k.caller.map fun p => Kernel.contextjmp { k with contexts := update k.contexts p [acnt] } p
  | .sigreturn => do
    let p ← k.caller
    let acnt ← (k.contexts p).head?
    let (acnt, oldmask) ← archSignalRestoreSigcontext acnt (k.mem p)
    return Kernel.contextjmp { k with
      contexts := update k.contexts p [acnt]
      signals := update k.signals p { k.signals p with blocked := oldmask } } p

inductive KernelAction where
  | start (fresh : ProcRef) (acnt : Context) (mem : UserMem)
  | user (mem : UserMem)
  | enter (acnt : Context)
  | tick
  | wakeUp (p : ProcRef)
  | raise (p : ProcRef) (sig : Nat)
  | preemptBlock
  | preemptUnblock
  | sigaction (sig : Int) (act : Option Sigaction)
  | sigprocmask (how : Int) (set : Option Sigset)
  | sleep
  | loadImage (mem : UserMem)
  | fork (fresh : ProcRef) (kstack : Nat)
  | wait (wantStatus : Bool)
  | exit (status : Int)
  | back (way : WayBack)

def emptySignals : Signals := ⟨sigemptyset, sigemptyset, fun _ => ⟨SIG_DFL, sigemptyset, 0⟩⟩

def Kernel.born (k : Kernel) (sched : Sched) (fresh : ProcRef) (acnt : Context) (signals : Signals)
    (mem : UserMem) : Kernel :=
  { k with
    sched
    contexts := update k.contexts fresh [acnt]
    signals := update k.signals fresh signals
    mem := update k.mem fresh mem }

/-- A context other than the first one makes `sys_fork` give up. -/
def Kernel.fork (k : Kernel) (p fresh : ProcRef) (kstack : Nat) : Option Kernel :=
  match k.contexts p with
  | [acnt] => (sysFork k.sched p fresh kstack).map fun sched =>
    k.born sched fresh { acnt with reg := update acnt.reg 0 0 }
      { k.signals p with pending := sigemptyset } (k.mem p)
  | _ => some k

/-- Signal state of `p` outside a delivery: no context takes part. -/
def Kernel.mapSignals (k : Kernel) (p : ProcRef) (f : SigProcess → SigProcess) : Kernel :=
  let st := k.view p ⟨fun _ => 0, 0, 0, 0, 0, 0, 0, 0⟩
  k.put p { st with proc := f st.proc }

def resetHandlers (signals : Signals) : Signals :=
  { signals with
    array := fun i =>
      let action := signals.array i
      if action.saHandler = SIG_IGN then action else { action with saHandler := SIG_DFL } }

/-- The steps from `sigaction` on are taken by the system call of the current process. -/
def Kernel.step (k : Kernel) : KernelAction → Option Kernel
  | .start fresh acnt mem =>
    if acnt.privileged then none
    else (processAlloc k.sched fresh).map fun s => k.born (schedAddTask s fresh) fresh acnt emptySignals mem
  | .user mem =>
    if k.inUser then k.current.map fun p => { k with mem := update k.mem p mem } else none
  | .enter acnt => if acnt.privileged = !k.inUser then some (k.save acnt) else none
  | .tick => some k.schedCheck
  | .wakeUp p => some { k with sched := k.sched.setState p (k.state p).wakeUp }
  | .raise p sig => some (k.mapSignals p fun proc => signalRaise proc sig)
  | .preemptBlock => some { k with preemptLevel := k.preemptLevel + 1 }
  | .preemptUnblock => some { k with preemptLevel := k.preemptLevel - 1 }
  | .sigaction sig act => k.caller.map fun p => k.mapSignals p fun proc => (sysSigaction proc sig act).2.1
  | .sigprocmask how set => k.caller.map fun p => k.mapSignals p fun proc => (sysSigprocmask proc how set).1
  | .sleep => k.caller.map fun p => { k with sched := k.sched.setState p .uninterruptible }
  | .loadImage mem => k.caller.map fun p => { k with
      sched := k.sched.setState p .create
      signals := update k.signals p (resetHandlers (k.signals p))
      mem := update k.mem p mem }
  | .fork fresh kstack => k.caller.bind fun p => k.fork p fresh kstack
  | .wait wantStatus => k.caller.map fun p => { k with sched := (sysWaitTurn k.sched p wantStatus).1 }
  | .exit status => k.caller.map fun p => k.terminate p status
  | .back way => (k.arrive way).bind (Kernel.resume trampoline)

end Fixos.Sys
