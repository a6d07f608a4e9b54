import Fixos.Interface.Signal

/-! # Saved contexts and signal frames (`arch/sh/process.c`, `arch/sh/signal.c`)

An access to user memory that is not aligned, or that no page and no area covers, ends in a kernel oops: the functions
then answer `none`.
-/

namespace Fixos.Arch

open Interface Function

abbrev Word32 := BitVec 32

instance neZero_registers : NeZero 16 := ⟨by decide⟩

@[ext] structure Context where
  reg : Fin 16 → Word32
  gbr : Word32
  macl : Word32
  mach : Word32
  pc : Word32
  sr : Word32
  pr : Word32
  previous : Word32
deriving DecidableEq

/-- `struct sigcontext`, at consecutive words of the user stack. -/
@[ext] structure Sigcontext where
  context : Context
  oldmask : Sigset
deriving DecidableEq

/-- `mapped` tells the addresses at which a word can be accessed. -/
structure UserMem where
  word : Word32 → Word32
  mapped : Word32 → Bool

def SR_MD_MASK : Word32 := 1#32 <<< 30

def ARCH_UNEWPROC_DEFAULT_SR : Word32 := 0

def Context.privileged (c : Context) : Bool := (c.sr &&& SR_MD_MASK) != 0

def archProcessMode (acnt : Context) : Int := if (acnt.sr &&& SR_MD_MASK) != 0 then 0 else 1

def wordAt (base : Word32) (i : Nat) : Word32 := base + BitVec.ofNat 32 (4 * i)

def sigcontextWords : Nat := 24

def UserMem.accessible (mem : UserMem) (base : Word32) (n : Nat) : Bool :=
  (List.range n).all fun i => mem.mapped (wordAt base i)

def UserMem.readSigcontext (mem : UserMem) (base : Word32) : Option Sigcontext :=
  if mem.accessible base sigcontextWords then
    some {
      context := {
        reg := fun i => mem.word (wordAt base i)
        gbr := mem.word (wordAt base 16)
        macl := mem.word (wordAt base 17)
        mach := mem.word (wordAt base 18)
        pc := mem.word (wordAt base 19)
        sr := mem.word (wordAt base 20)
        pr := mem.word (wordAt base 21)
        previous := mem.word (wordAt base 22) }
      oldmask := mem.word (wordAt base 23) }
  else none

def Sigcontext.words (s : Sigcontext) : List Word32 :=
  List.ofFn s.context.reg ++ [s.context.gbr, s.context.macl, s.context.mach, s.context.pc,
    s.context.sr, s.context.pr, s.context.previous, s.oldmask]

def UserMem.writeWords (mem : UserMem) (base : Word32) : List Word32 → UserMem
  | [] => mem
  | w :: ws =>
    UserMem.writeWords { mem with word := update mem.word base w } (base + 4) ws

def handlerContext (acnt : Context) (action : Sigaction) (sig : Nat) (ustack : Word32) : Context :=
  let reg := update (update acnt.reg 4 (BitVec.ofNat 32 sig)) 15 ustack
  { acnt with
    reg := if action.saFlags &&& SA_SIGINFO != 0 then
      update (update reg 5 0) 6 0 else reg
    pr := ustack
    sr := ARCH_UNEWPROC_DEFAULT_SR
    pc := action.saHandler }

def frameAddress (acnt : Context) : Word32 :=
  acnt.reg 15 - acnt.reg 15 % 4 - BitVec.ofNat 32 (4 * sigcontextWords)

def archSignalPrepareSigcontext (trampoline : Word32) (acnt : Context) (blocked : Sigset)
    (action : Sigaction) (sig : Nat) (mem : UserMem) : Option (Context × UserMem) :=
  let ucontext := frameAddress acnt
  let ustack := ucontext - 4
  if mem.accessible ucontext sigcontextWords && mem.accessible ustack 1 then
    let mem := mem.writeWords ucontext (Sigcontext.words ⟨acnt, blocked⟩)
    some (handlerContext acnt action sig ustack, mem.writeWords ustack [trampoline])
  else none

def archSignalRestoreSigcontext (acnt : Context) (mem : UserMem) : Option (Context × Sigset) :=
  (mem.readSigcontext (acnt.reg 15 + 4)).map fun scnt =>
    ({ scnt.context with previous := 0 }, scnt.oldmask)

lemma archProcessMode_eq_one (acnt : Context) : archProcessMode acnt = 1 ↔ acnt.privileged = false := by
  unfold archProcessMode Context.privileged
  split <;> simp_all

lemma archSignalPrepareSigcontext_context {trampoline : Word32} {acnt next : Context}
    {blocked : Sigset} {action : Sigaction} {sig : Nat} {mem mem' : UserMem}
    (h : archSignalPrepareSigcontext trampoline acnt blocked action sig mem = some (next, mem')) :
    next = handlerContext acnt action sig (frameAddress acnt - 4) := by
  simp only [archSignalPrepareSigcontext] at h
  split at h <;> cases h
  rfl

lemma privileged_handlerContext (acnt : Context) (action : Sigaction) (sig : Nat) (ustack : Word32) :
    (handlerContext acnt action sig ustack).privileged = false := by
  simp [Context.privileged, handlerContext, ARCH_UNEWPROC_DEFAULT_SR]

end Fixos.Arch
