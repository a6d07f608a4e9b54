import Fixos.Lib.Run
import Fixos.Sys.Signal

/-! # Nested signal handlers (`arch/sh/signal.c`)

The return finds its frame from `r15` alone. While a handler runs, nothing is written at or above the `r15` it was
entered with. `active` lists the deliveries that have not returned, the last one first, with what they interrupted; the
code does not have it. The last word of the address space is not memory, so a frame does not reach over its end.
-/

namespace Fixos.Sys

open Arch Interface Transition Function List

structure Interrupted where
  entry : Word32
  saved : Sigcontext

structure NestRun where
  st : SigState
  active : List Interrupted

inductive NestAction where
  | deliver (action : Sigaction) (sig : Nat)
  | user (code : SigState → SigState)
  | sigreturn

def alignedStack (acnt : Context) : Word32 := acnt.reg 15 - acnt.reg 15 % 4

def NestRun.step (trampoline : Word32) (r : NestRun) : NestAction → Option NestRun
  | .deliver action sig =>
    match startHandler trampoline r.st action sig with
    | .resumed st =>
      some ⟨st, ⟨st.proc.acnt.reg 15, ⟨r.st.proc.acnt, r.st.proc.sigBlocked⟩⟩ :: r.active⟩
    | _ => none
  | .user code => some { r with st := code r.st }
  | .sigreturn =>
    (archSignalRestoreSigcontext r.st.proc.acnt r.st.mem).map fun (acnt, oldmask) =>
      ⟨{ r.st with proc := { r.st.proc with acnt, sigBlocked := oldmask } }, r.active.tail⟩

def KeepsFrom (entry : Word32) (mem mem' : UserMem) : Prop :=
  ∀ a, entry ≤ a → mem'.word a = mem.word a ∧ (mem.mapped a = true → mem'.mapped a = true)

def TopUnmapped (mem : UserMem) : Prop := mem.mapped 0xFFFFFFFC#32 = false

/-- A signal meets the stack of the innermost handler, whose user code changes nothing from there on and returns with
its stack pointer. -/
def NestAction.Nested (r : NestRun) : NestAction → Prop
  | .deliver _ _ => TopUnmapped r.st.mem ∧ ∀ f ∈ r.active.head?, alignedStack r.st.proc.acnt ≤ f.entry
  | .user code => ∀ f ∈ r.active.head?, KeepsFrom f.entry r.st.mem (code r.st).mem
  | .sigreturn => ∃ f ∈ r.active.head?, r.st.proc.acnt.reg 15 = f.entry

section

lemma toNat_wordAt (base : Word32) (i : Nat) (h : base.toNat + 4 * i < 2 ^ 32) :
    (wordAt base i).toNat = base.toNat + 4 * i := by
  rw [wordAt, BitVec.toNat_add, BitVec.toNat_ofNat]
  omega

@[simp]
lemma mapped_writeWords (mem : UserMem) (base : Word32) (ws : List Word32) :
    (mem.writeWords base ws).mapped = mem.mapped := by
  induction ws generalizing mem base with
  | nil => rfl
  | cons w ws ih => exact ih _ _

lemma toNat_add_four (base : Word32) (h : base.toNat + 4 < 2 ^ 32) : (base + 4).toNat = base.toNat + 4 := by
  rw [BitVec.toNat_add, show (4 : Word32).toNat = 4 from rfl]
  omega

variable {base : Word32}

lemma word_writeWords_outside {a : Word32} (mem : UserMem) (ws : List Word32) (hFits : base.toNat + 4 * ws.length < 2 ^ 32)
    (hOut : a.toNat < base.toNat ∨ base.toNat + 4 * ws.length ≤ a.toNat) :
    (mem.writeWords base ws).word a = mem.word a := by
  induction ws generalizing mem base with
  | nil => rfl
  | cons w ws ih =>
    rw [length_cons] at hFits hOut
    have hNext := toNat_add_four base (by omega)
    rw [UserMem.writeWords, ih _ (by omega) (by omega)]
    refine update_of_ne ?_ _ _
    rintro rfl
    omega

lemma word_writeWords (mem : UserMem) (ws : List Word32) {i : Nat} (hi : i < ws.length)
    (hFits : base.toNat + 4 * ws.length < 2 ^ 32) :
    (mem.writeWords base ws).word (wordAt base i) = ws.getD i 0 := by
  induction ws generalizing mem base i with
  | nil => cases hi
  | cons w ws ih =>
    rw [length_cons] at hFits hi
    have hNext := toNat_add_four base (by omega)
    cases i with
    | zero =>
      rw [UserMem.writeWords, word_writeWords_outside _ _ (by omega)]
      · simp [wordAt]
      · have hFirst := toNat_wordAt base 0 (by omega)
        omega
    | succ i =>
      have hShift : wordAt base (i + 1) = wordAt (base + 4) i := by
        refine BitVec.eq_of_toNat_eq ?_
        rw [toNat_wordAt _ _ (by omega), toNat_wordAt _ _ (by omega)]
        omega
      rw [UserMem.writeWords, hShift, ih _ (by omega) (by omega), getD_cons_succ]

def Holds (mem : UserMem) (base : Word32) (saved : Sigcontext) : Prop :=
  ∀ i < sigcontextWords, mem.mapped (wordAt base i) = true ∧ mem.word (wordAt base i) = saved.words.getD i 0

lemma length_words (saved : Sigcontext) : saved.words.length = sigcontextWords := by
  simp [Sigcontext.words, sigcontextWords]

variable {mem : UserMem} {saved : Sigcontext}

lemma Holds.readSigcontext (h : Holds mem base saved) : mem.readSigcontext base = some saved := by
  have hMapped : mem.accessible base sigcontextWords = true := all_eq_true.mpr fun i hi => (h i (mem_range.mp hi)).1
  have hReg : ∀ i : Fin 16, mem.word (wordAt base i) = saved.context.reg i := by
    intro i
    rw [(h i (by unfold sigcontextWords; omega)).2, Sigcontext.words, getD_eq_getElem?_getD,
      getElem?_append_left (by simp), List.getElem?_ofFn, dif_pos i.isLt]
    rfl
  have hRest : ∀ i < 8, mem.word (wordAt base (16 + i)) = [saved.context.gbr, saved.context.macl,
      saved.context.mach, saved.context.pc, saved.context.sr, saved.context.pr, saved.context.previous,
      saved.oldmask].getD i 0 := by
    intro i hi
    rw [(h (16 + i) (by unfold sigcontextWords; omega)).2, Sigcontext.words, getD_eq_getElem?_getD,
      getElem?_append_right (by simp), length_ofFn, Nat.add_sub_cancel_left, getD_eq_getElem?_getD]
  rw [UserMem.readSigcontext, if_pos hMapped]
  refine congrArg some (Sigcontext.ext (Context.ext (funext hReg) ?_ ?_ ?_ ?_ ?_ ?_ ?_) ?_)
  · exact hRest 0 (by decide)
  · exact hRest 1 (by decide)
  · exact hRest 2 (by decide)
  · exact hRest 3 (by decide)
  · exact hRest 4 (by decide)
  · exact hRest 5 (by decide)
  · exact hRest 6 (by decide)
  · exact hRest 7 (by decide)

lemma Holds.keep {mem' : UserMem} {entry : Word32} (h : Holds mem base saved)
    (hFits : base.toNat + 4 * sigcontextWords < 2 ^ 32) (hLe : entry.toNat ≤ base.toNat)
    (hKeeps : KeepsFrom entry mem mem') : Holds mem' base saved := by
  intro i hi
  obtain ⟨hMapped, hWord⟩ := h i hi
  have hAt := toNat_wordAt base i (by omega)
  obtain ⟨hSame, hStill⟩ := hKeeps (wordAt base i) (BitVec.le_def.mpr (by omega))
  exact ⟨hStill hMapped, hSame.trans hWord⟩

end

section

lemma toNat_alignedStack (acnt : Context) : (alignedStack acnt).toNat = (acnt.reg 15).toNat - (acnt.reg 15).toNat % 4 := by
  have hMod : (acnt.reg 15 % 4).toNat = (acnt.reg 15).toNat % 4 := BitVec.toNat_umod
  rw [alignedStack, BitVec.toNat_sub, hMod]
  omega

lemma frame_fits {acnt : Context} {mem : UserMem} (hTop : TopUnmapped mem)
    (hFrame : mem.accessible (frameAddress acnt) sigcontextWords = true)
    (hTramp : mem.accessible (frameAddress acnt - 4) 1 = true) :
    (frameAddress acnt).toNat = (frameAddress acnt - 4).toNat + 4 ∧
    (alignedStack acnt).toNat = (frameAddress acnt - 4).toNat + 100 ∧
    (frameAddress acnt - 4).toNat + 100 < 2 ^ 32 := by
  have hAligned := toNat_alignedStack acnt
  have hBase : (frameAddress acnt).toNat = ((alignedStack acnt).toNat + 2 ^ 32 - 96) % 2 ^ 32 := by
    have hSize : (BitVec.ofNat 32 (4 * sigcontextWords)).toNat = 96 := rfl
    rw [frameAddress, ← alignedStack, BitVec.toNat_sub, hSize]
    omega
  have hEntry : (frameAddress acnt - 4).toNat = ((alignedStack acnt).toNat + 2 ^ 32 - 100) % 2 ^ 32 := by
    rw [BitVec.toNat_sub, hBase, show (4 : Word32).toNat = 4 from rfl]
    omega
  -- otherwise the last word of the address space is the trampoline's or one of the frame's
  by_cases hLow : 100 ≤ (alignedStack acnt).toNat
  · omega
  · exfalso
    have hMapped : ∀ i < 24, mem.mapped (wordAt (frameAddress acnt) i) = true :=
      fun i hi => all_eq_true.mp hFrame i (mem_range.mpr hi)
    rcases eq_or_ne (alignedStack acnt).toNat 96 with hEq | _
    · have hFirst := all_eq_true.mp hTramp 0 (mem_range.mpr Nat.one_pos)
      have hLast : wordAt (frameAddress acnt - 4) 0 = 0xFFFFFFFC#32 := by
        refine BitVec.eq_of_toNat_eq ?_
        rw [toNat_wordAt _ _ (by omega), hEntry, hEq]
        rfl
      rw [hLast, hTop] at hFirst
      cases hFirst
    · have hAt := hMapped ((92 - (alignedStack acnt).toNat) / 4) (by omega)
      have hLast : wordAt (frameAddress acnt) ((92 - (alignedStack acnt).toNat) / 4) = 0xFFFFFFFC#32 := by
        refine BitVec.eq_of_toNat_eq ?_
        rw [toNat_wordAt _ _ (by omega), hBase, show (0xFFFFFFFC#32).toNat = 2 ^ 32 - 4 from rfl]
        omega
      rw [hLast, hTop] at hAt
      cases hAt

/-- The interrupted context and mask stand right above the entry of the handler, and memory from the interrupted stack
on is as it was. -/
structure Framed (st st' : SigState) : Prop where
  entry : (alignedStack st.proc.acnt).toNat = (st'.proc.acnt.reg 15).toNat + 100
  fits : (st'.proc.acnt.reg 15).toNat + 100 < 2 ^ 32
  holds : Holds st'.mem (st'.proc.acnt.reg 15 + 4) ⟨st.proc.acnt, st.proc.sigBlocked⟩
  keeps : KeepsFrom (alignedStack st.proc.acnt) st.mem st'.mem

lemma handlerContext_stack (acnt : Context) (action : Sigaction) (sig : Nat) (ustack : Word32) :
    (handlerContext acnt action sig ustack).reg 15 = ustack := by
  unfold handlerContext
  dsimp only
  split
  · rw [update_of_ne (by decide), update_of_ne (by decide), update_self]
  · rw [update_self]

section

variable {acnt : Context} {mem : UserMem} (trampoline : Word32) (blocked : Sigset)

def framedMem (mem : UserMem) (acnt : Context) (blocked : Sigset) (trampoline : Word32) : UserMem :=
  (mem.writeWords (frameAddress acnt) (Sigcontext.words ⟨acnt, blocked⟩)).writeWords (frameAddress acnt - 4) [trampoline]

lemma framedMem_holds (hFrame : mem.accessible (frameAddress acnt) sigcontextWords = true)
    (hBase : (frameAddress acnt).toNat = (frameAddress acnt - 4).toNat + 4)
    (hFits : (frameAddress acnt - 4).toNat + 100 < 2 ^ 32) :
    Holds (framedMem mem acnt blocked trampoline) (frameAddress acnt) ⟨acnt, blocked⟩ := by
  intro i hi
  have hWords := length_words ⟨acnt, blocked⟩
  unfold sigcontextWords at hi hWords
  have hAt := toNat_wordAt (frameAddress acnt) i (by omega)
  constructor
  · rw [framedMem, mapped_writeWords, mapped_writeWords]
    exact all_eq_true.mp hFrame i (mem_range.mpr hi)
  · rw [framedMem, word_writeWords_outside _ _ (by simp; omega) (by simp; omega)]
    exact word_writeWords mem _ (by omega) (by omega)

lemma framedMem_keeps (hBase : (frameAddress acnt).toNat = (frameAddress acnt - 4).toNat + 4)
    (hStack : (alignedStack acnt).toNat = (frameAddress acnt - 4).toNat + 100) :
    KeepsFrom (alignedStack acnt) mem (framedMem mem acnt blocked trampoline) := by
  intro a ha
  have hWords := length_words ⟨acnt, blocked⟩
  unfold sigcontextWords at hWords
  have hLe := BitVec.le_def.mp ha
  constructor
  · rw [framedMem, word_writeWords_outside _ _ (by simp; omega) (by simp; omega),
      word_writeWords_outside _ _ (by omega) (by omega)]
  · intro hMapped
    rw [framedMem, mapped_writeWords, mapped_writeWords]
    exact hMapped

end

lemma startHandler_framed {trampoline : Word32} {st st' : SigState} {action : Sigaction} {sig : Nat}
    (hTop : TopUnmapped st.mem) (h : startHandler trampoline st action sig = .resumed st') : Framed st st' := by
  unfold startHandler archSignalPrepareSigcontext at h
  split at h
  · cases h
  · rename_i acnt mem hPrepare
    cases h
    obtain ⟨hAccess, hResult⟩ := Option.ite_none_right_eq_some.mp hPrepare
    obtain ⟨hFrame, hTramp⟩ := Bool.and_eq_true_iff.mp hAccess
    obtain ⟨hBase, hStack, hFits⟩ := frame_fits hTop hFrame hTramp
    cases hResult
    constructor
    · rw [handlerContext_stack]
      exact hStack
    · rw [handlerContext_stack]
      exact hFits
    · rw [handlerContext_stack, BitVec.sub_add_cancel]
      exact framedMem_holds trampoline st.proc.sigBlocked hFrame hBase hFits
    · exact framedMem_keeps trampoline st.proc.sigBlocked hBase hStack

end

section

variable {trampoline : Word32} {r r' : NestRun}

namespace NestRun

/-- Every delivery that has not returned still has its frame, inner ones below outer ones. -/
structure Inv (r : NestRun) : Prop where
  fits : ∀ f ∈ r.active, f.entry.toNat + 100 < 2 ^ 32
  holds : ∀ f ∈ r.active, Holds r.st.mem (f.entry + 4) f.saved
  sorted : r.active.Pairwise fun f g => f.entry.toNat ≤ g.entry.toNat

lemma Inv.of_nil (hNone : r.active = []) : r.Inv := by
  refine ⟨?_, ?_, ?_⟩
  · rw [hNone]
    exact fun f hf => absurd hf not_mem_nil
  · rw [hNone]
    exact fun f hf => absurd hf not_mem_nil
  · rw [hNone]
    exact List.Pairwise.nil

variable {st : SigState}

section

variable (h : r.Inv)
include h

lemma Inv.keeps {entry : Word32}
    (hKeeps : KeepsFrom entry r.st.mem st.mem) (hBelow : ∀ f ∈ r.active, entry.toNat ≤ f.entry.toNat) :
    Inv { r with st } := by
  refine ⟨h.fits, fun f hf => ?_, h.sorted⟩
  have hFits := h.fits f hf
  have hLe := hBelow f hf
  have hBase := toNat_add_four f.entry (by omega)
  exact (h.holds f hf).keep (by unfold sigcontextWords; omega) (by omega) hKeeps

lemma Inv.head_le {f : Interrupted} (hf : f ∈ r.active.head?) : ∀ g ∈ r.active, f.entry.toNat ≤ g.entry.toNat := by
  obtain ⟨_, hActive⟩ := head?_eq_some_iff.mp hf
  have hSorted := h.sorted
  rw [hActive] at hSorted ⊢
  intro g hg
  rcases mem_cons.mp hg with rfl | hg
  · exact Nat.le_refl _
  · exact rel_of_pairwise_cons hSorted hg

lemma Inv.tail (hMem : st.mem = r.st.mem) : Inv ⟨st, r.active.tail⟩ :=
  ⟨fun f hf => h.fits f (mem_of_mem_tail hf), fun f hf => hMem ▸ h.holds f (mem_of_mem_tail hf),
    h.sorted.sublist (tail_sublist _)⟩

lemma Inv.deliver (hFramed : Framed r.st st) (hBelow : ∀ f ∈ r.active.head?, alignedStack r.st.proc.acnt ≤ f.entry) :
    Inv ⟨st, ⟨st.proc.acnt.reg 15, ⟨r.st.proc.acnt, r.st.proc.sigBlocked⟩⟩ :: r.active⟩ := by
  have hAll : ∀ g ∈ r.active, (alignedStack r.st.proc.acnt).toNat ≤ g.entry.toNat := by
    intro g hg
    obtain ⟨f, _, hActive⟩ := exists_cons_of_ne_nil (ne_nil_of_mem hg)
    have hHead : f ∈ r.active.head? := by rw [hActive]; rfl
    exact (BitVec.le_def.mp (hBelow f hHead)).trans (h.head_le hHead g hg)
  have hOld := h.keeps hFramed.keeps hAll
  have hEntry := hFramed.entry
  refine ⟨?_, ?_, pairwise_cons.mpr ⟨fun g hg => ?_, h.sorted⟩⟩
  · rintro f (_ | ⟨_, hf⟩)
    · exact hFramed.fits
    · exact h.fits f hf
  · rintro f (_ | ⟨_, hf⟩)
    · exact hFramed.holds
    · exact hOld.holds f hf
  · have hLe := hAll g hg
    dsimp only
    omega

lemma Inv.step {a : NestAction} (hNested : a.Nested r) (hStep : r.step trampoline a = some r') : r'.Inv := by
  cases a with
  | deliver action sig =>
    unfold NestRun.step at hStep
    dsimp only at hStep
    split at hStep
    · rename_i st hStart
      cases hStep
      exact h.deliver (startHandler_framed hNested.1 hStart) hNested.2
    · cases hStep
  | user code =>
    cases hStep
    cases hHead : r.active.head? with
    | none =>
      have hNone : r.active = [] := head?_eq_none_iff.mp hHead
      exact .of_nil hNone
    | some f => exact h.keeps (hNested f hHead) (h.head_le hHead)
  | sigreturn =>
    obtain ⟨_, _, rfl⟩ := Option.map_eq_some_iff.mp hStep
    exact h.tail rfl

end

end NestRun

end

/-- Whenever the innermost handler returns, the process goes on with the registers and the mask that its delivery
interrupted. -/
theorem handler_return_restores (trampoline : Word32) (st₀ : SigState) (actions : List NestAction) (r : NestRun)
    (hRun : Run (NestRun.step trampoline) (fun r a => a.Nested r) ⟨st₀, []⟩ actions r)
    (f : Interrupted) (hInnermost : f ∈ r.active.head?) (hStack : r.st.proc.acnt.reg 15 = f.entry) :
    ∃ r', r.step trampoline .sigreturn = some r' ∧ r'.active = r.active.tail ∧
      r'.st.proc.acnt = { f.saved.context with previous := 0 } ∧ r'.st.proc.sigBlocked = f.saved.oldmask := by
  have hInv : r.Inv := hRun.invariant (fun _ _ _ hNested h hStep => h.step hNested hStep) (.of_nil rfl)
  have hRead := (hInv.holds f (mem_of_mem_head? hInnermost)).readSigcontext
  rw [← hStack] at hRead
  have hReturn : r.step trampoline .sigreturn = some ⟨{ r.st with proc := { r.st.proc with
      acnt := { f.saved.context with previous := 0 }
      sigBlocked := f.saved.oldmask } }, r.active.tail⟩ := by
    rw [NestRun.step, archSignalRestoreSigcontext, hRead]
    rfl
  exact ⟨_, hReturn, rfl, rfl, rfl⟩

def setStack (sp : Word32) (st : SigState) : SigState :=
  { st with proc := { st.proc with acnt := { st.proc.acnt with reg := update st.proc.acnt.reg 15 sp } } }

def interruptedState : SigState where
  proc := {
    acnt := ⟨fun i => if i = 15 then 0x30000003#32 else BitVec.ofNat 32 i, 1, 2, 3, 4, 5, 6, 0⟩
    state := .running
    sigBlocked := 0x20
    sigPending := 0
    sigArray := fun _ => ⟨0, 0, 0⟩ }
  mem := ⟨fun _ => 0, fun a => a.toNat < 0x80000000⟩
  needReschedule := false

/-- A second signal interrupts the handler of the first with an odd stack pointer; both return. -/
theorem handler_return_restores_nested : ∃ r, Run (NestRun.step 0) (fun r a => a.Nested r) ⟨interruptedState, []⟩
        [.deliver ⟨0x1000, 0x40, 0⟩ 10, .user (setStack 0x2FFFFF01#32), .deliver ⟨0x2000, 0, 0⟩ 12, .sigreturn,
          .user (setStack 0x2FFFFF9C#32)] r ∧
      ∃ r', r.step 0 .sigreturn = some r' ∧ r'.active = [] ∧
        r'.st.proc.acnt = interruptedState.proc.acnt ∧ r'.st.proc.sigBlocked = 0x20 := by
  have hRun : ∃ r, Run (NestRun.step 0) (fun r a => a.Nested r) ⟨interruptedState, []⟩
      [.deliver ⟨0x1000, 0x40, 0⟩ 10, .user (setStack 0x2FFFFF01#32), .deliver ⟨0x2000, 0, 0⟩ 12, .sigreturn,
        .user (setStack 0x2FFFFF9C#32)] r ∧
      r.active = [⟨0x2FFFFF9C#32, ⟨interruptedState.proc.acnt, 0x20⟩⟩] ∧ r.st.proc.acnt.reg 15 = 0x2FFFFF9C#32 := by
    refine ⟨_, .cons ⟨rfl, by simp⟩ rfl <| .cons (fun _ _ _ _ => ⟨rfl, id⟩) rfl <| .cons ⟨rfl, ?_⟩ rfl <|
      .cons ⟨_, rfl, rfl⟩ rfl <| .cons (fun _ _ _ _ => ⟨rfl, id⟩) rfl (.nil _), rfl, rfl⟩
    rintro f ⟨⟩
    decide
  obtain ⟨r, hRun, hActive, hStack⟩ := hRun
  refine ⟨r, hRun, ?_⟩
  have hReturn := handler_return_restores 0 _ _ r hRun ⟨0x2FFFFF9C#32, ⟨interruptedState.proc.acnt, 0x20⟩⟩
    (by rw [hActive]; rfl) hStack
  rw [hActive] at hReturn
  exact hReturn

end Fixos.Sys
