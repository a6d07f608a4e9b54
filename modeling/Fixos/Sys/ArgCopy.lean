import Fixos.Sys.VirtualMemory

/-! # Copying the arguments of an image (`sys/process.c`)

The copy stops, giving `none`, where the code would use a fifth page or a page it does not have. What it does next
depends on its counters alone, so a call is a list of operations on the table of pages.
-/

namespace Fixos.Sys

open Arch Fs Word Transition Option List

def processArgMaxPages : Nat := 4

abbrev ArgTable := Fin processArgMaxPages → Option Ppn

def archUnewprocDefaultStack : Nat := 0x40000000

/-- Page 0 has the highest addresses; strings are copied towards lower addresses and pointers towards higher ones. -/
structure ArgCopy where
  m : Memory
  pages : ArgTable
  curpage : Nat
  pagepos : Nat
  arrayCurpage : Nat
  arrayPagepos : Nat
  vmaddr : Nat
  abspos : Nat

def ArgCopy.needPage (st : ArgCopy) (i : Nat) : Option ArgCopy :=
  if h : i < processArgMaxPages then
    match st.pages ⟨i, h⟩ with
    | some _ => some st
    | none => st.m.archPmGetFreePage.map fun (ppn, m) =>
        { st with m, pages := Function.update st.pages ⟨i, h⟩ (some ppn) }
  else none

def ArgCopy.storeAt (st : ArgCopy) (i pos : Nat) (bytes : Bytes) : Option ArgCopy :=
  if h : i < processArgMaxPages then
    (st.pages ⟨i, h⟩).map fun ppn =>
      { st with m := { st.m with pm := st.m.pm.store ppn pos none bytes } }
  else none

/-- The last `bytesdone` bytes are copied. The next page is allocated as soon as this one is full. -/
def copyFragment (arg : Bytes) (st : ArgCopy) (bytesdone : Nat) : Option (ArgCopy × Nat) :=
  let fraglen := min (arg.length - bytesdone) st.pagepos
  let pagepos := st.pagepos - fraglen
  let bytesdone := bytesdone + fraglen
  let bytes := (arg.drop (arg.length - bytesdone)).take fraglen
  (st.storeAt st.curpage pagepos bytes).bind fun st =>
    if pagepos = 0 then
      ({ st with pagepos := pmPageBytes, curpage := st.curpage + 1 }.needPage (st.curpage + 1)).map
        fun st => (st, bytesdone)
    else some ({ st with pagepos }, bytesdone)

/-- The loop itself. Every turn copies at least a byte, so as many turns as bytes are enough. -/
def copyString (arg : Bytes) : Nat → ArgCopy → Nat → Option ArgCopy
  | 0, st, _ => some st
  | turns + 1, st, bytesdone =>
    if bytesdone < arg.length then
      (copyFragment arg st bytesdone).bind fun (st, bytesdone) => copyString arg turns st bytesdone
    else some st

def ArgCopy.nextPointer (st : ArgCopy) : ArgCopy :=
  if st.arrayPagepos + 4 ≥ pmPageBytes then
    { st with arrayPagepos := 0, arrayCurpage := st.arrayCurpage + 1 }
  else { st with arrayPagepos := st.arrayPagepos + 4 }

def copyArg (st : ArgCopy) (arg : Bytes) : Option ArgCopy := do
  let st ← copyString arg arg.length st 0
  let vmaddr := sub st.vmaddr arg.length
  let st ← st.storeAt st.arrayCurpage st.arrayPagepos (wordBytes vmaddr)
  return { st.nextPointer with vmaddr, abspos := st.abspos + arg.length }

def alignPos (pos : Nat) : Nat := if pos % 4 ≠ 0 then pos + (4 - pos % 4) else pos

def argStart (m : Memory) (pages : ArgTable) (abspos : Nat) : ArgCopy :=
  let arrayCurpage := (abspos - 1) / pmPageBytes
  let arrayPagepos := pmPageBytes - (abspos - arrayCurpage * pmPageBytes)
  { m, pages, arrayCurpage, arrayPagepos, abspos
    curpage := abspos / pmPageBytes
    pagepos := if 0 < arrayPagepos then arrayPagepos else pmPageBytes
    vmaddr := archUnewprocDefaultStack - abspos }

/-- `args` are the strings with their final zeroes, so `argc` is their number. -/
def copyArgArray (m : Memory) (pages : ArgTable) (beginPos : Nat)
    (args : List Bytes) : Option (ArgCopy × Nat) := do
  let start := argStart m pages (alignPos (beginPos + (args.length + 1) * 4))
  let st ← ((range (start.curpage + 1)).drop (beginPos / pmPageBytes)).foldlM ArgCopy.needPage start
  let st ← args.foldlM copyArg st
  let st ← st.storeAt st.arrayCurpage st.arrayPagepos (wordBytes 0)
  return ({ st with abspos := alignPos st.abspos }, start.vmaddr)

structure ArgPages where
  m : Memory
  pages : ArgTable
  pos : Nat

def ArgPages.copy (st : ArgPages) : Option (List Bytes) → Option ArgPages
  | none => some st
  | some args => (copyArgArray st.m st.pages st.pos args).map fun (st, _) => ⟨st.m, st.pages, st.abspos⟩

def copyArgs (m : Memory) (argv envp : Option (List Bytes)) : Option ArgPages :=
  (ArgPages.copy ⟨m, fun _ => none, 0⟩ argv).bind fun st => st.copy envp

inductive ArgOp where
  | need (i : Nat)
  | store (i pos : Nat) (bytes : Bytes)
deriving DecidableEq

def ArgOp.page : ArgOp → Nat
  | .need i => i
  | .store i _ _ => i

def ArgCopy.exec (st : ArgCopy) : ArgOp → Option ArgCopy
  | .need i => st.needPage i
  | .store i pos bytes => st.storeAt i pos bytes

structure ArgCursor where
  curpage : Nat
  pagepos : Nat
  arrayCurpage : Nat
  arrayPagepos : Nat
  vmaddr : Nat
  abspos : Nat
deriving DecidableEq

def ArgCursor.on (c : ArgCursor) (st : ArgCopy) : ArgCopy where
  m := st.m
  pages := st.pages
  curpage := c.curpage
  pagepos := c.pagepos
  arrayCurpage := c.arrayCurpage
  arrayPagepos := c.arrayPagepos
  vmaddr := c.vmaddr
  abspos := c.abspos

def fragmentPlan (arg : Bytes) (c : ArgCursor) (bytesdone : Nat) : List ArgOp × ArgCursor × Nat :=
  let fraglen := min (arg.length - bytesdone) c.pagepos
  let pagepos := c.pagepos - fraglen
  let bytesdone := bytesdone + fraglen
  let op := ArgOp.store c.curpage pagepos ((arg.drop (arg.length - bytesdone)).take fraglen)
  if pagepos = 0 then
    ([op, .need (c.curpage + 1)], { c with pagepos := pmPageBytes, curpage := c.curpage + 1 }, bytesdone)
  else ([op], { c with pagepos }, bytesdone)

def stringPlan (arg : Bytes) : Nat → ArgCursor → Nat → List ArgOp × ArgCursor
  | 0, c, _ => ([], c)
  | turns + 1, c, bytesdone =>
    if bytesdone < arg.length then
      let first := fragmentPlan arg c bytesdone
      let rest := stringPlan arg turns first.2.1 first.2.2
      (first.1 ++ rest.1, rest.2)
    else ([], c)

def ArgCursor.nextPointer (c : ArgCursor) : ArgCursor :=
  if c.arrayPagepos + 4 ≥ pmPageBytes then { c with arrayPagepos := 0, arrayCurpage := c.arrayCurpage + 1 }
  else { c with arrayPagepos := c.arrayPagepos + 4 }

def ArgCursor.pointerOp (c : ArgCursor) (vmaddr : Nat) : ArgOp :=
  .store c.arrayCurpage c.arrayPagepos (wordBytes vmaddr)

def argPlan (c : ArgCursor) (arg : Bytes) : List ArgOp × ArgCursor :=
  let string := stringPlan arg arg.length c 0
  let vmaddr := sub string.2.vmaddr arg.length
  (string.1 ++ [string.2.pointerOp vmaddr],
    { string.2.nextPointer with vmaddr, abspos := string.2.abspos + arg.length })

def argsPlan (c : ArgCursor) : List Bytes → List ArgOp × ArgCursor
  | [] => ([c.pointerOp 0], c)
  | arg :: args =>
    let first := argPlan c arg
    let rest := argsPlan first.2 args
    (first.1 ++ rest.1, rest.2)

def argCursor (abspos : Nat) : ArgCursor :=
  let arrayCurpage := (abspos - 1) / pmPageBytes
  let arrayPagepos := pmPageBytes - (abspos - arrayCurpage * pmPageBytes)
  { arrayCurpage, arrayPagepos, abspos
    curpage := abspos / pmPageBytes
    pagepos := if 0 < arrayPagepos then arrayPagepos else pmPageBytes
    vmaddr := archUnewprocDefaultStack - abspos }

def arrayPlan (beginPos : Nat) (args : List Bytes) : List ArgOp × ArgCursor :=
  let start := argCursor (alignPos (beginPos + (args.length + 1) * 4))
  let strings := argsPlan start args
  (((range (start.curpage + 1)).drop (beginPos / pmPageBytes)).map .need ++ strings.1,
    { strings.2 with abspos := alignPos strings.2.abspos })

section

variable (c : ArgCursor) (st : ArgCopy)

lemma ArgCursor.exec_on (op : ArgOp) : (c.on st).exec op = (st.exec op).map c.on := by
  cases op with
  | need i =>
    simp only [ArgCopy.exec, ArgCopy.needPage]
    split_ifs with hi
    · rw [show (c.on st).pages = st.pages from rfl]
      cases st.pages ⟨i, hi⟩ with
      | some ppn => rfl
      | none =>
        rw [show (c.on st).m = st.m from rfl]
        cases st.m.archPmGetFreePage <;> rfl
    · rfl
  | store i pos bytes =>
    simp only [ArgCopy.exec, ArgCopy.storeAt]
    split_ifs with hi
    · rw [show (c.on st).pages = st.pages from rfl]
      cases st.pages ⟨i, hi⟩ <;> rfl
    · rfl

lemma copyFragment_plan (arg : Bytes) (done : Nat) : copyFragment arg (c.on st) done =
    ((fragmentPlan arg c done).1.foldlM ArgCopy.exec st).map fun st =>
      ((fragmentPlan arg c done).2.1.on st, (fragmentPlan arg c done).2.2) := by
  have hStore : ∀ pos bytes, (c.on st).storeAt c.curpage pos bytes = _ := fun pos bytes =>
    c.exec_on st (.store c.curpage pos bytes)
  simp only [copyFragment, fragmentPlan]
  rw [show (c.on st).pagepos = c.pagepos from rfl, show (c.on st).curpage = c.curpage from rfl, hStore]
  split
  · rw [foldlM_cons]
    cases st.exec (.store c.curpage _ _) with
    | none => rfl
    | some st₁ =>
      have hNeed := ({ c with pagepos := pmPageBytes, curpage := c.curpage + 1 } : ArgCursor).exec_on st₁
        (.need (c.curpage + 1))
      refine (congrArg (Option.map fun st => (st, done + min (arg.length - done) c.pagepos)) hNeed).trans ?_
      rw [bind_eq_bind, bind_some, foldlM_cons]
      cases st₁.exec (.need (c.curpage + 1)) <;> rfl
  · rw [foldlM_cons]
    cases st.exec (.store c.curpage _ _) <;> rfl

lemma copyString_plan (arg : Bytes) (turns done : Nat) : copyString arg turns (c.on st) done =
    ((stringPlan arg turns c done).1.foldlM ArgCopy.exec st).map (stringPlan arg turns c done).2.on := by
  induction turns generalizing c st done with
  | zero => rfl
  | succ turns ih =>
    unfold copyString stringPlan
    split
    · rw [copyFragment_plan, foldlM_append]
      cases (fragmentPlan arg c done).1.foldlM ArgCopy.exec st with
      | none => rfl
      | some st₁ => exact ih _ st₁ _
    · rfl

lemma copyArg_plan (arg : Bytes) : copyArg (c.on st) arg =
    ((argPlan c arg).1.foldlM ArgCopy.exec st).map (argPlan c arg).2.on := by
  simp only [copyArg, argPlan]
  rw [copyString_plan, foldlM_append]
  cases (stringPlan arg arg.length c 0).1.foldlM ArgCopy.exec st with
  | none => rfl
  | some st₁ =>
    generalize (stringPlan arg arg.length c 0).2 = c₁
    have hStore := c₁.exec_on st₁ (c₁.pointerOp (sub c₁.vmaddr arg.length))
    simp only [map_some, bind_eq_bind, bind_some, foldlM_cons, foldlM_nil]
    refine (congrArg (fun st => Option.bind st _) hStore).trans ?_
    cases st₁.exec (c₁.pointerOp (sub c₁.vmaddr arg.length)) with
    | none => rfl
    | some st₂ =>
      simp only [map_some, bind_some, ArgCopy.nextPointer, ArgCursor.nextPointer, ArgCursor.on]
      split <;> rfl

lemma copyArgs_plan (args : List Bytes) :
    (args.foldlM copyArg (c.on st)).bind (fun st => st.storeAt st.arrayCurpage st.arrayPagepos (wordBytes 0)) =
      ((argsPlan c args).1.foldlM ArgCopy.exec st).map (argsPlan c args).2.on := by
  induction args generalizing c st with
  | nil =>
    refine (c.exec_on st (c.pointerOp 0)).trans ?_
    rw [argsPlan, foldlM_cons]
    cases st.exec (c.pointerOp 0) <;> rfl
  | cons arg args ih =>
    simp only [argsPlan]
    rw [foldlM_cons, copyArg_plan, foldlM_append]
    cases (argPlan c arg).1.foldlM ArgCopy.exec st with
    | none => rfl
    | some st₁ => exact ih _ st₁

end

lemma copyArgArray_plan (m : Memory) (pages : ArgTable) (beginPos : Nat) (args : List Bytes) :
    copyArgArray m pages beginPos args = ((arrayPlan beginPos args).1.foldlM ArgCopy.exec
        (argStart m pages (alignPos (beginPos + (args.length + 1) * 4)))).map fun st =>
          ((arrayPlan beginPos args).2.on st, archUnewprocDefaultStack - alignPos (beginPos + (args.length + 1) * 4)) := by
  simp only [copyArgArray, arrayPlan]
  generalize alignPos (beginPos + (args.length + 1) * 4) = abspos
  have hNeed := foldlM_hom (argCursor abspos).exec_on
    (((range ((argCursor abspos).curpage + 1)).drop (beginPos / pmPageBytes)).map .need) (argStart m pages abspos)
  rw [foldlM_map] at hNeed
  rw [foldlM_append]
  refine (congrArg (fun st => bind st _) hNeed).trans ?_
  cases (((range ((argCursor abspos).curpage + 1)).drop (beginPos / pmPageBytes)).map .need).foldlM ArgCopy.exec
      (argStart m pages abspos) with
  | none => rfl
  | some st₁ =>
    have hArgs := copyArgs_plan (argCursor abspos) st₁ args
    simp only [map_some, bind_eq_bind, bind_some]
    rw [← bind_assoc, hArgs]
    cases (argsPlan (argCursor abspos) args).1.foldlM ArgCopy.exec st₁ <;> rfl

end Fixos.Sys
