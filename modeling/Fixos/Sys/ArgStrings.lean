import Fixos.Sys.ArgLayout

/-! # The arguments that a new image finds

An array that lies in one page can be read back with its strings.
-/

namespace Fixos.Sys

open Arch Word Transition Option List

structure ArgRegs where
  argc : Nat
  argv : Nat
  envp : Nat
  sp : Nat

/-- The address is `NULL` when there is no array to copy. -/
def ArgPages.copyArray (st : ArgPages) : Option (List Bytes) → Option (ArgPages × Nat)
  | none => some (st, 0)
  | some args => (copyArgArray st.m st.pages st.pos args).map fun (st, address) =>
      (⟨st.m, st.pages, st.abspos⟩, address)

def execveArgs (m : Memory) (argv envp : Option (List Bytes)) : Option (ArgPages × ArgRegs) := do
  let (st, argArgv) ← ArgPages.copyArray ⟨m, fun _ => none, 0⟩ argv
  let (st, argEnvp) ← st.copyArray envp
  return (st, ⟨(argv.map length).getD 0, argArgv, argEnvp, archUnewprocDefaultStack - st.pos⟩)

lemma ArgPages.copyArray_copy (st : ArgPages) (args : Option (List Bytes)) :
    (st.copyArray args).map Prod.fst = st.copy args := by
  cases args with
  | none => rfl
  | some args =>
    rw [copyArray, copy, Option.map_map]
    rfl

variable {m : Memory} {argv envp : Option (List Bytes)}

lemma execveArgs_copyArgs {args : ArgPages} {regs : ArgRegs} (h : execveArgs m argv envp = some (args, regs)) :
    copyArgs m argv envp = some args := by
  obtain ⟨⟨_, _⟩, hArgv, hRest⟩ := bind_eq_some_iff.mp h
  obtain ⟨⟨_, _⟩, hEnvp, ⟨⟩⟩ := bind_eq_some_iff.mp hRest
  rw [copyArgs, ← ArgPages.copyArray_copy, hArgv, map_some, bind_some, ← ArgPages.copyArray_copy, hEnvp, map_some]

def BytesAt (read : Nat → Option UInt8) (address : Nat) (bytes : Bytes) : Prop :=
  ∀ k < bytes.length, read (address + k) = bytes[k]?

/-- Pointers to the strings in order and then `NULL`, with nothing of it below `sp`. -/
def ArgArray (read : Nat → Option UInt8) (sp : Nat) : Nat → List Bytes → Prop
  | address, [] => sp ≤ address ∧ BytesAt read address (wordBytes 0)
  | address, arg :: rest =>
    (∃ pointer, sp ≤ address ∧ BytesAt read address (wordBytes pointer) ∧ sp ≤ pointer ∧
      pointer + arg.length ≤ archUnewprocDefaultStack ∧ BytesAt read pointer arg) ∧
    ArgArray read sp (address + 4) rest

variable {args : List Bytes}

section

variable {read read' : Nat → Option UInt8} {address : Nat}

lemma BytesAt.mono {bytes : Bytes} (h : BytesAt read address bytes)
    (hKeeps : ∀ a b, address ≤ a → a < address + bytes.length → read a = some b → read' a = some b) :
    BytesAt read' address bytes := by
  intro k hk
  rw [getElem?_eq_getElem hk]
  refine hKeeps _ _ (Nat.le_add_right _ _) (Nat.add_lt_add_left hk _) ?_
  rw [h k hk, getElem?_eq_getElem hk]

lemma ArgArray.mono {sp sp' : Nat} (h : ArgArray read sp address args) (hSp : sp' ≤ sp)
    (hKeeps : ∀ a b, sp ≤ a → read a = some b → read' a = some b) :
    ArgArray read' sp' address args := by
  induction args generalizing address with
  | nil => exact ⟨hSp.trans h.1, h.2.mono fun a b ha _ => hKeeps a b (h.1.trans ha)⟩
  | cons arg rest ih =>
    obtain ⟨⟨pointer, hArray, hPointer, hString, hTop, hBytes⟩, hRest⟩ := h
    refine ⟨⟨pointer, hSp.trans hArray, ?_, hSp.trans hString, hTop, ?_⟩, ih hRest⟩
    · exact hPointer.mono fun a b ha _ => hKeeps a b (hArray.trans ha)
    · exact hBytes.mono fun a b ha _ => hKeeps a b (hString.trans ha)

end

def argByte (m : Memory) (pages : ArgTable) (a : Nat) : Option UInt8 :=
  if h : a < archUnewprocDefaultStack ∧
      (archUnewprocDefaultStack - 1 - a) / pmPageBytes < processArgMaxPages then
    (pages ⟨(archUnewprocDefaultStack - 1 - a) / pmPageBytes, h.2⟩).map fun ppn =>
      (m.pm.cells ppn (a % pmPageBytes)).value
  else none

def noteByte (w : Nat → Nat → Option UInt8) (a : Nat) : Option UInt8 :=
  if a < archUnewprocDefaultStack then w ((archUnewprocDefaultStack - 1 - a) / pmPageBytes) (a % pmPageBytes) else none

variable {a : Nat}

lemma ArgsKept.argByte {q n : Nat} {pm : PhysMem} {w : Nat → Nat → Option UInt8}
    {pages : ArgTable} {b : UInt8} (h : ArgsKept q pm n w m pages) (hFree : pm.free.Nodup)
    (hMax : n ≤ processArgMaxPages) (hByte : noteByte w a = some b) : Sys.argByte m pages a = some b := by
  unfold noteByte at hByte
  split at hByte
  · rename_i ha
    have hTaken := h.taken _ _ (isSome_of_eq_some hByte)
    have hLt := hTaken.trans_le h.length_le
    have hContent := h.content hFree _ _ (a % pmPageBytes) (getElem?_eq_getElem hLt)
    rw [Sys.argByte, dif_pos ⟨ha, hTaken.trans_le hMax⟩, h.pages_eq, if_pos hTaken, getElem?_eq_getElem hLt,
      map_some, hContent, hByte, getD_some]
  · cases hByte

variable {room : Nat}

section

variable {c : ArgCursor} {o e u a : Nat}

/-- The place `u` of an array has the address `a`, and there are `room` bytes up to the end of its
page. -/
structure PointerRoom (u a room : Nat) : Prop where
  address : a + stackOffset (u / pmPageBytes) (u % pmPageBytes) = archUnewprocDefaultStack
  room : u % pmPageBytes + room ≤ pmPageBytes

section

variable (h : PointerRoom u a (room + 4))
include h

lemma PointerRoom.next (hRoom : 0 < room) : PointerRoom (u + 4) (a + 4) room := by
  obtain ⟨hAddress, hLe⟩ := h
  simp only [stackOffset, archUnewprocDefaultStack, pmPageBytes] at hAddress hLe
  constructor <;> simp only [stackOffset, archUnewprocDefaultStack, pmPageBytes] <;> omega

lemma PointerRoom.place {x : Nat} (hx : x < archUnewprocDefaultStack) :
    (InArray u (u + 4) ((archUnewprocDefaultStack - 1 - x) / pmPageBytes) (x % pmPageBytes) ↔ a ≤ x ∧ x < a + 4) ∧
      (a ≤ x ∧ x < a + 4 →
        (archUnewprocDefaultStack - 1 - x) / pmPageBytes * pmPageBytes + x % pmPageBytes - u = x - a) := by
  obtain ⟨_, _⟩ := h
  simp only [InArray, stackOffset, archUnewprocDefaultStack, pmPageBytes] at *
  omega

lemma PointerRoom.lt_top : a + 4 ≤ archUnewprocDefaultStack := by
  obtain ⟨_, _⟩ := h
  simp only [stackOffset, pmPageBytes] at *
  omega

end

lemma noteByte_pointer (hSlot : c.Slot u) (hRoom : PointerRoom u a (room + 4)) (vmaddr : Nat)
    (w : Nat → Nat → Option UInt8) (x : Nat) : noteByte (ArgOp.note w (c.pointerOp vmaddr)) x =
      if a ≤ x ∧ x < a + 4 then (wordBytes vmaddr)[x - a]? else noteByte w x := by
  have hTop := hRoom.lt_top
  by_cases hx : x < archUnewprocDefaultStack
  · obtain ⟨hIn, hIndex⟩ := hRoom.place hx
    rw [noteByte, if_pos hx, hSlot.note, noteByte, if_pos hx]
    simp only [hIn]
    split_ifs with hHere
    · rw [hIndex hHere]
    · rfl
  · rw [noteByte, if_neg hx, if_neg (by omega), noteByte, if_neg hx]

lemma noteByte_arg {arg : Bytes} {r : List ArgOp × ArgCursor} (h : ArgStored c o u arg r)
    (hRoom : PointerRoom u a (room + 4)) (hEnd : e + o = archUnewprocDefaultStack) (hLen : arg.length ≤ e)
    (w : Nat → Nat → Option UInt8) (x : Nat) : noteByte (r.1.foldl ArgOp.note w) x =
      if a ≤ x ∧ x < a + 4 then (wordBytes (sub c.vmaddr arg.length))[x - a]?
      else if e - arg.length ≤ x ∧ x < e then arg[x - (e - arg.length)]? else noteByte w x := by
  have hTop := hRoom.lt_top
  by_cases hx : x < archUnewprocDefaultStack
  · obtain ⟨hIn, hIndex⟩ := hRoom.place hx
    have hOffset : stackOffset ((archUnewprocDefaultStack - 1 - x) / pmPageBytes) (x % pmPageBytes) =
        archUnewprocDefaultStack - x := by
      simp only [stackOffset, archUnewprocDefaultStack, pmPageBytes] at *
      omega
    have hString : InStrings o (o + arg.length) ((archUnewprocDefaultStack - 1 - x) / pmPageBytes) (x % pmPageBytes) ↔
        e - arg.length ≤ x ∧ x < e := by
      have hPage : x % pmPageBytes < pmPageBytes := Nat.mod_lt _ (by decide)
      rw [InStrings, hOffset]
      omega
    rw [noteByte, if_pos hx, h.note, noteByte, if_pos hx, hOffset]
    simp only [hIn, hString]
    split
    · rename_i hHere
      rw [hIndex hHere]
    · split
      · congr 1
        omega
      · rfl
  · rw [noteByte, if_neg hx, if_neg (by omega), if_neg (by omega), noteByte, if_neg hx]

lemma argsPlan_array (hAt : c.At o) (hSlot : c.Slot u) (hRoom : PointerRoom u a ((args.length + 1) * 4))
    (hEnd : e + o = archUnewprocDefaultStack) (hVm : c.vmaddr = e) (hBytes : stringBytes args ≤ e) (hAbove : e ≤ a)
    (w : Nat → Nat → Option UInt8) :
    ArgArray (noteByte ((argsPlan c args).1.foldl ArgOp.note w)) (e - stringBytes args) a args ∧
      ∀ x, e ≤ x → x < a ∨ a + (args.length + 1) * 4 ≤ x →
        noteByte ((argsPlan c args).1.foldl ArgOp.note w) x = noteByte w x := by
  induction args generalizing c o e u a w with
  | nil =>
    replace hRoom : PointerRoom u a (0 + 4) := hRoom
    have hNull := noteByte_pointer hSlot hRoom 0 w
    refine ⟨⟨(Nat.sub_le _ _).trans hAbove, fun k hk => ?_⟩, fun x _ hx => ?_⟩
    · change k < 4 at hk
      rw [argsPlan, foldl_cons, foldl_nil, hNull, if_pos (by omega), Nat.add_sub_cancel_left]
    · rw [argsPlan, foldl_cons, foldl_nil, hNull, if_neg (by simp only [length_nil] at hx; omega)]
  | cons arg args ih =>
    have hSum : stringBytes (arg :: args) = arg.length + stringBytes args := rfl
    have hLength : ((arg :: args).length + 1) * 4 = (args.length + 1) * 4 + 4 := by
      rw [length_cons, Nat.succ_mul]
    rw [hSum] at hBytes ⊢
    rw [hLength] at hRoom ⊢
    have hArg := argPlan_stored hAt hSlot arg
    have hNote := noteByte_arg hArg hRoom hEnd (by omega) w
    have hVmaddr : sub c.vmaddr arg.length = e - arg.length := by
      rw [hVm]
      exact sub_of_le (by omega) (by simp only [archUnewprocDefaultStack] at hEnd; omega)
    rw [hVmaddr] at hNote
    obtain ⟨hArray, hKeeps⟩ := ih hArg.position hArg.slot (hRoom.next (by omega))
      (show e - arg.length + (o + arg.length) = _ by omega) (hArg.vmaddr.trans hVmaddr) (by omega) (by omega)
      ((argPlan c arg).1.foldl ArgOp.note w)
    rw [argsPlan, foldl_append]
    rw [Nat.sub_sub] at hArray
    refine ⟨⟨⟨e - arg.length, by omega, fun k hk => ?_, by omega, by omega, fun k hk => ?_⟩, hArray⟩, fun x hx hOut => ?_⟩
    · change k < 4 at hk
      rw [hKeeps _ (by omega) (by omega), hNote, if_pos (by omega), Nat.add_sub_cancel_left]
    · rw [hKeeps _ (by omega) (by omega), hNote, if_neg (by omega), if_pos (by omega), Nat.add_sub_cancel_left]
    · rw [hKeeps _ (by omega) (by omega), hNote, if_neg (by omega), if_neg (by omega)]

end

def packedEnd (pos : Nat) (args : List Bytes) : Nat :=
  alignPos (pos + (args.length + 1) * 4) + stringBytes args

/-- The array of pointers lies in one page, and the strings end before the last of `pages` pages is
full. -/
structure ArgsPlaced (pages pos : Nat) (args : List Bytes) : Prop where
  array : pos / pmPageBytes = (alignPos (pos + (args.length + 1) * 4) - 1) / pmPageBytes
  last : packedEnd pos args < pages * pmPageBytes

variable {pages : Nat}

lemma ArgsPlaced.pointerRoom {pos : Nat} (h : ArgsPlaced pages pos args) (hPages : pages ≤ processArgMaxPages) :
    PointerRoom (arrayPlace (alignPos (pos + (args.length + 1) * 4)))
      (archUnewprocDefaultStack - alignPos (pos + (args.length + 1) * 4)) ((args.length + 1) * 4) := by
  obtain ⟨_, hLast⟩ := h
  obtain ⟨_, _, _⟩ := alignPos_spec (pos + (args.length + 1) * 4)
  rw [packedEnd] at hLast
  generalize alignPos (pos + (args.length + 1) * 4) = abspos at *
  simp only [processArgMaxPages, pmPageBytes] at *
  constructor <;> simp only [arrayPlace, stackOffset, archUnewprocDefaultStack, pmPageBytes] <;> omega

section

variable {q n n' : Nat} {pm : PhysMem} {w : Nat → Nat → Option UInt8} {st : ArgCopy}

section

variable (h : ArgsKept q pm n w st.m st.pages)
include h

lemma needPage_some {i : Nat} (hMax : i < processArgMaxPages) (hEnough : i < pm.free.length) (hn : i ≤ n) :
    ∃ st', st.needPage i = some st' := by
  unfold ArgCopy.needPage
  rw [dif_pos hMax]
  split
  · exact ⟨st, rfl⟩
  · rename_i hNone
    have hPage := h.pages_eq ⟨i, hMax⟩
    rw [hNone, getElem?_eq_getElem hEnough] at hPage
    have hEq : n = i := by
      split at hPage
      · cases hPage
      · rename_i hNot
        exact Nat.le_antisymm (Nat.le_of_not_lt hNot) hn
    have hFree := h.free_eq
    rw [hEq, drop_eq_getElem_cons hEnough] at hFree
    rw [Memory.archPmGetFreePage, pmGetFreePage, hFree]
    exact ⟨_, rfl⟩

lemma storeAt_some {i : Nat} (hMax : n ≤ processArgMaxPages) (hi : i < n) (pos : Nat) (bytes : Bytes) :
    ∃ st', st.storeAt i pos bytes = some st' := by
  have hPage := h.pages_eq ⟨i, Nat.lt_of_lt_of_le hi hMax⟩
  rw [if_pos hi, getElem?_eq_getElem (Nat.lt_of_lt_of_le hi h.length_le)] at hPage
  rw [ArgCopy.storeAt, dif_pos (Nat.lt_of_lt_of_le hi hMax), hPage]
  exact ⟨_, rfl⟩

lemma ops_some {ops : List ArgOp} (hTakes : ops.foldlM (ArgOp.takes true) n = some n')
    (hMax : n' ≤ processArgMaxPages) (hEnough : n' ≤ pm.free.length) :
    ∃ st', ops.foldlM ArgCopy.exec st = some st' := by
  induction ops generalizing st n w with
  | nil => exact ⟨st, rfl⟩
  | cons op ops ih =>
    rw [foldlM_cons] at hTakes
    obtain ⟨n₁, hTake, hTakes⟩ := bind_eq_some_iff.mp hTakes
    have hLe := (takes_pages hTakes).1
    obtain ⟨_, hPage, _⟩ := ArgOp.takes_page hTake
    obtain ⟨st₁, hOp⟩ : ∃ st₁, st.exec op = some st₁ := by
      cases op with
      | need i =>
        obtain ⟨hi, _⟩ := ite_none_right_eq_some.mp hTake
        have hLt : i < n₁ := hPage rfl
        exact needPage_some h (by omega) (by omega) hi
      | store i pos bytes =>
        obtain ⟨hi, _⟩ := ite_none_right_eq_some.mp hTake
        exact storeAt_some h (by omega) (hi rfl) pos bytes
    obtain ⟨st', hRest⟩ := ih (exec_kept hOp hTake h) hTakes
    rw [foldlM_cons, hOp]
    exact ⟨st', hRest⟩

end

end

section

variable {pm : PhysMem} {pages : Nat} {l : ArgLayout} {w : Nat → Nat → Option UInt8} {st : ArgPages}

lemma ArgsPlaced.pages_le (h : ArgsPlaced pages l.pos args) : (l.add args).pages ≤ pages := by
  have hLast := h.last
  simp only [packedEnd, ArgLayout.add, pmPageBytes] at *
  omega

/-- The array and its strings can be read, and what the pages hold from the position of the call upwards stays. -/
lemma copyArgArray_array (h : l.Holds w 0 pm st) (hMax : pages ≤ processArgMaxPages)
    (hEnough : pages ≤ pm.free.length) (hPlaced : ArgsPlaced pages l.pos args) :
    ∃ st' address, copyArgArray st.m st.pages st.pos args = some (st', address) ∧
      ArgArray (noteByte (noteArray l.pos w (some args))) (archUnewprocDefaultStack - st'.abspos) address args ∧
      ∀ x, archUnewprocDefaultStack - l.pos ≤ x → noteByte (noteArray l.pos w (some args)) x = noteByte w x := by
  have hPlan := arrayPlan_stored l.pos args
  have hRoom := hPlaced.pointerRoom hMax
  have hPages : (alignPos (l.pos + (args.length + 1) * 4) + stringBytes args) / pmPageBytes + 1 ≤ pages := hPlaced.pages_le
  have hFits := hPlaced.last
  obtain ⟨hAligned, _, _⟩ := alignPos_spec (l.pos + (args.length + 1) * 4)
  obtain ⟨_, _, _⟩ := alignPos_spec (alignPos (l.pos + (args.length + 1) * 4) + stringBytes args)
  have hStart : ArgsKept 0 pm l.pages w (argStart st.m st.pages (alignPos (l.pos + (args.length + 1) * 4))).m
      (argStart st.m st.pages (alignPos (l.pos + (args.length + 1) * 4))).pages := h.kept
  obtain ⟨st₁, hOps⟩ := ops_some hStart (hPlan.takes true l.pages h.le h.pages_le fun _ => hRoom.room)
    (hPages.trans hMax) (hPages.trans hEnough)
  refine ⟨_, _, by rw [copyArgArray_plan, h.pos_eq, hOps, map_some], ?_⟩
  rw [show ((arrayPlan l.pos args).2.on st₁).abspos = _ from hPlan.pos_eq]
  rw [packedEnd] at hFits
  simp only [noteArray, arrayPlan, foldl_append, needs_note]
  generalize alignPos (l.pos + (args.length + 1) * 4) = abspos at *
  have hTop : abspos + stringBytes args < archUnewprocDefaultStack := by
    simp only [processArgMaxPages, pmPageBytes, archUnewprocDefaultStack] at *
    omega
  obtain ⟨hArray, hRest⟩ := argsPlan_array (argCursor_at (by omega)) (argCursor_slot (by omega) hAligned) hRoom
    (Nat.sub_add_cancel (by omega)) rfl (by omega) (Nat.le_refl _) w
  refine ⟨hArray.mono (by omega) fun _ _ _ hByte => hByte, fun x hx => hRest x (by omega) (Or.inr (by omega))⟩

structure ArrayCopied (pm : PhysMem) (l : ArgLayout) (w : Nat → Nat → Option UInt8) (array : Option (List Bytes))
    (st' : ArgPages) (address : Nat) : Prop where
  holds : (array.toList.foldl ArgLayout.add l).Holds (noteArray l.pos w array) 0 pm st'
  readable : ∀ args, array = some args →
    ArgArray (noteByte (noteArray l.pos w array)) (archUnewprocDefaultStack - st'.pos) address args
  keeps : ∀ x, archUnewprocDefaultStack - l.pos ≤ x → noteByte (noteArray l.pos w array) x = noteByte w x
  pos_le : l.pos ≤ st'.pos

lemma copyArray_copied {array : Option (List Bytes)} (h : l.Holds w 0 pm st)
    (hMax : pages ≤ processArgMaxPages) (hEnough : pages ≤ pm.free.length)
    (hPlaced : ∀ args, array = some args → ArgsPlaced pages l.pos args) :
    ∃ st' address, st.copyArray array = some (st', address) ∧ ArrayCopied pm l w array st' address := by
  cases array with
  | none => exact ⟨st, 0, rfl, h, by simp, fun _ _ => rfl, h.pos_eq.ge⟩
  | some args =>
    obtain ⟨st', address, hCopy, hArray, hKeeps⟩ := copyArgArray_array h hMax hEnough (hPlaced args rfl)
    have hHolds := copyArgArray_holds hCopy h
    refine ⟨⟨st'.m, st'.pages, st'.abspos⟩, address, by rw [ArgPages.copyArray, hCopy]; rfl, hHolds, ?_, hKeeps, ?_⟩
    · rintro _ ⟨⟩
      exact hArray
    · obtain ⟨_, _, _⟩ := alignPos_spec (l.pos + (args.length + 1) * 4)
      obtain ⟨_, _, _⟩ := alignPos_spec (alignPos (l.pos + (args.length + 1) * 4) + stringBytes args)
      rw [hHolds.pos_eq, ArgLayout.add]
      dsimp only
      omega

end

/-- Both arrays lie in one page each and everything ends before the last of `pages` pages is full. -/
structure ArgsFit (pages : Nat) (argv envp : Option (List Bytes)) : Prop where
  first : ∀ args, argv = some args → ArgsPlaced pages 0 args
  second : ∀ args, envp = some args → ArgsPlaced pages (argLayout argv none).pos args

lemma ArgsFit.pages_le (h : ArgsFit pages argv envp) : (argLayout argv envp).pages ≤ pages := by
  obtain ⟨hFirst, hSecond⟩ := h
  cases envp with
  | none =>
    cases argv with
    | none => exact Nat.zero_le _
    | some args => exact (hFirst args rfl).pages_le
  | some args =>
    have hLayout : argLayout argv (some args) = (argLayout argv none).add args := by
      rw [argLayout, argLayout, toList_some, toList_none, append_nil, foldl_append]
      rfl
    rw [hLayout]
    exact (hSecond args rfl).pages_le

lemma execveArgs_arrays (hFree : m.pm.free.Nodup) (hMax : pages ≤ processArgMaxPages)
    (hEnough : pages ≤ m.pm.free.length) (hFit : ArgsFit pages argv envp) :
    ∃ args regs, execveArgs m argv envp = some (args, regs) ∧ (∀ strings, argv = some strings →
        regs.argc = strings.length ∧ ArgArray (argByte args.m args.pages) regs.sp regs.argv strings) ∧
      ∀ strings, envp = some strings → ArgArray (argByte args.m args.pages) regs.sp regs.envp strings := by
  obtain ⟨_, _, hArgv, hFirst⟩ := copyArray_copied (ArgLayout.holds_start 0 m) hMax hEnough hFit.first
  have hLayout : argv.toList.foldl ArgLayout.add ⟨0, 0, fun _ _ => false⟩ = argLayout argv none := by
    rw [argLayout, toList_none, append_nil]
  have hHolds := hFirst.holds
  rw [hLayout] at hHolds
  obtain ⟨st₂, _, hEnvp, hSecond⟩ := copyArray_copied hHolds hMax hEnough hFit.second
  have hPages : (envp.toList.foldl ArgLayout.add (argLayout argv none)).pages ≤ processArgMaxPages := by
    rw [← hLayout, ← foldl_append]
    exact hFit.pages_le.trans hMax
  have hRead : ∀ x b, noteByte (noteArray (argLayout argv none).pos _ envp) x = some b →
      argByte st₂.m st₂.pages x = some b := fun _ _ => hSecond.holds.kept.argByte hFree hPages
  refine ⟨st₂, _, bind_eq_some_iff.mpr ⟨_, hArgv, bind_eq_some_iff.mpr ⟨_, hEnvp, rfl⟩⟩, ?_,
    fun strings hSome => (hSecond.readable strings hSome).mono (Nat.le_refl _) fun x b _ => hRead x b⟩
  rintro strings rfl
  refine ⟨rfl, (hFirst.readable strings rfl).mono (Nat.sub_le_sub_left ?_ _) fun x b hx hByte => hRead x b ?_⟩
  · rw [hHolds.pos_eq]
    exact hSecond.pos_le
  · rw [hSecond.keeps x (by rwa [← hHolds.pos_eq])]
    exact hByte

def userByte (m : Memory) (dirs : DirList) (a : Nat) : Option UInt8 :=
  (dirs.pageAt (a / pmPageBytes)).map fun ppn => (m.pm.cells ppn (a % pmPageBytes)).value

def argVpn (i : Nat) : Nat := (archUnewprocDefaultStack - (i + 1) * pmPageBytes) / pmPageBytes

lemma argVpn_inj {i j : Fin processArgMaxPages} (h : argVpn i = argVpn j) : i = j := by
  simp only [argVpn, archUnewprocDefaultStack, pmPageBytes, processArgMaxPages] at *
  omega

lemma argVpn_page (h : a < archUnewprocDefaultStack) :
    argVpn ((archUnewprocDefaultStack - 1 - a) / pmPageBytes) = a / pmPageBytes := by
  simp only [argVpn, archUnewprocDefaultStack, pmPageBytes] at *
  omega

lemma insertArgPage_mapped {pages : ArgTable} {i : Fin processArgMaxPages}
    {st st' : Memory × DirList} (h : insertArgPage pages st i = some st') :
    st'.1.pm.cells = st.1.pm.cells ∧
      ∀ vpn, st'.2.pageAt vpn = if vpn = argVpn i ∧ pages i ≠ none then pages i else st.2.pageAt vpn := by
  unfold insertArgPage at h
  split at h
  · rename_i hNone
    cases h
    exact ⟨rfl, fun vpn => by simp [hNone]⟩
  · rename_i ppn hPage
    obtain ⟨_, hCells, _⟩ := memInsertPage_entry h
    refine ⟨hCells, fun vpn => ?_⟩
    rw [(memInsertPage_inserted h).pageAt vpn, hPage]
    simp [argVpn, PageEntry.owned]

lemma insertArgPages_mapped {pages : ArgTable} {is : List (Fin processArgMaxPages)}
    {st st' : Memory × DirList} (h : is.foldlM (insertArgPage pages) st = some st') :
    st'.1.pm.cells = st.1.pm.cells ∧ (∀ i ppn, pages i = some ppn → i ∈ is ∨ st.2.pageAt (argVpn i) = some ppn →
        st'.2.pageAt (argVpn i) = some ppn) := by
  induction is generalizing st with
  | nil =>
    cases h
    exact ⟨rfl, fun i ppn _ hi => hi.resolve_left not_mem_nil⟩
  | cons j rest ih =>
    rw [foldlM_cons] at h
    obtain ⟨_, hHere, hRest⟩ := bind_eq_some_iff.mp h
    obtain ⟨hCells, hPages⟩ := ih hRest
    obtain ⟨hCells₁, hPages₁⟩ := insertArgPage_mapped hHere
    refine ⟨hCells.trans hCells₁, fun i ppn hi hMapped => hPages i ppn hi ?_⟩
    rw [hPages₁]
    by_cases hj : i = j
    · subst hj
      rw [if_pos ⟨rfl, by simp [hi]⟩]
      exact Or.inr hi
    · rw [if_neg fun hEq => hj (argVpn_inj hEq.1)]
      exact hMapped.imp_left fun hMem => (mem_cons.mp hMem).resolve_left hj

variable {proc : VmProc}

section

variable {m m' : Memory} {r : Ppn}

lemma elfloaderLoad_cells {proc' : VmProc} {image : Image} (h : elfloaderLoad m proc image = some (m', proc')) :
    m'.pm.cells = m.pm.cells := by
  simp only [elfloaderLoad] at h
  split at h
  · obtain ⟨⟨_, _⟩, hStack, ⟨⟩⟩ := map_eq_some_iff.mp h
    obtain ⟨⟨_, _⟩, hTake, ⟨⟩⟩ := map_eq_some_iff.mp hStack
    exact (pmGetFreePage_eq_some hTake).2
  · cases h
    rfl

end

lemma execveMemory_argByte {m' : Memory} {proc' : VmProc} {image : Image} {args : ArgPages}
    (hArgs : copyArgs m argv envp = some args) (hOwned : ∀ ppn ∈ proc.dirs.owned, ppn ∉ m.pm.free)
    (hStack : proc.kernelStack ∉ m.pm.free) (h : execveMemory m proc image argv envp = some (m', proc')) {b : UInt8}
    (hByte : argByte args.m args.pages a = some b) : userByte m' proc'.dirs a = some b := by
  obtain ⟨args', hArgs', hRest⟩ := bind_eq_some_iff.mp h
  obtain rfl : args' = args := some.inj (hArgs'.symm.trans hArgs)
  obtain ⟨m₁, hRelease, hRest⟩ := bind_eq_some_iff.mp hRest
  obtain ⟨⟨m₂, _⟩, hLoad, hRest⟩ := bind_eq_some_iff.mp hRest
  obtain ⟨⟨m₃, _⟩, hInsert, hRest⟩ := bind_eq_some_iff.mp hRest
  obtain ⟨_, hOld, ⟨⟩⟩ := bind_eq_some_iff.mp hRest
  obtain ⟨hCells, hMapped⟩ := insertArgPages_mapped hInsert
  unfold argByte at hByte
  split at hByte
  · rename_i hIn
    obtain ⟨ppn, hPage, hValue⟩ := map_eq_some_iff.mp hByte
    have hAt := hMapped _ ppn hPage (Or.inl (mem_finRange _))
    rw [argVpn_page hIn.1] at hAt
    -- an argument page was free, so it is none of those given back
    have hFree : ppn ∈ m.pm.free := by
      obtain ⟨_, hLayout⟩ := copyArgs_layout hArgs 0
      have hTaken := hLayout.kept.pages_eq ⟨_, hIn.2⟩
      rw [hPage] at hTaken
      split at hTaken
      · exact mem_of_getElem? hTaken.symm
      · cases hTaken
    have hKept : m'.pm.cells ppn = args'.m.pm.cells ppn := by
      obtain ⟨pm, hPm, rfl⟩ := map_eq_some_iff.mp hOld
      calc pm.cells ppn = m₃.pm.cells ppn := pmFreePage_cells hPm fun hEq => hStack (hEq ▸ hFree)
        _ = m₂.pm.cells ppn := congrFun hCells ppn
        _ = m₁.pm.cells ppn := congrFun (elfloaderLoad_cells hLoad) ppn
        _ = args'.m.pm.cells ppn := memReleaseDirs_cells hRelease fun hMem => hOwned ppn hMem hFree
    rw [userByte, hAt, map_some, hKept, hValue]
  · cases hByte

section

variable {m m' : Memory}

lemma elfloaderLoad_some (proc : VmProc) (image : Image) (h : m.pm.free ≠ []) :
    ∃ m' proc', elfloaderLoad m proc image = some (m', proc') ∧ m.pm.free.length ≤ m'.pm.free.length + 1 := by
  simp only [elfloaderLoad]
  split
  · obtain ⟨_, _, hFree⟩ := exists_cons_of_ne_nil h
    rw [Memory.getKernelPage, pmGetFreePage, hFree]
    exact ⟨_, _, rfl, Nat.le_refl _⟩
  · exact ⟨m, _, rfl, Nat.le_succ _⟩

/-- The argument pages share a directory, so one page for it is enough. -/
lemma insertArgPages_some (pages : ArgTable) (dirs : DirList) (h : m.pm.free ≠ []) :
    ∃ st', (finRange processArgMaxPages).foldlM (insertArgPage pages) (m, dirs) = some st' := by
  have hDirectory : ∀ i : Fin processArgMaxPages,
      memAddressDirectory (archUnewprocDefaultStack - (i + 1) * pmPageBytes) = 0x7FFF := by decide
  let room (st : Memory × DirList) : Prop := (findDir 0x7FFF st.2.dirs).isSome ∨ st.1.pm.free ≠ []
  have hTurn : ∀ i ∈ finRange processArgMaxPages, ∀ st, room st →
      ∃ st', insertArgPage pages st i = some st' ∧ room st' := by
    intro i _ st hRoom
    unfold insertArgPage
    split
    · exact ⟨st, rfl, hRoom⟩
    · rename_i ppn _
      obtain ⟨m', dirs', hInsert⟩ := memInsertPage_some ⟨ppn, true, true, true⟩
        (archUnewprocDefaultStack - (i + 1) * pmPageBytes) (by rw [hDirectory i]; exact hRoom)
      refine ⟨(m', dirs'), hInsert, Or.inl ?_⟩
      obtain ⟨_, hFind, _⟩ := map_eq_some_iff.mp (memInsertPage_inserted hInsert).found
      rw [← hDirectory i, hFind]
      rfl
  obtain ⟨st', hLoop, _⟩ := foldlM_total hTurn (s := (m, dirs)) (Or.inr h)
  exact ⟨st', hLoop⟩

end

lemma execveMemory_some (image : Image) {args : ArgPages} (hArgs : copyArgs m argv envp = some args)
    (hFit : ArgsFit pages argv envp) (hEnough : pages + 2 ≤ m.pm.free.length) (hOwned : 0 ∉ proc.dirs.owned)
    (hStack : proc.kernelStack ≠ 0) :
    ∃ m' proc', execveMemory m proc image argv envp = some (m', proc') := by
  have hFree : 2 ≤ args.m.pm.free.length := by
    have hPages := hFit.pages_le
    obtain ⟨_, hLayout⟩ := copyArgs_layout hArgs 0
    rw [hLayout.kept.free_eq, length_drop]
    omega
  obtain ⟨m₁, hRelease, _⟩ := memReleaseDirs_some hOwned args.m
  obtain ⟨m₂, loaded, hLoad, _⟩ := elfloaderLoad_some { proc with dirs := .empty, areas := [], heap := none } image
    (ne_nil_of_length_pos (l := m₁.pm.free) (by omega))
  obtain ⟨⟨m₃, dirs⟩, hInsert⟩ := insertArgPages_some args.pages loaded.dirs
    (ne_nil_of_length_pos (l := m₂.pm.free) (by omega))
  obtain ⟨m₄, hOld⟩ : ∃ m₄, m₃.releaseKernelPage proc.kernelStack = some m₄ := by
    obtain ⟨pm, hPm⟩ := pmFreePage_some hStack m₃.pm
    exact ⟨_, map_eq_some_iff.mpr ⟨pm, hPm, rfl⟩⟩
  refine ⟨m₄, { loaded with dirs }, ?_⟩
  simp only [execveMemory, bind_eq_bind, hArgs, hRelease, hLoad, hInsert, hOld, bind_some]
  rfl

/-- What the kernel keeps: six free pages, all different and none of them in use. -/
structure ExecReady (m : Memory) (proc : VmProc) : Prop where
  nodup : m.pm.free.Nodup
  enough : processArgMaxPages + 2 ≤ m.pm.free.length
  owned : ∀ ppn ∈ proc.dirs.owned, ppn ≠ 0 ∧ ppn ∉ m.pm.free
  stack : proc.kernelStack ≠ 0 ∧ proc.kernelStack ∉ m.pm.free

/-- The arrays are at the addresses in the registers, with nothing of them below the stack pointer. -/
def ArgsReadable (m : Memory) (proc : VmProc) (image : Image) (argv envp : Option (List Bytes)) : Prop :=
  ∃ args regs m' proc', execveArgs m argv envp = some (args, regs) ∧
    execveMemory m proc image argv envp = some (m', proc') ∧
    (∀ strings, argv = some strings →
      regs.argc = strings.length ∧ ArgArray (userByte m' proc'.dirs) regs.sp regs.argv strings) ∧
    ∀ strings, envp = some strings → ArgArray (userByte m' proc'.dirs) regs.sp regs.envp strings

lemma ArgsFit.readable (image : Image) (hFit : ArgsFit processArgMaxPages argv envp) (hReady : ExecReady m proc) :
    ArgsReadable m proc image argv envp := by
  have hEnough := hReady.enough
  obtain ⟨args, regs, hArgs, hArgv, hEnvp⟩ := execveArgs_arrays hReady.nodup (Nat.le_refl _) (by omega) hFit
  have hCopy := execveArgs_copyArgs hArgs
  obtain ⟨m', proc', hExec⟩ := execveMemory_some image hCopy hFit hEnough
    (fun hZero => (hReady.owned 0 hZero).1 rfl) hReady.stack.1
  have hKept : ∀ a b, argByte args.m args.pages a = some b → userByte m' proc'.dirs a = some b :=
    fun _ _ => execveMemory_argByte hCopy (fun ppn hMem => (hReady.owned ppn hMem).2) hReady.stack.2 hExec
  refine ⟨args, regs, m', proc', hArgs, hExec, fun strings hSome => ?_, fun strings hSome => ?_⟩
  · obtain ⟨hArgc, hArray⟩ := hArgv strings hSome
    exact ⟨hArgc, hArray.mono (Nat.le_refl _) fun a b _ => hKept a b⟩
  · exact (hEnvp strings hSome).mono (Nat.le_refl _) fun a b _ => hKept a b

end Fixos.Sys
