import Fixos.Sys.ArgStrings

/-! # When the arguments arrive

Where the array of pointers leaves its page, the new image reads what happened to be in the next one.
-/

namespace Fixos.Sys

open Arch Word Transition Option List

lemma ArgArray.word {read : Nat → Option UInt8} {sp address k : Nat} {args : List Bytes}
    (h : ArgArray read sp address args) (hk : k ≤ args.length) :
    ∃ word ≤ archUnewprocDefaultStack, BytesAt read (address + 4 * k) (wordBytes word) := by
  induction args generalizing address k with
  | nil =>
    obtain rfl : k = 0 := Nat.le_zero.mp hk
    exact ⟨0, Nat.zero_le _, h.2⟩
  | cons arg rest ih =>
    obtain ⟨⟨pointer, _, hWord, _, hTop, _⟩, hRest⟩ := h
    cases k with
    | zero => exact ⟨pointer, (Nat.le_add_right _ _).trans hTop, hWord⟩
    | succ k =>
      obtain ⟨word, hLe, _⟩ := ih hRest (Nat.le_of_succ_le_succ hk)
      refine ⟨word, hLe, ?_⟩
      rwa [Nat.mul_succ, Nat.add_comm _ 4, ← Nat.add_assoc]

def arrayPage (pos : Nat) (args : List Bytes) : Nat :=
  (alignPos (pos + (args.length + 1) * 4) - 1) / pmPageBytes

lemma ArgLayout.add_written_above (l : ArgLayout) (args : List Bytes) {i p : Nat}
    (hi : i < arrayPage l.pos args) (hp : p < pmPageBytes) : (l.add args).written i p = l.written i p := by
  unfold arrayPage at hi
  unfold ArgLayout.add
  generalize alignPos (l.pos + (args.length + 1) * 4) = abspos at *
  have hStrings : ¬ InStrings abspos (abspos + stringBytes args) i p := by
    rintro ⟨_, hLow, _⟩
    simp only [stackOffset, pmPageBytes] at *
    omega
  have hArray : ¬ InArray (arrayPlace abspos) (arrayPlace abspos + (args.length + 1) * 4) i p := by
    rintro ⟨_, hLow, _⟩
    simp only [arrayPlace, pmPageBytes] at *
    omega
  dsimp only
  rw [decide_eq_false hStrings, decide_eq_false hArray, Bool.or_false, Bool.or_false]

lemma arrayPage_mono {pos pos' : Nat} (args args' : List Bytes) (h : packedEnd pos args ≤ pos') :
    arrayPage pos args ≤ arrayPage pos' args' := by
  obtain ⟨_, _, _⟩ := alignPos_spec (pos' + (args'.length + 1) * 4)
  unfold packedEnd at h
  exact Nat.div_le_div_right (by omega)

lemma crossing_word {l : ArgLayout} {args : List Bytes} (hAligned : l.pos % 4 = 0)
    (hCross : l.pos / pmPageBytes ≠ arrayPage l.pos args)
    (hTop : packedEnd l.pos args < processArgMaxPages * pmPageBytes) :
    ∃ k ≤ args.length, 0 < arrayPage l.pos args ∧ l.pos < arrayPage l.pos args * pmPageBytes ∧
      arrayPage l.pos args < (l.add args).pages ∧
      archUnewprocDefaultStack - alignPos (l.pos + (args.length + 1) * 4) + 4 * k =
        archUnewprocDefaultStack - arrayPage l.pos args * pmPageBytes := by
  have hSame : alignPos (l.pos + (args.length + 1) * 4) = l.pos + (args.length + 1) * 4 := by
    unfold alignPos
    rw [if_neg (by omega)]
  unfold packedEnd at hTop
  unfold arrayPage at hCross ⊢
  unfold ArgLayout.add
  rw [hSame] at hTop hCross ⊢
  refine ⟨(l.pos + (args.length + 1) * 4 - (l.pos + (args.length + 1) * 4 - 1) / pmPageBytes * pmPageBytes) / 4, ?_⟩
  simp only [pmPageBytes, processArgMaxPages, archUnewprocDefaultStack] at *
  omega

/-- With the free pages full of `0xaa`, the word after the boundary is no address below the top of the stack. -/
lemma crossing_unreadable {m : Memory} {st : ArgPages} {l final : ArgLayout} {args : List Bytes}
    {w : Nat → Nat → Option UInt8} {read : Nat → Option UInt8} (hHolds : final.Holds w 0 m.pm st)
    (hFree : m.pm.free.Nodup) (hFilled : ∀ ppn p, (m.pm.cells ppn p).value = 0xaa)
    (hRead : ∀ a b, argByte st.m st.pages a = some b → read a = some b)
    (hAligned : l.pos % 4 = 0) (hCross : l.pos / pmPageBytes ≠ arrayPage l.pos args)
    (hTop : packedEnd l.pos args < processArgMaxPages * pmPageBytes) (hPages : (l.add args).pages ≤ final.pages)
    (hUnwritten : final.written (arrayPage l.pos args - 1) 0 = false) (sp : Nat) :
    ¬ ArgArray read sp (archUnewprocDefaultStack - alignPos (l.pos + (args.length + 1) * 4)) args := by
  intro hArray
  obtain ⟨k, hk, _, _, _, hAddress⟩ := crossing_word hAligned hCross hTop
  have hAdd : (l.add args).pages ≤ processArgMaxPages := Nat.succ_le_of_lt ((Nat.div_lt_iff_lt_mul (by decide)).mpr hTop)
  obtain ⟨word, hWord, hBytes⟩ := hArray.word hk
  rw [hAddress] at hBytes
  generalize arrayPage l.pos args = c at *
  have hMax : c - 1 < processArgMaxPages := by omega
  have hIn : c - 1 < m.pm.free.length := by
    have := hHolds.kept.length_le
    omega
  have hPage := hHolds.kept.pages_eq ⟨c - 1, hMax⟩
  rw [if_pos (show c - 1 < final.pages by omega), getElem?_eq_getElem hIn] at hPage
  have hValue : (st.m.pm.cells m.pm.free[c - 1] 0).value = 0xaa := by
    have hNone : w (c - 1) 0 = none := by
      rw [← not_isSome_iff_eq_none, hHolds.covers]
      exact ne_true_of_eq_false hUnwritten
    rw [hHolds.kept.content hFree (c - 1) _ 0 (getElem?_eq_getElem hIn), hNone, getD_none, hFilled]
  have hPlace : (archUnewprocDefaultStack - 1 - (archUnewprocDefaultStack - c * pmPageBytes)) / pmPageBytes = c - 1 ∧
      (archUnewprocDefaultStack - c * pmPageBytes) % pmPageBytes = 0 ∧
      archUnewprocDefaultStack - c * pmPageBytes < archUnewprocDefaultStack := by
    simp only [archUnewprocDefaultStack, pmPageBytes, processArgMaxPages] at *
    omega
  have hByte : argByte st.m st.pages (archUnewprocDefaultStack - c * pmPageBytes) = some 0xaa := by
    unfold argByte
    rw [dif_pos ⟨hPlace.2.2, hPlace.1.trans_lt hMax⟩]
    simp [hPlace.1, hPlace.2.1, hPage, hValue]
  have hFirst := hBytes 0 (Nat.zero_lt_succ 3)
  rw [Nat.add_zero, hRead _ _ hByte] at hFirst
  have hHigh : 0xaa = word / 2 ^ 24 % 256 := congrArg UInt8.toNat (some.inj hFirst)
  simp only [archUnewprocDefaultStack] at hWord
  omega

structure ArrayBounded (pm : PhysMem) (l : ArgLayout) (array : Option (List Bytes)) (st : ArgPages)
    (address : Nat) : Prop where
  holds : ∃ w, (array.toList.foldl ArgLayout.add l).Holds w 0 pm st
  last : ∀ args, array = some args → packedEnd l.pos args < processArgMaxPages * pmPageBytes
  address_eq : ∀ args, array = some args →
    address = archUnewprocDefaultStack - alignPos (l.pos + (args.length + 1) * 4)

lemma copyArray_bounded {pm : PhysMem} {l : ArgLayout} {w : Nat → Nat → Option UInt8} {st st' : ArgPages}
    {array : Option (List Bytes)} {address : Nat} (hCopy : st.copyArray array = some (st', address))
    (h : l.Holds w 0 pm st) : ArrayBounded pm l array st' address := by
  cases array with
  | none =>
    cases hCopy
    exact ⟨⟨w, h⟩, by simp, by simp⟩
  | some args =>
    obtain ⟨⟨_, _⟩, hArray, ⟨⟩⟩ := map_eq_some_iff.mp hCopy
    have hHolds := copyArgArray_holds hArray h
    rw [copyArgArray_plan, h.pos_eq] at hArray
    obtain ⟨_, hOps, ⟨⟩⟩ := map_eq_some_iff.mp hArray
    obtain ⟨_, _, _⟩ := alignPos_spec (l.pos + (args.length + 1) * 4)
    have hInside := ((arrayPlan_stored l.pos args).inside_iff (by omega) _).mp (ops_inside hOps)
    refine ⟨⟨_, hHolds⟩, ?_, ?_⟩
    · rintro _ ⟨⟩
      exact hInside.1
    · rintro _ ⟨⟩
      rfl

lemma argLayout_none_aligned (argv : Option (List Bytes)) : (argLayout argv none).pos % 4 = 0 := by
  cases argv with
  | none => rfl
  | some args => exact (alignPos_spec _).1

lemma argLayout_unwritten {argv : Option (List Bytes)} {c : Nat}
    (hPlaced : ∀ args, argv = some args → ArgsPlaced processArgMaxPages 0 args)
    (hPos : (argLayout argv none).pos < c * pmPageBytes) :
    (argLayout argv none).written (c - 1) 0 = false := by
  cases argv with
  | none => rfl
  | some args =>
    have hRoom := (hPlaced args rfl).pointerRoom (Nat.le_refl _)
    obtain ⟨_, _, _⟩ := alignPos_spec (0 + (args.length + 1) * 4)
    have hArgs : argLayout (some args) none = ArgLayout.add ⟨0, 0, fun _ _ => false⟩ args := rfl
    rw [hArgs, ArgLayout.add] at hPos ⊢
    dsimp only at hPos ⊢
    generalize alignPos (0 + (args.length + 1) * 4) = abspos at *
    obtain ⟨_, _, _⟩ := alignPos_spec (abspos + stringBytes args)
    have hStrings : ¬ InStrings abspos (abspos + stringBytes args) (c - 1) 0 := by
      rintro ⟨_, _, _⟩
      simp only [stackOffset, pmPageBytes] at *
      omega
    have hArray : ¬ InArray (arrayPlace abspos) (arrayPlace abspos + (args.length + 1) * 4) (c - 1) 0 := by
      rintro ⟨_, _, _⟩
      have hEnd := hRoom.room
      simp only [arrayPlace, pmPageBytes] at *
      omega
    rw [decide_eq_false hStrings, decide_eq_false hArray]
    rfl

lemma ArgLayout.add_then (l : ArgLayout) (args : List Bytes) (array : Option (List Bytes)) :
    (l.add args).pages ≤ (array.toList.foldl ArgLayout.add (l.add args)).pages ∧
      ∀ i p, i < arrayPage l.pos args → p < pmPageBytes →
        (array.toList.foldl ArgLayout.add (l.add args)).written i p = l.written i p := by
  cases array with
  | none => exact ⟨Nat.le_refl _, fun i p => l.add_written_above args⟩
  | some next =>
    obtain ⟨_, hUp, _⟩ := alignPos_spec (packedEnd l.pos args)
    obtain ⟨_, hNext, _⟩ := alignPos_spec ((l.add args).pos + (next.length + 1) * 4)
    constructor
    · refine Nat.succ_le_succ (Nat.div_le_div_right ?_)
      exact (hUp.trans (Nat.le_add_right _ _)).trans (hNext.trans (Nat.le_add_right _ _))
    · intro i p hi hp
      have hLater : arrayPage l.pos args ≤ arrayPage (l.add args).pos next := arrayPage_mono args next hUp
      exact ((l.add args).add_written_above next (Nat.lt_of_lt_of_le hi hLater) hp).trans (l.add_written_above args hi hp)

def argMemory : Memory := ⟨⟨[20, 21, 22, 23, 24, 25], fun _ _ => ⟨0xaa, none⟩⟩, Utils.poolInit, [19]⟩

def argProc : VmProc := { VmProc.blank with kernelStack := 19 }

lemma execReady_argProc : ExecReady argMemory argProc where
  nodup := by decide
  enough := by decide
  owned := by decide
  stack := by decide

lemma argsFit_of_readable {argv envp : Option (List Bytes)} {image : Image}
    (h : ArgsReadable argMemory argProc image argv envp) : ArgsFit processArgMaxPages argv envp := by
  obtain ⟨args, _, m', proc', hArgs, hExec, hArgv, hEnvp⟩ := h
  have hRead : ∀ a b, argByte args.m args.pages a = some b → userByte m' proc'.dirs a = some b :=
    fun _ _ => execveMemory_argByte (execveArgs_copyArgs hArgs)
      (fun ppn hMem => (execReady_argProc.owned ppn hMem).2) execReady_argProc.stack.2 hExec
  obtain ⟨⟨_, _⟩, hCopy₁, hRest⟩ := bind_eq_some_iff.mp hArgs
  obtain ⟨⟨_, _⟩, hCopy₂, ⟨⟩⟩ := bind_eq_some_iff.mp hRest
  have hFirst := copyArray_bounded hCopy₁ (ArgLayout.holds_start 0 argMemory)
  obtain ⟨_, hHolds₁⟩ := hFirst.holds
  have hSecond := copyArray_bounded hCopy₂ hHolds₁
  obtain ⟨_, hHolds₂⟩ := hSecond.holds
  have hFilled : ∀ ppn p, (argMemory.pm.cells ppn p).value = 0xaa := fun _ _ => rfl
  have hPlaced : ∀ strings, argv = some strings → ArgsPlaced processArgMaxPages 0 strings := by
    rintro strings rfl
    refine ⟨?_, hFirst.last strings rfl⟩
    by_contra hCross
    obtain ⟨hPages, hAbove⟩ := ArgLayout.add_then ⟨0, 0, fun _ _ => false⟩ strings envp
    obtain ⟨_, _, hPos, _⟩ := crossing_word (l := ⟨0, 0, fun _ _ => false⟩) rfl hCross (hFirst.last strings rfl)
    refine crossing_unreadable hHolds₂ execReady_argProc.nodup hFilled hRead rfl hCross (hFirst.last strings rfl) hPages
      (hAbove _ 0 (Nat.sub_lt hPos Nat.one_pos) (by decide)) (archUnewprocDefaultStack - args.pos) ?_
    rw [← hFirst.address_eq strings rfl]
    exact (hArgv strings rfl).2
  have hLayout : argv.toList.foldl ArgLayout.add ⟨0, 0, fun _ _ => false⟩ = argLayout argv none := by
    rw [argLayout, toList_none, append_nil]
  rw [hLayout] at hSecond hHolds₂
  refine ⟨hPlaced, ?_⟩
  rintro strings rfl
  refine ⟨?_, hSecond.last strings rfl⟩
  by_contra hCross
  obtain ⟨_, _, hPos, hBelow, _⟩ := crossing_word (argLayout_none_aligned argv) hCross (hSecond.last strings rfl)
  refine crossing_unreadable hHolds₂ execReady_argProc.nodup hFilled hRead (argLayout_none_aligned argv) hCross
    (hSecond.last strings rfl) (Nat.le_refl _) ?_ (archUnewprocDefaultStack - args.pos) ?_
  · exact (ArgLayout.add_written_above _ strings (Nat.sub_lt hPos Nat.one_pos) (by decide)).trans
      (argLayout_unwritten hPlaced hBelow)
  · rw [← hSecond.address_eq strings rfl]
    exact hEnvp strings rfl

/-- The new image finds its arguments just when each array of pointers lies in one page and the strings end before the
last page is full. -/
theorem args_readable_iff (argv envp : Option (List Bytes)) :
    (∀ m proc image, ExecReady m proc → ArgsReadable m proc image argv envp) ↔ ArgsFit processArgMaxPages argv envp := by
  constructor
  · intro h
    exact argsFit_of_readable (h argMemory argProc ⟨[], true⟩ execReady_argProc)
  · intro hFit m proc image hReady
    exact hFit.readable image hReady

def argStrings : List Bytes := [replicate 1100 65 ++ [0], [0]]

theorem args_readable_argStrings : ArgsReadable argMemory argProc ⟨[], true⟩ (some argStrings) (some [[66, 0]]) := by
  refine (args_readable_iff (some argStrings) (some [[66, 0]])).mpr ?_ argMemory argProc ⟨[], true⟩ execReady_argProc
  constructor
  · rintro _ ⟨⟩
    exact ⟨by decide +kernel, by decide +kernel⟩
  · rintro _ ⟨⟩
    exact ⟨by decide +kernel, by decide +kernel⟩

def manyStrings : List Bytes := (replicate 1100 65 ++ [0]) :: replicate 255 [0]

def fullString : List Bytes := [replicate 4087 65 ++ [0]]

theorem many_args_unreadable : ExecReady argMemory argProc ∧ packedEnd 0 fullString = processArgMaxPages * pmPageBytes ∧
    copyArgs argMemory (some fullString) none = none ∧
    packedEnd 0 manyStrings < processArgMaxPages * pmPageBytes ∧
    ¬ ArgsReadable argMemory argProc ⟨[], true⟩ (some manyStrings) none := by
  have hFull : (copyArgs argMemory (some fullString) none).isNone := by decide +kernel
  refine ⟨execReady_argProc, by decide +kernel, isNone_iff_eq_none.mp hFull, by decide +kernel, ?_⟩
  intro h
  have hArray := ((argsFit_of_readable h).first manyStrings rfl).array
  revert hArray
  decide +kernel

end Fixos.Sys
