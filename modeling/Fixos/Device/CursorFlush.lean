import Fixos.Device.VirtualTerm

/-! # Flushes and the cursor (`fx9860_tdisp_flush`, `vt_toggle_cursor`)

The pixels under the cursor are read from the wrong end of their byte.
-/

namespace Fixos.Device

open Pixels Transition Option

def Tdisp.CursorBlank (disp : Tdisp) : Prop :=
  disp.ShowsCursor → ∀ i < 4, ∀ j < 6, pixel 16 disp.vram (disp.cursx * 4 + i) (disp.cursy * 6 + j) = false

instance (disp : Tdisp) : Decidable disp.CursorBlank :=
  inferInstanceAs (Decidable (_ → _))

section

variable {disp : Tdisp}

lemma getMsbD_storedLine (vram : Vram) (x y : Nat) {i : Nat} (hi : i < 4) : (storedLine vram x y).getMsbD i = false := by
  have hLow : ∀ (b₀ b₁ b₂ b₃ : Bool), ∀ i < 4, ((((0x00#8 ||| ((if b₀ then 1#8 else 0#8) <<< 0)) |||
      ((if b₁ then 1#8 else 0#8) <<< 1)) ||| ((if b₂ then 1#8 else 0#8) <<< 2)) |||
        ((if b₃ then 1#8 else 0#8) <<< 3)).getMsbD i = false := by
    decide
  exact hLow _ _ _ _ i hi

lemma pixel_flush (hShows : disp.ShowsCursor) {X Y : Nat} (hX : X < 128) : pixel 16 (fx9860TdispFlush disp).1.vram X Y =
      if X / 4 = disp.cursx ∧ Y / 6 = disp.cursy then false else pixel 16 disp.vram X Y := by
  have hCell := hShows.2
  rw [fx9860TdispFlush, if_pos hShows]
  simp only [termPrimRestoreCharacter]
  rw [pixel_drawCell hCell.1 hCell.2 _ _ hX, pixel_writeCharacter hCell.1 hCell.2 (Or.inr rfl) _ hX,
    termPrimStoreCharacter, getMsbD_storedLine _ _ _ (Nat.mod_lt X (by decide))]
  split <;> rfl

lemma tdispFlush_vram_iff (disp : Tdisp) : (fx9860TdispFlush disp).1.vram = disp.vram ↔ disp.CursorBlank := by
  constructor
  · intro hSame hShows i _ j _
    have hWidth : disp.cursx < 32 := hShows.2.1
    have hPixel := pixel_flush hShows (X := disp.cursx * 4 + i) (Y := disp.cursy * 6 + j) (by omega)
    rwa [hSame, if_pos (by omega)] at hPixel
  · intro hBlank
    by_cases hShows : disp.ShowsCursor
    · refine raster_ext (by decide : 0 < 16) fun X hX Y => ?_
      rw [pixel_flush hShows hX]
      split_ifs with hCell
      · have hEmpty := hBlank hShows (X % 4) (Nat.mod_lt X (by decide)) (Y % 6) (Nat.mod_lt Y (by decide))
        rw [← hCell.1, ← hCell.2, Nat.div_add_mod', Nat.div_add_mod'] at hEmpty
        exact hEmpty.symm
      · rfl
    · rw [fx9860TdispFlush, if_neg hShows]

lemma tdispFlush_of_vram_eq (h : (fx9860TdispFlush disp).1.vram = disp.vram) : (fx9860TdispFlush disp).1 = disp := by
  unfold fx9860TdispFlush at h ⊢
  split_ifs at h with hShows
  · dsimp only at h
    rw [if_pos hShows]
    dsimp only
    rw [h]
  · rw [if_neg hShows]

end

def vtFlushDisplay (term : Vt) : Vt := { term with disp := (fx9860TdispFlush term.disp).1 }

def Vt.setCursor (term : Vt) (cursor : TextCursor) : Vt := { term with disp := { term.disp with cursor } }

def vtToggleCursor (term : Vt) : Vt :=
  term.setCursor (if term.disp.cursor = .normal then .disable else .normal)

inductive VtEvent where
  | print (source : Bytes)
  | flush
  | blink
deriving DecidableEq

def Vt.step (term : Vt) : VtEvent → Option Vt
  | .print source => vtTermPrint term source
  | .flush => some (vtFlushDisplay term)
  | .blink => some (vtToggleCursor term)

def VtEvent.output : VtEvent → Bytes
  | .print source => source
  | .flush | .blink => []

/-- A flush finds the cell of the cursor empty, or no cursor to draw. -/
def VtEvent.Harmless (term : Vt) : VtEvent → Prop
  | .flush => term.disp.CursorBlank
  | .print _ | .blink => True

instance (term : Vt) (a : VtEvent) : Decidable (a.Harmless term) := by
  unfold VtEvent.Harmless
  split <;> infer_instance

/-! Nothing but a flush depends on the mode of the cursor. -/

section

variable (term : Vt) (cursor : TextCursor) (c : UInt8)

@[simp] lemma Vt.setCursor_esc : (term.setCursor cursor).esc = term.esc := rfl

lemma vtParseEscapeCode_setCursor :
    vtParseEscapeCode (term.setCursor cursor) c = (vtParseEscapeCode term c).setCursor cursor := by
  unfold vtParseEscapeCode
  -- each code does the same to the terminal with the other cursor
  simp only [apply_ite (fun term : Vt => term.setCursor cursor)]
  rfl

lemma vtParseSimpleEscapeCode_setCursor : vtParseSimpleEscapeCode (term.setCursor cursor) c =
    ((vtParseSimpleEscapeCode term c).1.setCursor cursor, (vtParseSimpleEscapeCode term c).2) := by
  unfold vtParseSimpleEscapeCode
  split_ifs <;> rfl

lemma vtParse_setCursor : vtParse (term.setCursor cursor) c =
    (vtParse term c).map fun parsed => (parsed.1.setCursor cursor, parsed.2) := by
  unfold vtParse
  simp only [Vt.setCursor_esc, vtParseEscapeCode_setCursor, vtParseSimpleEscapeCode_setCursor]
  split
  · rfl
  · rfl
  · split
    · rw [map_map]
      rfl
    · rfl
  · rfl

lemma vtReadEscapeCode_setCursor :
    vtReadEscapeCode (term.setCursor cursor) c = (vtReadEscapeCode term c).map fun next => next.setCursor cursor := by
  unfold vtReadEscapeCode
  rw [vtParse_setCursor, map_map, map_map]
  congr 1
  funext parsed
  simp only [Function.comp_apply]
  split <;> rfl

lemma vtWrap_setCursor : vtWrap (term.setCursor cursor) = (vtWrap term).setCursor cursor := by
  obtain ⟨_, _, _, _, _, _⟩ := term
  unfold vtWrap Vt.setCursor
  dsimp only
  split_ifs <;> rfl

lemma vtPutChar_setCursor : vtPutChar (term.setCursor cursor) c = (vtPutChar term c).setCursor cursor := by
  obtain ⟨_, _, _, _, _, _⟩ := term
  unfold vtPutChar Vt.setCursor
  split_ifs <;> rfl

lemma vtEchoChar_setCursor :
    vtEchoChar (term.setCursor cursor) c = (vtEchoChar term c).map fun next => next.setCursor cursor := by
  unfold vtEchoChar
  rw [Vt.setCursor_esc, vtPutChar_setCursor, vtWrap_setCursor, vtReadEscapeCode_setCursor]
  split <;> rfl

lemma vtTermPrint_setCursor (source : Bytes) :
    vtTermPrint (term.setCursor cursor) source = (vtTermPrint term source).map fun next => next.setCursor cursor :=
  foldlM_hom (fun term c => vtEchoChar_setCursor term cursor c) source term

end

/-- A flush gives back the pixels exactly if there were none under the cursor; then the terminal shows the output alone.
-/
theorem tdispFlush_keeps_vram (disp : Tdisp) (term term' : Vt) (events : List VtEvent) :
    ((fx9860TdispFlush disp).1.vram = disp.vram ↔ disp.CursorBlank) ∧
    (Run Vt.step (fun term a => a.Harmless term) term events term' →
      ∃ plain, vtTermPrint term (events.flatMap VtEvent.output) = some plain ∧
        plain.disp.vram = term'.disp.vram ∧ plain.posx = term'.posx ∧ plain.posy = term'.posy) := by
  refine ⟨tdispFlush_vram_iff disp, fun hRun => ?_⟩
  -- up to the mode of the cursor the two terminals are the same
  suffices hSame : ∃ plain cursor, vtTermPrint term (events.flatMap VtEvent.output) = some plain ∧
      plain.setCursor cursor = term' by
    obtain ⟨plain, cursor, hPrint, rfl⟩ := hSame
    exact ⟨plain, hPrint, rfl, rfl, rfl⟩
  induction hRun with
  | nil term => exact ⟨term, term.disp.cursor, rfl, rfl⟩
  | @cons term next last a events hHarmless hStep _ ih =>
    obtain ⟨plain, cursor, hPrint, hLast⟩ := ih
    cases a with
    | print source =>
      refine ⟨plain, cursor, ?_, hLast⟩
      rw [List.flatMap_cons, vtTermPrint, VtEvent.output, List.foldlM_append]
      exact bind_eq_some_iff.mpr ⟨next, hStep, hPrint⟩
    | flush =>
      have hNext : next = term := by
        cases hStep
        rw [vtFlushDisplay, tdispFlush_of_vram_eq ((tdispFlush_vram_iff term.disp).mpr hHarmless)]
      exact ⟨plain, cursor, hNext ▸ hPrint, hLast⟩
    | blink =>
      cases hStep
      rw [vtToggleCursor, vtTermPrint_setCursor] at hPrint
      obtain ⟨plain', hPlain, rfl⟩ := map_eq_some_iff.mp hPrint
      exact ⟨plain', cursor, hPlain, hLast⟩

theorem tdispFlush_keeps_text : ∃ term',
    Run Vt.step (fun term a => a.Harmless term) vtInit [.print [65], .flush, .blink, .flush, .blink, .print [66]] term' ∧
    ∃ plain, vtTermPrint vtInit [65, 66] = some plain ∧ plain.disp.vram = term'.disp.vram := by
  have hEval : (exec (guarded Vt.step fun term a => a.Harmless term) vtInit
      [.print [65], .flush, .blink, .flush, .blink, .print [66]]).isSome = true := by
    decide +kernel
  obtain ⟨term', hExec⟩ := isSome_iff_exists.mp hEval
  have hRun := run_of_exec_guarded hExec
  obtain ⟨plain, hPrint, hVram, _⟩ := (tdispFlush_keeps_vram vtInit.disp vtInit term' _).2 hRun
  exact ⟨term', hRun, plain, hPrint, hVram⟩

/-- The cursor stands on an `A`: after the flush its pixels are gone. -/
theorem flush_erases_character : ∃ term, vtTermPrint vtInit [65, 8] = some term ∧
    (fx9860TdispFlush term.disp).1.vram ≠ term.disp.vram := by
  have hEval : (vtTermPrint vtInit [65, 8]).map (fun term =>
      (pixel 16 term.disp.vram 1 0, pixel 16 (fx9860TdispFlush term.disp).1.vram 1 0)) = some (true, false) := by
    decide +kernel
  obtain ⟨term, hPrint, hPixels⟩ := map_eq_some_iff.mp hEval
  obtain ⟨hBefore, hAfter⟩ := Prod.mk.inj hPixels
  refine ⟨term, hPrint, fun hSame => ?_⟩
  rw [hSame, hBefore] at hAfter
  cases hAfter

end Fixos.Device
