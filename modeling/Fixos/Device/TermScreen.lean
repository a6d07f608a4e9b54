import Fixos.Device.VirtualTerm

/-! # What a terminal shows

The reference is a grid of characters with a position, where everything moves up below the last line.
-/

namespace Fixos.Device

open Pixels Transition List

universe u

structure Screen (α : Type u) where
  cell : Nat → Nat → α
  row : Nat
  col : Nat

section

variable {α : Type u} (width height : Nat) (space : α)

def Screen.blank : Screen α := ⟨fun _ _ => space, 0, 0⟩

def Screen.carriageReturn (screen : Screen α) : Screen α := { screen with col := 0 }

def Screen.newline (screen : Screen α) : Screen α :=
  if screen.row + 1 < height then { screen with row := screen.row + 1, col := 0 }
  else { screen with cell := fun r c => if r + 1 < height then screen.cell (r + 1) c else space, col := 0 }

def Screen.put (screen : Screen α) (a : α) : Screen α :=
  let screen := { screen with cell := fun r c => if r = screen.row ∧ c = screen.col then a else screen.cell r c }
  if screen.col + 1 < width then { screen with col := screen.col + 1 } else screen.newline height space

end

def Screen.echo (screen : Screen UInt8) (c : UInt8) : Screen UInt8 :=
  if c = 10 then screen.newline fx9860TermHeight 32
  else if c = 13 then screen.carriageReturn
  else screen.put fx9860TermWidth fx9860TermHeight 32 c

def IsText (c : UInt8) : Prop := (0x20 ≤ c ∧ c ≤ 0x7E) ∨ c = 10 ∨ c = 13
deriving Decidable

/-- The cell in column `X / 4` of line `Y / 6` has the pixels of its character, in the colours given. -/
def Shows (frontC backC : Int) (vram : Vram) (cell : Nat → Nat → UInt8) : Prop :=
  ∀ X < 128, ∀ Y < 60, pixel 16 vram X Y = glyph frontC backC (cell (Y / 6) (X / 4)) (X % 4) (Y % 6)

def SameBelow (vram vram' : Vram) : Prop := ∀ X < 128, ∀ Y, 60 ≤ Y → pixel 16 vram' X Y = pixel 16 vram X Y

/-- A terminal outside of escape sequences, in the colours of `start`, whose pixels are those of the cells. -/
structure Displays (start term : Vt) (cell : Nat → Nat → UInt8) : Prop where
  idle : term.esc.discovery = .none
  front_eq : term.disp.front = start.disp.front
  back_eq : term.disp.back = start.disp.back
  shows : Shows start.disp.front start.disp.back term.disp.vram cell
  below : SameBelow start.disp.vram term.disp.vram

structure Follows (start term : Vt) (screen : Screen UInt8) : Prop extends Displays start term screen.cell where
  posx_eq : term.posx = screen.col
  posy_eq : term.posy = screen.row
  col_lt : screen.col < fx9860TermWidth
  row_lt : screen.row < fx9860TermHeight

section

variable {start term : Vt} {cell : Nat → Nat → UInt8}

lemma glyph_space (frontC backC : Int) (i j : Nat) : glyph frontC backC 32 i j = decide (backC = 1) := by
  have hSpace : rawChar 32 = replicate 5 0 := rfl
  have hZero : ((rawChar 32).getD j 0).getMsbD i = false := by
    rw [hSpace, getD_eq_getElem?_getD, getElem?_replicate]
    split <;> exact BitVec.getMsbD_zero
  rw [glyph, hZero]
  simp

lemma unsigned_natCast {n : Nat} (h : n < 2 ^ 31) : unsigned n = n := by
  rw [unsigned_of_nonneg (Int.natCast_nonneg n) (by omega), Int.toNat_natCast]

lemma vtWrap_inside (hx : unsigned term.posx < fx9860TermWidth) (hy : unsigned term.posy < fx9860TermHeight) : vtWrap term =
      { term with disp := fx9860TdispSetCursorPos term.disp (unsigned term.posx) (unsigned term.posy) } := by
  unfold vtWrap
  rw [if_neg (Nat.not_le.mpr hx)]
  dsimp only
  rw [if_neg (Nat.not_le.mpr hy)]

lemma vtWrap_bottom (hx : unsigned term.posx < fx9860TermWidth) (hy : fx9860TermHeight ≤ unsigned term.posy) :
    vtWrap term = { term with
      disp := fx9860TdispSetCursorPos (fx9860TdispScroll term.disp) (unsigned term.posx) 9, posy := 9 } := by
  unfold vtWrap
  rw [if_neg (Nat.not_le.mpr hx)]
  dsimp only
  rw [if_pos hy]
  rfl

lemma vtWrap_line (hx : fx9860TermWidth ≤ unsigned term.posx) :
    vtWrap term = vtWrap { term with posx := 0, posy := term.posy + 1 } := by
  have hZero : ¬ unsigned 0 ≥ fx9860TermWidth := by decide
  unfold vtWrap
  rw [if_pos hx]
  rw [if_neg hZero]

lemma Displays.scroll (h : Displays start term cell) : Shows start.disp.front start.disp.back
      (fx9860TdispScroll term.disp).vram (fun r c => if r + 1 < fx9860TermHeight then cell (r + 1) c else 32) ∧
    SameBelow start.disp.vram (fx9860TdispScroll term.disp).vram := by
  have hHeight : fx9860TermHeight = 10 := rfl
  constructor
  · intro X hX Y hY
    simp only [fx9860TdispScroll, pixel_scrollUp _ _ hX, hHeight, h.back_eq]
    rcases Nat.lt_or_ge Y 54 with hTop | hLast
    · rw [if_pos hTop, if_pos (by omega), h.shows X hX (Y + 6) (by omega), Nat.add_div_right Y (by decide),
        Nat.add_mod_right]
    · rw [if_neg (Nat.not_lt.mpr hLast), if_pos hY, if_neg (by omega), glyph_space]
  · intro X hX Y hY
    simp only [fx9860TdispScroll, pixel_scrollUp _ _ hX]
    rw [if_neg (by omega), if_neg (by omega), h.below X hX Y hY]

variable {screen : Screen UInt8}

lemma Displays.newline (h : Displays start term screen.cell) (hx : term.posx = 0)
    (hy : term.posy = screen.row + 1) (hRow : screen.row < fx9860TermHeight) :
    Follows start (vtWrap term) (screen.newline fx9860TermHeight 32) := by
  have hHeight : fx9860TermHeight = 10 := rfl
  have hFirst : 0 < fx9860TermWidth := by decide
  have hUx : unsigned term.posx < fx9860TermWidth := by
    rw [hx]
    decide
  have hUy : unsigned term.posy = screen.row + 1 := by
    rw [hy, unsigned_of_nonneg (by omega) (by omega)]
    omega
  unfold Screen.newline
  split_ifs with hMore
  · rw [vtWrap_inside hUx (by omega)]
    exact ⟨⟨h.idle, h.front_eq, h.back_eq, h.shows, h.below⟩, hx, hy, hFirst, hMore⟩
  · obtain ⟨hShows, hBelow⟩ := h.scroll
    rw [vtWrap_bottom hUx (by omega)]
    exact ⟨⟨h.idle, h.front_eq, h.back_eq, hShows, hBelow⟩, hx, by simp only; omega, hFirst, hRow⟩

variable {c : UInt8}

lemma Displays.print (h : Displays start term screen.cell) (hCol : screen.col < fx9860TermWidth)
    (hRow : screen.row < fx9860TermHeight) (hc : c < 128) :
    Shows start.disp.front start.disp.back (fx9860TdispPrintChar term.disp screen.col screen.row c).vram
      (fun r k => if r = screen.row ∧ k = screen.col then c else screen.cell r k) ∧
    SameBelow start.disp.vram (fx9860TdispPrintChar term.disp screen.col screen.row c).vram := by
  have hHeight : fx9860TermHeight = 10 := rfl
  constructor
  · intro X hX Y hY
    simp only [fx9860TdispPrintChar, pixel_writeCharacter hCol hRow (Or.inl hc) _ hX, h.front_eq, h.back_eq,
      and_comm (a := X / 4 = screen.col)]
    split
    · rfl
    · exact h.shows X hX Y hY
  · intro X hX Y hY
    simp only [fx9860TdispPrintChar, pixel_writeCharacter hCol hRow (Or.inl hc) _ hX]
    rw [if_neg (by omega), h.below X hX Y hY]

lemma IsText.plain (h : IsText c) : c ≠ 0x1B ∧ c ≠ 8 ∧ c < 128 := by
  rcases h with ⟨hLow, hHigh⟩ | rfl | rfl
  · refine ⟨?_, ?_, UInt8.lt_of_le_of_lt hHigh (by decide)⟩
    all_goals
      rintro rfl
      revert hLow
      decide
  · decide
  · decide

lemma Follows.echo (h : Follows start term screen) (hc : IsText c) :
    ∃ term', vtEchoChar term c = some term' ∧ Follows start term' (screen.echo c) := by
  have hWidth : fx9860TermWidth = 32 := rfl
  have hHeight : fx9860TermHeight = 10 := rfl
  have hCol := h.col_lt
  have hRow := h.row_lt
  have hUx : unsigned term.posx = screen.col := by rw [h.posx_eq, unsigned_natCast (by omega)]
  have hUy : unsigned term.posy = screen.row := by rw [h.posy_eq, unsigned_natCast (by omega)]
  obtain ⟨hEsc, hBack, hAscii⟩ := hc.plain
  rw [vtEchoChar, if_pos ⟨h.idle, hEsc⟩, vtPutChar, if_neg hBack]
  refine ⟨_, rfl, ?_⟩
  unfold Screen.echo
  split_ifs
  · refine Displays.newline ⟨h.idle, h.front_eq, h.back_eq, h.shows, h.below⟩ rfl ?_ hRow
    simp [h.posy_eq]
  · rw [vtWrap_inside (by simp only; decide) (by simp only [hUy]; exact hRow)]
    exact ⟨⟨h.idle, h.front_eq, h.back_eq, h.shows, h.below⟩, rfl,
      h.posy_eq, by simp only [Screen.carriageReturn]; omega, hRow⟩
  · obtain ⟨hShows, hBelow⟩ := h.print hCol hRow hAscii
    rw [hUx, hUy]
    unfold Screen.put
    dsimp only
    have hNext : unsigned (term.posx + 1) = screen.col + 1 := by
      rw [h.posx_eq, unsigned_of_nonneg (by omega) (by omega)]
      omega
    split_ifs with hMore
    · rw [vtWrap_inside (by simp only [hNext]; exact hMore) (by simp only [hUy]; exact hRow)]
      exact ⟨⟨h.idle, h.front_eq, h.back_eq, hShows, hBelow⟩, by simp only [h.posx_eq]; omega, h.posy_eq, hMore, hRow⟩
    · rw [vtWrap_line (by simp only [hNext]; omega)]
      refine Displays.newline ⟨h.idle, h.front_eq, h.back_eq, hShows, hBelow⟩ rfl ?_ hRow
      simp [h.posy_eq]

lemma Follows.print_text (h : Follows start term screen) {source : Bytes} (hText : ∀ c ∈ source, IsText c) :
    ∃ term', vtTermPrint term source = some term' ∧ Follows start term' (source.foldl Screen.echo screen) := by
  induction source generalizing term screen with
  | nil => exact ⟨term, rfl, h⟩
  | cons c rest ih =>
    obtain ⟨_, hEcho, hNext⟩ := h.echo (hText c mem_cons_self)
    obtain ⟨last, hRest, hLast⟩ := ih hNext fun d hd => hText d (mem_cons_of_mem c hd)
    refine ⟨last, ?_, hLast⟩
    rw [vtTermPrint, foldlM_cons, hEcho]
    exact hRest

end

def Screen.text (source : Bytes) : Screen UInt8 := source.foldl Screen.echo (Screen.blank 32)

/-- From a cleared screen, text of any length and the cursor are where the reference has them, and the pixels below
stay. -/
theorem vt_print_shows_text (term : Vt) (hIdle : term.esc.discovery = .none) (hx : term.posx = 0) (hy : term.posy = 0)
    (hCleared : ∀ X < 128, ∀ Y < 60, pixel 16 term.disp.vram X Y = decide (term.disp.back = 1)) (source : Bytes)
    (hText : ∀ c ∈ source, IsText c) :
    ∃ term', vtTermPrint term source = some term' ∧
      Shows term.disp.front term.disp.back term'.disp.vram (Screen.text source).cell ∧
      SameBelow term.disp.vram term'.disp.vram ∧ term'.posx = (Screen.text source).col ∧
      term'.posy = (Screen.text source).row := by
  have hBlank : Follows term term (Screen.blank 32) := by
    refine ⟨⟨hIdle, rfl, rfl, fun X hX Y hY => ?_, fun _ _ _ _ => rfl⟩, hx, hy, by decide, by decide⟩
    rw [hCleared X hX Y hY]
    exact (glyph_space _ _ _ _).symm
  obtain ⟨last, hPrint, hLast⟩ := hBlank.print_text hText
  exact ⟨last, hPrint, hLast.shows, hLast.below, hLast.posx_eq, hLast.posy_eq⟩

def elevenLines : Bytes := (range 10).flatMap (fun i => [65 + .ofNat i, 10]) ++ [122, 13]

theorem vt_print_shows_elevenLines : ∃ term', vtTermPrint vtInit elevenLines = some term' ∧
    Shows 1 0 term'.disp.vram (Screen.text elevenLines).cell ∧ (Screen.text elevenLines).cell 0 0 = 66 ∧
    (Screen.text elevenLines).cell 9 0 = 122 ∧ term'.posx = 0 ∧ term'.posy = 9 := by
  obtain ⟨term', hPrint, hShows, _, hx, hy⟩ := vt_print_shows_text vtInit rfl rfl rfl
    (fun X _ Y _ => by simp [vtInit, fx9860TdispInitDisp, pixel]) elevenLines (by decide +kernel)
  exact ⟨term', hPrint, hShows, by decide +kernel, by decide +kernel, hx, hy⟩

end Fixos.Device
