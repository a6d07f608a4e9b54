import Fixos.Device.VirtualTerm

/-! # Cursor motions (`device/terminal/virtual_term.c`)

A position is compared with limits of type `size_t`, where a negative one is large.
-/

namespace Fixos.Device

open List Option

variable {term : Vt}

/-- The number of the cell of the cursor, in reading order. -/
def Vt.cell (term : Vt) : Int := term.posy * 32 + term.posx

lemma echo_backspace (hPos : OnScreen term.posx term.posy) (hIdle : term.esc.discovery = .none) :
    ∃ next, vtEchoChar term 8 = some next ∧ next.esc = term.esc ∧ OnScreen next.posx next.posy ∧
      if term.cell = 0 then next.cell = 319
      else next.disp.vram = term.disp.vram ∧ next.cell = term.cell - 1 := by
  obtain ⟨⟨_, _⟩, _, _⟩ := hPos.bounds
  have hWidth : fx9860TermWidth = 32 := rfl
  have hHeight : fx9860TermHeight = 10 := rfl
  have hUnsigned (i : Int) (hi : 0 ≤ i ∧ i < 32) : unsigned i = i.toNat := unsigned_of_nonneg hi.1 (by omega)
  rw [vtEchoChar, if_pos ⟨hIdle, by decide⟩, vtPutChar, if_pos rfl]
  refine ⟨_, rfl, ?_⟩
  unfold Vt.cell
  split_ifs with hFirst hZero hZero
  -- the first column of the first line, and of another one
  · have hTop : term.posy - 1 = -1 := by omega
    have hEnd : ¬ unsigned ((fx9860TermWidth - 1 : Nat) : Int) ≥ fx9860TermWidth := by decide
    have hScroll : unsigned (-1) ≥ fx9860TermHeight := by decide
    simp only [vtWrap, if_neg hEnd, hTop, if_pos hScroll]
    exact ⟨trivial, ⟨by decide, by decide, by decide, by decide⟩, by decide⟩
  · have hEnd : ¬ unsigned ((fx9860TermWidth - 1 : Nat) : Int) ≥ fx9860TermWidth := by decide
    have hStays : ¬ unsigned (term.posy - 1) ≥ fx9860TermHeight := by
      rw [hUnsigned _ (by omega)]
      omega
    simp only [vtWrap, if_neg hEnd, if_neg hStays]
    exact ⟨trivial, ⟨by decide, by decide, by omega, by omega⟩, rfl, by omega⟩
  · omega
  · have hEnd : ¬ unsigned (term.posx - 1) ≥ fx9860TermWidth := by
      rw [hUnsigned _ (by omega)]
      omega
    have hStays : ¬ unsigned term.posy ≥ fx9860TermHeight := by
      rw [hUnsigned _ (by omega)]
      omega
    simp only [vtWrap, if_neg hEnd, if_neg hStays]
    exact ⟨trivial, ⟨by omega, by omega, by omega, by omega⟩, rfl, by omega⟩

lemma print_backspaces (hPos : OnScreen term.posx term.posy) (hIdle : term.esc.discovery = .none) {k : Nat}
    (hk : k ≤ term.cell) : ∃ next, vtTermPrint term (replicate k 8) = some next ∧ next.esc = term.esc ∧
      OnScreen next.posx next.posy ∧ next.disp.vram = term.disp.vram ∧ next.cell = term.cell - k := by
  induction k with
  | zero => exact ⟨term, rfl, rfl, hPos, rfl, by omega⟩
  | succ k ih =>
    obtain ⟨_, hPrint, hEsc, hOn, hVram, _⟩ := ih (by omega)
    obtain ⟨next, hEcho, hSame, hNext, hBack⟩ := echo_backspace hOn (hEsc ▸ hIdle)
    rw [if_neg (by omega)] at hBack
    refine ⟨next, ?_, hSame.trans hEsc, hNext, hBack.1.trans hVram, by omega⟩
    rw [vtTermPrint, replicate_succ', foldlM_append, ← vtTermPrint, hPrint]
    exact (bind_some _ _).trans ((foldlM_cons ..).trans (by rw [hEcho]; rfl))

/-- Each of `n` backspaces only goes to the cell before exactly if there are as many cells before the cursor. -/
theorem backspaces_go_back_iff (term : Vt) (hPos : OnScreen term.posx term.posy)
    (hIdle : term.esc.discovery = .none) (n : Nat) :
    (∀ k ≤ n, ∃ next, vtTermPrint term (replicate k 8) = some next ∧ next.disp.vram = term.disp.vram ∧
      OnScreen next.posx next.posy ∧ next.cell = max 0 (term.cell - k)) ↔ n ≤ term.cell := by
  have hCell : 0 ≤ term.cell := by
    have hBounds := hPos.bounds
    unfold Vt.cell
    omega
  constructor
  · intro hAll
    by_contra hMore
    obtain ⟨_, hPrint, hEsc, hOn, _, _⟩ := print_backspaces hPos hIdle (k := term.cell.toNat) (by omega)
    obtain ⟨next, hEcho, _, _, hJump⟩ := echo_backspace hOn (hEsc ▸ hIdle)
    rw [if_pos (by omega)] at hJump
    obtain ⟨_, hLast, _, _, _⟩ := hAll (term.cell.toNat + 1) (by omega)
    rw [vtTermPrint, replicate_succ', foldlM_append, ← vtTermPrint, hPrint, bind_eq_bind, bind_some, foldlM_cons, hEcho]
      at hLast
    cases hLast
    omega
  · intro _ k _
    obtain ⟨next, hPrint, _, hOn, hVram, _⟩ := print_backspaces hPos hIdle (k := k) (by omega)
    exact ⟨next, hPrint, hVram, hOn, by omega⟩

theorem backspaces_go_back_two : ∃ next, vtTermPrint { vtInit with posx := 1, posy := 1 } (replicate 2 8) = some next ∧
    next.cell = 31 := by
  have hPos : OnScreen 1 1 := ⟨by decide, by decide, by decide, by decide⟩
  obtain ⟨next, hPrint, _, _, hCell⟩ :=
    (backspaces_go_back_iff { vtInit with posx := 1, posy := 1 } hPos rfl 2).mpr (by decide) 2 le_rfl
  exact ⟨next, hPrint, hCell⟩

/-- A character is on the second line: a backspace in the top left corner scrolls it up and goes to the last cell. -/
theorem backspace_scrolls : ∃ term next, vtTermPrint vtInit [10, 65, 27, 91, 72] = some term ∧ term.cell = 0 ∧
    vtEchoChar term 8 = some next ∧ next.cell = 319 ∧ next.disp.vram 0 ≠ term.disp.vram 0 :=
  ⟨_, _, rfl, by decide, rfl, by decide, by decide +kernel⟩

end Fixos.Device
