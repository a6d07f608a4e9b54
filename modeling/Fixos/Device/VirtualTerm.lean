import Fixos.Lib.Run
import Fixos.Device.TextDisplay

/-! # The virtual terminal (`device/terminal/virtual_term.c`)

An access outside of the array of the arguments of an escape sequence gives `none`. The delay before a flush of the
display is left out: a flush may come at any time.
-/

namespace Fixos.Device

open Transition List

inductive EscDiscovery where
  | none
  | simpleEscape
  | csiEscape
  | csiQmEscape
deriving DecidableEq

def vt100MaxIntargs : Nat := 4

structure EscState where
  discovery : EscDiscovery
  arguments : List Nat
  index : Int
deriving DecidableEq

structure Vt where
  disp : Tdisp
  posx : Int
  posy : Int
  savedPosx : Int
  savedPosy : Int
  esc : EscState

def EscState.clear : EscState := ⟨.none, replicate vt100MaxIntargs 0, -1⟩

def vtClearEscapeCode (term : Vt) : Vt := { term with esc := .clear }

def vtInit : Vt where
  disp := fx9860TdispInitDisp
  posx := 0
  posy := 0
  savedPosx := 0
  savedPosy := 0
  esc := .clear

/-- The value of an `int` where it is compared with a `size_t`. -/
def unsigned (i : Int) : Nat := (i % 2 ^ 32).toNat

/-- A negative position is a large one in the first comparison, so the second finds none. -/
def boundedPos (new : Int) (limit : Nat) : Int :=
  if unsigned new > limit - 1 then ↑(limit - 1) else if new < 0 then 0 else new

def vtMoveCursor (term : Vt) (newx newy : Int) : Vt :=
  let posx := boundedPos newx fx9860TermWidth
  let posy := boundedPos newy fx9860TermHeight
  { term with posx, posy, disp := fx9860TdispSetCursorPos term.disp (unsigned posx) (unsigned posy) }

def vtSavePos (term : Vt) : Vt := { term with savedPosx := term.posx, savedPosy := term.posy }

def vtParseSimpleEscapeCode (term : Vt) (c : UInt8) : Vt × EscDiscovery :=
  if c = '7'.toUInt8 then (vtSavePos term, .none)
  else if c = '8'.toUInt8 then (vtMoveCursor term term.savedPosx term.savedPosy, .none)
  else if c = '['.toUInt8 then (term, .csiEscape)
  else (term, .none)

def EscState.distance (esc : EscState) : Int := if 0 ≤ esc.index then ↑(esc.arguments.getD 0 0) else 1

/-- Every sequence ends here, also one that is not known. -/
def vtParseEscapeCode (term : Vt) (c : UInt8) : Vt :=
  if c = 'H'.toUInt8 ∨ c = 'f'.toUInt8 then
    if 0 ≤ term.esc.index then
      vtMoveCursor term (term.esc.arguments.getD 0 0 - 1) (term.esc.arguments.getD 1 0 - 1)
    else vtMoveCursor term 0 0
  else if c = 'A'.toUInt8 then vtMoveCursor term term.posx (term.posy - term.esc.distance)
  else if c = 'B'.toUInt8 then vtMoveCursor term term.posx (term.posy + term.esc.distance)
  else if c = 'C'.toUInt8 then vtMoveCursor term (term.posx - term.esc.distance) term.posy
  else if c = 'D'.toUInt8 then vtMoveCursor term (term.posx + term.esc.distance) term.posy
  else if c = 's'.toUInt8 then vtSavePos term
  else if c = 'u'.toUInt8 then vtMoveCursor term term.savedPosx term.savedPosy
  else if c = 'J'.toUInt8 ∧ 0 ≤ term.esc.index ∧ term.esc.arguments.getD 0 0 = 2 then
    vtMoveCursor { term with disp := fx9860TdispClear term.disp } 0 0
  else term

def EscState.digit (esc : EscState) (d : Nat) : Option EscState :=
  if 0 ≤ esc.index ∧ esc.index < vt100MaxIntargs then
    let i := esc.index.toNat
    some { esc with arguments := esc.arguments.set i ((esc.arguments.getD i 0 * 10 % 2 ^ 16 + d) % 2 ^ 16) }
  else none

def EscState.argument (esc : EscState) (c : UInt8) : Option (EscState × EscDiscovery) :=
  let esc := if esc.index < 0 then { esc with index := 0 } else esc
  if c = ';'.toUInt8 then
    let esc := { esc with index := esc.index + 1 }
    some (esc, if esc.index = vt100MaxIntargs then .none else .csiEscape)
  else (esc.digit (c.toNat - '0'.toNat)).map fun esc => (esc, .csiEscape)

def IsArgumentChar (c : UInt8) : Prop := ('0'.toUInt8 ≤ c ∧ c ≤ '9'.toUInt8) ∨ c = ';'.toUInt8
deriving Decidable

def vtParse (term : Vt) (c : UInt8) : Option (Vt × EscDiscovery) :=
  match term.esc.discovery with
  | .none => some (term, if c = 0x1B then .simpleEscape else .none)
  | .simpleEscape => some (vtParseSimpleEscapeCode term c)
  | .csiEscape =>
    if IsArgumentChar c then (term.esc.argument c).map fun (esc, newstate) => ({ term with esc }, newstate)
    else some (vtParseEscapeCode term c, .none)
  | .csiQmEscape => some (term, .none)

def vtReadEscapeCode (term : Vt) (c : UInt8) : Option Vt :=
  (vtParse term c).map fun (term, newstate) =>
    let term := if newstate = .none then vtClearEscapeCode term else term
    { term with esc := { term.esc with discovery := newstate } }

/-- The character is drawn, unless it only moves the cursor. -/
def vtPutChar (term : Vt) (c : UInt8) : Vt :=
  if c = 8 then
    -- backspace, should only go back (non destructive)
    if term.posx - 1 < 0 then { term with posx := ↑(fx9860TermWidth - 1), posy := term.posy - 1 }
    else { term with posx := term.posx - 1 }
  else if c = 10 then { term with posx := 0, posy := term.posy + 1 }
  else if c = 13 then { term with posx := 0 }
  else
    { term with
      disp := fx9860TdispPrintChar term.disp (unsigned term.posx) (unsigned term.posy) c
      posx := term.posx + 1 }

def vtWrap (term : Vt) : Vt :=
  let term := if unsigned term.posx ≥ fx9860TermWidth then { term with posx := 0, posy := term.posy + 1 } else term
  let term := if unsigned term.posy ≥ fx9860TermHeight then
      { term with disp := fx9860TdispScroll term.disp, posy := ↑(fx9860TermHeight - 1) } else term
  { term with disp := fx9860TdispSetCursorPos term.disp (unsigned term.posx) (unsigned term.posy) }

def vtEchoChar (term : Vt) (c : UInt8) : Option Vt :=
  if term.esc.discovery = .none ∧ c ≠ 0x1B then some (vtWrap (vtPutChar term c)) else vtReadEscapeCode term c

def vtTermPrint (term : Vt) (source : Bytes) : Option Vt := source.foldlM vtEchoChar term

structure OnScreen (x y : Int) : Prop where
  x_nonneg : 0 ≤ x
  x_lt : x < fx9860TermWidth
  y_nonneg : 0 ≤ y
  y_lt : y < fx9860TermHeight

structure EscState.Sound (esc : EscState) : Prop where
  length_eq : esc.arguments.length = vt100MaxIntargs
  small : ∀ i, esc.arguments.getD i 0 < 2 ^ 16
  index_ge : -1 ≤ esc.index
  index_le : esc.index ≤ 3
  unused : ∀ i : Nat, esc.index < i → esc.arguments.getD i 0 = 0
  idle : esc.discovery ≠ .csiEscape → esc.index = -1

structure Vt.Sound (term : Vt) : Prop where
  pos : OnScreen term.posx term.posy
  saved : OnScreen term.savedPosx term.savedPosy
  esc : term.esc.Sound

section

variable {term : Vt} {c : UInt8}

lemma unsigned_of_nonneg {i : Int} (h : 0 ≤ i) (hLt : i < 2 ^ 31) : unsigned i = i.toNat := by
  unfold unsigned
  omega

lemma le_unsigned_of_neg {i : Int} (h : i < 0) (hGe : -2 ^ 31 ≤ i) : 2 ^ 31 ≤ unsigned i := by
  unfold unsigned
  omega

lemma boundedPos_range {new : Int} {limit : Nat} (hLow : -2 ^ 31 ≤ new) (hHigh : new < 2 ^ 31) (hPos : 0 < limit)
    (hLimit : limit < 2 ^ 31) : 0 ≤ boundedPos new limit ∧ boundedPos new limit < limit := by
  unfold boundedPos
  rcases Int.lt_or_le new 0 with hNeg | hNonneg
  · have hLarge := le_unsigned_of_neg hNeg hLow
    rw [if_pos (by omega)]
    omega
  · rw [unsigned_of_nonneg hNonneg hHigh, if_neg (Int.not_lt.mpr hNonneg)]
    split <;> omega

lemma Vt.Sound.moveCursor (h : term.Sound) {newx newy : Int} (hx : -2 ^ 31 ≤ newx ∧ newx < 2 ^ 31)
    (hy : -2 ^ 31 ≤ newy ∧ newy < 2 ^ 31) : (vtMoveCursor term newx newy).Sound := by
  obtain ⟨hxLow, hxHigh⟩ := boundedPos_range hx.1 hx.2 (by decide : 0 < fx9860TermWidth) (by decide)
  obtain ⟨hyLow, hyHigh⟩ := boundedPos_range hy.1 hy.2 (by decide : 0 < fx9860TermHeight) (by decide)
  exact ⟨⟨hxLow, hxHigh, hyLow, hyHigh⟩, h.saved, h.esc⟩

lemma OnScreen.bounds {x y : Int} (h : OnScreen x y) : (0 ≤ x ∧ x < 32) ∧ 0 ≤ y ∧ y < 10 :=
  ⟨⟨h.x_nonneg, h.x_lt⟩, h.y_nonneg, h.y_lt⟩

lemma EscState.Sound.distance_range {esc : EscState} (h : esc.Sound) : 0 ≤ esc.distance ∧ esc.distance < 2 ^ 16 := by
  have hSmall := h.small 0
  unfold EscState.distance
  split <;> omega

lemma Vt.Sound.parseSimple (h : term.Sound) (c : UInt8) : (vtParseSimpleEscapeCode term c).1.Sound := by
  have hSaved := h.saved.bounds
  unfold vtParseSimpleEscapeCode
  split_ifs
  · exact ⟨h.pos, h.pos, h.esc⟩
  · exact h.moveCursor (by omega) (by omega)
  · exact h
  · exact h

lemma Vt.Sound.parse (h : term.Sound) (c : UInt8) : (vtParseEscapeCode term c).Sound := by
  have hPos := h.pos.bounds
  have hSaved := h.saved.bounds
  have hDistance := h.esc.distance_range
  have hx := h.esc.small 0
  have hy := h.esc.small 1
  unfold vtParseEscapeCode
  repeat' split
  · exact h.moveCursor (by omega) (by omega)
  · exact h.moveCursor (by omega) (by omega)
  · exact h.moveCursor (by omega) (by omega)
  · exact h.moveCursor (by omega) (by omega)
  · exact h.moveCursor (by omega) (by omega)
  · exact h.moveCursor (by omega) (by omega)
  · exact ⟨h.pos, h.pos, h.esc⟩
  · exact h.moveCursor (by omega) (by omega)
  · have hCleared : Vt.Sound { term with disp := fx9860TdispClear term.disp } := ⟨h.pos, h.saved, h.esc⟩
    exact hCleared.moveCursor (by decide) (by decide)
  · exact h

namespace EscState

lemma clear_arguments (i : Nat) : clear.arguments.getD i 0 = 0 := by
  rw [clear, getD_eq_getElem?_getD, getElem?_replicate]
  split <;> rfl

lemma clear_sound : clear.Sound where
  length_eq := rfl
  small i := by
    rw [clear_arguments]
    decide
  index_ge := by decide
  index_le := by decide
  unused i _ := clear_arguments i
  idle _ := rfl

section

variable {esc : EscState} (h : esc.Sound)
include h

lemma digit_sound (hIndex : 0 ≤ esc.index) (d : Nat) : ∃ esc', esc.digit d = some esc' ∧ esc'.Sound := by
  have hLe := h.index_le
  have hMax : (vt100MaxIntargs : Int) = 4 := rfl
  have hGet (i value j : Nat) : (esc.arguments.set i value).getD j 0 =
      if i = j ∧ j < esc.arguments.length then value else esc.arguments.getD j 0 := by
    simp only [getD_eq_getElem?_getD, getElem?_set]
    split_ifs <;> simp_all
  unfold digit
  rw [if_pos (by omega)]
  refine ⟨_, rfl, length_set.trans h.length_eq, fun j => ?_, h.index_ge, hLe, fun j hj => ?_, h.idle⟩
  · rw [hGet]
    split
    · exact Nat.mod_lt _ (by decide)
    · exact h.small j
  · have hOther : ¬ (esc.index.toNat = j ∧ j < esc.arguments.length) := by
      simp only at hj
      omega
    rw [hGet, if_neg hOther]
    exact h.unused j hj

lemma argument_sound (hCsi : esc.discovery = .csiEscape) (c : UInt8) :
    ∃ esc' newstate, esc.argument c = some (esc', newstate) ∧
      (newstate = .none ∨ (newstate = .csiEscape ∧ esc'.Sound)) := by
  -- the first character of the arguments opens the first of them
  obtain ⟨opened, hOpened, hSound, hNonneg, hState⟩ : ∃ opened : EscState,
      (if esc.index < 0 then { esc with index := 0 } else esc) = opened ∧ opened.Sound ∧ 0 ≤ opened.index ∧
        opened.discovery = .csiEscape := by
    split
    · refine ⟨_, rfl, ⟨h.length_eq, h.small, ?_, ?_, fun i hi => h.unused i ?_, fun hNot => absurd hCsi hNot⟩, ?_, hCsi⟩ <;>
        simp only at * <;> omega
    · exact ⟨esc, rfl, h, by omega, hCsi⟩
  unfold argument
  rw [hOpened]
  split
  · refine ⟨_, _, rfl, ?_⟩
    have hLe := hSound.index_le
    have hMax : (vt100MaxIntargs : Int) = 4 := rfl
    split_ifs with hMore
    · exact Or.inl rfl
    · refine Or.inr ⟨rfl, hSound.length_eq, hSound.small, ?_, ?_, fun i hi => hSound.unused i ?_,
        fun hNot => absurd hState hNot⟩ <;> simp only at * <;> omega
  · obtain ⟨esc', hDigit, hNext⟩ := digit_sound hSound hNonneg (c.toNat - '0'.toNat)
    exact ⟨esc', .csiEscape, congrArg (Option.map _) hDigit, Or.inr ⟨rfl, hNext⟩⟩

lemma Sound.between (hIdle : esc.discovery ≠ .csiEscape)
    (newstate : EscDiscovery) : Sound { esc with discovery := newstate } :=
  ⟨h.length_eq, h.small, h.index_ge, h.index_le, h.unused, fun _ => h.idle hIdle⟩

end

end EscState

lemma Vt.Sound.parsed (h : term.Sound) (c : UInt8) : ∃ term' newstate, vtParse term c = some (term', newstate) ∧
    OnScreen term'.posx term'.posy ∧ OnScreen term'.savedPosx term'.savedPosy ∧
    (newstate ≠ .none → EscState.Sound { term'.esc with discovery := newstate }) := by
  unfold vtParse
  split
  · rename_i hState
    exact ⟨_, _, rfl, h.pos, h.saved, fun _ => h.esc.between (by rw [hState]; decide) _⟩
  · rename_i hState
    have hNext := h.parseSimple c
    have hEsc : (vtParseSimpleEscapeCode term c).1.esc = term.esc := by
      unfold vtParseSimpleEscapeCode
      split_ifs <;> rfl
    refine ⟨(vtParseSimpleEscapeCode term c).1, (vtParseSimpleEscapeCode term c).2, rfl, hNext.pos, hNext.saved,
      fun _ => hNext.esc.between ?_ _⟩
    rw [hEsc, hState]
    decide
  · rename_i hState
    split
    · obtain ⟨esc, newstate, hArgument, hNext⟩ := EscState.argument_sound h.esc hState c
      refine ⟨{ term with esc }, newstate, ?_, h.pos, h.saved, fun hGoesOn => ?_⟩
      · rw [hArgument]
        rfl
      · obtain ⟨rfl, hSound⟩ := hNext.resolve_left hGoesOn
        exact ⟨hSound.length_eq, hSound.small, hSound.index_ge, hSound.index_le, hSound.unused, fun hNot => absurd rfl hNot⟩
    · have hNext := h.parse c
      exact ⟨_, _, rfl, hNext.pos, hNext.saved, fun hNot => absurd rfl hNot⟩
  · exact ⟨_, _, rfl, h.pos, h.saved, fun hNot => absurd rfl hNot⟩

lemma Vt.Sound.readEscapeCode (h : term.Sound) (c : UInt8) :
    ∃ term', vtReadEscapeCode term c = some term' ∧ term'.Sound := by
  obtain ⟨_, _, hParse, hPos, hSaved, hEsc⟩ := h.parsed c
  unfold vtReadEscapeCode
  rw [hParse]
  refine ⟨_, rfl, ?_⟩
  dsimp only
  split_ifs with hOver
  · subst hOver
    exact ⟨hPos, hSaved, EscState.clear_sound⟩
  · exact ⟨hPos, hSaved, hEsc hOver⟩

/-- A line too far, in either direction, scrolls: -1 is beyond the height in the comparison. -/
lemma vtWrap_sound {term : Vt} (hx : 0 ≤ term.posx ∧ term.posx ≤ 32) (hy : -1 ≤ term.posy ∧ term.posy ≤ 10)
    (hLast : term.posx = 32 → term.posy < 10) (hSaved : OnScreen term.savedPosx term.savedPosy) (hEsc : term.esc.Sound) :
    (vtWrap term).Sound := by
  have hWidth : fx9860TermWidth = 32 := rfl
  have hHeight : fx9860TermHeight = 10 := rfl
  -- the position after the end of the line has been dealt with
  obtain ⟨wrapped, hWrapped, hwx, _, hwSaved, hwEsc⟩ : ∃ wrapped : Vt,
      (if unsigned term.posx ≥ fx9860TermWidth then { term with posx := 0, posy := term.posy + 1 } else term) = wrapped ∧
        (0 ≤ wrapped.posx ∧ wrapped.posx < 32) ∧ (-1 ≤ wrapped.posy ∧ wrapped.posy ≤ 10) ∧
        OnScreen wrapped.savedPosx wrapped.savedPosy ∧ wrapped.esc.Sound := by
    rw [unsigned_of_nonneg hx.1 (by omega), hWidth]
    split
    · exact ⟨_, rfl, by simp only; omega, by simp only; omega, hSaved, hEsc⟩
    · exact ⟨_, rfl, by omega, hy, hSaved, hEsc⟩
  unfold vtWrap
  rw [hWrapped]
  dsimp only
  split_ifs with hInside
  · exact ⟨⟨hwx.1, hwx.2, Int.natCast_nonneg _, Int.ofNat_lt.mpr (by decide)⟩, hwSaved, hwEsc⟩
  · have hNonneg : 0 ≤ wrapped.posy := by
      by_contra hNeg
      have := le_unsigned_of_neg (Int.not_le.mp hNeg) (by omega)
      omega
    rw [unsigned_of_nonneg hNonneg (by omega)] at hInside
    have hBelow : wrapped.posy < fx9860TermHeight := by omega
    exact ⟨⟨hwx.1, hwx.2, hNonneg, hBelow⟩, hwSaved, hwEsc⟩

lemma Vt.Sound.putChar (h : term.Sound) (c : UInt8) : (vtWrap (vtPutChar term c)).Sound := by
  have hPos := h.pos.bounds
  have hWidth : fx9860TermWidth = 32 := rfl
  unfold vtPutChar
  split_ifs
  all_goals exact vtWrap_sound (by simp only; omega) (by simp only; omega) (by simp only; omega) h.saved h.esc

lemma Vt.Sound.echoChar (h : term.Sound) (c : UInt8) : ∃ term', vtEchoChar term c = some term' ∧ term'.Sound := by
  unfold vtEchoChar
  split
  · exact ⟨_, rfl, h.putChar c⟩
  · exact h.readEscapeCode c

end

lemma vtInit_sound : vtInit.Sound :=
  ⟨⟨by decide, by decide, by decide, by decide⟩, ⟨by decide, by decide, by decide, by decide⟩, EscState.clear_sound⟩

def Vt.Draws (term : Vt) (c : UInt8) : Prop :=
  term.esc.discovery = .none ∧ c ≠ 0x1B ∧ c ≠ 8 ∧ c ≠ 10 ∧ c ≠ 13

/-- Every byte sequence is printed without an access outside of the arguments, and leaves positions on the screen. -/
theorem vt_print_sound (bytes : Bytes) : ∃ term, vtTermPrint vtInit bytes = some term ∧ term.Sound ∧
    ∀ c, term.Draws c → vtEchoChar term c = some (vtWrap { term with
      disp := fx9860TdispPrintChar term.disp term.posx.toNat term.posy.toNat c, posx := term.posx + 1 }) := by
  obtain ⟨term, hPrint, h⟩ := foldlM_total (I := Vt.Sound) (l := bytes) (fun c _ term h => h.echoChar c) vtInit_sound
  refine ⟨term, hPrint, h, fun c hDraws => ?_⟩
  obtain ⟨hNone, hEsc, hBack, hNewline, hReturn⟩ := hDraws
  have hPos := h.pos.bounds
  rw [vtEchoChar, if_pos ⟨hNone, hEsc⟩, vtPutChar, if_neg hBack, if_neg hNewline, if_neg hReturn,
    unsigned_of_nonneg hPos.1.1 (by omega), unsigned_of_nonneg hPos.2.1 (by omega)]

end Fixos.Device
