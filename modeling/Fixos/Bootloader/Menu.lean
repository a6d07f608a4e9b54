import Mathlib.Data.List.Induction
import Fixos.Bootloader.Config

/-! # The boot menu (`bootloader_init`)

The default entry of the configuration is not checked, and the loop of the DOWN key ends before the last entry.
-/

namespace Fixos.Bootloader

inductive MenuKey where
  | up
  | down
  | exe
  | shift
  | other
deriving DecidableEq

/-- The menu, the message that waits for a key, the kernel, and the end of the quiet mode. -/
inductive MenuState where
  | browsing (selected : Int)
  | failed (selected : Int)
  | booted (selected : Int)
  | halted (selected : Int)
deriving DecidableEq

def MenuState.selected : MenuState → Int
  | .browsing s | .failed s | .booted s | .halted s => s

/-- `outside` is read as the flag of an entry outside of the table; `loads` tells which kernels start. -/
structure BootMenu (entryNumber : Nat) where
  config : BootConfig entryNumber
  outside : Int → Bool
  loads : Int → Bool

namespace BootMenu

variable {entryNumber : Nat} (m : BootMenu entryNumber)

def flag (k : Int) : Bool :=
  if h : 0 ≤ k ∧ k < entryNumber then (m.config.entries ⟨k.toNat, by omega⟩).defined else m.outside k

def upLoop (tempsel : Int) : Int :=
  if 1 ≤ tempsel ∧ m.flag (tempsel - 1) = false then upLoop (tempsel - 1) else tempsel
termination_by tempsel.toNat
decreasing_by omega

def downLoop (tempsel : Int) : Int :=
  if tempsel < entryNumber ∧ m.flag (tempsel - 1) = false then downLoop (tempsel + 1) else tempsel
termination_by (entryNumber - tempsel).toNat
decreasing_by omega

def selectUp (selected : Int) : Int :=
  let tempsel := m.upLoop (selected - 1)
  if 1 ≤ tempsel ∧ m.flag (tempsel - 1) = true then tempsel else selected

def selectDown (selected : Int) : Int :=
  let tempsel := m.downLoop (selected + 1)
  if tempsel < entryNumber ∧ m.flag (tempsel - 1) = true then tempsel else selected

def boot (selected : Int) : MenuState := if m.loads selected then .booted selected else .failed selected

def start : MenuState :=
  let selected := m.config.defaultEntry
  if m.config.quiet = 0 then .browsing selected
  else if m.loads selected then .booted selected
  else .halted selected

def press : MenuState → MenuKey → MenuState
  | .browsing s, .up => .browsing (m.selectUp s)
  | .browsing s, .down => .browsing (m.selectDown s)
  | .browsing s, .exe | .browsing s, .shift => m.boot s
  | .browsing s, .other => .browsing s
  | .failed s, _ => .browsing s
  | .booted s, _ => .booted s
  | .halted s, _ => .halted s

def run (keys : List MenuKey) : MenuState := keys.foldl m.press m.start

def Defined (t : Int) : Prop := ∃ i : Fin entryNumber, (i : Int) + 1 = t ∧ (m.config.entries i).defined = true

def MovesUp (s s' : Int) : Prop :=
  (m.Defined s' ∧ s' < s ∧ ∀ t, s' < t → t < s → ¬ m.Defined t) ∨ (s' = s ∧ ∀ t < s, ¬ m.Defined t)

def MovesDown (last s s' : Int) : Prop :=
  (m.Defined s' ∧ s < s' ∧ s' ≤ last ∧ ∀ t, s < t → t < s' → ¬ m.Defined t) ∨
    (s' = s ∧ ∀ t, s < t → t ≤ last → ¬ m.Defined t)

variable {m} {s t : Int}

lemma Defined.bounds (h : m.Defined t) : 1 ≤ t ∧ t ≤ entryNumber := by
  obtain ⟨i, rfl, _⟩ := h
  omega

lemma defined_iff_flag (hLow : 1 ≤ t) (hHigh : t ≤ entryNumber) : m.Defined t ↔ m.flag (t - 1) = true := by
  have hIn : 0 ≤ t - 1 ∧ t - 1 < entryNumber := by omega
  rw [flag, dif_pos hIn]
  constructor
  · rintro ⟨i, rfl, _⟩
    have hi : (⟨((i : Int) + 1 - 1).toNat, by omega⟩ : Fin entryNumber) = i := Fin.ext (by simp)
    rwa [hi]
  · intro hFlag
    exact ⟨_, by simp; omega, hFlag⟩

lemma upLoop_spec (t : Int) (hHigh : t ≤ entryNumber) : m.upLoop t ≤ t ∧ (∀ u, m.upLoop t < u → u ≤ t → ¬ m.Defined u) ∧
      (1 ≤ m.upLoop t → m.Defined (m.upLoop t)) := by
  fun_induction upLoop m t with
  | case1 t hStep ih =>
    obtain ⟨_, hNone, hFound⟩ := ih (by omega)
    refine ⟨by omega, fun u hu hut => ?_, hFound⟩
    by_cases hLast : u = t
    · subst hLast
      rw [defined_iff_flag hStep.1 hHigh, hStep.2]
      exact Bool.false_ne_true
    · exact hNone u hu (by omega)
  | case2 t hStop =>
    refine ⟨Int.le_refl t, fun u hu hut => absurd hu (by omega), fun hLow => ?_⟩
    rw [defined_iff_flag hLow hHigh]
    exact eq_true_of_ne_false fun hFalse => hStop ⟨hLow, hFalse⟩

lemma downLoop_spec (t : Int) (hLow : 1 ≤ t) : t ≤ m.downLoop t ∧ (∀ u, t ≤ u → u < m.downLoop t → ¬ m.Defined u) ∧
      (m.downLoop t < entryNumber → m.Defined (m.downLoop t)) := by
  fun_induction downLoop m t with
  | case1 t hStep ih =>
    obtain ⟨_, hNone, hFound⟩ := ih (by omega)
    refine ⟨by omega, fun u hu hut => ?_, hFound⟩
    by_cases hFirst : u = t
    · subst hFirst
      rw [defined_iff_flag hLow (by omega), hStep.2]
      exact Bool.false_ne_true
    · exact hNone u (by omega) hut
  | case2 t hStop =>
    refine ⟨Int.le_refl t, fun u hu hut => absurd hut (by omega), fun hHigh => ?_⟩
    rw [defined_iff_flag hLow (by omega)]
    exact eq_true_of_ne_false fun hFalse => hStop ⟨hHigh, hFalse⟩

lemma movesUp_selectUp (hHigh : s ≤ entryNumber) : m.MovesUp s (m.selectUp s) := by
  obtain ⟨_, hNone, hFound⟩ := upLoop_spec (m := m) (s - 1) (by omega)
  unfold selectUp
  by_cases hLow : 1 ≤ m.upLoop (s - 1)
  · have hDefined := hFound hLow
    rw [if_pos ⟨hLow, (defined_iff_flag hLow hDefined.bounds.2).mp hDefined⟩]
    exact Or.inl ⟨hDefined, by omega, fun t ht hts => hNone t ht (by omega)⟩
  · rw [if_neg fun h => hLow h.1]
    refine Or.inr ⟨rfl, fun t ht hDefined => ?_⟩
    have hBounds := hDefined.bounds
    exact hNone t (by omega) (by omega) hDefined

lemma movesDown_selectDown (hLow : 1 ≤ s) : m.MovesDown (entryNumber - 1) s (m.selectDown s) := by
  obtain ⟨_, hNone, hFound⟩ := downLoop_spec (m := m) (s + 1) (by omega)
  unfold selectDown
  by_cases hHigh : m.downLoop (s + 1) < entryNumber
  · have hDefined := hFound hHigh
    rw [if_pos ⟨hHigh, (defined_iff_flag hDefined.bounds.1 hDefined.bounds.2).mp hDefined⟩]
    exact Or.inl ⟨hDefined, by omega, by omega, fun t ht hts => hNone t (by omega) hts⟩
  · rw [if_neg fun h => hHigh h.1]
    exact Or.inr ⟨rfl, fun t hst ht => hNone t (by omega) (by omega)⟩

variable (m) in
/-- The selection is an entry, the keys move it to the nearest defined one, and each defined entry can be booted. -/
structure Sound : Prop where
  range : ∀ keys, 1 ≤ (m.run keys).selected ∧ (m.run keys).selected ≤ entryNumber
  up : ∀ keys s, m.run keys = .browsing s → m.MovesUp s (m.run (keys ++ [.up])).selected
  down : ∀ keys s, m.run keys = .browsing s → m.MovesDown entryNumber s (m.run (keys ++ [.down])).selected
  boots : m.config.quiet = 0 → ∀ t, m.Defined t → ∃ keys, m.run keys = m.boot t

variable (m) in
/-- With the menu, the last entry is not defined, or it is the default and the only one. -/
def Ready : Prop :=
  (1 ≤ m.config.defaultEntry ∧ m.config.defaultEntry ≤ entryNumber) ∧
    (m.config.quiet = 0 → ¬ m.Defined entryNumber ∨
      (m.config.defaultEntry = entryNumber ∧ ∀ t, m.Defined t → t = entryNumber))

lemma run_snoc (keys : List MenuKey) (key : MenuKey) : m.run (keys ++ [key]) = m.press (m.run keys) key :=
  List.foldl_concat ..

variable {keys : List MenuKey}

lemma run_up (hs : m.run keys = .browsing s) : m.run (keys ++ [.up]) = .browsing (m.selectUp s) := by
  rw [run_snoc, hs]
  rfl

lemma run_down (hs : m.run keys = .browsing s) : m.run (keys ++ [.down]) = .browsing (m.selectDown s) := by
  rw [run_snoc, hs]
  rfl

variable {s' : Int}

lemma MovesUp.bounds (h : m.MovesUp s s') (hs : 1 ≤ s ∧ s ≤ entryNumber) : 1 ≤ s' ∧ s' ≤ entryNumber := by
  rcases h with ⟨hDefined, _⟩ | ⟨rfl, _⟩
  · exact hDefined.bounds
  · exact hs

lemma MovesDown.bounds {last : Int} (h : m.MovesDown last s s') (hs : 1 ≤ s ∧ s ≤ entryNumber) :
    1 ≤ s' ∧ s' ≤ entryNumber := by
  rcases h with ⟨hDefined, _⟩ | ⟨rfl, _⟩
  · exact hDefined.bounds
  · exact hs

lemma start_selected : m.start.selected = m.config.defaultEntry := by
  unfold start
  dsimp only
  split_ifs <;> rfl

lemma boot_selected : (m.boot s).selected = s := by
  unfold boot
  split_ifs <;> rfl

lemma run_invariant {I : Int → Prop} (hUp : ∀ s, I s → I (m.selectUp s)) (hDown : ∀ s, I s → I (m.selectDown s))
    (hStart : I m.config.defaultEntry) (keys : List MenuKey) : I (m.run keys).selected := by
  induction keys using List.reverseRecOn with
  | nil => exact start_selected (m := m) ▸ hStart
  | append_singleton keys key ih =>
    rw [run_snoc]
    cases hState : m.run keys with
    | browsing s =>
      rw [hState] at ih
      cases key with
      | up => exact hUp s ih
      | down => exact hDown s ih
      | exe | shift => exact (congrArg I boot_selected).mpr ih
      | other => exact ih
    | failed s | booted s | halted s =>
      rw [hState] at ih
      exact ih

lemma run_range (h : 1 ≤ m.config.defaultEntry ∧ m.config.defaultEntry ≤ entryNumber) (keys : List MenuKey) :
    1 ≤ (m.run keys).selected ∧ (m.run keys).selected ≤ entryNumber :=
  run_invariant (I := fun s => 1 ≤ s ∧ s ≤ entryNumber) (fun _ hs => (movesUp_selectUp hs.2).bounds hs)
    (fun _ hs => (movesDown_selectDown hs.1).bounds hs) h keys

lemma run_quiet (h : m.config.quiet ≠ 0) (keys : List MenuKey) : m.run keys = m.start := by
  have hStart : m.start = .booted m.config.defaultEntry ∨ m.start = .halted m.config.defaultEntry := by
    unfold start
    rw [if_neg h]
    split_ifs
    · exact Or.inl rfl
    · exact Or.inr rfl
  induction keys using List.reverseRecOn with
  | nil => rfl
  | append_singleton keys key ih =>
    rw [run_snoc, ih]
    rcases hStart with hs | hs <;> rw [hs] <;> rfl

lemma quiet_of_browsing (h : m.run keys = .browsing s) : m.config.quiet = 0 := by
  by_contra hQuiet
  rw [run_quiet hQuiet, start, if_neg hQuiet] at h
  split_ifs at h

lemma MovesDown.to_last (h : m.MovesDown (entryNumber - 1) s s') (hLast : ¬ m.Defined entryNumber) :
    m.MovesDown entryNumber s s' := by
  rcases h with ⟨hDefined, hLow, _, hNone⟩ | ⟨rfl, hNone⟩
  · exact Or.inl ⟨hDefined, hLow, by omega, hNone⟩
  · refine Or.inr ⟨rfl, fun t ht hts hDefined => ?_⟩
    by_cases hEq : t = entryNumber
    · exact hLast (hEq ▸ hDefined)
    · exact hNone t ht (by omega) hDefined

variable (m) in
def Reaches (s t : Int) : Prop := ∃ keys : List MenuKey, keys.foldl m.press (.browsing s) = .browsing t

lemma reaches_above (ht : m.Defined t) (hst : t ≤ s) (hHigh : s ≤ entryNumber) : m.Reaches s t := by
  induction hDistance : (s - t).toNat using Nat.strong_induction_on generalizing s with
  | _ n ih =>
    by_cases hEq : s = t
    · exact ⟨[], congrArg _ hEq⟩
    · rcases movesUp_selectUp (m := m) hHigh with ⟨hDefined, _, hNone⟩ | ⟨_, hNone⟩
      · have hNotPassed : t ≤ m.selectUp s := by
          by_contra hPassed
          exact hNone t (by omega) (by omega) ht
        obtain ⟨keys, hKeys⟩ := ih _ (by omega) hNotPassed hDefined.bounds.2 rfl
        exact ⟨.up :: keys, hKeys⟩
      · exact absurd ht (hNone t (by omega))

lemma reaches_below (ht : m.Defined t) (hLast : ¬ m.Defined entryNumber) (hst : s ≤ t) (hLow : 1 ≤ s) : m.Reaches s t := by
  induction hDistance : (t - s).toNat using Nat.strong_induction_on generalizing s with
  | _ n ih =>
    by_cases hEq : s = t
    · exact ⟨[], congrArg _ hEq⟩
    · rcases (movesDown_selectDown (m := m) hLow).to_last hLast with ⟨hDefined, _, _, hNone⟩ | ⟨_, hNone⟩
      · have hNotPassed : m.selectDown s ≤ t := by
          by_contra hPassed
          exact hNone t (by omega) (by omega) ht
        obtain ⟨keys, hKeys⟩ := ih _ (by omega) hNotPassed hDefined.bounds.1 rfl
        exact ⟨.down :: keys, hKeys⟩
      · exact absurd ht (hNone t (by omega) ht.bounds.2)

lemma start_browsing (h : m.config.quiet = 0) : m.start = .browsing m.config.defaultEntry := if_pos h

lemma Reaches.boots (h : m.Reaches m.config.defaultEntry t) (hQuiet : m.config.quiet = 0) :
    ∃ keys, m.run keys = m.boot t := by
  obtain ⟨keys, hKeys⟩ := h
  refine ⟨keys ++ [.exe], ?_⟩
  rw [run_snoc, run, start_browsing hQuiet, hKeys]
  rfl

lemma run_only_last (hOnly : m.config.defaultEntry = entryNumber) (hAll : ∀ t, m.Defined t → t = entryNumber)
    (hLow : 1 ≤ m.config.defaultEntry) (keys : List MenuKey) : (m.run keys).selected = entryNumber := by
  refine run_invariant (I := fun s => s = entryNumber) (fun s hs => ?_) (fun s hs => ?_) hOnly keys
  · rcases movesUp_selectUp (m := m) (Int.le_of_eq hs) with ⟨hDefined, _, _⟩ | ⟨hSame, _⟩
    · exact hAll _ hDefined
    · exact hSame.trans hs
  · rcases movesDown_selectDown (m := m) (s := s) (by omega) with ⟨hDefined, _⟩ | ⟨hSame, _⟩
    · exact hAll _ hDefined
    · exact hSame.trans hs

lemma Ready.sound (h : m.Ready) : m.Sound := by
  obtain ⟨hDefault, hMenu⟩ := h
  have hRange : ∀ keys s, m.run keys = .browsing s → 1 ≤ s ∧ s ≤ entryNumber := by
    intro keys s hs
    have hKeys := run_range hDefault keys
    rwa [hs] at hKeys
  refine ⟨run_range hDefault, fun keys s hs => ?_, fun keys s hs => ?_, fun hQuiet t ht => ?_⟩
  · rw [run_up hs]
    exact movesUp_selectUp (hRange keys s hs).2
  · rw [run_down hs]
    rcases hMenu (quiet_of_browsing hs) with hLast | ⟨hOnly, hAll⟩
    · exact (movesDown_selectDown (hRange keys s hs).1).to_last hLast
    · have hHere : s = entryNumber := by
        have hKeys := run_only_last hOnly hAll hDefault.1 keys
        rwa [hs] at hKeys
      have hNext : m.selectDown s = entryNumber := by
        have hKeys := run_only_last hOnly hAll hDefault.1 (keys ++ [.down])
        rwa [run_down hs] at hKeys
      exact Or.inr ⟨hNext.trans hHere.symm, fun t ht hts => absurd ht (by omega)⟩
  · refine Reaches.boots ?_ hQuiet
    rcases hMenu hQuiet with hLast | ⟨hOnly, hAll⟩
    · rcases Int.le_total t m.config.defaultEntry with hAbove | hBelow
      · exact reaches_above ht hAbove hDefault.2
      · exact reaches_below ht hLast hBelow hDefault.1
    · exact ⟨[], by rw [hAll t ht, hOnly]; rfl⟩

lemma Sound.selects_last (h : m.Sound) (hLast : m.Defined entryNumber)
    (hs : m.run keys = .browsing s) : s = entryNumber := by
  induction hDistance : (entryNumber - s).toNat using Nat.strong_induction_on generalizing s keys with
  | _ n ih =>
    have hRange : 1 ≤ s ∧ s ≤ entryNumber := by
      have hKeys := h.range keys
      rwa [hs] at hKeys
    have hMoves : m.MovesDown entryNumber s (m.selectDown s) := by
      have hKeys := h.down keys s hs
      rwa [run_down hs] at hKeys
    by_contra hNe
    rcases hMoves with ⟨_, _, _⟩ | ⟨_, hNone⟩
    · -- the code moves too, but not to the last entry, and DOWN is pressed again
      have hShort : m.selectDown s < entryNumber := by
        rcases movesDown_selectDown (m := m) hRange.1 with ⟨_, _, _, _⟩ | ⟨_, _⟩
        · omega
        · omega
      have hAgain := ih _ (by omega) (run_down hs) rfl
      omega
    · exact hNone entryNumber (by omega) (Int.le_refl _) hLast

lemma Sound.ready (h : m.Sound) : m.Ready := by
  have hDefault := h.range []
  rw [show m.run [] = m.start from rfl, start_selected] at hDefault
  refine ⟨hDefault, fun hQuiet => ?_⟩
  by_cases hLast : m.Defined entryNumber
  · have hStart : m.run [] = .browsing m.config.defaultEntry := start_browsing hQuiet
    have hOnly := h.selects_last hLast hStart
    refine Or.inr ⟨hOnly, fun t ht => ?_⟩
    by_contra hNe
    have hBounds := ht.bounds
    have hMoves : m.MovesUp m.config.defaultEntry (m.selectUp m.config.defaultEntry) := by
      have hKeys := h.up [] _ hStart
      rwa [run_up hStart] at hKeys
    rcases hMoves with ⟨_, _, _⟩ | ⟨_, hNone⟩
    · have hAgain := h.selects_last hLast (run_up hStart)
      omega
    · exact hNone t (by omega) ht
  · exact Or.inl hLast

end BootMenu

/-- The menu is sound exactly when the configuration is one that it can cope with. -/
theorem menu_sound_iff {entryNumber : Nat} (file : Bytes) (outside loads : Int → Bool) :
    BootMenu.Sound ⟨parseConfigFile entryNumber file, outside, loads⟩ ↔
      BootMenu.Ready ⟨parseConfigFile entryNumber file, outside, loads⟩ :=
  ⟨BootMenu.Sound.ready, BootMenu.Ready.sound⟩

/-- DOWN does not reach the last entry, and `default=7` selects an entry that does not exist. -/
theorem menu_misses_last_entry :
    (BootMenu.Defined ⟨parseConfigFile 3 (chars ['[', 'E', 'n', 't', 'r', 'y', '3', ']', '\n']), fun _ => false,
        fun _ => true⟩ 3 ∧
      BootMenu.run ⟨parseConfigFile 3 (chars ['[', 'E', 'n', 't', 'r', 'y', '3', ']', '\n']), fun _ => false,
        fun _ => true⟩ [.down] = .browsing 1) ∧
      BootMenu.run ⟨parseConfigFile 3 (chars ['d', 'e', 'f', 'a', 'u', 'l', 't', '=', '7', '\n']), fun _ => false,
        fun _ => true⟩ [] = .browsing 7 :=
  ⟨⟨⟨2, by decide +kernel⟩, by decide +kernel⟩, by decide +kernel⟩

end Fixos.Bootloader
