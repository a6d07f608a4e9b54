import Fixos.Sys.TtyLines

/-! # Echoes of a terminal (`sys/tty.c`)

`tty_input_char` with the signals that it raises and the characters that it shows.
-/

namespace Fixos.Sys

open Utils Option List

/-- The echo flags but for `ECHOK`, which the `Termios` has. -/
structure EchoFlags where
  echo : Bool
  echoe : Bool
  echonl : Bool
  echoctl : Bool

inductive TtySignal where
  | sigint
  | sigstop
deriving DecidableEq

def asciiIsCtrl (c : UInt8) : Bool := c < 0x20 && c != 10 && c != 9 || c == 0x7F

def ttyEchoChar (flags : EchoFlags) (c : UInt8) : Bytes :=
  if flags.echoctl && asciiIsCtrl c then ['^'.toUInt8, if c < 0x20 then c + 0x40 else c - 0x40] else [c]

def ttyEchoErase (flags : EchoFlags) (c : UInt8) : Bytes :=
  [8, 32, 8] ++ if flags.echoctl && asciiIsCtrl c then [8, 32, 8] else []

/-- Whether the character is one of those for signals, what it raises in the foreground group and what is shown. -/
def Tty.signals (tty : Tty) (flags : EchoFlags) (foreground : Bool) (c : UInt8) :
    Bool × List TtySignal × Bytes :=
  if tty.termios.isig then
    if tty.termios.isControl c VINTR then (true, if foreground then [.sigint] else [], ttyEchoChar flags c)
    else if tty.termios.isControl c VQUIT then (true, [], ttyEchoChar flags c)
    else if tty.termios.isControl c VSUSP then (true, if foreground then [.sigstop] else [], ttyEchoChar flags c)
    else (false, [], [])
  else (false, [], [])

def Tty.erased (tty : Tty) (flags : EchoFlags) (c : UInt8) : (Bool × UInt8 × Bytes) × Bytes :=
  if tty.termios.icanon then
    if tty.termios.isControl c VERASE then
      ((true, c, tty.line.dropLast), if flags.echoe then tty.line.getLast?.elim [] (ttyEchoErase flags) else [])
    else if tty.termios.isControl c VKILL then
      if tty.termios.echok then ((true, c, []), tty.line.reverse.flatMap (ttyEchoErase flags))
      else ((true, c, tty.line), [])
    else if tty.termios.isControl c VEOF then ((true, c, tty.line), [])
    else if c = 10 ∨ tty.termios.isControl c VEOL ∨ c = 13 then ((false, 10, tty.line), [])
    else ((false, c, tty.line), [])
  else ((false, c, tty.line), [])

def ttyInput (flags : EchoFlags) (foreground : Bool) (tty : Tty) (c : UInt8) :
    Option (Tty × List TtySignal × Bytes) :=
  if c = 0 then some (tty, [], [])
  else
    let (signal, raised, shown) := tty.signals flags foreground c
    let ((discard, c, line), erased) := tty.erased flags c
    if (signal || discard) = false ∧ line.length + 1 < ttyLineBuffer then
      let line := line ++ [c]
      let echoed := if flags.echo || tty.termios.icanon && c == 10 && flags.echonl then ttyEchoChar flags c else []
      if (if tty.termios.icanon then c = 10 else (tty.termios.cc VMIN).toNat ≤ line.length) then
        (cfifoPush tty.fifo line line.length).map fun fifo =>
          ({ tty with fifo, line := [], towake := [] }, raised, shown ++ erased ++ echoed)
      else some ({ tty with line }, raised, shown ++ erased ++ echoed)
    else some ({ tty with line }, raised, shown ++ erased)

def ttyInputs (flags : EchoFlags) (foreground : Bool) (tty : Tty) (bytes : Bytes) :
    Option (Tty × List TtySignal) :=
  bytes.foldlM (fun st c => (ttyInput flags foreground st.1 c).map fun r => (r.1, st.2 ++ r.2.1)) (tty, [])

/-- What reads and signals depend on. -/
def ttyData (st : Tty × List TtySignal) : Bytes × CyclicFifo × List TtySignal := (st.1.line, st.1.fifo, st.2)

def Tty.withEchok (tty : Tty) (echok : Bool) : Tty := { tty with termios := { tty.termios with echok } }

/-- The character removes the line, if `ECHOK` is set. -/
def Tty.Kills (tty : Tty) (c : UInt8) : Prop :=
  c ≠ 0 ∧ tty.termios.icanon = true ∧ tty.termios.isControl c VERASE = false ∧
    tty.termios.isControl c VKILL = true ∧ tty.line ≠ []
deriving Decidable

section

variable {flags : EchoFlags} {foreground : Bool} {tty tty' : Tty} {c : UInt8}

lemma Tty.signals_fst (flags : EchoFlags) (foreground : Bool) : (tty.signals flags foreground c).1 = tty.raisesSignal c := by
  unfold Tty.signals Tty.raisesSignal
  split_ifs <;> simp_all

lemma Tty.erased_fst (flags : EchoFlags) : (tty.erased flags c).1 = tty.canonical c := by
  unfold Tty.erased Tty.canonical
  split_ifs <;> rfl

lemma ttyInput_data (flags flags' : EchoFlags) (foreground : Bool) (tty : Tty) (c : UInt8) :
    (ttyInput flags foreground tty c).map (fun r => (r.1, r.2.1)) =
    (ttyInputChar tty c).map fun tty' => (tty', if c = 0 then [] else (tty.signals flags' foreground c).2.1) := by
  have hRaised : (tty.signals flags foreground c).2.1 = (tty.signals flags' foreground c).2.1 := by
    unfold Tty.signals
    split_ifs <;> rfl
  unfold ttyInput ttyInputChar Tty.edit
  rw [← Tty.signals_fst flags foreground, ← Tty.erased_fst flags, ← hRaised]
  by_cases hNul : c = 0
  · simp [hNul]
  · simp only [if_neg hNul]
    split_ifs <;> simp_all [Function.comp_def]
    all_goals omega

lemma Tty.canonical_withEchok {echok : Bool} (hNul : c ≠ 0) (h : echok = tty.termios.echok ∨ ¬ tty.Kills c) :
    (tty.withEchok echok).canonical c = tty.canonical c := by
  rcases h with rfl | hKeeps
  · rfl
  · have hControl (i : Nat) : (tty.withEchok echok).termios.isControl c i = tty.termios.isControl c i := rfl
    have hLine : (tty.withEchok echok).line = tty.line := rfl
    have hMode : (tty.withEchok echok).termios.icanon = tty.termios.icanon := rfl
    unfold Tty.Kills at hKeeps
    unfold Tty.canonical
    rw [hMode, hLine]
    simp only [hControl]
    split_ifs <;> simp_all

lemma ttyInputChar_withEchok {echok : Bool} (h : echok = tty.termios.echok ∨ ¬ tty.Kills c) :
    ttyInputChar (tty.withEchok echok) c = (ttyInputChar tty c).map (Tty.withEchok · echok) := by
  have hEdit : (tty.withEchok echok).edit c = tty.edit c := by
    by_cases hNul : c = 0
    · rw [Tty.edit, Tty.edit, if_pos hNul, if_pos hNul]
      rfl
    · rw [Tty.edit, Tty.edit, if_neg hNul, if_neg hNul, Tty.canonical_withEchok hNul h]
      rfl
  unfold ttyInputChar
  rw [hEdit]
  dsimp only
  split_ifs
  · rw [Option.map_map]
    rfl
  · rfl

lemma ttyInputChar_kills (h : tty.Kills c) :
    ttyInputChar tty c = some { tty with line := if tty.termios.echok then [] else tty.line } := by
  obtain ⟨hNul, hMode, hErase, hKill, _⟩ := h
  unfold ttyInputChar Tty.edit Tty.canonical
  simp [hNul, hMode, hErase, hKill]

lemma ttyInputChar_termios (h : ttyInputChar tty c = some tty') : tty'.termios = tty.termios := by
  unfold ttyInputChar at h
  dsimp only at h
  split_ifs at h
  · obtain ⟨_, _, rfl⟩ := map_eq_some_iff.mp h
    rfl
  · cases h
    rfl

lemma ttyInputs_concat (flags' : EchoFlags) (bytes : Bytes) : ttyInputs flags foreground tty (bytes ++ [c]) =
    (ttyInputs flags foreground tty bytes).bind fun st => (ttyInputChar st.1 c).map fun tty' =>
      (tty', st.2 ++ if c = 0 then [] else (st.1.signals flags' foreground c).2.1) := by
  rw [ttyInputs, foldlM_append, ← ttyInputs]
  refine congrArg (bind _) (funext fun st => ?_)
  have hData := congrArg (Option.map fun r => (r.1, st.2 ++ r.2)) (ttyInput_data flags flags' foreground st.1 c)
  rw [Option.map_map, Option.map_map] at hData
  simp only [foldlM_cons, foldlM_nil, bind_pure]
  exact hData

lemma ttyInputs_termios {bytes : Bytes} {raised : List TtySignal}
    (h : ttyInputs flags foreground tty bytes = some (tty', raised)) : tty'.termios = tty.termios := by
  induction bytes using reverseRecOn generalizing tty' raised with
  | nil =>
    cases h
    rfl
  | append_singleton bytes c ih =>
    rw [ttyInputs_concat flags] at h
    obtain ⟨⟨_, _⟩, hBefore, hLast⟩ := bind_eq_some_iff.mp h
    obtain ⟨_, hChar, ⟨⟩⟩ := map_eq_some_iff.mp hLast
    exact (ttyInputChar_termios hChar).trans (ih hBefore)

end

/-- Two terminals whose settings differ in echo flags only go on with the same line, fifo and signals exactly if they agree
on `ECHOK` or no line is killed. -/
theorem echo_only_displays_iff (flags flags' : EchoFlags) (foreground echok : Bool) (tty : Tty) (bytes : Bytes) :
    (∀ before, before <+: bytes → (ttyInputs flags' foreground (tty.withEchok echok) before).map ttyData =
      (ttyInputs flags foreground tty before).map ttyData) ↔
    echok = tty.termios.echok ∨ ∀ before c st, before ++ [c] <+: bytes →
      ttyInputs flags foreground tty before = some st → ¬ st.1.Kills c := by
  constructor
  · intro hSame
    by_contra hNot
    obtain ⟨_, hKilled⟩ := not_or.mp hNot
    refine hKilled fun before c st hBytes hRun hKills => ?_
    have hBefore := hSame before ((prefix_append before [c]).trans hBytes)
    have hAfter := hSame _ hBytes
    rw [hRun] at hBefore
    obtain ⟨st', hRun', hData⟩ := map_eq_some_iff.mp hBefore
    obtain ⟨hLine, _⟩ := Prod.mk.inj hData
    have hTermios := ttyInputs_termios hRun
    have hTermios' := ttyInputs_termios hRun'
    have hKills' : st'.1.Kills c := by
      unfold Tty.Kills at hKills ⊢
      rw [hTermios', hLine]
      rw [hTermios] at hKills
      exact hKills
    rw [ttyInputs_concat flags, ttyInputs_concat flags, hRun, hRun', bind_some, bind_some,
      ttyInputChar_kills hKills, ttyInputChar_kills hKills', hTermios, hTermios', hLine] at hAfter
    have hLines := congrArg Prod.fst (some.inj hAfter)
    have hNonempty := hKills.2.2.2.2
    change (if echok then [] else st.1.line) = if tty.termios.echok then [] else st.1.line at hLines
    cases echok <;> cases hSet : tty.termios.echok <;> simp_all
  · intro hKeeps before hBefore
    have hRun : ttyInputs flags' foreground (tty.withEchok echok) before =
        (ttyInputs flags foreground tty before).map fun st => (st.1.withEchok echok, st.2) := by
      induction before using reverseRecOn with
      | nil => rfl
      | append_singleton before c ih =>
        rw [ttyInputs_concat flags, ttyInputs_concat flags, ih ((prefix_append before [c]).trans hBefore)]
        cases hPrior : ttyInputs flags foreground tty before with
        | none => rfl
        | some st =>
          have hStep : echok = st.1.termios.echok ∨ ¬ st.1.Kills c := by
            rw [ttyInputs_termios (show _ = some (st.1, st.2) from hPrior)]
            exact hKeeps.imp_right fun hAll => hAll before c st hBefore hPrior
          rw [map_some, bind_some, bind_some, ttyInputChar_withEchok hStep, Option.map_map, Option.map_map]
          rfl
    rw [hRun, Option.map_map]
    rfl

/-- With `ECHOK` the kill character of the default settings removes the line, and without it the `a` stays. -/
theorem kill_depends_on_echok : ∃ killed kept,
    ttyInputs ⟨true, true, true, true⟩ true ttyDefaultInit [97, 21] = some (killed, []) ∧ killed.line = [] ∧
    ttyInputs ⟨true, true, true, true⟩ true (ttyDefaultInit.withEchok false) [97, 21] = some (kept, []) ∧
    kept.line = [97] :=
  ⟨_, _, rfl, rfl, rfl, rfl⟩

end Fixos.Sys
