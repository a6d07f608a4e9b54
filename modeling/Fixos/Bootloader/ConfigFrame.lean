import Fixos.Bootloader.ConfigLines

/-! # Lines that can be removed (`parse_config_file`)

What a line sets is seen against two lines that set it differently, and a change of scope by the next assignment.
-/

namespace Fixos.Bootloader

open Lines List Function

section

variable {entryNumber : Nat} {scope : ConfigScope entryNumber} {text : Bytes}

/-- Nothing that is read in the line, taken by itself, sets anything. -/
def Inert (scope : ConfigScope entryNumber) (text : Bytes) : Prop :=
  ∀ e ∈ effects scope (text ++ [newline]), e.Idle scope
deriving Decidable

def Loader.Entered (st : Loader entryNumber) : Prop := ∀ i, st.scope = .entry i → (st.config.entries i).defined = true

lemma BootConfig.setString_defined (config : BootConfig entryNumber) (stored : Bytes)
    (attr : StringAttr entryNumber) (i : Fin entryNumber) :
    ((config.setString stored attr).entries i).defined = (config.entries i).defined := by
  cases attr with
  | message => rfl
  | label j | args j | type j | kernel j =>
    by_cases hi : i = j
    · subst hi
      simp [setString, setEntry]
    · simp [setString, setEntry, hi]

variable {st : Loader entryNumber}

lemma Loader.Entered.apply (h : st.Entered) (e : ConfigEffect entryNumber) : (st.apply e).Entered := by
  intro i hi
  cases e with
  | enter sc =>
    cases sc with
    | global => cases hi
    | entry j =>
      cases hi
      simp [Loader.apply, BootConfig.setEntry]
  | store attr stored => exact (BootConfig.setString_defined st.config stored attr i).trans (h i hi)
  | nothing | setQuiet _ | setDefault _ => exact h i hi

lemma Loader.Entered.parseLoop (h : st.Entered) (file : Bytes) : (parseLoop st file).Entered := by
  rw [parseLoop_eq_foldl]
  generalize effects st.scope file = es
  induction es generalizing st with
  | nil => exact h
  | cons e es ih => exact ih (h.apply e)

variable {e : ConfigEffect entryNumber}

lemma Loader.Entered.apply_idle (h : st.Entered) (hIdle : e.Idle st.scope) : st.apply e = st := by
  obtain ⟨config, scope⟩ := st
  cases e with
  | nothing => rfl
  | enter sc =>
    obtain rfl : sc = scope := hIdle
    cases sc with
    | global => rfl
    | entry i =>
      have hDefined : (config.entries i).defined = true := h i rfl
      have hSame : ({ config.entries i with defined := true } : BootEntry) = config.entries i := by rw [← hDefined]
      simp [Loader.apply, BootConfig.setEntry, hSame]
  | store attr stored =>
    obtain rfl : stored = [] := hIdle
    cases attr <;> simp [Loader.apply, BootConfig.setString, BootConfig.setEntry, overwrite]
  | setQuiet value | setDefault value => exact hIdle.elim

lemma parseLoop_inert (hEntered : st.Entered) (hText : newline ∉ text)
    (hInert : Inert st.scope text) : parseLoop st (text ++ [newline]) = st ∧ parseLoop st text = st := by
  refine line_induction (motive := fun text => Inert st.scope text →
    parseLoop st (text ++ [newline]) = st ∧ parseLoop st text = st) st.scope ?_ ?_ ?_ hText hInert
  · intro _
    rw [nil_append, parseLoop_turn (readTurn_newline st.scope []), parseLoop_nil, parseLoop_nil]
    exact ⟨rfl, rfl⟩
  · intro c text e _ hRead hAssigns ih hInert
    have hEnd := hRead []
    rw [append_nil, append_nil] at hEnd
    rw [Inert, cons_append, effects_turn (hRead _), forall_mem_cons, hAssigns.scopeAfter_eq] at hInert
    rw [cons_append, parseLoop_turn (hRead _), parseLoop_turn hEnd, hEntered.apply_idle hInert.1]
    exact ih hInert.2
  · intro c text e _ hRead hLast hRel hInert
    rw [Inert, cons_append, effects_turn (hRead []), forall_mem_cons] at hInert
    rw [cons_append, parseLoop_turn (hRead []), parseLoop_turn hLast, hEntered.apply_idle hInert.1,
      hEntered.apply_idle (hRel hInert.1), parseLoop_nil]
    exact ⟨rfl, rfl⟩

lemma BootConfig.string_setString (config : BootConfig entryNumber) (stored : Bytes) (a b : StringAttr entryNumber) :
    (config.setString stored b).string a = if b = a then overwrite (config.string a) stored else config.string a := by
  cases a <;> cases b <;> simp [setString, string, setEntry, update_apply] <;> split_ifs <;> simp_all

def BootConfig.initial (attr : StringAttr entryNumber) (config : BootConfig entryNumber) : Option UInt8 :=
  (config.string attr).head?

lemma BootConfig.initial_setString (config : BootConfig entryNumber) (a b : StringAttr entryNumber) (c : UInt8)
    (stored : Bytes) :
    (config.setString (c :: stored) b).initial a = if b = a then some c else config.initial a := by
  rw [initial, string_setString]
  split_ifs <;> rfl

section

variable (e : ConfigEffect entryNumber)

lemma initial_sets_or_keeps (attr : StringAttr entryNumber) :
    Sets Loader.apply (fun st => st.config.initial attr) e ∨ Keeps Loader.apply (fun st => st.config.initial attr) e := by
  cases e with
  | nothing | setQuiet _ | setDefault _ => exact Or.inr fun st => by cases attr <;> rfl
  | enter sc =>
    refine Or.inr fun st => ?_
    cases sc with
    | global => rfl
    | entry i =>
      have hSame : (st.apply (.enter (.entry i))).config.string attr = st.config.string attr := by
        cases attr <;> simp [Loader.apply, BootConfig.setEntry, BootConfig.string, update_apply] <;>
          split_ifs <;> simp_all
      exact congrArg head? hSame
  | store b stored =>
    cases stored with
    | nil =>
      refine Or.inr fun st => congrArg head? ((st.config.string_setString [] attr b).trans ?_)
      exact ite_id ..
    | cons c stored =>
      by_cases hb : b = attr
      · exact Or.inl ⟨some c, fun st => (st.config.initial_setString attr b c stored).trans (if_pos hb)⟩
      · exact Or.inr fun st => (st.config.initial_setString attr b c stored).trans (if_neg hb)

lemma quiet_sets_or_keeps : Sets Loader.apply (fun st => st.config.quiet) e ∨
    Keeps Loader.apply (fun st => st.config.quiet) e := by
  cases e with
  | setQuiet value => exact Or.inl ⟨value, fun _ => rfl⟩
  | nothing | setDefault _ => exact Or.inr fun _ => rfl
  | enter sc => exact Or.inr fun _ => by cases sc <;> rfl
  | store attr _ => exact Or.inr fun _ => by cases attr <;> rfl

lemma defaultEntry_sets_or_keeps :
    Sets Loader.apply (fun st => st.config.defaultEntry) e ∨ Keeps Loader.apply (fun st => st.config.defaultEntry) e := by
  cases e with
  | setDefault value => exact Or.inl ⟨value, fun _ => rfl⟩
  | nothing | setQuiet _ => exact Or.inr fun _ => rfl
  | enter sc => exact Or.inr fun _ => by cases sc <;> rfl
  | store attr _ => exact Or.inr fun _ => by cases attr <;> rfl

end

lemma not_inert_cases (hText : newline ∉ text) (h : ¬ Inert scope text) :
    (∃ e ∈ effects scope (text ++ [newline]), e.Assigns scope ∧ ¬ e.Idle scope) ∨
      ∃ sc ≠ scope, ∀ st, st.scope = scope → (parseLoop st (text ++ [newline])).scope = sc := by
  refine line_induction (motive := fun text => ¬ Inert scope text →
    (∃ e ∈ effects scope (text ++ [newline]), e.Assigns scope ∧ ¬ e.Idle scope) ∨
      ∃ sc ≠ scope, ∀ st, st.scope = scope → (parseLoop st (text ++ [newline])).scope = sc) scope ?_ ?_ ?_ hText h
  · intro hNot
    refine absurd ?_ hNot
    rw [Inert, nil_append, effects_turn (readTurn_newline scope []), effects]
    exact forall_mem_singleton.mpr trivial
  · intro c text e left hRead hAssigns ih hNot
    rw [cons_append, effects_turn (hRead _), hAssigns.scopeAfter_eq]
    by_cases hIdle : e.Idle scope
    · have hLater : ¬ Inert scope left := by
        intro hLeft
        refine hNot ?_
        rw [Inert, cons_append, effects_turn (hRead _), hAssigns.scopeAfter_eq]
        exact forall_mem_cons.mpr ⟨hIdle, hLeft⟩
      rcases ih hLater with ⟨x, hMem, hx⟩ | ⟨sc, hsc, hTo⟩
      · exact Or.inl ⟨x, mem_cons_of_mem e hMem, hx⟩
      · refine Or.inr ⟨sc, hsc, fun st hst => ?_⟩
        subst hst
        rw [parseLoop_turn (hRead _)]
        exact hTo _ ((Loader.apply_scope st e).trans hAssigns.scopeAfter_eq)
    · exact Or.inl ⟨e, mem_cons_self, hAssigns, hIdle⟩
  · intro c text e _ hRead _ _ hNot
    have hEffects : effects scope (c :: text ++ [newline]) = [e] := by
      rw [cons_append, effects_turn (hRead []), effects]
    rw [Inert, hEffects, forall_mem_singleton] at hNot
    have hKind := readTurn_assigns_or_enters scope (c :: (text ++ [newline]))
    rw [hRead []] at hKind
    rcases hKind with hAssigns | ⟨sc, rfl⟩
    · exact Or.inl ⟨e, hEffects ▸ mem_singleton_self e, hAssigns, hNot⟩
    · refine Or.inr ⟨sc, hNot, fun st hst => ?_⟩
      subst hst
      rw [cons_append, parseLoop_turn (hRead []), parseLoop_nil, Loader.apply_scope]
      rfl

variable {file : Bytes}

lemma loaderAfter_append (hFile : Complete newline file) (rest : Bytes) :
    loaderAfter entryNumber (file ++ rest) = parseLoop (loaderAfter entryNumber file) rest :=
  parseLoop_append hFile _ rest

def StringAttr.line (attr : StringAttr entryNumber) (c : Char) : Bytes :=
  let name := match attr with
    | .message => ['m', 'e', 's', 's', 'a', 'g', 'e']
    | .label _ => ['l', 'a', 'b', 'e', 'l']
    | .args _ => ['a', 'r', 'g', 's']
    | .type _ => ['t', 'y', 'p', 'e']
    | .kernel _ => ['k', 'e', 'r', 'n', 'e', 'l']
  chars (name ++ ['=', '"', c, '"'])

def Written (scope : ConfigScope entryNumber) (e : ConfigEffect entryNumber) : Prop :=
  ∃ line, newline ∉ line ∧ readTurn scope (line ++ [newline]) = (e, []) ∧ e.Assigns scope

lemma readTurn_attr_line (attr : StringAttr entryNumber) :
    readTurn attr.scope (attr.line 'a' ++ [newline]) = (.store attr [97, 0], []) ∧
      readTurn attr.scope (attr.line 'b' ++ [newline]) = (.store attr [98, 0], []) := by
  cases attr <;> exact ⟨rfl, rfl⟩

lemma written_store (attr : StringAttr entryNumber) :
    Written attr.scope (.store attr [97, 0]) ∧ Written attr.scope (.store attr [98, 0]) := by
  refine ⟨⟨attr.line 'a', ?_, (readTurn_attr_line attr).1, rfl⟩, ⟨attr.line 'b', ?_, (readTurn_attr_line attr).2, rfl⟩⟩
  · cases attr <;> dsimp only [StringAttr.line] <;> decide
  · cases attr <;> dsimp only [StringAttr.line] <;> decide

/-- The line can be taken out of every file in which it stands in the scope, also at the end of the file. -/
def Removable (scope : ConfigScope entryNumber) (text : Bytes) : Prop :=
  ∀ file, Complete newline file → (loaderAfter entryNumber file).scope = scope →
    (∀ rest, parseConfigFile entryNumber (file ++ text ++ newline :: rest) = parseConfigFile entryNumber (file ++ rest)) ∧
      parseConfigFile entryNumber (file ++ text) = parseConfigFile entryNumber file

lemma Removable.of_inert (hText : newline ∉ text) (h : Inert scope text) : Removable scope text := by
  intro file hFile hScope
  have hEntered : (loaderAfter entryNumber file).Entered := Loader.Entered.parseLoop (fun _ hi => by cases hi) file
  rw [← hScope] at h
  obtain ⟨hLine, hLast⟩ := parseLoop_inert hEntered hText h
  refine ⟨fun rest => ?_, ?_⟩
  · rw [parseConfigFile, parseConfigFile, append_assoc, loaderAfter_append hFile, loaderAfter_append hFile,
      parseLoop_line hText, hLine]
  · rw [parseConfigFile, loaderAfter_append hFile, hLast, parseConfigFile]

lemma parseLoop_single {line : Bytes}
    (hTurn : readTurn st.scope (line ++ [newline]) = (e, [])) : parseLoop st (line ++ [newline]) = st.apply e := by
  cases line with
  | nil => rw [nil_append, parseLoop_turn hTurn, parseLoop_nil]
  | cons c line =>
    rw [cons_append] at hTurn
    rw [cons_append, parseLoop_turn hTurn, parseLoop_nil]

lemma loaderAfter_written (hFile : Complete newline file)
    (hScope : (loaderAfter entryNumber file).scope = scope) (h : Written scope e) :
    ∃ file', Complete newline file' ∧ loaderAfter entryNumber file' = (loaderAfter entryNumber file).apply e ∧
      (loaderAfter entryNumber file').scope = scope := by
  subst hScope
  obtain ⟨line, hLine, hTurn, hAssigns⟩ := h
  have hAfter : loaderAfter entryNumber (file ++ (line ++ [newline])) = (loaderAfter entryNumber file).apply e := by
    rw [loaderAfter_append hFile, parseLoop_single hTurn]
  refine ⟨file ++ (line ++ [newline]), hFile.append (.single hLine), hAfter, ?_⟩
  rw [hAfter, Loader.apply_scope, hAssigns.scopeAfter_eq]

lemma Removable.view_eq {β : Type} {view : BootConfig entryNumber → β} (h : Removable scope text)
    (hView : ∀ e, Sets Loader.apply (fun st => view st.config) e ∨ Keeps Loader.apply (fun st => view st.config) e)
    (hSets : ∃ e ∈ effects scope (text ++ [newline]), Sets Loader.apply (fun st => view st.config) e) :
    ∃ v, ∀ file, Complete newline file → (loaderAfter entryNumber file).scope = scope →
      view (loaderAfter entryNumber file).config = v := by
  obtain ⟨v, hv⟩ := foldl_sets (fun e _ => hView e) hSets
  refine ⟨v, fun file hFile hScope => ?_⟩
  have hSame := (h file hFile hScope).1 []
  rw [append_nil, append_assoc, parseConfigFile, loaderAfter_append hFile, parseLoop_eq_foldl, hScope] at hSame
  rw [← hv (loaderAfter entryNumber file), hSame, parseConfigFile]

lemma written_quiet : Written (.global : ConfigScope entryNumber) (.setQuiet 1) ∧
    Written (.global : ConfigScope entryNumber) (.setQuiet 0) :=
  ⟨⟨chars ['q', 'u', 'i', 'e', 't', '=', 'y'], by decide, rfl, rfl⟩,
    ⟨chars ['q', 'u', 'i', 'e', 't', '=', 'n'], by decide, rfl, rfl⟩⟩

lemma written_default : Written (.global : ConfigScope entryNumber) (.setDefault 1) ∧
    Written (.global : ConfigScope entryNumber) (.setDefault 2) :=
  ⟨⟨chars ['d', 'e', 'f', 'a', 'u', 'l', 't', '=', '1'], by decide, rfl, rfl⟩,
    ⟨chars ['d', 'e', 'f', 'a', 'u', 'l', 't', '=', '2'], by decide, rfl, rfl⟩⟩

def ConfigScope.attr : ConfigScope entryNumber → StringAttr entryNumber
  | .global => .message
  | .entry i => .label i

lemma ConfigScope.scope_attr (scope : ConfigScope entryNumber) : scope.attr.scope = scope := by
  cases scope <;> rfl

lemma parseLoop_unknown {c d : UInt8} {name value : Bytes} (hName : readTurn st.scope (c :: name) = (.nothing, d :: value))
    (hValue : readTurn st.scope (d :: value) = (.nothing, [])) : parseLoop st (c :: name) = st := by
  rw [parseLoop_turn hName]
  exact (parseLoop_turn hValue).trans (parseLoop_nil st)

lemma initial_elsewhere (hScope : st.scope ≠ scope) {c : Char} (hc : c = 'a' ∨ c = 'b') :
    (parseLoop st (scope.attr.line c ++ [newline])).config.initial scope.attr = st.config.initial scope.attr := by
  obtain ⟨config, sc⟩ := st
  cases scope with
  | global =>
    cases sc with
    | global => exact absurd rfl hScope
    | entry j =>
      refine congrArg (fun st : Loader entryNumber => st.config.initial _) ?_
      rcases hc with rfl | rfl <;> exact parseLoop_unknown rfl rfl
  | entry i =>
    cases sc with
    | global =>
      refine congrArg (fun st : Loader entryNumber => st.config.initial _) ?_
      rcases hc with rfl | rfl <;> exact parseLoop_unknown rfl rfl
    | entry j =>
      have hOther : ¬ (StringAttr.label j = .label i) := fun h => hScope (congrArg StringAttr.scope h)
      rcases hc with rfl | rfl
      · rw [parseLoop_single (e := .store (.label j) [97, 0]) rfl]
        exact (BootConfig.initial_setString config (.label i) (.label j) 97 [0]).trans (if_neg hOther)
      · rw [parseLoop_single (e := .store (.label j) [98, 0]) rfl]
        exact (BootConfig.initial_setString config (.label i) (.label j) 98 [0]).trans (if_neg hOther)

section

variable {pre : Bytes} (hPre : Complete newline pre) (hScope : (loaderAfter entryNumber pre).scope = scope)
include hPre hScope

section

variable (h : Removable scope text)
include h

lemma Removable.not_sets {β : Type} {view : BootConfig entryNumber → β}
    (hView : ∀ e, Sets Loader.apply (fun st => view st.config) e ∨ Keeps Loader.apply (fun st => view st.config) e)
    {e₁ e₂ : ConfigEffect entryNumber} (hWritten : Written scope e₁ ∧ Written scope e₂)
    (hDiffer : ∀ st : Loader entryNumber, view (st.apply e₁).config ≠ view (st.apply e₂).config) :
    ∀ e ∈ effects scope (text ++ [newline]), ¬ Sets Loader.apply (fun st => view st.config) e := by
  intro e hMem hSets
  obtain ⟨v, hv⟩ := h.view_eq hView ⟨e, hMem, hSets⟩
  obtain ⟨file₁, hFile₁, hAfter₁, hScope₁⟩ := loaderAfter_written hPre hScope hWritten.1
  obtain ⟨file₂, hFile₂, hAfter₂, hScope₂⟩ := loaderAfter_written hPre hScope hWritten.2
  refine hDiffer (loaderAfter entryNumber pre) ?_
  rw [← hAfter₁, ← hAfter₂, hv file₁ hFile₁ hScope₁, hv file₂ hFile₂ hScope₂]

lemma Removable.no_assignment : ∀ e ∈ effects scope (text ++ [newline]), e.Assigns scope → e.Idle scope := by
  intro e hMem hAssigns
  cases e with
  | nothing => trivial
  | enter sc => exact hAssigns.elim
  | store attr stored =>
    cases stored with
    | nil => rfl
    | cons c stored =>
      have hWritten := written_store attr
      rw [show attr.scope = scope from hAssigns] at hWritten
      refine (h.not_sets hPre hScope (fun e => initial_sets_or_keeps e attr) hWritten (fun st => ?_) _ hMem
        ⟨some c, fun st => ?_⟩).elim
      all_goals simp [Loader.apply, BootConfig.initial_setString]
  | setQuiet value =>
    cases show scope = .global from hAssigns
    exact (h.not_sets hPre hScope quiet_sets_or_keeps written_quiet (fun _ => Int.one_ne_zero) _ hMem
      ⟨value, fun _ => rfl⟩).elim
  | setDefault value =>
    cases show scope = .global from hAssigns
    have hDiffer : (1 : Int) ≠ 2 := by decide
    exact (h.not_sets hPre hScope defaultEntry_sets_or_keeps written_default (fun _ => hDiffer) _ hMem
      ⟨value, fun _ => rfl⟩).elim

lemma Removable.keeps_scope (hText : newline ∉ text) {sc : ConfigScope entryNumber}
    (hTo : ∀ st : Loader entryNumber, st.scope = scope → (parseLoop st (text ++ [newline])).scope = sc) : sc = scope := by
  by_contra hNe
  generalize hst : loaderAfter entryNumber pre = st at hScope
  have hAway : (parseLoop st (text ++ [newline])).scope ≠ scope := (hTo st hScope).trans_ne hNe
  have hSeen : ∀ (c : Char) (b : UInt8), (c = 'a' ∨ c = 'b') →
      readTurn scope (scope.attr.line c ++ [newline]) = (.store scope.attr [b, 0], []) →
      (parseLoop st (text ++ [newline])).config.initial scope.attr = some b := by
    intro c b hc hTurn
    have hSame := (h pre hPre (hst ▸ hScope)).1 (scope.attr.line c ++ [newline])
    rw [append_assoc, parseConfigFile, parseConfigFile, loaderAfter_append hPre, loaderAfter_append hPre, hst,
      parseLoop_line hText] at hSame
    rw [← hScope] at hTurn
    rw [← initial_elsewhere hAway hc, hSame, ← hScope, parseLoop_single hTurn]
    exact (BootConfig.initial_setString st.config _ _ b [0]).trans (if_pos rfl)
  have hTurns := readTurn_attr_line scope.attr
  rw [ConfigScope.scope_attr] at hTurns
  have hBoth := (hSeen 'a' 97 (Or.inl rfl) hTurns.1).symm.trans (hSeen 'b' 98 (Or.inr rfl) hTurns.2)
  exact absurd (Option.some.inj hBoth) (by decide)

end

end

end

/-- A line can be removed from every file in which it stands in this scope exactly when it is inert in it. -/
theorem line_removable_iff {entryNumber : Nat} {pre text : Bytes} (hPre : Complete newline pre) (hText : newline ∉ text) :
    Removable (loaderAfter entryNumber pre).scope text ↔ Inert (loaderAfter entryNumber pre).scope text := by
  refine ⟨fun h => ?_, Removable.of_inert hText⟩
  by_contra hNot
  rcases not_inert_cases hText hNot with ⟨e, hMem, hAssigns, hLoud⟩ | ⟨_, hsc, hTo⟩
  · exact hLoud (h.no_assignment hPre rfl e hMem hAssigns)
  · exact hsc (h.keeps_scope hPre rfl hText hTo)

theorem unknown_line_removable :
    (readValue (.global : ConfigScope 3) (chars ['f', 'o', 'o']) (chars ['b', 'a', 'r', '\n'])).1 = .nothing ∧
      Removable (loaderAfter 3 []).scope (chars ['f', 'o', 'o', '=', 'b', 'a', 'r']) :=
  ⟨by decide, (line_removable_iff .nil (by decide)).mpr (by decide +kernel)⟩

/-- With the line `foo=[Entry2]` the second entry is defined, and the attributes that follow are its own. -/
theorem unknown_line_enters_scope : (readValue (.global : ConfigScope 3) (chars ['f', 'o', 'o'])
        (chars ['[', 'E', 'n', 't', 'r', 'y', '2', ']', '\n'])).1 = .nothing ∧
      ((parseConfigFile 3 (chars ['f', 'o', 'o', '=', '[', 'E', 'n', 't', 'r', 'y', '2', ']', '\n', 'q', 'u', 'i', 'e', 't',
        '=', 'y', '\n'])).quiet = 0 ∧
      (parseConfigFile 3 (chars ['q', 'u', 'i', 'e', 't', '=', 'y', '\n'])).quiet = 1) := by
  decide +kernel

end Fixos.Bootloader
