import Fixos.Bootloader.Config

/-! # The configuration file by its lines (`bootloader/config_parser.c`, `parse_config_file`)

Every function that reads either stops inside a line or takes it together with its end.
-/

namespace Fixos.Bootloader

open Lines List

section

variable {text : Bytes}

section

variable (hText : newline ∉ text)
include hText

lemma skipLine_newline (rest : Bytes) : skipLine (text ++ newline :: rest) = rest := skipLine_append hText

lemma skipLine_text : skipLine text = [] := by
  rw [← append_nil text, skipLine_append hText]
  rfl

lemma copyUntil_line (stop : UInt8) (room : Nat) :
    LineRead newline (fun _ => True) (fun a last => a.getLast? = some newline ∧ last.getLast? = some 0xFF)
      (copyUntil stop room) text := by
  induction text generalizing room with
  | nil =>
    cases room with
    | zero => exact .within [] [] trivial fun tail => by cases tail <;> rfl
    | succ room => exact .whole [newline] [0xFF] (fun rest => if_pos (Or.inl rfl)) rfl ⟨rfl, rfl⟩
  | cons c text ih =>
    have hc : c ≠ newline := Ne.symm (ne_of_not_mem_cons hText)
    cases room with
    | zero => exact .within [] (c :: text) trivial fun tail => rfl
    | succ room =>
      by_cases hStop : c = stop
      · exact .within [c] text trivial fun tail => if_pos (Or.inr hStop)
      · have hNot : ¬ (c = newline ∨ c = stop) := fun h => h.elim hc hStop
        exact ((ih (not_mem_of_not_mem_cons hText) room).map (f := (c :: ·)) (fun _ => id) fun _ _ hRel =>
          ⟨by rw [getLast?_cons, hRel.1]; rfl, by rw [getLast?_cons, hRel.2]; rfl⟩).cons fun file => if_neg hNot

/-- A reader that copies up to a delimiter and may skip what is behind it in the line. -/
lemma copyUntil_then_line {β : Type} (stop : UInt8) (hStop : newline ≠ stop ∧ 0xFF ≠ stop) (room : Nat)
    {D : Bytes → Prop} [DecidablePred D] (hD : ∀ stored, D stored → Delimited stop stored)
    (found missed : Bytes → β) (skip : Bool) {P : β → Prop} {R : β → β → Prop}
    (hFound : ∀ stored, match skip with
      | true => R (found stored) (found stored)
      | false => P (found stored)) (hMissed : ∀ stored, P (missed stored))
    (hLast : ∀ stored last, stored ≠ [] → R (missed stored) (missed last)) :
    LineRead newline P R (fun file =>
      let copied := copyUntil stop room file
      if D copied.1 then (found copied.1, if skip then skipLine copied.2 else copied.2) else
        (missed copied.1, copied.2)) text := by
  cases copyUntil_line hText stop room with
  | within stored left _ hRead =>
    by_cases hHere : D stored
    · cases skip with
      | false =>
        refine .within (found stored) left (hFound stored) fun tail => ?_
        simp [hRead, if_pos hHere]
      | true =>
        have hLeft : newline ∉ left := fun h => hText ((LeavesSuffix.left (copyUntil_suffix _ _) hRead).subset h)
        have hEnd := hRead []
        rw [append_nil, append_nil] at hEnd
        refine .whole (found stored) (found stored) (fun rest => ?_) ?_ (hFound stored)
        · simp [hRead, if_pos hHere, skipLine_newline hLeft]
        · simp [hEnd, if_pos hHere, skipLine_text hLeft]
    · refine .within (missed stored) left (hMissed stored) fun tail => ?_
      simp [hRead, if_neg hHere]
  | whole stored last hRead hEnd hRel =>
    have hNot : ∀ {l : Bytes} {c : UInt8}, l.getLast? = some c → c ≠ stop → ¬ D l := by
      intro l c hl hc hHere
      exact hc (Option.some.inj (hl.symm.trans (hD l hHere)))
    refine .whole (missed stored) (missed last) (fun rest => ?_) ?_ (hLast stored last ?_)
    · simp [hRead, if_neg (hNot hRel.1 hStop.1)]
    · simp [hEnd, if_neg (hNot hRel.2 hStop.2)]
    · rintro rfl
      cases hRel.1

end

/-- What the loop makes of a tag at the end of the file is what it makes of it at the end of the line. -/
def TagsAlike (a last : ConfigTag × Bytes) : Prop :=
  a.1 = last.1 ∧ a.1 ≠ .assign ∧ (a.1 = .scope → a.2 = last.2)

lemma tagsAlike {tag : ConfigTag} (stored last : Bytes) (hAssign : tag ≠ .assign) (hScope : tag ≠ .scope) :
    TagsAlike (tag, stored) (tag, last) := ⟨rfl, hAssign, fun h => absurd h hScope⟩

lemma configReadTag_line {c : UInt8} (hText : newline ∉ c :: text) (bufsize : Nat) :
    LineRead newline (fun a => a.1 ≠ .scope) TagsAlike (configReadTag bufsize) (c :: text) := by
  have hc : c ≠ newline := Ne.symm (ne_of_not_mem_cons hText)
  have hRest : newline ∉ text := not_mem_of_not_mem_cons hText
  by_cases hComment : c = '#'.toUInt8
  · refine .whole (.empty, []) (.empty, []) (fun rest => ?_) ?_ (tagsAlike _ _ (by decide) (by decide))
    · rw [cons_append, configReadTag, if_neg hc, if_pos hComment, skipLine_newline hRest]
    · rw [configReadTag, if_neg hc, if_pos hComment, skipLine_text hRest]
  · by_cases hBracket : c = '['.toUInt8
    · refine (copyUntil_then_line (R := TagsAlike) hRest ']'.toUInt8 (by decide) bufsize (fun _ => id)
        (fun stored => (ConfigTag.scope, stored.dropLast ++ [0])) (fun stored => (.unknown, stored)) true
        (fun _ => ⟨rfl, ConfigTag.noConfusion, fun _ => rfl⟩)
        (fun _ => ConfigTag.noConfusion) fun _ _ _ => tagsAlike _ _ (by decide) (by decide)).cons fun file => ?_
      rw [configReadTag, if_neg hc, if_neg hComment, if_pos hBracket]
      rfl
    · by_cases hEqual : c = '='.toUInt8
      · refine .within (.assign, [0]) text ConfigTag.noConfusion fun tail => ?_
        rw [cons_append, configReadTag, if_neg hc, if_neg hComment, if_neg hBracket, if_pos hEqual]
      · refine (copyUntil_then_line (P := fun a => a.1 ≠ .scope) hRest '='.toUInt8 (by decide) (bufsize - 1) (fun _ => id)
          (fun stored => (ConfigTag.assign, c :: stored.dropLast ++ [0])) (fun stored => (.unknown, c :: stored)) false
          (fun _ => ConfigTag.noConfusion) (fun _ => ConfigTag.noConfusion)
          fun _ _ _ => tagsAlike _ _ (by decide) (by decide)).cons fun file => ?_
        rw [configReadTag, if_neg hc, if_neg hComment, if_neg hBracket, if_neg hEqual]
        rfl

section

variable (hText : newline ∉ text)
include hText

lemma configReadAssignString_line (bufsize : Nat) :
    LineRead newline (fun _ => True) (fun a last => a.2 = [] → last.2 = []) (configReadAssignString bufsize) text := by
  cases text with
  | nil => exact .whole (-1, []) (-1, []) (fun rest => rfl) rfl fun _ => rfl
  | cons c text =>
    by_cases hQuote : c = '"'.toUInt8
    · exact (copyUntil_then_line (R := fun a last => a.2 = [] → last.2 = []) (not_mem_of_not_mem_cons hText)
        '"'.toUInt8 (by decide) (max 1 bufsize) (D :=
          fun stored => stored.length ≤ bufsize ∧ Delimited '"'.toUInt8 stored) (fun _ => And.right)
        (fun stored => ((0 : Int), stored.dropLast ++ [0]))
        (fun stored => (-1, stored)) true (fun _ => id) (fun _ => trivial)
        fun _ _ hStored hNone => absurd hNone hStored).cons fun file => if_pos hQuote
    · exact .within (-1, []) text trivial fun tail => if_neg hQuote

lemma expectChars_line {cs : Bytes} (hcs : newline ∉ cs) :
    LineRead newline (fun _ => True) (fun _ last => last = false) (expectChars (cs ++ [newline])) text := by
  induction cs generalizing text with
  | nil =>
    cases text with
    | nil => exact .whole true false (fun rest => rfl) rfl rfl
    | cons d text => exact .within false text trivial fun tail => if_neg (Ne.symm (ne_of_not_mem_cons hText))
  | cons c cs ih =>
    cases text with
    | nil => exact .whole false false (fun rest => if_neg (ne_of_not_mem_cons hcs)) rfl rfl
    | cons d text =>
      by_cases hMatch : d = c
      · exact (ih (not_mem_of_not_mem_cons hText) (not_mem_of_not_mem_cons hcs)).cons fun file => if_pos hMatch
      · exact .within false text trivial fun tail => if_neg hMatch

lemma readAnswer_line (value : Int) (second : UInt8) (others : Bytes) (hOthers : newline ∉ others) :
    LineRead newline (fun _ => True) (fun a last => a = none → last = none)
      (readAnswer value second (others ++ [newline])) text := by
  cases text with
  | nil => exact .whole (some value) none (fun rest => rfl) rfl fun _ => rfl
  | cons c text =>
    have hc : c ≠ newline := Ne.symm (ne_of_not_mem_cons hText)
    by_cases hSecond : c = second
    · have hAnswer := (expectChars_line (not_mem_of_not_mem_cons hText) hOthers).map
        (f := fun ok => if ok then some value else none) (Q := fun _ => True)
        (S := fun a last => a = none → last = none) (fun _ => id) fun a last hLast _ => if_neg (Bool.eq_false_iff.mp hLast)
      exact hAnswer.cons fun file => by rw [readAnswer, if_neg hc, if_pos hSecond]
    · exact .within none text trivial fun tail => by rw [cons_append, readAnswer, if_neg hc, if_neg hSecond]

lemma configReadAssignBool_line :
    LineRead newline (fun _ => True) (fun a last => a = none → last = none) configReadAssignBool text := by
  cases text with
  | nil => exact .whole none none (fun rest => rfl) rfl id
  | cons c text =>
    have hRest : newline ∉ text := not_mem_of_not_mem_cons hText
    by_cases hYes : c = 'y'.toUInt8
    · exact (readAnswer_line hRest 1 'e'.toUInt8 ['s'.toUInt8] (by decide)).cons fun file => if_pos hYes
    · by_cases hNo : c = 'n'.toUInt8
      · exact (readAnswer_line hRest 0 'o'.toUInt8 [] (by decide)).cons fun file => by
          rw [configReadAssignBool, if_neg hYes, if_pos hNo]
          rfl
      · exact .within none text trivial fun tail => by
          rw [cons_append, configReadAssignBool, if_neg hYes, if_neg hNo]

lemma configReadAssignInt_line (tmpval : Nat) :
    LineRead newline (fun _ => True) (fun a last => a = none → last = none) (configReadAssignInt tmpval) text := by
  induction text generalizing tmpval with
  | nil => exact .whole (some (Word.signed tmpval)) (some (Word.signed tmpval)) (fun rest => rfl) rfl id
  | cons c text ih =>
    by_cases hDigit : '0'.toUInt8 ≤ c ∧ c ≤ '9'.toUInt8
    · exact (ih (not_mem_of_not_mem_cons hText) _).cons fun file => if_pos hDigit
    · refine .within none text trivial fun tail => ?_
      rw [cons_append, configReadAssignInt, if_neg hDigit, if_neg (Ne.symm (ne_of_not_mem_cons hText))]

end

end

variable {entryNumber : Nat}

def StringAttr.scope : StringAttr entryNumber → ConfigScope entryNumber
  | .message => .global
  | .label i | .args i | .type i | .kernel i => .entry i

variable {scope : ConfigScope entryNumber} {text : Bytes}

def ConfigEffect.Idle (scope : ConfigScope entryNumber) : ConfigEffect entryNumber → Prop
  | .nothing => True
  | .enter sc => sc = scope
  | .store _ stored => stored = []
  | .setQuiet _ | .setDefault _ => False

instance decidableIdle (scope : ConfigScope entryNumber) : DecidablePred (ConfigEffect.Idle scope)
  | .nothing => isTrue trivial
  | .enter _ | .store _ _ => inferInstanceAs (Decidable (_ = _))
  | .setQuiet _ | .setDefault _ => isFalse not_false

def ConfigEffect.Assigns (scope : ConfigScope entryNumber) : ConfigEffect entryNumber → Prop
  | .nothing => True
  | .enter _ => False
  | .store attr _ => attr.scope = scope
  | .setQuiet _ | .setDefault _ => scope = .global

lemma readString_assigns (attr : StringAttr entryNumber) (bufsize : Nat) (file : Bytes) :
    ((readString attr bufsize file).1).Assigns attr.scope := rfl

lemma readValue_assigns (scope : ConfigScope entryNumber) (name file : Bytes) :
    ((readValue scope name file).1).Assigns scope := by
  unfold readValue
  cases scope <;> dsimp only <;> split_ifs
  · exact readString_assigns _ _ file
  · cases (configReadAssignBool file).1 <;> trivial
  · cases (configReadAssignInt 0 file).1 <;> trivial
  · trivial
  · exact readString_assigns _ _ file
  · exact readString_assigns _ _ file
  · exact readString_assigns _ _ file
  · exact readString_assigns _ _ file
  · trivial

lemma readString_line (hText : newline ∉ text) (attr : StringAttr entryNumber) (bufsize : Nat) :
    LineRead newline (fun _ => True) (fun e last => e.Idle scope → last.Idle scope) (readString attr bufsize) text :=
  (configReadAssignString_line hText bufsize).map (f := fun a => ConfigEffect.store attr a.2) (fun _ => id) fun _ _ => id

lemma option_line {read : Bytes → Option Int × Bytes} {set : Int → ConfigEffect entryNumber}
    (h : LineRead newline (fun _ => True) (fun a last => a = none → last = none) read text)
    (hSet : ∀ v, ¬ (set v).Idle scope) :
    LineRead newline (fun _ => True) (fun e last => e.Idle scope → last.Idle scope)
      (fun file => ((read file).1.elim .nothing set, (read file).2)) text := by
  have hRel : ∀ a last : Option Int, (a = none → last = none) → (a.elim .nothing set).Idle scope →
      (last.elim .nothing set).Idle scope := by
    rintro (_ | v) last hLast hIdle
    · rw [hLast rfl]
      trivial
    · exact absurd hIdle (hSet v)
  exact h.map (f := fun a => a.elim ConfigEffect.nothing set) (Q := fun _ => True)
    (S := fun e last => e.Idle scope → last.Idle scope) (fun _ => id) hRel

lemma readValue_line (scope : ConfigScope entryNumber) (hText : newline ∉ text) (name : Bytes) :
    LineRead newline (fun _ => True) (fun e last => e.Idle scope → last.Idle scope) (readValue scope name) text := by
  have hUnknown : LineRead newline (fun _ => True) (fun e last => e.Idle scope → last.Idle scope)
      (fun file => (ConfigEffect.nothing, file)) text := .within .nothing text trivial fun _ => rfl
  cases scope with
  | global =>
    unfold readValue
    dsimp only
    split_ifs
    · exact readString_line hText _ _
    · exact option_line (configReadAssignBool_line hText) fun _ => id
    · exact option_line (configReadAssignInt_line hText 0) fun _ => id
    · exact hUnknown
  | entry i =>
    unfold readValue
    dsimp only
    split_ifs
    · exact readString_line hText _ _
    · exact readString_line hText _ _
    · exact readString_line hText _ _
    · exact readString_line hText _ _
    · exact hUnknown

variable {file tagbuf rest : Bytes}

lemma readTurn_assign (h : configReadTag 50 file = ((.assign, tagbuf), rest)) :
    readTurn scope file = readValue scope (cstring tagbuf) rest := by
  rw [readTurn, h]

lemma readTurn_scope (h : configReadTag 50 file = ((.scope, tagbuf), rest)) :
    readTurn scope file = ((scopeOf entryNumber (cstring tagbuf)).elim .nothing .enter, rest) := by
  rw [readTurn, h]

lemma readTurn_other {a : ConfigTag × Bytes} (h : configReadTag 50 file = (a, rest))
    (hScope : a.1 ≠ .scope) (hAssign : a.1 ≠ .assign) : readTurn scope file = (.nothing, rest) := by
  rw [readTurn, h]
  obtain ⟨tag, _⟩ := a
  cases tag with
  | scope => exact absurd rfl hScope
  | assign => exact absurd rfl hAssign
  | eof => rfl
  | empty => rfl
  | unknown => rfl

lemma readTurn_assigns_or_enters (scope : ConfigScope entryNumber) (file : Bytes) :
    ((readTurn scope file).1).Assigns scope ∨ ∃ sc, (readTurn scope file).1 = .enter sc := by
  rcases hTag : configReadTag 50 file with ⟨⟨tag, tagbuf⟩, rest⟩
  by_cases hScope : tag = .scope
  · subst hScope
    rw [readTurn_scope hTag]
    cases scopeOf entryNumber (cstring tagbuf) with
    | none => exact Or.inl trivial
    | some sc => exact Or.inr ⟨sc, rfl⟩
  · by_cases hAssign : tag = .assign
    · subst hAssign
      rw [readTurn_assign hTag]
      exact Or.inl (readValue_assigns scope _ rest)
    · rw [readTurn_other hTag hScope hAssign]
      exact Or.inl trivial

variable {c : UInt8}

lemma readTurn_line (hText : newline ∉ c :: text) :
    LineRead newline (ConfigEffect.Assigns scope) (fun e last => e.Idle scope → last.Idle scope) (readTurn scope)
      (c :: text) := by
  cases configReadTag_line hText 50 with
  | within a left hStop hRead =>
    obtain ⟨tag, tagbuf⟩ := a
    by_cases hAssign : tag = .assign
    · subst hAssign
      have hLeft : newline ∉ left := by
        have hEnd := hRead []
        rw [append_nil, append_nil] at hEnd
        have hSuffix := configReadTag_suffix 50 c text
        rw [hEnd] at hSuffix
        exact fun h => hText (mem_cons_of_mem c (hSuffix.subset h))
      have hTurn : ∀ tail, readTurn scope (c :: text ++ tail) = readValue scope (cstring tagbuf) (left ++ tail) :=
        fun tail => readTurn_assign (hRead tail)
      cases readValue_line scope hLeft (cstring tagbuf) with
      | within e rest _ hValue =>
        refine .within e rest ?_ fun tail => (hTurn tail).trans (hValue tail)
        have hAssigns := readValue_assigns scope (cstring tagbuf) (left ++ [])
        rw [hValue []] at hAssigns
        exact hAssigns
      | whole e last hValue hLast hRel =>
        refine .whole e last (fun rest => (hTurn _).trans (hValue rest)) ?_ hRel
        have hNone := hTurn []
        rw [append_nil, append_nil] at hNone
        exact hNone.trans hLast
    · exact .within .nothing left trivial fun tail => readTurn_other (hRead tail) hStop hAssign
  | whole a last hRead hLast hRel =>
    obtain ⟨hTag, hAssign, hSame⟩ := hRel
    by_cases hScope : a.1 = .scope
    · obtain ⟨tag, tagbuf⟩ := a
      obtain ⟨_, _⟩ := last
      cases hScope
      cases hTag
      cases hSame rfl
      exact .whole _ _ (fun rest => readTurn_scope (hRead rest)) (readTurn_scope hLast) id
    · exact .whole .nothing .nothing (fun rest => readTurn_other (hRead rest) hScope hAssign)
        (readTurn_other hLast (hTag ▸ hScope) (hTag ▸ hAssign)) id

def ConfigEffect.scopeAfter (scope : ConfigScope entryNumber) : ConfigEffect entryNumber → ConfigScope entryNumber
  | .enter sc => sc
  | _ => scope

def effects (scope : ConfigScope entryNumber) : Bytes → List (ConfigEffect entryNumber)
  | [] => []
  | c :: file =>
    (readTurn scope (c :: file)).1 ::
      effects ((readTurn scope (c :: file)).1.scopeAfter scope) (readTurn scope (c :: file)).2
termination_by file => file.length
decreasing_by exact Nat.lt_succ_of_le (readTurn_suffix scope c file).length_le

lemma readTurn_newline (scope : ConfigScope entryNumber) (rest : Bytes) :
    readTurn scope (newline :: rest) = (.nothing, rest) := rfl

@[simp] lemma parseLoop_nil (st : Loader entryNumber) : parseLoop st [] = st := by
  rw [parseLoop]

variable {e : ConfigEffect entryNumber}

lemma parseLoop_turn {st : Loader entryNumber}
    (h : readTurn st.scope (c :: file) = (e, rest)) : parseLoop st (c :: file) = parseLoop (st.apply e) rest := by
  rw [parseLoop, h]

lemma effects_turn (h : readTurn scope (c :: file) = (e, rest)) :
    effects scope (c :: file) = e :: effects (e.scopeAfter scope) rest := by
  rw [effects, h]

lemma ConfigEffect.Assigns.scopeAfter_eq (h : e.Assigns scope) : e.scopeAfter scope = scope := by
  cases e with
  | enter sc => exact h.elim
  | nothing | store _ _ | setQuiet _ | setDefault _ => rfl

lemma Loader.apply_scope (st : Loader entryNumber) (e : ConfigEffect entryNumber) :
    (st.apply e).scope = e.scopeAfter st.scope := by
  cases e with
  | enter sc => cases sc <;> rfl
  | nothing | store _ _ | setQuiet _ | setDefault _ => rfl

lemma parseLoop_eq_foldl (st : Loader entryNumber) (file : Bytes) :
    parseLoop st file = (effects st.scope file).foldl Loader.apply st := by
  fun_induction parseLoop st file with
  | case1 st => rw [effects, foldl_nil]
  | case2 st c file ih => rw [ih, effects, foldl_cons, Loader.apply_scope]

/-- Induction over the turns that a line takes. Only the last of them can change the scope. -/
lemma line_induction {motive : Bytes → Prop} (scope : ConfigScope entryNumber) (hNil : motive [])
    (hWithin : ∀ c text e left, (∀ tail, readTurn scope (c :: (text ++ tail)) = (e, left ++ tail)) →
      e.Assigns scope → motive left → motive (c :: text))
    (hWhole : ∀ c text e last, (∀ rest, readTurn scope (c :: (text ++ newline :: rest)) = (e, rest)) →
      readTurn scope (c :: text) = (last, []) → (e.Idle scope → last.Idle scope) → motive (c :: text))
    (hText : newline ∉ text) : motive text := by
  induction hLength : text.length using Nat.strong_induction_on generalizing text with
  | _ n ih =>
    cases text with
    | nil => exact hNil
    | cons c text =>
      cases readTurn_line hText with
      | within e left hAssigns hRead =>
        have hLeft : left <:+ text := by
          have hSuffix := readTurn_suffix scope c (text ++ [])
          rw [show readTurn scope (c :: (text ++ [])) = (e, left ++ []) from hRead []] at hSuffix
          rwa [append_nil, append_nil] at hSuffix
        refine hWithin c text e left hRead hAssigns (ih left.length ?_ ?_ rfl)
        · rw [← hLength]
          exact Nat.lt_succ_of_le hLeft.length_le
        · exact fun h => hText (mem_cons_of_mem c (hLeft.subset h))
      | whole e last hRead hLast hRel => exact hWhole c text e last hRead hLast hRel

lemma parseLoop_line (hText : newline ∉ text) (st : Loader entryNumber) (rest : Bytes) :
    parseLoop st (text ++ newline :: rest) = parseLoop (parseLoop st (text ++ [newline])) rest := by
  refine line_induction (motive := fun text => ∀ st' : Loader entryNumber, st'.scope = st.scope →
    parseLoop st' (text ++ newline :: rest) = parseLoop (parseLoop st' (text ++ [newline])) rest) st.scope ?_ ?_ ?_
    hText st rfl
  · intro st' _
    rw [nil_append, nil_append, parseLoop_turn (readTurn_newline st'.scope rest),
      parseLoop_turn (readTurn_newline st'.scope []), parseLoop_nil]
  · intro c text e _ hRead hAssigns ih st' hScope
    rw [← hScope] at hRead hAssigns
    rw [cons_append, cons_append, parseLoop_turn (hRead _), parseLoop_turn (hRead _)]
    refine ih (st'.apply e) ?_
    rw [Loader.apply_scope, hAssigns.scopeAfter_eq, hScope]
  · intro c text e _ hRead _ _ st' hScope
    rw [← hScope] at hRead
    rw [cons_append, cons_append, parseLoop_turn (hRead rest), parseLoop_turn (hRead []), parseLoop_nil]

lemma parseLoop_append {pre : Bytes} (hPre : Complete newline pre) (st : Loader entryNumber) (rest : Bytes) :
    parseLoop st (pre ++ rest) = parseLoop (parseLoop st pre) rest := by
  induction hPre generalizing st with
  | nil => rw [nil_append, parseLoop_nil]
  | @line text pre hText _ ih =>
    rw [append_assoc, cons_append, parseLoop_line hText st (pre ++ rest), ih, ← parseLoop_line hText st pre]

end Fixos.Bootloader
