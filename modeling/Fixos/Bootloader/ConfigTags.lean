import Fixos.Bootloader.Config

/-! # The tag of a line -/

namespace Fixos.Bootloader

open List

/-- The room is used up by a line that goes on. -/
def Overruns (stop : UInt8) (room : Nat) (file : Bytes) : Prop :=
  room < file.length ∧ ∀ c ∈ file.take room, ¬(c = newline ∨ c = stop)

/-- A line that begins with a name or a header for which there is no room. -/
def Overlong (bufsize : Nat) : Bytes → Prop
  | [] => False
  | c :: file => c ≠ newline ∧ c ≠ '#'.toUInt8 ∧ c ≠ '='.toUInt8 ∧
      (c = '['.toUInt8 → Overruns ']'.toUInt8 bufsize file) ∧ (c ≠ '['.toUInt8 → Overruns '='.toUInt8 (bufsize - 1) file)

structure TagRead (file : Bytes) (out : (ConfigTag × Bytes) × Bytes) : Prop where
  assign : out.1.1 = .assign → ∃ name, file = name ++ '='.toUInt8 :: out.2 ∧ '='.toUInt8 ∉ name ∧ newline ∉ name ∧
    out.1.2 = name ++ [0]
  scope : out.1.1 = .scope → ∃ name rest, file = '['.toUInt8 :: name ++ ']'.toUInt8 :: rest ∧ ']'.toUInt8 ∉ name ∧
    newline ∉ name ∧ out.1.2 = name ++ [0]
  others : out.1.1 ≠ .assign → out.2 = skipLine file

section

variable {stop : UInt8} {room : Nat} {file : Bytes}

lemma skipLine_eq_self_iff : skipLine file = file ↔ file = [] := by
  cases file with
  | nil => exact iff_of_true rfl rfl
  | cons c file =>
    refine iff_of_false (fun hSame => ?_) (cons_ne_nil c file)
    have hLength : (skipLine (c :: file)).length ≤ file.length := by
      rw [skipLine]
      split
      · exact Nat.le_refl _
      · exact (skipLine_suffix file).length_le
    rw [hSame, length_cons] at hLength
    omega

lemma delimited_cons {c : UInt8} (hc : c ≠ stop) {stored : Bytes} :
    Delimited stop (c :: stored) ↔ Delimited stop stored := by
  unfold Delimited
  cases stored with
  | nil => simp [hc]
  | cons d stored => rw [getLast?_cons_cons]

lemma overruns_cons {c : UInt8} : Overruns stop (room + 1) (c :: file) ↔
    ¬(c = newline ∨ c = stop) ∧ Overruns stop room file := by
  rw [Overruns, take_succ_cons, forall_mem_cons, length_cons, Nat.add_lt_add_iff_right, Overruns]
  exact and_left_comm

lemma copyUntil_delimited (hStop : stop ≠ 0xFF) (h : Delimited stop (copyUntil stop room file).1) :
    ¬Overruns stop room file ∧ ∃ name, file = name ++ stop :: (copyUntil stop room file).2 ∧ stop ∉ name ∧
      newline ∉ name ∧ (copyUntil stop room file).1 = name ++ [stop] := by
  fun_induction copyUntil stop room file with
  | case1 file => cases h
  | case2 room => exact absurd (Option.some_inj.mp h).symm hStop
  | case3 room c file hEnd =>
    obtain rfl : c = stop := Option.some_inj.mp h
    exact ⟨fun hOver => (overruns_cons.mp hOver).1 hEnd, [], rfl, not_mem_nil, not_mem_nil, rfl⟩
  | case4 room c file hGo ih =>
    obtain ⟨hNewline, hNe⟩ := not_or.mp hGo
    obtain ⟨hRoom, name, hFile, hName, hLine, hStored⟩ := ih ((delimited_cons hNe).mp h)
    refine ⟨fun hOver => hRoom (overruns_cons.mp hOver).2, c :: name, ?_, ?_, ?_, ?_⟩
    · exact congrArg (c :: ·) hFile
    · exact not_mem_cons_of_ne_of_not_mem (Ne.symm hNe) hName
    · exact not_mem_cons_of_ne_of_not_mem (Ne.symm hNewline) hLine
    · exact congrArg (c :: ·) hStored

lemma copyUntil_missed (h : ¬Delimited stop (copyUntil stop room file).1) :
    (copyUntil stop room file).2 = skipLine file ↔ ¬Overruns stop room file := by
  fun_induction copyUntil stop room file with
  | case1 file =>
    rw [eq_comm, skipLine_eq_self_iff, Overruns, take_zero, length_pos_iff]
    simp
  | case2 room => exact iff_of_true rfl fun hOver => Nat.not_lt_zero _ hOver.1
  | case3 room c file hEnd =>
    obtain rfl : c = newline := hEnd.resolve_right fun hStop => h (congrArg some hStop)
    exact iff_of_true (if_pos rfl).symm fun hOver => (overruns_cons.mp hOver).1 hEnd
  | case4 room c file hGo ih =>
    obtain ⟨hNewline, hNe⟩ := not_or.mp hGo
    rw [skipLine, if_neg hNewline, ih fun hDelim => h ((delimited_cons hNe).mpr hDelim), overruns_cons, and_iff_right hGo]

lemma tagRead_unknown {c : UInt8} (hLine : c ≠ newline) {stored rest : Bytes} :
    TagRead (c :: file) ((.unknown, stored), rest) ↔ rest = skipLine file := by
  rw [← show skipLine (c :: file) = skipLine file from if_neg hLine]
  exact ⟨fun h => h.others (by rintro ⟨⟩), fun h => ⟨by rintro ⟨⟩, by rintro ⟨⟩, fun _ => h⟩⟩

end

/-- The tag, the name and the position are as they should be exactly if there is room for the name of the line. -/
theorem config_read_tag_iff (bufsize : Nat) (file : Bytes) :
    TagRead file (configReadTag bufsize file) ↔ ¬Overlong bufsize file := by
  cases file with
  | nil => exact iff_of_true ⟨by rintro ⟨⟩, by rintro ⟨⟩, fun _ => rfl⟩ id
  | cons c file =>
    unfold configReadTag Overlong
    dsimp only
    split_ifs with hLine hComment hScope hFound hAssign hFound
    · refine iff_of_true ⟨by rintro ⟨⟩, by rintro ⟨⟩, fun _ => ?_⟩ fun h => h.1 hLine
      rw [skipLine, if_pos hLine]
    · refine iff_of_true ⟨by rintro ⟨⟩, by rintro ⟨⟩, fun _ => ?_⟩ fun h => h.2.1 hComment
      rw [skipLine, if_neg hLine]
    · obtain ⟨hRoom, name, hFile, hName, hText, hStored⟩ := copyUntil_delimited (by decide) hFound
      refine iff_of_true ⟨by rintro ⟨⟩, fun _ => ⟨name, (copyUntil ']'.toUInt8 bufsize file).2, ?_, hName, hText, ?_⟩,
        fun _ => ?_⟩ fun h => hRoom (h.2.2.2.1 hScope)
      · rw [hScope, cons_append, ← hFile]
      · rw [hStored, dropLast_concat]
      · have hSkip := congrArg skipLine hFile
        rw [skipLine_append hText] at hSkip
        rw [skipLine, if_neg hLine, hSkip]
        rfl
    · rw [tagRead_unknown hLine, copyUntil_missed hFound]
      have hKinds : '['.toUInt8 ≠ newline ∧ '['.toUInt8 ≠ '#'.toUInt8 ∧ '['.toUInt8 ≠ '='.toUInt8 := by decide
      simp [hScope, hKinds]
    · refine iff_of_true ⟨fun _ => ⟨[], ?_, not_mem_nil, not_mem_nil, rfl⟩, by rintro ⟨⟩, fun h => absurd rfl h⟩
        fun h => h.2.2.1 hAssign
      rw [hAssign, nil_append]
    · obtain ⟨hRoom, name, hFile, hName, hText, hStored⟩ := copyUntil_delimited (by decide) hFound
      refine iff_of_true ⟨fun _ => ⟨c :: name, ?_, ?_, ?_, ?_⟩, by rintro ⟨⟩, fun h => absurd rfl h⟩
        fun h => hRoom (h.2.2.2.2 hScope)
      · exact congrArg (c :: ·) hFile
      · exact not_mem_cons_of_ne_of_not_mem (Ne.symm hAssign) hName
      · exact not_mem_cons_of_ne_of_not_mem (Ne.symm hLine) hText
      · rw [hStored, dropLast_concat, cons_append]
    · rw [tagRead_unknown hLine, copyUntil_missed hFound]
      simp [hLine, hComment, hScope, hAssign]

theorem config_read_tag_overlong : configReadTag 2 (chars ['a', 'b', 'c', '=', '1']) =
    ((.unknown, chars ['a', 'b']), chars ['c', '=', '1']) := by
  decide

end Fixos.Bootloader
