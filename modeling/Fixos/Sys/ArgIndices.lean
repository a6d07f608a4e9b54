import Fixos.Sys.ArgBounds

/-! # The pages an argument copy asks for (`sys/process.c`)

`copy_arg_array` goes through its table of pages with three cursors.
-/

namespace Fixos.Sys

open Arch List Option

/-- What a call of `copy_arg_array` uses, the position it leaves and what it returns. -/
structure ArgCall where
  used : List Nat
  pos : Nat
  ret : Int

def copyArgArrayCall (beginPos : Nat) (args : List Bytes) : ArgCall :=
  let plan := arrayPlan beginPos args
  ⟨plan.1.map ArgOp.page, plan.2.abspos, 0⟩

def ArgCall.copy (pos : Nat) : Option (List Bytes) → ArgCall
  | none => ⟨[], pos, 0⟩
  | some args => copyArgArrayCall pos args

/-- The indices used before the old image is given up, and what is returned if it does not come to that. -/
def execveCall (opened : Bool) (argv envp : Option (List Bytes)) : List Nat × Option Int :=
  if opened then
    let first := ArgCall.copy 0 argv
    let second := ArgCall.copy first.pos envp
    -- the two results are dropped
    (first.used ++ second.used, none)
  else ([], some (-1))

/-- The strings end before the last page of the table is full, and the `NULL` pointer after the array
lies in the table. -/
structure ArgsInside (pos : Nat) (args : List Bytes) : Prop where
  strings : packedEnd pos args < processArgMaxPages * pmPageBytes
  pointers : arrayPlace (alignPos (pos + (args.length + 1) * 4)) + args.length * 4 <
    processArgMaxPages * pmPageBytes

lemma copyArgArrayCall_inside (pos : Nat) (args : List Bytes) :
    (∀ i ∈ (copyArgArrayCall pos args).used, i < processArgMaxPages) ↔ ArgsInside pos args := by
  obtain ⟨_, _, _⟩ := alignPos_spec (pos + (args.length + 1) * 4)
  have hInside := (arrayPlan_stored pos args).inside_iff (by omega) processArgMaxPages
  rw [copyArgArrayCall, List.forall_mem_map, hInside]
  exact ⟨fun h => ⟨h.1, h.2⟩, fun h => ⟨h.strings, h.pointers⟩⟩

lemma ArgCall.copy_inside (pos : Nat) (strings : Option (List Bytes)) :
    (∀ i ∈ (ArgCall.copy pos strings).used, i < processArgMaxPages) ↔
      ∀ args, strings = some args → ArgsInside pos args := by
  cases strings with
  | none =>
    refine ⟨?_, fun _ => forall_mem_nil _⟩
    rintro _ _ ⟨⟩
  | some args =>
    refine (copyArgArrayCall_inside pos args).trans ⟨?_, fun h => h args rfl⟩
    rintro hInside _ ⟨⟩
    exact hInside

lemma ArgCall.copy_pos (argv : Option (List Bytes)) : (ArgCall.copy 0 argv).pos = (argLayout argv none).pos := by
  cases argv with
  | none => rfl
  | some args => exact (arrayPlan_stored 0 args).pos_eq

/-- No index is beyond the table, or the caller gets an error while the process still has its old image. -/
def PagesChecked (opened : Bool) (argv envp : Option (List Bytes)) : Prop :=
  (∀ i ∈ (execveCall opened argv envp).1, i < processArgMaxPages) ∨
    ∃ e < 0, (execveCall opened argv envp).2 = some e

/-- Just when the strings and the pointers of both arrays stay inside the table, or there is no file
to execute. -/
theorem pages_checked_iff (opened : Bool) (argv envp : Option (List Bytes)) : PagesChecked opened argv envp ↔
      (opened = true → (∀ args, argv = some args → ArgsInside 0 args) ∧
        ∀ args, envp = some args → ArgsInside (argLayout argv none).pos args) := by
  cases opened with
  | false =>
    refine ⟨?_, fun _ => Or.inr ⟨-1, by decide, rfl⟩⟩
    rintro _ ⟨⟩
  | true =>
    have hError : ¬ ∃ e < 0, (execveCall true argv envp).2 = some e := by
      rintro ⟨e, _, hReturned⟩
      cases hReturned
    rw [PagesChecked, or_iff_left hError, ← ArgCall.copy_inside 0 argv, ← ArgCall.copy_pos argv,
      ← ArgCall.copy_inside _ envp]
    simp only [execveCall, if_true, mem_append, or_imp, forall_and, true_imp_iff]

theorem pages_checked_argStrings : PagesChecked true (some argStrings) (some [[66, 0]]) := by
  refine (pages_checked_iff true (some argStrings) (some [[66, 0]])).mpr fun _ => ⟨?_, ?_⟩
  · rintro _ ⟨⟩
    exact ⟨by decide +kernel, by decide +kernel⟩
  · rintro _ ⟨⟩
    exact ⟨by decide +kernel, by decide +kernel⟩

def longString : Bytes := replicate 4999 65 ++ [0]

theorem long_string_unchecked : execveCall true (some [longString]) none = ([0, 0, 1, 1, 2, 2, 3, 3, 4, 4, 0, 0], none) ∧
      ¬ PagesChecked true (some [longString]) none := by
  have hCall : execveCall true (some [longString]) none = ([0, 0, 1, 1, 2, 2, 3, 3, 4, 4, 0, 0], none) := by
    decide +kernel
  refine ⟨hCall, ?_⟩
  rw [PagesChecked, hCall]
  rintro (hInside | ⟨e, _, hReturned⟩)
  · exact absurd (hInside 4 (by decide)) (by decide)
  · cases hReturned

end Fixos.Sys
