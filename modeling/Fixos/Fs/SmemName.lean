import Mathlib.Data.List.TakeWhile
import Fixos.Lib.Buffer
import Fixos.Fs.FileSystem

/-! # Comparing a name with a header (`cmpstr2fhn`)

The string is brought into the form of the table in a buffer of thirteen bytes, which has any
contents before.
-/

namespace Fixos.Fs

open Buffer List

inductive CaseRule where
  | noChange
  | upper
  | auto
deriving DecidableEq

/-- A string in memory has a zero behind its last character. -/
def charAt (str : Bytes) (i : Nat) : UInt8 := str.getD i 0

def copyChars (stop : UInt8 → Bool) : Nat → Bytes → Bytes → Nat → Option (Bytes × Nat)
  | 0, _, s, i => some (s, i)
  | _ + 1, [], s, i => some (s, i)
  | turns + 1, c :: src, s, i =>
    if stop c then some (s, i) else (store s i c).bind fun s => copyChars stop turns src s (i + 1)

/-- The loop over the characters that do not fit: `j` is the place of the dot, or of the end. -/
def skipToDot : Bytes → Nat → Nat
  | [], j => j
  | c :: src, j => if c = 46 then j else skipToDot src (j + 1)

def storeTilde (str s : Bytes) (i : Nat) : Option Bytes :=
  if i = 8 ∧ charAt str 8 ≠ 46 ∧ charAt str 8 ≠ 0 then (store s 6 126).bind fun s => store s 7 49 else some s

def dotPlace (str : Bytes) (i : Nat) : Nat :=
  if charAt str i ≠ 46 ∧ charAt str i ≠ 0 then skipToDot (str.drop i) i else i

def copyExtension (str s : Bytes) (i j : Nat) : Option (Bytes × Nat) :=
  if charAt str j ≠ 0 then copyChars (fun _ => false) 4 (str.drop j) s i else some (s, i)

/-- The contents of the buffer before the comparison; `none` if a character is stored behind its end. -/
def shortNameBuffer (s str : Bytes) : Option Bytes := do
  let (s, i) ← copyChars (· = 46) 8 str s 0
  let s ← storeTilde str s i
  let (s, i) ← copyExtension str s i (dotPlace str i)
  store s i 0

/-- A `char` is signed, so none above 127 is equal to a byte of the header. -/
def charMatches (rule : CaseRule) (c header : UInt8) : Bool :=
  c < 128 && match rule with
    | .auto => toUpper c = header || toLower c = header
    | .upper => toUpper c = header
    | .noChange => c = header

/-- The turns of the comparison from character `i` on; `j` tells that the string has not ended before. -/
def compareFrom (rule : CaseRule) (s header : Bytes) : Nat → Nat → Bool → Int
  | 0, _, _ => 0
  | turns + 1, i, j =>
    let j := j && s.getD i 0 ≠ 0
    let name := header.getD (i * 2 + 1) 0
    if (if j then charMatches rule (s.getD i 0) name else name = 0xFF) then compareFrom rule s header turns (i + 1) j
    else -i - 1

def nameBytes (fileName : List UInt16) : Bytes := fileName.flatMap fun c : UInt16 => [(c >>> 8).toUInt8, c.toUInt8]

def cmpstr2fhnCall (s str : Bytes) (fileName : List UInt16) (rule : CaseRule) : Option Int :=
  (shortNameBuffer s str).map fun s => compareFrom rule s (nameBytes fileName) 12 0 true

section

variable {str base rest s front : Bytes}

lemma copyChars_spec (stop : UInt8 → Bool) (turns : Nat) (src : Bytes) (h : front <+: s)
    (hRoom : front.length + turns ≤ s.length) :
    ∃ s', copyChars stop turns src s front.length =
        some (s', (front ++ (src.takeWhile fun c => !stop c).take turns).length) ∧
      front ++ (src.takeWhile fun c => !stop c).take turns <+: s' ∧ s'.length = s.length := by
  induction turns generalizing src s front with
  | zero =>
    refine ⟨s, ?_, ?_, rfl⟩
    · rw [copyChars, take_zero, append_nil]
    · rwa [take_zero, append_nil]
  | succ turns ih =>
    cases src with
    | nil =>
      refine ⟨s, ?_, ?_, rfl⟩
      · rw [copyChars, takeWhile_nil, take_nil, append_nil]
      · rwa [takeWhile_nil, take_nil, append_nil]
    | cons c src =>
      rw [copyChars]
      cases hStop : stop c with
      | true =>
        have hNone : (c :: src).takeWhile (fun c => !stop c) = [] := by
          rw [takeWhile_cons, hStop]
          rfl
        refine ⟨s, ?_, ?_, rfl⟩
        · rw [if_pos rfl, hNone, take_nil, append_nil]
        · rwa [hNone, take_nil, append_nil]
      | false =>
        have hMore : (c :: src).takeWhile (fun c => !stop c) = c :: src.takeWhile (fun c => !stop c) := by
          rw [takeWhile_cons, hStop]
          rfl
        obtain ⟨_, hStore, hFront, hLength⟩ := store_next h (by omega) c
        obtain ⟨s', hRest, hAll, hSame⟩ := ih src hFront (by rw [length_append, hLength]; simp; omega)
        rw [append_assoc, cons_append, nil_append] at hRest hAll
        refine ⟨s', ?_, ?_, hSame.trans hLength⟩
        · rw [if_neg Bool.false_ne_true, hStore, Option.bind_some, hMore, take_succ_cons, ← hRest,
            length_append, length_singleton]
        · rw [hMore, take_succ_cons]
          exact hAll

lemma skipToDot_eq (src : Bytes) (j : Nat) : skipToDot src j = j + (src.takeWhile (· ≠ 46)).length := by
  induction src generalizing j with
  | nil => rfl
  | cons c src ih =>
    rw [skipToDot, takeWhile_cons]
    by_cases hDot : c = 46
    · simp [hDot]
    · rw [if_neg hDot, ih, decide_eq_true hDot, if_pos rfl, length_cons]
      omega

structure DotSplit (str base rest : Bytes) : Prop where
  append : str = base ++ rest
  noDot : 46 ∉ base
  dot : ∀ c ∈ rest.head?, c = 46

lemma dotSplit (str : Bytes) : DotSplit str (str.takeWhile (· ≠ 46)) (str.drop (str.takeWhile (· ≠ 46)).length) := by
  have hDrop : str.drop (str.takeWhile (· ≠ 46)).length = str.dropWhile (· ≠ 46) := by
    conv_lhs => arg 2; rw [← takeWhile_append_dropWhile (p := fun c => decide (c ≠ 46)) (l := str)]
    exact drop_left
  refine ⟨?_, fun hMem => ?_, fun c hc => ?_⟩
  · rw [hDrop, takeWhile_append_dropWhile]
  · have hTest := mem_takeWhile_imp hMem
    simp at hTest
  · rw [hDrop] at hc
    have hTest := head?_dropWhile_not (fun c => decide (c ≠ 46)) str
    rw [hc] at hTest
    simpa using hTest

lemma DotSplit.takeWhile_drop (h : DotSplit str base rest) (n : Nat) (hn : n ≤ base.length) :
    (str.drop n).takeWhile (· ≠ 46) = base.drop n := by
  have hBase : ∀ c ∈ base.drop n, decide (c ≠ 46) = true := by
    intro c hc
    refine decide_eq_true fun hDot => h.noDot ?_
    exact hDot ▸ mem_of_mem_drop hc
  have hRest : rest.takeWhile (· ≠ 46) = [] := by
    cases hCase : rest with
    | nil => rfl
    | cons c rest' =>
      have hDot := h.dot c (by rw [hCase]; rfl)
      rw [takeWhile_cons, hDot]
      rfl
  rw [h.append, drop_append_of_le_length hn, takeWhile_append_of_pos hBase, hRest, append_nil]

lemma DotSplit.inside_iff (h : DotSplit str base rest) (hNul : 0 ∉ str) {i : Nat} (hi : i ≤ base.length) :
    (charAt str i ≠ 46 ∧ charAt str i ≠ 0) ↔ i < base.length := by
  rw [charAt, getD_eq_getElem?_getD, h.append]
  rcases Nat.lt_or_eq_of_le hi with hLt | hEq
  · rw [getElem?_append_left hLt, getElem?_eq_getElem hLt, Option.getD_some]
    have hMem : base[i] ∈ base := getElem_mem hLt
    refine iff_of_true ⟨fun hDot => h.noDot (hDot ▸ hMem), fun hZero => hNul ?_⟩ hLt
    rw [h.append]
    exact mem_append_left _ (hZero ▸ hMem)
  · rw [hEq, getElem?_append_right (Nat.le_refl _), Nat.sub_self, ← head?_eq_getElem?]
    refine iff_of_false (fun hBoth => ?_) (Nat.lt_irrefl _)
    cases hHead : rest.head? with
    | none =>
      rw [hHead] at hBoth
      exact hBoth.2 rfl
    | some c =>
      rw [hHead] at hBoth
      exact hBoth.1 (h.dot c hHead)

def shortBase (base : Bytes) : Bytes := if base.length > 8 then base.take 6 ++ [126, 49] else base

lemma shortName_eq (h : DotSplit str base rest) : shortName str = shortBase base ++ rest.take 4 := by
  have hBase : str.takeWhile (· ≠ 46) = base := h.takeWhile_drop 0 (Nat.zero_le _)
  have hRest : str.drop base.length = rest := by
    rw [h.append, drop_left]
  unfold shortName
  dsimp only
  rw [hBase, hRest]
  rfl

lemma shortBase_length_le (base : Bytes) : (shortBase base).length ≤ 8 := by
  unfold shortBase
  split
  · rw [length_append, length_take]
    exact Nat.add_le_add_right (Nat.min_le_left 6 _) 2
  · omega

lemma length_shortName_le (str : Bytes) : (shortName str).length ≤ 12 := by
  have hBase := shortBase_length_le (str.takeWhile (· ≠ 46))
  rw [shortName_eq (dotSplit str), length_append, length_take]
  omega

lemma store_tilde (h : base.take 8 <+: s) (hLong : 8 < base.length) :
    ∃ s', ((store s 6 126).bind fun s => store s 7 49) = some s' ∧ shortBase base <+: s' ∧ s'.length = s.length := by
  have hLength : (base.take 8).length = 8 := length_take_of_le hLong.le
  obtain ⟨_, hFirst, hFront, hSame⟩ := store_inside h (show 6 < (base.take 8).length by omega) 126
  obtain ⟨s₂, hSecond, hBoth, hSame'⟩ := store_inside hFront (show 7 < _ by rw [length_set]; omega) 49
  refine ⟨s₂, ?_, ?_, hSame'.trans hSame⟩
  · rw [hFirst]
    exact hSecond
  · have hSplit : base.take 8 = base.take 6 ++ [base[6], base[7]] := by
      rw [take_add_one, take_add_one, getElem?_eq_getElem (by omega), getElem?_eq_getElem (by omega), append_assoc]
      rfl
    have hSix : (base.take 6).length = 6 := length_take_of_le (by omega)
    have hShort : ((base.take 8).set 6 126).set 7 49 = shortBase base := by
      rw [hSplit, set_append_right _ _ hSix.le, hSix, set_append_right _ _ (by omega), hSix, shortBase, if_pos hLong]
      rfl
    rwa [hShort] at hBoth

section

variable (h : DotSplit str base rest) (hNul : 0 ∉ str)
include h

lemma DotSplit.copyBase (hs : s.length = 13) :
    ∃ s', copyChars (· = 46) 8 str s 0 = some (s', (base.take 8).length) ∧ base.take 8 <+: s' ∧ s'.length = 13 := by
  have hEmpty : [] <+: s := nil_prefix
  obtain ⟨s', hCopy, hFront, hLength⟩ := copyChars_spec (· = 46) 8 str hEmpty (by rw [hs]; decide)
  have hBase : (str.takeWhile fun c => !decide (c = 46)) = base := by
    simpa using h.takeWhile_drop 0 (Nat.zero_le _)
  rw [hBase, nil_append] at hCopy hFront
  exact ⟨s', hCopy, hFront, hLength.trans hs⟩

include hNul

lemma DotSplit.tilde (hs : s.length = 13) (hFront : base.take 8 <+: s) :
    ∃ s', storeTilde str s (base.take 8).length = some s' ∧ shortBase base <+: s' ∧ s'.length = 13 := by
  unfold storeTilde
  by_cases hLong : 8 < base.length
  · have hEight : (base.take 8).length = 8 := length_take_of_le hLong.le
    obtain ⟨s', hStore, hShort, hLength⟩ := store_tilde hFront hLong
    refine ⟨s', ?_, hShort, hLength.trans hs⟩
    rw [if_pos ⟨hEight, (h.inside_iff hNul hLong.le).mpr hLong⟩, hStore]
  · have hTake : base.take 8 = base := take_of_length_le (Nat.not_lt.mp hLong)
    rw [hTake] at hFront ⊢
    refine ⟨s, if_neg ?_, ?_, hs⟩
    · rintro ⟨hEight, hInside⟩
      exact hLong ((h.inside_iff hNul hEight.ge).mp hInside)
    · rwa [shortBase, if_neg hLong]

lemma DotSplit.dotPlace_eq : dotPlace str (base.take 8).length = base.length := by
  unfold dotPlace
  have hLe : (base.take 8).length ≤ base.length := length_take_le' _ _
  by_cases hMore : (base.take 8).length < base.length
  · rw [if_pos ((h.inside_iff hNul hLe).mpr hMore), skipToDot_eq, h.takeWhile_drop _ hLe, length_drop]
    omega
  · rw [if_neg fun hInside => hMore ((h.inside_iff hNul hLe).mp hInside)]
    omega

lemma DotSplit.extension (hs : s.length = 13) (hFront : shortBase base <+: s) :
    ∃ s', copyExtension str s (shortBase base).length base.length = some (s', (shortName str).length) ∧
      shortName str <+: s' ∧ s'.length = 13 := by
  have hRest : str.drop base.length = rest := by
    rw [h.append, drop_left]
  have hChar : charAt str base.length = rest.headD 0 := by
    rw [charAt, getD_eq_getElem?_getD, ← head?_drop, hRest, headD_eq_head?_getD]
  rw [copyExtension, hChar, hRest, shortName_eq h]
  cases rest with
  | nil =>
    rw [take_nil, append_nil]
    exact ⟨s, if_neg fun hNot => hNot rfl, hFront, hs⟩
  | cons c rest =>
    have hSome : c ≠ 0 := by
      rintro rfl
      rw [h.append] at hNul
      exact hNul (mem_append_right _ mem_cons_self)
    have hBase := shortBase_length_le base
    obtain ⟨s', hCopy, hAll, hLength⟩ := copyChars_spec (fun _ => false) 4 (c :: rest) hFront (by omega)
    have hWhole : ((c :: rest).takeWhile fun _ => !false) = c :: rest := takeWhile_eq_self_iff.mpr fun _ _ => rfl
    rw [hWhole] at hCopy hAll
    exact ⟨s', (if_pos hSome).trans hCopy, hAll, hLength.trans hs⟩

end

lemma shortNameBuffer_spec (hNul : 0 ∉ str) (hs : s.length = 13) :
    ∃ s', shortNameBuffer s str = some s' ∧ shortName str ++ [0] <+: s' := by
  obtain ⟨base, rest, h⟩ : ∃ base rest, DotSplit str base rest := ⟨_, _, dotSplit str⟩
  obtain ⟨_, hCopy, hFront, hLength⟩ := h.copyBase hs
  obtain ⟨_, hTilde, hShort, hLength₂⟩ := h.tilde hNul hLength hFront
  have hSame : (base.take 8).length = (shortBase base).length := by
    unfold shortBase
    split
    · rw [length_append, length_take, length_take, length_cons, length_singleton]
      omega
    · rw [length_take]
      omega
  obtain ⟨_, hExtension, hName, _⟩ := h.extension hNul hLength₂ hShort
  have hRoom := length_shortName_le str
  obtain ⟨s₄, hEnd, hAll, _⟩ := store_next hName (by omega) 0
  refine ⟨s₄, ?_, hAll⟩
  rw [shortNameBuffer, hCopy]
  simp only [Option.bind_eq_bind, Option.bind_some]
  rw [hTilde, h.dotPlace_eq hNul, hSame]
  simp only [Option.bind_some]
  rw [hExtension]
  exact hEnd

end

variable {str s name : Bytes}

def MatchesAt (rule : CaseRule) (name header : Bytes) (i : Nat) : Prop :=
  match name[i]? with
  | some c => charMatches rule c (header.getD i 0) = true
  | none => header.getD i 0 = 0xFF

lemma getD_nameBytes (fileName : List UInt16) (i : Nat) :
    (nameBytes fileName).getD (i * 2 + 1) 0 = (fileName.map UInt16.toUInt8).getD i 0 := by
  induction fileName generalizing i with
  | nil => rfl
  | cons c fileName ih =>
    cases i with
    | zero => rfl
    | succ i =>
      have hIndex : (i + 1) * 2 + 1 = (i * 2 + 1) + 1 + 1 := by omega
      rw [hIndex]
      exact ih i

lemma getD_of_holds (hs : name ++ [0] <+: s) {i : Nat} (hi : i ≤ name.length) : s.getD i 0 = name.getD i 0 := by
  obtain ⟨_, rfl⟩ := hs
  rw [append_assoc]
  rcases Nat.lt_or_ge i name.length with hIn | hOut
  · exact getD_append _ _ _ _ hIn
  · rw [getD_append_right _ _ _ _ hOut, Nat.sub_eq_zero_of_le hi, getD_eq_default _ _ hOut]
    rfl

lemma getD_ne_zero_iff (hNul : 0 ∉ name) (i : Nat) : name.getD i 0 ≠ 0 ↔ i < name.length := by
  rcases Nat.lt_or_ge i name.length with hIn | hOut
  · refine iff_of_true (fun hZero => hNul ?_) hIn
    rw [← hZero, getD_eq_getElem _ _ hIn]
    exact getElem_mem hIn
  · exact iff_of_false (fun hNot => hNot (getD_eq_default _ _ hOut)) hOut.not_gt

/-- Before place `i` the string has not ended if and only if `i` is at most its length. -/
lemma compareFrom_eq_zero_iff (rule : CaseRule) (hs : name ++ [0] <+: s) (hNul : 0 ∉ name) (fileName : List UInt16)
    (turns i : Nat) :
    compareFrom rule s (nameBytes fileName) turns i (decide (i ≤ name.length)) = 0 ↔
      ∀ k, i ≤ k → k < i + turns → MatchesAt rule name (fileName.map UInt16.toUInt8) k := by
  induction turns generalizing i with
  | zero =>
    refine iff_of_true rfl fun k hLow hHigh => ?_
    omega
  | succ turns ih =>
    have hGoes : (decide (i ≤ name.length) && decide (s.getD i 0 ≠ 0)) = decide (i + 1 ≤ name.length) := by
      rw [← Bool.decide_and]
      refine decide_eq_decide.mpr ⟨fun ⟨hLe, hChar⟩ => ?_, fun hLt => ⟨by omega, ?_⟩⟩
      · rw [getD_of_holds hs hLe] at hChar
        exact (getD_ne_zero_iff hNul i).mp hChar
      · rw [getD_of_holds hs (by omega)]
        exact (getD_ne_zero_iff hNul i).mpr hLt
    have hHere : (if decide (i + 1 ≤ name.length) then
          charMatches rule (s.getD i 0) ((nameBytes fileName).getD (i * 2 + 1) 0)
        else decide ((nameBytes fileName).getD (i * 2 + 1) 0 = 0xFF)) = true ↔
          MatchesAt rule name (fileName.map UInt16.toUInt8) i := by
      rw [getD_nameBytes, MatchesAt]
      by_cases hIn : i < name.length
      · rw [decide_eq_true (p := i + 1 ≤ name.length) hIn, if_pos rfl, getD_of_holds hs hIn.le,
          getD_eq_getElem _ _ hIn, getElem?_eq_getElem hIn]
      · rw [decide_eq_false (p := i + 1 ≤ name.length) hIn, if_neg Bool.false_ne_true, getElem?_eq_none (Nat.not_lt.mp hIn)]
        exact decide_eq_true_iff
    have hSplit : (∀ k, i ≤ k → k < i + (turns + 1) → MatchesAt rule name (fileName.map UInt16.toUInt8) k) ↔
        MatchesAt rule name (fileName.map UInt16.toUInt8) i ∧
          ∀ k, i + 1 ≤ k → k < i + 1 + turns → MatchesAt rule name (fileName.map UInt16.toUInt8) k := by
      refine ⟨fun hAll => ⟨hAll i le_rfl (by omega), fun k hLow hHigh => hAll k (by omega) (by omega)⟩, ?_⟩
      rintro ⟨hFirst, hRest⟩ k hLow hHigh
      rcases Nat.eq_or_lt_of_le hLow with rfl | hLt
      · exact hFirst
      · exact hRest k hLt (by omega)
    rw [compareFrom, hGoes, hSplit, ← ih]
    by_cases hMatch : MatchesAt rule name (fileName.map UInt16.toUInt8) i
    · rw [if_pos (hHere.mpr hMatch)]
      exact (and_iff_right hMatch).symm
    · rw [if_neg fun hNow => hMatch (hHere.mp hNow)]
      refine iff_of_false ?_ fun hBoth => hMatch hBoth.1
      omega

lemma mem_shortName {c : UInt8} (hc : c ∈ shortName str) : c ∈ str ∨ c = 126 ∨ c = 49 := by
  rw [shortName_eq (dotSplit str), mem_append] at hc
  rcases hc with hBase | hRest
  · unfold shortBase at hBase
    split at hBase
    · rcases mem_append.mp hBase with hTake | hTilde
      · exact Or.inl ((takeWhile_sublist _).mem (mem_of_mem_take hTake))
      · rw [mem_cons, mem_singleton] at hTilde
        exact Or.inr hTilde
    · exact Or.inl ((takeWhile_sublist _).mem hBase)
  · exact Or.inl (mem_of_mem_drop (mem_of_mem_take hRest))

lemma zero_notMem_shortName (hNul : 0 ∉ str) : 0 ∉ shortName str := by
  intro hMem
  rcases mem_shortName hMem with hStr | hTilde | hDigit
  · exact hNul hStr
  · exact absurd hTilde (by decide)
  · exact absurd hDigit (by decide)

lemma cmpstr2fhnCall_spec (hNul : 0 ∉ str) (hs : s.length = 13) (fileName : List UInt16) :
    ∃ ret, cmpstr2fhnCall s str fileName .auto = some ret ∧
      (ret = 0 ↔ cmpstr2fhn str (fileName.map UInt16.toUInt8) = true) := by
  obtain ⟨_, hBuffer, hHolds⟩ := shortNameBuffer_spec hNul hs
  refine ⟨_, by rw [cmpstr2fhnCall, hBuffer, Option.map_some], ?_⟩
  have hZero := compareFrom_eq_zero_iff .auto hHolds (zero_notMem_shortName hNul) fileName 12 0
  rw [decide_eq_true (Nat.zero_le _)] at hZero
  rw [hZero, cmpstr2fhn, all_eq_true]
  refine forall_congr' fun k => ?_
  rw [mem_range, Nat.zero_add, forall_prop_of_true (Nat.zero_le k)]
  refine imp_congr_right fun _ => ?_
  unfold MatchesAt charMatches
  cases (shortName str)[k]? with
  | none => exact decide_eq_true_iff.symm
  | some c => rfl

lemma letter_matches_iff (c header : UInt8) : toUpper c = header ∨ toLower c = header ↔ toLower header = toLower c := by
  unfold toUpper toLower
  simp only [UInt8.le_iff_toNat_le, ← UInt8.toNat_inj]
  split <;> split <;> split <;> simp_all [UInt8.toNat_add, UInt8.toNat_sub] <;> omega

lemma toLower_eq_fill_iff (header : UInt8) : header = 0xFF ↔ toLower header = 0xFF := by
  have hFill : toUpper 0xFF = header ∨ toLower 0xFF = header ↔ header = 0xFF := by
    rw [show toUpper 0xFF = 0xFF from rfl, show toLower 0xFF = 0xFF from rfl, or_self, eq_comm]
  rw [← hFill, letter_matches_iff]
  rfl

/-- A name as it stands in a header: in lower case, with 0xFF behind its end. -/
def paddedName (name : Bytes) : Bytes := name.map toLower ++ replicate (12 - name.length) 0xFF

lemma length_paddedName {name : Bytes} (h : name.length ≤ 12) : (paddedName name).length = 12 := by
  rw [paddedName, length_append, length_map, length_replicate]
  omega

lemma place_matches_iff {name : Bytes} (hAscii : ∀ c ∈ name, c < 128) {k : Nat} (hk : k < (paddedName name).length)
    (header : UInt8) :
    (match name[k]? with
      | some c => decide (c < 128) && (decide (toUpper c = header) || decide (toLower c = header))
      | none => decide (header = 0xFF)) = true ↔ toLower header = (paddedName name)[k] := by
  by_cases hIn : k < name.length
  · have hPlace : (paddedName name)[k] = toLower name[k] := by
      simp [paddedName, hIn]
    rw [hPlace, getElem?_eq_getElem hIn]
    dsimp only
    rw [decide_eq_true (hAscii _ (getElem_mem hIn)), Bool.true_and, Bool.or_eq_true, decide_eq_true_iff,
      decide_eq_true_iff, letter_matches_iff]
  · have hPlace : (paddedName name)[k] = 0xFF := by
      simp [paddedName, getElem_append, hIn]
    rw [hPlace, getElem?_eq_none (Nat.not_lt.mp hIn)]
    rw [decide_eq_true_iff, toLower_eq_fill_iff]

lemma cmpstr2fhn_iff {header : Bytes} (hAscii : ∀ c ∈ str, c < 128) (hHeader : header.length = 12) :
    cmpstr2fhn str header = true ↔ header.map toLower = paddedName (shortName str) := by
  have hShort : ∀ c ∈ shortName str, c < 128 := by
    intro c hc
    rcases mem_shortName hc with hMem | rfl | rfl
    · exact hAscii c hMem
    · decide
    · decide
  have hLength := length_paddedName (length_shortName_le str)
  rw [cmpstr2fhn, all_eq_true]
  constructor
  · intro hAll
    refine ext_getElem (by rw [length_map, hHeader, hLength]) fun k hk _ => ?_
    rw [length_map, hHeader] at hk
    have hHere := hAll k (mem_range.mpr hk)
    rw [getD_eq_getElem _ _ (hk.trans_eq hHeader.symm)] at hHere
    rw [getElem_map]
    exact (place_matches_iff hShort (by omega) _).mp hHere
  · intro hEq k hk
    rw [mem_range] at hk
    rw [getD_eq_getElem _ _ (hk.trans_eq hHeader.symm)]
    refine (place_matches_iff hShort (by omega) _).mpr ?_
    rw [← getElem_map toLower (h := by rw [length_map]; omega)]
    exact getElem_of_eq hEq _

/-- For an ASCII string the comparison finds the names that are its short form up to letter case, and it stores nothing
behind the end of the buffer. -/
theorem cmpstr2fhn_returns_zero_iff {fileName : List UInt16} (hNul : 0 ∉ str) (hAscii : ∀ c ∈ str, c < 128)
    (hName : fileName.length = 12) (hs : s.length = 13) :
    ∃ ret, cmpstr2fhnCall s str fileName .auto = some ret ∧
      (ret = 0 ↔ (fileName.map UInt16.toUInt8).map toLower = paddedName (shortName str)) := by
  obtain ⟨ret, hCall, hZero⟩ := cmpstr2fhnCall_spec hNul hs fileName
  refine ⟨ret, hCall, hZero.trans (cmpstr2fhn_iff hAscii ?_)⟩
  rwa [length_map]

theorem cmpstr2fhn_returns_zero_longNames :
    cmpstr2fhnCall (replicate 13 0xAA) [76, 111, 110, 103, 78, 97, 109, 101, 115, 46, 104, 116, 109, 108]
      [0x4C, 0x4F, 0x4E, 0x47, 0x4E, 0x41, 0x7E, 0x31, 0x2E, 0x48, 0x54, 0x4D] .auto = some 0 := by
  have hAscii : ∀ c ∈ ([76, 111, 110, 103, 78, 97, 109, 101, 115, 46, 104, 116, 109, 108] : Bytes), c < 128 := by
    decide +kernel
  have hName : length ([0x4C, 0x4F, 0x4E, 0x47, 0x4E, 0x41, 0x7E, 0x31, 0x2E, 0x48, 0x54, 0x4D] : List UInt16) = 12 := rfl
  obtain ⟨_, hCall, hZero⟩ := cmpstr2fhn_returns_zero_iff (s := replicate 13 0xAA) (by decide) hAscii hName rfl
  rw [hCall, hZero.mpr (by decide +kernel)]

end Fixos.Fs
