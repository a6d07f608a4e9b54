import Fixos.Sys.Exec

/-! # Where `execve` puts its arguments

The places of the strings and of the arrays of pointers to them depend on the lengths of the strings
alone.
-/

namespace Fixos.Sys

open Arch Word Transition List Function

/-- `pages` pages have been taken, and `written i p` tells the bytes of page `i` stored so far. -/
structure ArgLayout where
  pos : Nat
  pages : Nat
  written : Nat → Nat → Bool

/-- Counted down from the end of the stack, where page 0 is. -/
def stackOffset (i p : Nat) : Nat := i * pmPageBytes + (pmPageBytes - p)

lemma stackOffset_next (i : Nat) : stackOffset (i + 1) pmPageBytes = i * pmPageBytes + pmPageBytes := by
  rw [stackOffset, Nat.sub_self, Nat.add_zero, Nat.succ_mul]

def InStrings (low high i p : Nat) : Prop := p < pmPageBytes ∧ low < stackOffset i p ∧ stackOffset i p ≤ high
deriving Decidable

def InArray (low high i p : Nat) : Prop :=
  p < pmPageBytes ∧ low ≤ i * pmPageBytes + p ∧ i * pmPageBytes + p < high
deriving Decidable

def stringBytes (args : List Bytes) : Nat := (args.map length).sum

/-- The others go upwards in the same page and then to the next page, although that one has lower addresses. -/
def arrayPlace (abspos : Nat) : Nat :=
  (abspos - 1) / pmPageBytes * pmPageBytes +
    (pmPageBytes - (abspos - (abspos - 1) / pmPageBytes * pmPageBytes))

def ArgLayout.add (l : ArgLayout) (args : List Bytes) : ArgLayout :=
  let abspos := alignPos (l.pos + (args.length + 1) * 4)
  let last := abspos + stringBytes args
  { pos := alignPos last
    pages := last / pmPageBytes + 1
    written := fun i p => l.written i p || InStrings abspos last i p ||
      InArray (arrayPlace abspos) (arrayPlace abspos + (args.length + 1) * 4) i p }

def argLayout (argv envp : Option (List Bytes)) : ArgLayout :=
  (argv.toList ++ envp.toList).foldl ArgLayout.add ⟨0, 0, fun _ _ => false⟩

def ArgOp.note (w : Nat → Nat → Option UInt8) : ArgOp → Nat → Nat → Option UInt8
  | .need _ => w
  | .store i pos bytes => fun j p => if j = i ∧ pos ≤ p ∧ p < pos + bytes.length then bytes[p - pos]? else w j p

/-- When it is `strict`, stores go to pages that are there. -/
def ArgOp.takes (strict : Bool) (n : Nat) : ArgOp → Option Nat
  | .need i => if i ≤ n then some (max n (i + 1)) else none
  | .store i _ _ => if strict → i < n then some n else none

structure ArgCursor.At (c : ArgCursor) (o : Nat) : Prop where
  pos : 0 < c.pagepos
  le : c.pagepos ≤ pmPageBytes
  offset : stackOffset c.curpage c.pagepos = o

structure ArgCursor.Slot (c : ArgCursor) (u : Nat) : Prop where
  lt : c.arrayPagepos < pmPageBytes
  aligned : c.arrayPagepos % 4 = 0
  place : c.arrayCurpage * pmPageBytes + c.arrayPagepos = u

/-- Operations that store `k` bytes from the position `o` on, the one at the distance `x` being `f x`. -/
structure StringStored (c : ArgCursor) (o k : Nat) (f : Nat → Option UInt8) (r : List ArgOp × ArgCursor) : Prop where
  position : r.2.At (o + k)
  rest : ∃ curpage pagepos, r.2 = { c with curpage, pagepos }
  note : ∀ w j p, r.1.foldl ArgOp.note w j p = if InStrings o (o + k) j p then f (stackOffset j p - o) else w j p
  takes : ∀ strict, r.1.foldlM (ArgOp.takes strict) (c.curpage + 1) = some (r.2.curpage + 1)

variable {strict : Bool} {n : Nat} {op : ArgOp} {ops : List ArgOp}

section

variable {c : ArgCursor} {o u : Nat} {arg : Bytes}

lemma ArgCursor.At.curpage_eq (hAt : c.At o) : c.curpage = o / pmPageBytes := by
  obtain ⟨_, _, _⟩ := hAt
  simp only [stackOffset, pmPageBytes] at *
  omega

lemma ArgCursor.Slot.place_eq (hSlot : c.Slot u) : u / pmPageBytes = c.arrayCurpage ∧ u % pmPageBytes = c.arrayPagepos := by
  obtain ⟨_, _, _⟩ := hSlot
  simp only [pmPageBytes] at *
  omega

lemma fragmentPlan_stored {done : Nat} (hAt : c.At o) (hLess : done < arg.length) :
    ∃ k, 0 < k ∧ done + k ≤ arg.length ∧ (fragmentPlan arg c done).2.2 = done + k ∧
      StringStored c o k (fun x => arg[arg.length - done - x]?)
        ((fragmentPlan arg c done).1, (fragmentPlan arg c done).2.1) := by
  obtain ⟨_, hLe, hOffset⟩ := hAt
  unfold fragmentPlan
  generalize hk : min (arg.length - done) c.pagepos = k
  have hLength : ((arg.drop (arg.length - (done + k))).take k).length = k := by
    rw [length_take, length_drop]
    omega
  have hNote : ∀ w j p, ArgOp.note w (.store c.curpage (c.pagepos - k) ((arg.drop (arg.length - (done + k))).take k)) j p =
        if InStrings o (o + k) j p then arg[arg.length - done - (stackOffset j p - o)]? else w j p := by
    intro w j p
    have hIn : (j = c.curpage ∧ c.pagepos - k ≤ p ∧ p < c.pagepos - k + k) ↔ InStrings o (o + k) j p := by
      simp only [InStrings, stackOffset, pmPageBytes] at *
      omega
    simp only [ArgOp.note, hLength, hIn]
    split_ifs with hHere
    · obtain ⟨_, _, _⟩ := hIn.mpr hHere
      have hIndex : arg.length - (done + k) + (p - (c.pagepos - k)) = arg.length - done - (stackOffset j p - o) := by
        simp only [InStrings, stackOffset, pmPageBytes] at *
        omega
      rw [getElem?_take_of_lt (by omega), getElem?_drop, hIndex]
    · rfl
  refine ⟨k, by omega, by omega, ?_⟩
  dsimp only
  split_ifs with hPart
  · refine ⟨rfl, ⟨show 0 < pmPageBytes by decide, Nat.le_refl _, ?_⟩, ⟨_, _, rfl⟩, hNote, fun strict => ?_⟩
    · rw [stackOffset_next, ← hOffset, stackOffset]
      omega
    · simp [ArgOp.takes]
  · refine ⟨rfl, ⟨Nat.pos_of_ne_zero hPart, (Nat.sub_le _ _).trans hLe, ?_⟩, ⟨_, _, rfl⟩, hNote, fun strict => ?_⟩
    · dsimp only
      rw [← hOffset, stackOffset, stackOffset]
      omega
    · simp [ArgOp.takes]

lemma StringStored.nothing (hAt : c.At o) (f : Nat → Option UInt8) : StringStored c o 0 f ([], c) := by
  refine ⟨hAt, ⟨_, _, rfl⟩, fun w j p => ?_, fun _ => rfl⟩
  rw [if_neg fun hIn => Nat.not_le.mpr hIn.2.1 hIn.2.2]
  rfl

lemma stringPlan_stored {turns done : Nat} (hAt : c.At o) (hDone : done ≤ arg.length) (hTurns : arg.length ≤ done + turns) :
    StringStored c o (arg.length - done) (fun x => arg[arg.length - done - x]?) (stringPlan arg turns c done) := by
  induction turns generalizing c o done with
  | zero =>
    rw [show arg.length - done = 0 by omega]
    exact .nothing hAt _
  | succ turns ih =>
    unfold stringPlan
    split_ifs with hLess
    · obtain ⟨k, _, hLe, hNext, hFirst⟩ := fragmentPlan_stored hAt hLess
      have hRest := ih hFirst.position hLe (by omega)
      rw [← hNext] at hRest
      refine ⟨?_, ?_, fun w j p => ?_, fun strict => ?_⟩
      · rw [show o + (arg.length - done) = o + k + (arg.length - (done + k)) by omega, ← hNext]
        exact hRest.position
      · obtain ⟨_, _, hc⟩ := hFirst.rest
        obtain ⟨curpage, pagepos, hc'⟩ := hRest.rest
        exact ⟨curpage, pagepos, hc'.trans (by rw [hc])⟩
      · rw [foldl_append, hRest.note, hFirst.note, hNext]
        -- a byte is of this fragment or of the rest
        by_cases hHere : InStrings o (o + k) j p
        · have hNot : ¬ InStrings (o + k) (o + k + (arg.length - (done + k))) j p := fun hIn =>
            Nat.not_le.mpr hIn.2.1 hHere.2.2
          rw [if_neg hNot, if_pos hHere, if_pos ⟨hHere.1, hHere.2.1, hHere.2.2.trans (by omega)⟩]
        · have hIff : InStrings (o + k) (o + k + (arg.length - (done + k))) j p ↔
              InStrings o (o + (arg.length - done)) j p := by
            simp only [InStrings] at hHere ⊢
            omega
          rw [if_neg hHere]
          simp only [hIff]
          split
          · congr 1
            simp only [InStrings] at *
            omega
          · rfl
      · rw [foldlM_append, hFirst.takes]
        exact hRest.takes strict
    · rw [Nat.sub_eq_zero_of_le (Nat.le_of_not_lt hLess)]
      exact .nothing hAt _

lemma ArgCursor.Slot.note (hSlot : c.Slot u) (vmaddr : Nat) (w : Nat → Nat → Option UInt8) (j p : Nat) :
    ArgOp.note w (c.pointerOp vmaddr) j p =
      if InArray u (u + 4) j p then (wordBytes vmaddr)[j * pmPageBytes + p - u]? else w j p := by
  obtain ⟨_, _, hPlace⟩ := hSlot
  have hLength : (wordBytes vmaddr).length = 4 := rfl
  have hIn : (j = c.arrayCurpage ∧ c.arrayPagepos ≤ p ∧ p < c.arrayPagepos + 4) ↔ InArray u (u + 4) j p := by
    simp only [InArray, pmPageBytes] at *
    omega
  simp only [ArgOp.note, ArgCursor.pointerOp, hLength, hIn]
  split_ifs with hHere
  · obtain ⟨rfl, _, _⟩ := hIn.mpr hHere
    rw [← hPlace, Nat.add_sub_add_left]
  · rfl

lemma wordBytes_covered {j p : Nat} (hArray : InArray u (u + 4) j p) (vmaddr : Nat) :
    ((wordBytes vmaddr)[j * pmPageBytes + p - u]?).isSome := by
  rw [getElem?_eq_getElem (show j * pmPageBytes + p - u < 4 by simp only [InArray] at hArray; omega)]
  rfl

lemma ArgCursor.Slot.takes (hSlot : c.Slot u) (hPage : strict → u / pmPageBytes < n) (vmaddr : Nat) :
    (c.pointerOp vmaddr).takes strict n = some n := by
  rw [hSlot.place_eq.1] at hPage
  exact if_pos hPage

lemma ArgCursor.Slot.next (hSlot : c.Slot u) : c.nextPointer.Slot (u + 4) := by
  obtain ⟨hLt, _, hPlace⟩ := hSlot
  unfold ArgCursor.nextPointer
  split_ifs with hFull
  · have hLast : c.arrayPagepos + 4 = pmPageBytes := by
      simp only [pmPageBytes] at *
      omega
    refine ⟨show 0 < pmPageBytes by decide, Nat.zero_mod 4, ?_⟩
    rw [Nat.succ_mul, Nat.add_zero, ← hPlace, Nat.add_assoc, hLast]
  · simp only [pmPageBytes] at hLt hPlace hFull
    constructor <;> simp only [pmPageBytes] <;> omega

structure ArgStored (c : ArgCursor) (o u : Nat) (arg : Bytes) (r : List ArgOp × ArgCursor) : Prop where
  position : r.2.At (o + arg.length)
  slot : r.2.Slot (u + 4)
  abspos : r.2.abspos = c.abspos + arg.length
  vmaddr : r.2.vmaddr = sub c.vmaddr arg.length
  note : ∀ w j p, r.1.foldl ArgOp.note w j p =
    if InArray u (u + 4) j p then (wordBytes (sub c.vmaddr arg.length))[j * pmPageBytes + p - u]?
    else if InStrings o (o + arg.length) j p then arg[arg.length - (stackOffset j p - o)]? else w j p
  takes : ∀ strict : Bool, (strict → u / pmPageBytes ≤ c.curpage) →
    r.1.foldlM (ArgOp.takes strict) (c.curpage + 1) = some (r.2.curpage + 1)
  pages : ∀ op ∈ r.1, op.page ≤ r.2.curpage ∨ op.page = u / pmPageBytes

lemma ArgOp.takes_page {n' : Nat} (h : op.takes strict n = some n') :
    n ≤ n' ∧ (strict → op.page < n') ∧ (n' = n ∨ n' = op.page + 1) := by
  cases op with
  | need i =>
    obtain ⟨_, ⟨⟩⟩ := Option.ite_none_right_eq_some.mp h
    simp only [ArgOp.page]
    omega
  | store i pos bytes =>
    obtain ⟨hLt, ⟨⟩⟩ := Option.ite_none_right_eq_some.mp h
    exact ⟨Nat.le_refl _, hLt, Or.inl rfl⟩

lemma takes_pages {n' : Nat} (h : ops.foldlM (ArgOp.takes strict) n = some n') :
    n ≤ n' ∧ (strict → ∀ op ∈ ops, op.page < n') ∧ (n' = n ∨ ∃ op ∈ ops, n' = op.page + 1) := by
  induction ops generalizing n with
  | nil =>
    cases h
    exact ⟨Nat.le_refl _, fun _ => forall_mem_nil _, Or.inl rfl⟩
  | cons op ops ih =>
    rw [foldlM_cons] at h
    obtain ⟨_, hOp, hRest⟩ := Option.bind_eq_some_iff.mp h
    obtain ⟨hLe, hPage, hFrom⟩ := ArgOp.takes_page hOp
    obtain ⟨hLe', hPages, hLast⟩ := ih hRest
    refine ⟨hLe.trans hLe', fun hStrict => ?_, ?_⟩
    · exact forall_mem_cons.mpr ⟨(hPage hStrict).trans_le hLe', hPages hStrict⟩
    · rcases hLast with rfl | ⟨op', hMem, hEq⟩
      · exact hFrom.imp_right fun hEq => ⟨op, mem_cons_self, hEq⟩
      · exact Or.inr ⟨op', mem_cons_of_mem op hMem, hEq⟩

lemma argPlan_stored (hAt : c.At o) (hSlot : c.Slot u) (arg : Bytes) : ArgStored c o u arg (argPlan c arg) := by
  obtain ⟨hPosition, ⟨_, _, hRest⟩, hNote, hTakes⟩ := stringPlan_stored hAt (Nat.zero_le _) (Nat.le_add_left arg.length 0)
  unfold argPlan
  generalize stringPlan arg arg.length c 0 = r at *
  obtain ⟨_, c₁⟩ := r
  dsimp only at hPosition hRest hNote hTakes ⊢
  have hSlot₁ : c₁.Slot u := hRest ▸ ⟨hSlot.lt, hSlot.aligned, hSlot.place⟩
  have hNext := hSlot₁.next
  obtain ⟨hCur, hPos⟩ : c₁.nextPointer.curpage = c₁.curpage ∧ c₁.nextPointer.pagepos = c₁.pagepos := by
    unfold ArgCursor.nextPointer
    split <;> exact ⟨rfl, rfl⟩
  have hVmaddr : c₁.vmaddr = c.vmaddr := hRest ▸ rfl
  have hAbspos : c₁.abspos = c.abspos := hRest ▸ rfl
  constructor
  case position => exact ⟨hPos ▸ hPosition.pos, hPos ▸ hPosition.le, hCur ▸ hPos ▸ hPosition.offset⟩
  case slot => exact ⟨hNext.lt, hNext.aligned, hNext.place⟩
  case abspos => rw [hAbspos]
  case vmaddr => rw [hVmaddr]
  case note =>
    intro w j p
    rw [foldl_append, foldl_cons, foldl_nil, hSlot₁.note, hNote, Nat.sub_zero, hVmaddr]
  case takes =>
    intro _ hPage
    have hLe : c.curpage ≤ c₁.curpage := by
      rw [hAt.curpage_eq, hPosition.curpage_eq]
      exact Nat.div_le_div_right (Nat.le_add_right _ _)
    rw [foldlM_append, hTakes, Option.bind_eq_bind, Option.bind_some, foldlM_cons,
      hSlot₁.takes fun hStrict => Nat.lt_succ_of_le ((hPage hStrict).trans hLe), hCur]
    rfl
  case pages =>
    intro op hOp
    rcases mem_append.mp hOp with hOp | hOp
    · left
      rw [hCur]
      exact Nat.le_of_lt_succ ((takes_pages (hTakes true)).2.1 rfl op hOp)
    · rw [mem_singleton.mp hOp]
      exact Or.inr hSlot₁.place_eq.1.symm

lemma ArgStored.covers {r : List ArgOp × ArgCursor} (h : ArgStored c o u arg r) (w : Nat → Nat → Option UInt8)
    (j p : Nat) : (r.1.foldl ArgOp.note w j p).isSome ↔
      (w j p).isSome ∨ InStrings o (o + arg.length) j p ∨ InArray u (u + 4) j p := by
  rw [h.note]
  split
  · rename_i hArray
    exact iff_of_true (wordBytes_covered hArray _) (Or.inr (Or.inr hArray))
  · split
    · rename_i hArray hString
      rw [getElem?_eq_getElem (by simp only [InStrings] at hString; omega)]
      simp [hString]
    · rename_i hArray hString
      simp [hArray, hString]

structure ArgsStored (c : ArgCursor) (o u : Nat) (args : List Bytes) (r : List ArgOp × ArgCursor) : Prop where
  position : r.2.At (o + stringBytes args)
  abspos : r.2.abspos = c.abspos + stringBytes args
  covers : ∀ w j p, (r.1.foldl ArgOp.note w j p).isSome ↔
    (w j p).isSome ∨ InStrings o (o + stringBytes args) j p ∨ InArray u (u + (args.length + 1) * 4) j p
  takes : ∀ strict : Bool,
    (strict → u % pmPageBytes + (args.length + 1) * 4 ≤ pmPageBytes ∧ u / pmPageBytes ≤ c.curpage) →
      r.1.foldlM (ArgOp.takes strict) (c.curpage + 1) = some (r.2.curpage + 1)
  pages : ∀ op ∈ r.1, op.page ≤ r.2.curpage ∨ op.page ≤ (u + args.length * 4) / pmPageBytes
  last : ∃ op ∈ r.1, op.page = (u + args.length * 4) / pmPageBytes

lemma argsPlan_stored (hAt : c.At o) (hSlot : c.Slot u) (args : List Bytes) : ArgsStored c o u args (argsPlan c args) := by
  induction args generalizing c o u with
  | nil =>
    have hPage : (c.pointerOp 0).page = u / pmPageBytes := hSlot.place_eq.1.symm
    refine ⟨hAt, rfl, fun w j p => ?_, fun strict hRoom => ?_, ?_, c.pointerOp 0, mem_singleton_self _, hPage⟩
    · have hString : ¬ InStrings o (o + stringBytes []) j p := fun hIn => Nat.not_le.mpr hIn.2.1 hIn.2.2
      rw [argsPlan, foldl_cons, foldl_nil, hSlot.note]
      split_ifs with hArray
      · exact iff_of_true (wordBytes_covered hArray _) (Or.inr (Or.inr hArray))
      · exact ⟨Or.inl, fun h => h.resolve_right (not_or_intro hString hArray)⟩
    · rw [argsPlan, foldlM_cons, hSlot.takes (fun hStrict => Nat.lt_succ_of_le (hRoom hStrict).2) 0]
      rfl
    · rintro op hOp
      rw [mem_singleton.mp hOp, hPage]
      exact Or.inr (Nat.le_refl _)
  | cons arg args ih =>
    have hArg := argPlan_stored hAt hSlot arg
    have hRest := ih hArg.position hArg.slot
    have hBytes : stringBytes (arg :: args) = arg.length + stringBytes args := rfl
    have hLast : u + (arg :: args).length * 4 = u + 4 + args.length * 4 := by
      rw [length_cons]
      omega
    have hLe : (argPlan c arg).2.curpage ≤ (argsPlan (argPlan c arg).2 args).2.curpage := by
      rw [hArg.position.curpage_eq, hRest.position.curpage_eq]
      exact Nat.div_le_div_right (Nat.le_add_right _ _)
    constructor
    case position =>
      rw [hBytes, ← Nat.add_assoc]
      exact hRest.position
    case abspos => exact hRest.abspos.trans (by rw [hArg.abspos, hBytes, Nat.add_assoc])
    case covers =>
      intro w j p
      have hStrings : InStrings o (o + stringBytes (arg :: args)) j p ↔ InStrings o (o + arg.length) j p ∨
          InStrings (o + arg.length) (o + arg.length + stringBytes args) j p := by
        simp only [InStrings, hBytes]
        omega
      have hArray : InArray u (u + ((arg :: args).length + 1) * 4) j p ↔ InArray u (u + 4) j p ∨
          InArray (u + 4) (u + 4 + (args.length + 1) * 4) j p := by
        simp only [InArray, length_cons]
        omega
      rw [argsPlan, foldl_append, hRest.covers, hArg.covers, hStrings, hArray]
      tauto
    case takes =>
      intro strict hRoom
      have hFirst := hArg.takes strict fun hStrict => (hRoom hStrict).2
      rw [argsPlan, foldlM_append, hFirst]
      refine hRest.takes strict fun hStrict => ?_
      obtain ⟨hFits, hPage⟩ := hRoom hStrict
      have hUp := (takes_pages hFirst).1
      rw [length_cons] at hFits
      simp only [pmPageBytes] at *
      omega
    case pages =>
      intro op hOp
      rw [hLast]
      rcases mem_append.mp hOp with hOp | hOp
      · rcases hArg.pages op hOp with hString | hPointer
        · exact Or.inl (hString.trans hLe)
        · rw [hPointer]
          exact Or.inr (Nat.div_le_div_right (by omega))
      · exact hRest.pages op hOp
    case last =>
      obtain ⟨op, hOp, hPage⟩ := hRest.last
      rw [hLast]
      exact ⟨op, mem_append_right _ hOp, hPage⟩

end

lemma alignPos_spec (pos : Nat) : alignPos pos % 4 = 0 ∧ pos ≤ alignPos pos ∧ alignPos pos < pos + 4 := by
  unfold alignPos
  split <;> omega

variable {abspos : Nat} {args : List Bytes} {st st' : ArgCopy}

lemma argCursor_slot (hPos : 0 < abspos) (hAligned : abspos % 4 = 0) : (argCursor abspos).Slot (arrayPlace abspos) := by
  constructor
  · simp only [argCursor, pmPageBytes]
    omega
  · simp only [argCursor, pmPageBytes]
    omega
  · rfl

lemma argCursor_at (hPos : 0 < abspos) : (argCursor abspos).At abspos := by
  have hCur : (argCursor abspos).curpage = abspos / pmPageBytes := rfl
  by_cases hPart : 0 < pmPageBytes - (abspos - (abspos - 1) / pmPageBytes * pmPageBytes)
  · have hPagepos : (argCursor abspos).pagepos =
        pmPageBytes - (abspos - (abspos - 1) / pmPageBytes * pmPageBytes) := if_pos hPart
    constructor <;> simp only [hCur, hPagepos, stackOffset, pmPageBytes] at hPart ⊢ <;> omega
  · -- the array fills its page, so the strings begin with the next one
    have hPagepos : (argCursor abspos).pagepos = pmPageBytes := if_neg hPart
    constructor <;> simp only [hCur, hPagepos, stackOffset, pmPageBytes] at hPart ⊢ <;> omega

lemma needs_takes {b k : Nat} (hb : b ≤ n) :
    ((range' b k).map ArgOp.need).foldlM (ArgOp.takes strict) n = some (max n (b + k)) := by
  induction k generalizing b n with
  | zero =>
    rw [Nat.add_zero, Nat.max_eq_left hb]
    rfl
  | succ k ih =>
    rw [range'_succ, map_cons, foldlM_cons, ArgOp.takes, if_pos hb]
    refine (ih (Nat.le_max_right n (b + 1))).trans ?_
    rw [Option.some_inj]
    omega

lemma needs_note (w : Nat → Nat → Option UInt8) (is : List Nat) : (is.map ArgOp.need).foldl ArgOp.note w = w := by
  induction is with
  | nil => rfl
  | cons i is ih => exact ih

structure ArrayStored (pos : Nat) (args : List Bytes) (abspos : Nat) (r : List ArgOp × ArgCursor) : Prop where
  pos_eq : r.2.abspos = alignPos (abspos + stringBytes args)
  covers : ∀ w j p, (r.1.foldl ArgOp.note w j p).isSome ↔ (w j p).isSome ∨
    InStrings abspos (abspos + stringBytes args) j p ∨
      InArray (arrayPlace abspos) (arrayPlace abspos + (args.length + 1) * 4) j p
  takes : ∀ (strict : Bool) n, pos / pmPageBytes ≤ n → n ≤ pos / pmPageBytes + 1 →
    (strict → arrayPlace abspos % pmPageBytes + (args.length + 1) * 4 ≤ pmPageBytes) →
      r.1.foldlM (ArgOp.takes strict) n = some ((abspos + stringBytes args) / pmPageBytes + 1)
  pages : ∀ op ∈ r.1, op.page ≤ (abspos + stringBytes args) / pmPageBytes ∨
    op.page ≤ (arrayPlace abspos + args.length * 4) / pmPageBytes
  last : ∃ op ∈ r.1, op.page = (arrayPlace abspos + args.length * 4) / pmPageBytes

lemma arrayPlan_stored (pos : Nat) (args : List Bytes) :
    ArrayStored pos args (alignPos (pos + (args.length + 1) * 4)) (arrayPlan pos args) := by
  obtain ⟨hAligned, _, _⟩ := alignPos_spec (pos + (args.length + 1) * 4)
  unfold arrayPlan
  generalize alignPos (pos + (args.length + 1) * 4) = abspos at *
  have hPos : 0 < abspos := by omega
  have hArgs := argsPlan_stored (argCursor_at hPos) (argCursor_slot hPos hAligned) args
  have hCur := hArgs.position.curpage_eq
  have hStart : (argCursor abspos).curpage = abspos / pmPageBytes := rfl
  have hDiv : pos / pmPageBytes ≤ abspos / pmPageBytes := Nat.div_le_div_right (by omega)
  have hNeeds : (range ((argCursor abspos).curpage + 1)).drop (pos / pmPageBytes) =
      range' (pos / pmPageBytes) (abspos / pmPageBytes + 1 - pos / pmPageBytes) := by
    rw [range_eq_range', drop_range', Nat.mul_one, Nat.zero_add, hStart]
  constructor
  case pos_eq => exact congrArg alignPos hArgs.abspos
  case covers =>
    intro w j p
    rw [foldl_append, needs_note]
    exact hArgs.covers w j p
  case takes =>
    intro strict n hLe _ hRoom
    dsimp only
    rw [hNeeds, foldlM_append, needs_takes hLe, ← hCur,
      show max n (pos / pmPageBytes + (abspos / pmPageBytes + 1 - pos / pmPageBytes)) = (argCursor abspos).curpage + 1 by
        omega]
    refine hArgs.takes strict fun hStrict => ⟨hRoom hStrict, ?_⟩
    rw [hStart]
    simp only [arrayPlace, pmPageBytes]
    omega
  case pages =>
    intro op hOp
    rw [← hCur]
    rcases mem_append.mp hOp with hOp | hOp
    · obtain ⟨i, hi, rfl⟩ := mem_map.mp hOp
      have hUp : abspos / pmPageBytes ≤ (abspos + stringBytes args) / pmPageBytes :=
        Nat.div_le_div_right (Nat.le_add_right _ _)
      rw [hNeeds, mem_range'_1] at hi
      rw [hCur]
      exact Or.inl (show i ≤ _ by omega)
    · exact hArgs.pages op hOp
  case last =>
    obtain ⟨op, hOp, hPage⟩ := hArgs.last
    exact ⟨op, mem_append_right _ hOp, hPage⟩

lemma ArrayStored.inside_iff {pos : Nat} {r : List ArgOp × ArgCursor}
    (h : ArrayStored pos args abspos r) (hPos : pos ≤ abspos) (k : Nat) : (∀ op ∈ r.1, op.page < k) ↔
      abspos + stringBytes args < k * pmPageBytes ∧ arrayPlace abspos + args.length * 4 < k * pmPageBytes := by
  have hLt : ∀ {x}, x / pmPageBytes < k ↔ x < k * pmPageBytes := Nat.div_lt_iff_lt_mul (by decide)
  rw [← hLt, ← hLt]
  constructor
  · intro hAll
    obtain ⟨op, hOp, hPointer⟩ := h.last
    refine ⟨?_, hPointer ▸ hAll op hOp⟩
    -- the last page of the strings is new, so it was asked for
    have hTakes := h.takes false (pos / pmPageBytes) (Nat.le_refl _) (Nat.le_succ _) (by simp)
    have hDiv : pos / pmPageBytes ≤ (abspos + stringBytes args) / pmPageBytes := Nat.div_le_div_right (by omega)
    rcases (takes_pages hTakes).2.2 with hEq | ⟨op, hOp, hEq⟩
    · omega
    · exact Nat.succ.inj hEq ▸ hAll op hOp
  · rintro ⟨hStrings, hPointers⟩ op hOp
    rcases h.pages op hOp with hLe | hLe
    · exact hLe.trans_lt hStrings
    · exact hLe.trans_lt hPointers

lemma exec_inside (h : st.exec op = some st') : op.page < processArgMaxPages := by
  cases op with
  | need i =>
    simp only [ArgCopy.exec, ArgCopy.needPage] at h
    split at h
    · assumption
    · cases h
  | store i pos bytes =>
    simp only [ArgCopy.exec, ArgCopy.storeAt] at h
    split at h
    · assumption
    · cases h

lemma ops_inside (h : ops.foldlM ArgCopy.exec st = some st') : ∀ op ∈ ops, op.page < processArgMaxPages := by
  induction ops generalizing st with
  | nil => exact forall_mem_nil _
  | cons op ops ih =>
    rw [foldlM_cons] at h
    obtain ⟨_, hOp, hRest⟩ := Option.bind_eq_some_iff.mp h
    exact forall_mem_cons.mpr ⟨exec_inside hOp, ih hRest⟩

/-- The first `n` free pages are argument pages. Where `w` tells a byte, it was stored and not by process `q`. -/
structure ArgsKept (q : Nat) (pm : PhysMem) (n : Nat) (w : Nat → Nat → Option UInt8) (m : Memory)
    (pages : ArgTable) : Prop where
  pages_eq : ∀ i, pages i = if i.val < n then pm.free[i.val]? else none
  free_eq : m.pm.free = pm.free.drop n
  length_le : n ≤ pm.free.length
  keeps : pm.KeepsClean q m.pm
  taken : ∀ i p, (w i p).isSome → i < n
  stored : ∀ i ppn p, pages i = some ppn → (w i p).isSome → m.pm.CleanAt q ppn p
  content : pm.free.Nodup → ∀ i ppn p, pm.free[i]? = some ppn →
    (m.pm.cells ppn p).value = (w i p).getD (pm.cells ppn p).value

section

variable {q n' : Nat} {pm : PhysMem} {w : Nat → Nat → Option UInt8}

lemma needPage_kept {i : Nat} (hNeed : st.needPage i = some st')
    (h : ArgsKept q pm n w st.m st.pages) (hi : i ≤ n) : ArgsKept q pm (max n (i + 1)) w st'.m st'.pages := by
  unfold ArgCopy.needPage at hNeed
  split at hNeed
  · rename_i hMax
    have hPage := h.pages_eq ⟨i, hMax⟩
    split at hNeed
    · rename_i ppn hSome
      cases hNeed
      rw [hSome] at hPage
      split at hPage
      · rename_i hLt
        simp only at hLt
        rwa [Nat.max_eq_left hLt]
      · cases hPage
    · rename_i hNone
      -- all pages below `n` are there, so this one is the next
      obtain rfl : i = n := by
        have hLength := h.length_le
        rw [hNone] at hPage
        split_ifs at hPage with hLt
        · simp only at hLt
          have := getElem?_eq_none_iff.mp hPage.symm
          simp only at this
          omega
        · simp only at hLt
          omega
      obtain ⟨⟨ppn, m⟩, hGet, ⟨⟩⟩ := Option.map_eq_some_iff.mp hNeed
      obtain ⟨⟨_, _⟩, hPm, ⟨⟩⟩ := Option.map_eq_some_iff.mp hGet
      obtain ⟨hFree, hCells⟩ := pmGetFreePage_eq_some hPm
      rw [h.free_eq] at hFree
      have hLt : i < pm.free.length := by
        by_contra hNot
        rw [drop_eq_nil_of_le (by omega)] at hFree
        cases hFree
      rw [drop_eq_getElem_cons hLt, cons.injEq] at hFree
      rw [Nat.max_eq_right (Nat.le_succ i)]
      constructor
      case pages_eq =>
        intro j
        simp only [update_apply]
        split
        · rename_i hj
          subst hj
          rw [if_pos (Nat.lt_succ_self i), getElem?_eq_getElem hLt, hFree.1]
        · rename_i hj
          have hNe : j.val ≠ i := fun hVal => hj (Fin.ext hVal)
          rw [h.pages_eq j]
          split
          · rw [if_pos (by omega)]
          · rw [if_neg (by omega)]
      case free_eq => exact hFree.2.symm
      case length_le => exact hLt
      case keeps => exact h.keeps.trans (pmGetFreePage_keepsClean hPm)
      case taken => exact fun j p hp => (h.taken j p hp).trans (Nat.lt_succ_self i)
      case stored =>
        intro j r p hj hp
        have hBelow := h.taken j p hp
        have hNe : j ≠ ⟨i, hMax⟩ := by
          rintro rfl
          exact Nat.lt_irrefl _ hBelow
        simp only [update_of_ne hNe] at hj
        exact pmGetFreePage_keepsClean hPm r p (h.stored j r p hj hp)
      case content =>
        intro hFree j r p hr
        rw [← h.content hFree j r p hr, ← hCells]
  · cases hNeed

lemma storeAt_kept {j pos : Nat} {bytes : Bytes} (hStore : st.storeAt j pos bytes = some st')
    (h : ArgsKept q pm n w st.m st.pages) : ArgsKept q pm n (ArgOp.note w (.store j pos bytes)) st'.m st'.pages := by
  unfold ArgCopy.storeAt at hStore
  split at hStore
  · rename_i hMax
    obtain ⟨ppn, hPage, rfl⟩ := Option.map_eq_some_iff.mp hStore
    have hTaken := h.pages_eq ⟨j, hMax⟩
    rw [hPage] at hTaken
    split at hTaken
    · rename_i hj
      refine { h with keeps := ?_, taken := ?_, stored := ?_, content := ?_ }
      · exact h.keeps.trans (PhysMem.keepsClean_store _ _ _ _)
      · intro i p hp
        simp only [ArgOp.note] at hp
        split_ifs at hp with hHere
        · exact hHere.1 ▸ hj
        · exact h.taken i p hp
      · intro i r p hr hp
        simp only [ArgOp.note] at hp
        split_ifs at hp with hHere
        · obtain rfl : i = ⟨j, hMax⟩ := Fin.ext hHere.1
          simp only [hPage, Option.some_inj] at hr
          subst hr
          exact PhysMem.cleanAt_store _ _ hHere.2.1 hHere.2.2
        · exact PhysMem.keepsClean_store _ _ _ _ r p (h.stored i r p hr hp)
      · intro hFree i r p hr
        -- the page stored to stands at one place of the free list only
        have hSame : r = ppn ↔ i = j := by
          obtain ⟨_, rfl⟩ := List.getElem?_eq_some_iff.mp hr
          obtain ⟨_, rfl⟩ := List.getElem?_eq_some_iff.mp hTaken.symm
          exact hFree.getElem_inj_iff
        rw [PhysMem.store_cells, ArgOp.note]
        simp only [hSame]
        split
        · rw [getD_eq_getElem?_getD, getElem?_eq_getElem (by omega), Option.getD_some]
          rfl
        · exact h.content hFree i r p hr
    · cases hTaken
  · cases hStore

lemma exec_kept (hOp : st.exec op = some st') (hTakes : op.takes strict n = some n')
    (h : ArgsKept q pm n w st.m st.pages) : ArgsKept q pm n' (op.note w) st'.m st'.pages := by
  cases op with
  | need i =>
    obtain ⟨hi, ⟨⟩⟩ := Option.ite_none_right_eq_some.mp hTakes
    exact needPage_kept hOp h hi
  | store i pos bytes =>
    obtain ⟨_, ⟨⟩⟩ := Option.ite_none_right_eq_some.mp hTakes
    exact storeAt_kept hOp h

lemma ops_kept (hOps : ops.foldlM ArgCopy.exec st = some st') (hTakes : ops.foldlM (ArgOp.takes strict) n = some n')
    (h : ArgsKept q pm n w st.m st.pages) :
    ArgsKept q pm n' (ops.foldl ArgOp.note w) st'.m st'.pages := by
  induction ops generalizing st n w with
  | nil =>
    cases hOps
    cases hTakes
    exact h
  | cons op ops ih =>
    rw [foldlM_cons] at hOps hTakes
    obtain ⟨_, hOp, hRest⟩ := Option.bind_eq_some_iff.mp hOps
    obtain ⟨_, hTake, hTakes⟩ := Option.bind_eq_some_iff.mp hTakes
    exact ih hRest hTakes (exec_kept hOp hTake h)

end

structure ArgLayout.Holds (l : ArgLayout) (w : Nat → Nat → Option UInt8) (q : Nat) (pm : PhysMem) (st : ArgPages) :
    Prop where
  pos_eq : st.pos = l.pos
  kept : ArgsKept q pm l.pages w st.m st.pages
  covers : ∀ i p, (w i p).isSome ↔ l.written i p = true
  le : l.pos / pmPageBytes ≤ l.pages
  pages_le : l.pages ≤ l.pos / pmPageBytes + 1

variable {q : Nat} {pm : PhysMem} {l : ArgLayout} {w : Nat → Nat → Option UInt8}

lemma copyArgArray_holds {st : ArgPages} {argv : Nat} (hCopy : copyArgArray st.m st.pages st.pos args = some (st', argv))
    (h : l.Holds w q pm st) :
    (l.add args).Holds ((arrayPlan l.pos args).1.foldl ArgOp.note w) q pm ⟨st'.m, st'.pages, st'.abspos⟩ := by
  have hPlan := arrayPlan_stored l.pos args
  rw [copyArgArray_plan, h.pos_eq] at hCopy
  obtain ⟨_, hOps, ⟨⟩⟩ := Option.map_eq_some_iff.mp hCopy
  obtain ⟨_, _, _⟩ := alignPos_spec (l.pos + (args.length + 1) * 4)
  obtain ⟨_, _, _⟩ := alignPos_spec (alignPos (l.pos + (args.length + 1) * 4) + stringBytes args)
  have hKept := ops_kept hOps (hPlan.takes false l.pages h.le h.pages_le (by simp)) h.kept
  refine { hPlan with kept := ?_, covers := ?_, le := ?_, pages_le := ?_ }
  · exact hKept
  · intro i p
    rw [hPlan.covers, h.covers, ArgLayout.add]
    simp only [Bool.or_eq_true, decide_eq_true_eq, or_assoc]
  · simp only [ArgLayout.add, pmPageBytes]
    omega
  · simp only [ArgLayout.add, pmPageBytes]
    omega

def noteArray (pos : Nat) (w : Nat → Nat → Option UInt8) : Option (List Bytes) → Nat → Nat → Option UInt8
  | none => w
  | some args => (arrayPlan pos args).1.foldl ArgOp.note w

lemma ArgPages.copy_holds
    {st st' : ArgPages} {args : Option (List Bytes)} (hCopy : st.copy args = some st') (h : l.Holds w q pm st) :
    (args.toList.foldl ArgLayout.add l).Holds (noteArray l.pos w args) q pm st' := by
  cases args with
  | none =>
    cases hCopy
    exact h
  | some args =>
    obtain ⟨⟨_, _⟩, hArray, ⟨⟩⟩ := Option.map_eq_some_iff.mp hCopy
    exact copyArgArray_holds hArray h

lemma ArgLayout.holds_start (q : Nat) (m : Memory) :
    ArgLayout.Holds ⟨0, 0, fun _ _ => false⟩ (fun _ _ => none) q m.pm ⟨m, fun _ => none, 0⟩ := by
  refine ⟨rfl, ⟨fun _ => rfl, rfl, Nat.zero_le _, .refl m.pm, ?_, ?_, fun _ _ _ _ _ => rfl⟩, ?_, Nat.zero_le _,
    Nat.zero_le _⟩
  · rintro i p ⟨⟩
  · rintro i _ p ⟨⟩
  · simp

lemma copyArgs_layout {m : Memory} {argv envp : Option (List Bytes)} {args : ArgPages}
    (hCopy : copyArgs m argv envp = some args) (q : Nat) : ∃ w, (argLayout argv envp).Holds w q m.pm args := by
  obtain ⟨_, hArgv, hEnvp⟩ := Option.bind_eq_some_iff.mp hCopy
  rw [argLayout, foldl_append]
  exact ⟨_, ArgPages.copy_holds hEnvp (ArgPages.copy_holds hArgv (ArgLayout.holds_start q m))⟩

end Fixos.Sys
