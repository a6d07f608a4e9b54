import Fixos.Lib.Buffer
import Fixos.Lib.Loop
import Fixos.Loader.Elf

/-! # The names of the shared libraries (`loader/elfloader/loader.c`)

The loop reads 29 bytes at a time and takes what stands before the first zero as a name. It goes on behind the name, so
that it finds the zero the next time and ends. When nothing can be read, it tries again at the same place.
-/

namespace Fixos.Loader

open Loop List

universe u

variable {σ : Type u}

structure NameLoop (σ : Type u) where
  index : Nat
  buf : Bytes
  dest : σ

def readBuf (buf bytes : Bytes) : Bytes := (Buffer.splice buf 0 bytes).set 29 0

def cString (buf : Bytes) : Bytes := buf.takeWhile (· ≠ 0)

/-- One turn of the loop. `loadDynlib` is what the load of a library does to the process. -/
def nameTurn (contents : Bytes) (offset filesz : Nat) (loadDynlib : Bytes → σ → σ) (s : NameLoop σ) :
    NameLoop σ ⊕ σ :=
  if s.index < filesz then
    let bytes := readAt contents (offset + s.index) 29
    if 0 < bytes.length then
      let buf := readBuf s.buf bytes
      let name := cString buf
      if 0 < name.length then .inl ⟨(s.index + name.length) % 2 ^ 32, buf, loadDynlib name s.dest⟩
      else .inr s.dest
    else .inl s
  else .inr s.dest

section

variable {buf bytes : Bytes}

lemma splice_front (buf bytes : Bytes) : Buffer.splice buf 0 bytes = bytes ++ buf.drop bytes.length := by
  rw [Buffer.splice, take_zero, nil_append, Nat.zero_add]

lemma cString_readBuf (buf bytes : Bytes) :
    cString (readBuf buf bytes) = ((bytes ++ buf.drop bytes.length).take 29).takeWhile (· ≠ 0) := by
  rw [cString, readBuf, splice_front, set_eq_take_append_cons_drop]
  split_ifs with hShort
  · have hZero : (0 :: (bytes ++ buf.drop bytes.length).drop (29 + 1)).takeWhile (· ≠ (0 : UInt8)) = [] := rfl
    rw [takeWhile_append, hZero, append_nil]
    split_ifs with hAll
    · have hWhole := takeWhile_prefix (· ≠ (0 : UInt8)) |>.eq_of_length hAll
      exact hWhole.symm
    · rfl
  · rw [take_of_length_le (Nat.le_of_not_lt hShort)]

lemma length_cString_readBuf_le (buf bytes : Bytes) : (cString (readBuf buf bytes)).length ≤ 29 := by
  rw [cString_readBuf]
  refine Nat.le_trans ?_ (length_take_le 29 (bytes ++ buf.drop bytes.length))
  exact IsPrefix.length_le <| takeWhile_prefix _

lemma cString_of_zero {name rest : Bytes} (hName : ∀ b ∈ name, b ≠ 0) (hBytes : bytes = name ++ 0 :: rest)
    (hLength : bytes.length ≤ 29) : cString (readBuf buf bytes) = name := by
  subst hBytes
  rw [length_append, length_cons] at hLength
  rw [cString_readBuf, append_assoc, cons_append, take_append, take_of_length_le (by omega)]
  obtain ⟨k, hk⟩ : ∃ k, 29 - name.length = k + 1 := ⟨28 - name.length, by omega⟩
  rw [hk, take_succ_cons, takeWhile_append_of_pos (by simpa using hName), takeWhile_cons_of_neg (by simp), append_nil]

lemma length_le_cString (hBytes : ∀ b ∈ bytes, b ≠ 0) (hLength : bytes.length ≤ 29) :
    bytes.length ≤ (cString (readBuf buf bytes)).length := by
  rw [cString_readBuf, take_append, take_of_length_le hLength,
    takeWhile_append_of_pos (by simpa using hBytes), length_append]
  omega

structure Filled (buf : Bytes) : Prop where
  length_eq : (buf.take 29).length = 29
  ne_zero : ∀ b ∈ buf.take 29, b ≠ 0

lemma filled_readBuf (buf : Bytes) (hBytes : ∀ b ∈ bytes, b ≠ 0) (hBuf : bytes.length < 29 → Filled buf) :
    Filled (readBuf buf bytes) ∧ (cString (readBuf buf bytes)).length = 29 := by
  have hTake : (readBuf buf bytes).take 29 = (bytes ++ buf.drop bytes.length).take 29 := by
    rw [readBuf, splice_front, take_set_of_le (Nat.le_refl 29)]
  have hFilled : Filled (bytes ++ buf.drop bytes.length) := by
    rcases Nat.lt_or_ge bytes.length 29 with hShort | hFull
    · obtain ⟨hLength, hOld⟩ := hBuf hShort
      rw [length_take] at hLength
      have hSplit : (bytes ++ buf.drop bytes.length).take 29 = bytes ++ (buf.take 29).drop bytes.length := by
        rw [take_append, take_of_length_le hShort.le, drop_take]
      constructor
      · rw [length_take, length_append, length_drop]
        omega
      · rw [hSplit]
        intro b hb
        rcases mem_append.mp hb with hb | hb
        · exact hBytes b hb
        · exact hOld b (mem_of_mem_drop hb)
    · constructor
      · rw [length_take, length_append]
        omega
      · rw [take_append_of_le_length hFull]
        exact fun b hb => hBytes b (mem_of_mem_take hb)
  refine ⟨⟨hTake ▸ hFilled.length_eq, hTake ▸ hFilled.ne_zero⟩, ?_⟩
  rw [cString_readBuf, takeWhile_eq_self_iff.mpr (by simpa using hFilled.ne_zero)]
  exact hFilled.length_eq

end

section

variable {contents : Bytes} {offset filesz : Nat} {loadDynlib : Bytes → σ → σ} {s : NameLoop σ}

lemma nameTurn_done (h : filesz ≤ s.index) : nameTurn contents offset filesz loadDynlib s = .inr s.dest :=
  if_neg (Nat.not_lt.mpr h)

lemma ends_of_done_index (h : filesz ≤ s.index) : Ends (nameTurn contents offset filesz loadDynlib) s :=
  ends_of_done (nameTurn_done h)

variable {bytes : Bytes}

lemma nameTurn_read (h : s.index < filesz) (hRead : readAt contents (offset + s.index) 29 = bytes)
    (hBytes : 0 < bytes.length) :
    nameTurn contents offset filesz loadDynlib s = if 0 < (cString (readBuf s.buf bytes)).length then
        .inl ⟨(s.index + (cString (readBuf s.buf bytes)).length) % 2 ^ 32, readBuf s.buf bytes,
          loadDynlib (cString (readBuf s.buf bytes)) s.dest⟩
      else .inr s.dest := by
  rw [nameTurn, if_pos h, hRead, if_pos hBytes]

lemma ends_read_iff (h : s.index < filesz)
    (hRead : readAt contents (offset + s.index) 29 = bytes) (hBytes : 0 < bytes.length) {n : Nat}
    (hName : (cString (readBuf s.buf bytes)).length = n) (hPos : 0 < n) (hIndex : s.index + n < 2 ^ 32) :
    Ends (nameTurn contents offset filesz loadDynlib) s ↔ Ends (nameTurn contents offset filesz loadDynlib)
        ⟨s.index + n, readBuf s.buf bytes, loadDynlib (cString (readBuf s.buf bytes)) s.dest⟩ := by
  refine ends_next_iff ?_
  rw [nameTurn_read h hRead hBytes, hName, if_pos hPos, Nat.mod_eq_of_lt hIndex]

lemma ends_at_zero {rest : Bytes} (hRead : readAt contents (offset + s.index) 29 = 0 :: rest) :
    Ends (nameTurn contents offset filesz loadDynlib) s := by
  rcases Nat.lt_or_ge s.index filesz with h | h
  · have hLength : (0 :: rest).length ≤ 29 := by
      rw [← hRead, length_readAt]
      exact Nat.min_le_left _ _
    have hName : cString (readBuf s.buf (0 :: rest)) = [] := cString_of_zero (forall_mem_nil _) (nil_append _).symm hLength
    refine ends_of_done (r := s.dest) ?_
    rw [nameTurn_read h hRead (Nat.succ_pos _), hName]
    rfl
  · exact ends_of_done_index h

lemma not_ends_unread (h : s.index < filesz) (hRead : readAt contents (offset + s.index) 29 = []) :
    ¬ Ends (nameTurn contents offset filesz loadDynlib) s := by
  refine not_ends_of_invariant (I := fun t => t = s) ?_ rfl
  rintro _ rfl
  refine ⟨_, ?_, rfl⟩
  rw [nameTurn, if_pos h, hRead]
  rfl

end

section

variable {contents rest : Bytes} {offset filesz : Nat} {loadDynlib : Bytes → σ → σ}

lemma ident_window (hIdent : contents = elfIdent ++ rest) {k : Nat} (hk : k ≤ 7) :
    (contents.drop k).take 29 = (elfIdent.take 7).drop k ++ 0 :: rest.take (21 + k) := by
  have hSplit : contents = elfIdent.take 7 ++ 0 :: rest := hIdent
  have hLength : ((elfIdent.take 7).drop k).length = 7 - k := length_drop
  rw [hSplit, drop_append_of_le_length hk, take_append, take_of_length_le (by omega), hLength,
    show 29 - (7 - k) = 21 + k + 1 by omega, take_succ_cons]

lemma ident_name (hIdent : contents = elfIdent ++ rest) {k : Nat} (hk : k ≤ 7) (buf : Bytes) :
    (cString (readBuf buf ((contents.drop k).take 29))).length = 7 - k := by
  have hName : ∀ b ∈ (elfIdent.take 7).drop k, b ≠ 0 := by
    intro b hb
    have hAll : ∀ b ∈ elfIdent.take 7, b ≠ 0 := by decide +kernel
    exact hAll b (mem_of_mem_drop hb)
  rw [cString_of_zero hName (ident_window hIdent hk) (length_take_le _ _), length_drop]
  rfl

/-- Behind `2 ^ 32` the word begins anew, and the zero in the identification ends the loop. -/
lemma ends_in_ident (hIdent : contents = elfIdent ++ rest) (hOffset : 8 ≤ offset) {s : NameLoop σ}
    (hLow : 2 ^ 31 ≤ offset + s.index) (hHigh : offset + s.index ≤ 2 ^ 32 + 7) :
    Ends (nameTurn contents offset filesz loadDynlib) s := by
  refine ends_of_measure (I := fun s => 2 ^ 31 ≤ offset + s.index ∧ offset + s.index ≤ 2 ^ 32 + 7)
    (fun s => 2 ^ 32 + 8 - (offset + s.index)) ?_ ⟨hLow, hHigh⟩
  rintro s t ⟨hLow, hHigh⟩ hTurn
  have hIndex : s.index < filesz := by
    by_contra hDone
    rw [nameTurn_done (Nat.le_of_not_lt hDone)] at hTurn
    cases hTurn
  -- the byte of the file at which the read begins
  obtain ⟨k, hk, hRead, _⟩ : ∃ k ≤ 7, readAt contents (offset + s.index) 29 = (contents.drop k).take 29 ∧
      offset + s.index + (7 - k) ≤ 2 ^ 32 + 7 := by
    rcases Nat.lt_or_ge (offset + s.index) (2 ^ 32) with hLess | hMore
    · exact ⟨0, by omega, readAt_high hLow hLess, by omega⟩
    · obtain ⟨k, hk⟩ := Nat.exists_eq_add_of_le hMore
      refine ⟨k, by omega, ?_, by omega⟩
      rw [hk, readAt_wrapped (by omega), readAt_low (by omega)]
  have hBytes : 0 < ((contents.drop k).take 29).length := by
    rw [ident_window hIdent hk, length_append, length_cons]
    omega
  rw [nameTurn_read hIndex hRead hBytes, ident_name hIdent hk] at hTurn
  split at hTurn
  · cases hTurn
    dsimp only
    rw [Nat.mod_eq_of_lt (by omega)]
    omega
  · cases hTurn

end

section

variable {contents rest : Bytes} {offset filesz : Nat} {loadDynlib : Bytes → σ → σ}

lemma drop_later (contents : Bytes) (offset index n : Nat) :
    contents.drop (offset + (index + n)) = (contents.drop (offset + index)).drop n := by
  rw [drop_drop, Nat.add_assoc]

variable {s : NameLoop σ}

lemma ends_after_name (hIdent : contents = elfIdent ++ rest)
    (hOffset : 2 ^ 31 ≤ offset + s.index + 29 → 8 ≤ offset) (hLow : offset + s.index < 2 ^ 31)
    (hZero : 0 ∈ (contents.drop (offset + s.index)).take 29) :
    Ends (nameTurn contents offset filesz loadDynlib) s := by
  rcases Nat.lt_or_ge s.index filesz with hIndex | hDone
  · obtain ⟨name, after, hSplit, hName⟩ := eq_append_cons_of_mem hZero
    have hRead : readAt contents (offset + s.index) 29 = name ++ 0 :: after := (readAt_low hLow).trans hSplit
    have hLength : (name ++ 0 :: after).length ≤ 29 := hSplit ▸ length_take_le _ _
    have hString : cString (readBuf s.buf (name ++ 0 :: after)) = name :=
      cString_of_zero (fun b hb hEq => hName (hEq ▸ hb)) rfl hLength
    have hBytes : 0 < (readAt contents (offset + s.index) 29).length := by
      rw [readAt_low hLow]
      exact length_pos_of_mem hZero
    rw [length_append, length_cons] at hLength
    rcases Nat.eq_zero_or_pos name.length with hEmpty | hPos
    · rw [length_eq_zero_iff.mp hEmpty, nil_append] at hRead
      exact ends_at_zero hRead
    · rw [ends_read_iff hIndex hRead (hRead ▸ hBytes) (congrArg length hString) hPos (by omega)]
      rcases Nat.lt_or_ge (offset + (s.index + name.length)) (2 ^ 31) with hLess | hMore
      · -- the next read begins with the zero
        obtain ⟨tail, hTail⟩ : ∃ tail, (contents.drop (offset + (s.index + name.length))).take 29 = 0 :: tail := by
          have hWhole := take_append_drop 29 (contents.drop (offset + s.index))
          rw [hSplit, append_assoc] at hWhole
          rw [drop_later, ← hWhole, drop_left, cons_append]
          exact ⟨_, take_succ_cons⟩
        exact ends_at_zero ((readAt_low hLess).trans hTail)
      · exact ends_in_ident hIdent (hOffset (by omega)) hMore (by dsimp only; omega)
  · exact ends_of_done_index hDone

lemma ends_full_read_iff (loadDynlib : Bytes → σ → σ) (hIndex : s.index < filesz) (hLow : offset + s.index < 2 ^ 31)
    (hZero : 0 ∉ (contents.drop (offset + s.index)).take 29) (hBytes : offset + s.index < contents.length)
    (hBuf : contents.length < offset + s.index + 29 → Filled s.buf) :
    ∃ t : NameLoop σ, t.index = s.index + 29 ∧ Filled t.buf ∧
      (Ends (nameTurn contents offset filesz loadDynlib) s ↔ Ends (nameTurn contents offset filesz loadDynlib) t) := by
  have hLength : ((contents.drop (offset + s.index)).take 29).length = min 29 (contents.length - (offset + s.index)) := by
    rw [length_take, length_drop]
  obtain ⟨hFilled, hName⟩ := filled_readBuf s.buf (fun b hb hEq => hZero (hEq ▸ hb)) (fun hShort => hBuf (by omega))
  exact ⟨_, rfl, hFilled, ends_read_iff hIndex (readAt_low hLow) (by omega) hName (by decide) (by omega)⟩

/-- A file with a zero behind the position. Each turn comes closer to it, or to offsets that are negative. -/
lemma ends_of_zero (hIdent : contents = elfIdent ++ rest) (hOffset : 8 ≤ offset)
    (hLow : offset + s.index < 2 ^ 31) (hZero : 0 ∈ contents.drop (offset + s.index)) :
    Ends (nameTurn contents offset filesz loadDynlib) s := by
  induction hLeft : contents.length - (offset + s.index) using Nat.strongRecOn generalizing s with
  | _ n ih =>
    by_cases hHere : 0 ∈ (contents.drop (offset + s.index)).take 29
    · exact ends_after_name hIdent (fun _ => hOffset) hLow hHere
    · rcases Nat.lt_or_ge s.index filesz with hIndex | hDone
      · have hBehind : 0 ∈ (contents.drop (offset + s.index)).drop 29 := by
          rw [← take_append_drop 29 (contents.drop (offset + s.index))] at hZero
          exact (mem_append.mp hZero).resolve_left hHere
        have hMore := length_pos_of_mem hBehind
        rw [length_drop, length_drop] at hMore
        obtain ⟨t, hNext, _, hEnds⟩ := ends_full_read_iff loadDynlib hIndex hLow hHere (by omega) (by omega)
        rw [hEnds]
        rcases Nat.lt_or_ge (offset + t.index) (2 ^ 31) with hLess | hNegative
        · refine ih (contents.length - (offset + t.index)) (by omega) hLess ?_ rfl
          rw [hNext, drop_later]
          exact hBehind
        · exact ends_in_ident hIdent hOffset hNegative (by omega)
      · exact ends_of_done_index hDone

lemma ends_beyond_iff (hIdent : contents = elfIdent ++ rest) (hOffset : 8 ≤ offset)
    (hBeyond : contents.length ≤ offset + s.index) (hHigh : offset + s.index ≤ 2 ^ 32 + 7) :
    Ends (nameTurn contents offset filesz loadDynlib) s ↔ filesz ≤ s.index ∨ 2 ^ 31 ≤ offset + s.index := by
  rcases Nat.lt_or_ge s.index filesz with hIndex | hDone
  · rcases Nat.lt_or_ge (offset + s.index) (2 ^ 31) with hLow | hNegative
    · have hRead : readAt contents (offset + s.index) 29 = [] := by
        rw [readAt_low hLow, drop_eq_nil_of_le hBeyond, take_nil]
      refine iff_of_false (not_ends_unread hIndex hRead) ?_
      omega
    · exact iff_of_true (ends_in_ident hIdent hOffset hNegative hHigh) (Or.inr hNegative)
  · exact iff_of_true (ends_of_done_index hDone) (Or.inl hDone)

/-- How far full reads lead when `left` bytes of the file are left. -/
def fullReads (left : Nat) : Nat := 29 * ((left + 28) / 29)

lemma ends_without_zero_iff (hIdent : contents = elfIdent ++ rest) (hOffset : 8 ≤ offset)
    (hZero : 0 ∉ contents.drop (offset + s.index)) (hBytes : offset + s.index < contents.length)
    (hHigh : offset + s.index < 2 ^ 32)
    (hBuf : contents.length < offset + s.index + 29 → Filled s.buf) :
    Ends (nameTurn contents offset filesz loadDynlib) s ↔
      filesz ≤ s.index + fullReads (contents.length - (offset + s.index)) ∨
        2 ^ 31 ≤ offset + s.index + fullReads (contents.length - (offset + s.index)) := by
  induction hLeft : contents.length - (offset + s.index) using Nat.strongRecOn generalizing s with
  | _ n ih =>
    have hReads : 29 ≤ fullReads n := by
      unfold fullReads
      omega
    rcases Nat.lt_or_ge s.index filesz with hIndex | hDone
    · rcases Nat.lt_or_ge (offset + s.index) (2 ^ 31) with hLow | hNegative
      · have hHere : 0 ∉ (contents.drop (offset + s.index)).take 29 := fun hMem => hZero (mem_of_mem_take hMem)
        obtain ⟨t, hNext, hFilled, hEnds⟩ := ends_full_read_iff loadDynlib hIndex hLow hHere hBytes hBuf
        rw [hEnds]
        rcases Nat.lt_or_ge (offset + t.index) contents.length with hMore | hBeyond
        · have hRest : 0 ∉ contents.drop (offset + t.index) := by
            rw [hNext, drop_later]
            exact fun hMem => hZero (mem_of_mem_drop hMem)
          rw [ih _ (by omega) hRest hMore (by omega) (fun _ => hFilled) rfl]
          have hStep : fullReads n = 29 + fullReads (contents.length - (offset + t.index)) := by
            unfold fullReads
            omega
          omega
        · rw [ends_beyond_iff hIdent hOffset hBeyond (by omega)]
          have hLast : fullReads n = 29 := by
            unfold fullReads
            omega
          omega
      · exact iff_of_true (ends_in_ident hIdent hOffset hNegative (by omega)) (Or.inr (by omega))
    · exact iff_of_true (ends_of_done_index hDone) (Or.inl (by omega))

end

/-- Where the index stops when no zero follows: a single short read goes on into what the buffer held. -/
def nameReach (contents buf : Bytes) (offset : Nat) : Nat :=
  if contents.length < offset + 29 then (cString (readBuf buf (contents.drop offset))).length
  else fullReads (contents.length - offset)

/-- Nothing is read, the offset is negative, or the names begin in the file and end with a zero, the table, or such
an offset. -/
def NamesEnd (contents buf : Bytes) (offset filesz : Nat) : Prop :=
  filesz = 0 ∨ 2 ^ 31 ≤ offset ∨ offset < contents.length ∧ (0 ∈ contents.drop offset ∨
    filesz ≤ nameReach contents buf offset ∨ 2 ^ 31 ≤ offset + nameReach contents buf offset)
deriving Decidable

variable {contents rest : Bytes} {offset : Nat}

lemma ends_short_iff (hIdent : contents = elfIdent ++ rest) {filesz : Nat}
    (hOffset : 8 ≤ offset) (hLow : offset < 2 ^ 31) (hBytes : offset < contents.length)
    (hShort : contents.length < offset + 29) (hZero : 0 ∉ contents.drop offset) (hSize : 0 < filesz) (buf : Bytes)
    (loadDynlib : Bytes → σ → σ) (dest : σ) :
    Ends (nameTurn contents offset filesz loadDynlib) ⟨0, buf, dest⟩ ↔
      filesz ≤ (cString (readBuf buf (contents.drop offset))).length ∨
        2 ^ 31 ≤ offset + (cString (readBuf buf (contents.drop offset))).length := by
  have hLength : (contents.drop offset).length = contents.length - offset := length_drop
  have hRead : readAt contents (offset + 0) 29 = contents.drop offset :=
    (readAt_low hLow).trans (take_of_length_le (by omega))
  have hLe := length_cString_readBuf_le buf (contents.drop offset)
  have hGe : (contents.drop offset).length ≤ (cString (readBuf buf (contents.drop offset))).length :=
    length_le_cString (fun b hb hEq => hZero (hEq ▸ hb)) (by omega)
  rw [ends_read_iff (s := ⟨0, buf, dest⟩) hSize hRead (by omega) rfl (by dsimp only; omega) (by dsimp only; omega),
    Nat.zero_add, ends_beyond_iff hIdent hOffset (by dsimp only; omega) (by dsimp only; omega)]

lemma ends_names_iff (hIdent : contents = elfIdent ++ rest)
    (hOffset : offset < 2 ^ 32) (filesz : Nat) (buf : Bytes) (loadDynlib : Bytes → σ → σ) (dest : σ) :
    Ends (nameTurn contents offset filesz loadDynlib) ⟨0, buf, dest⟩ ↔ NamesEnd contents buf offset filesz := by
  rcases Nat.lt_or_ge offset 8 with hStart | hStart
  · -- the zero of the identification is in the first read
    have hZero : 0 ∈ (contents.drop offset).take 29 := by
      rw [ident_window hIdent (Nat.le_of_lt_succ hStart)]
      exact mem_append_right _ mem_cons_self
    have hLength := length_pos_of_mem (mem_of_mem_take hZero)
    rw [length_drop] at hLength
    refine iff_of_true (ends_after_name hIdent (by dsimp only; omega) (by dsimp only; omega) hZero) ?_
    exact Or.inr (Or.inr ⟨by omega, Or.inl (mem_of_mem_take hZero)⟩)
  · rcases Nat.lt_or_ge offset (2 ^ 31) with hLow | hNegative
    · rcases Nat.lt_or_ge offset contents.length with hBytes | hBeyond
      · by_cases hZero : 0 ∈ contents.drop offset
        · exact iff_of_true (ends_of_zero hIdent hStart hLow hZero) (Or.inr (Or.inr ⟨hBytes, Or.inl hZero⟩))
        · rcases Nat.eq_zero_or_pos filesz with rfl | hSize
          · exact iff_of_true (ends_of_done_index (Nat.zero_le 0)) (Or.inl rfl)
          · rw [NamesEnd, nameReach]
            split_ifs with hShort
            · rw [ends_short_iff hIdent hStart hLow hBytes hShort hZero hSize]
              simp only [hZero, hBytes, hSize.ne', false_or, true_and, Nat.not_le.mpr hLow]
            · rw [ends_without_zero_iff (s := ⟨0, buf, dest⟩) hIdent hStart hZero hBytes hOffset (by dsimp only; omega)]
              simp only [hZero, hBytes, hSize.ne', false_or, true_and, Nat.not_le.mpr hLow, Nat.add_zero, Nat.zero_add]
      · rw [ends_beyond_iff (s := ⟨0, buf, dest⟩) hIdent hStart hBeyond (by dsimp only; omega), NamesEnd]
        dsimp only
        omega
    · exact iff_of_true (ends_in_ident hIdent hStart hNegative (by dsimp only; omega)) (Or.inr (Or.inl hNegative))

/-- The loop over the names of libraries ends if and only if these lie in the file in one of these ways. -/
theorem library_names_end_iff {contents : Bytes} {h : ElfHeader} (hValid : ValidHeader contents h) {offset : Nat}
    (hOffset : offset < 2 ^ 32) (filesz : Nat) (buf : Bytes) (loadDynlib : Bytes → σ → σ) (dest : σ) :
    Ends (nameTurn contents offset filesz loadDynlib) ⟨0, buf, dest⟩ ↔ NamesEnd contents buf offset filesz := by
  obtain ⟨_, hIdent⟩ := hValid.ident
  exact ends_names_iff hIdent hOffset filesz buf loadDynlib dest

def libraryFile (offset : Nat) : Bytes :=
  headerBytes 0 0 1 ++ progHeaderBytes ⟨elfpTypeShlib, offset, 0, 8, 0⟩ ++ [0x6c, 0x69, 0x62, 0x63, 0x2e, 0x73, 0x6f, 0]

theorem library_names_end_libc :
    Ends (nameTurn (libraryFile 84) 84 8 fun name names => name :: names) ⟨0, replicate 30 65, []⟩ :=
  (library_names_end_iff (h := .ofBytes (headerBytes 0 0 1)) (by decide +kernel) (by decide) 8 (replicate 30 65)
    (fun name names => name :: names) []).mpr (by decide +kernel)

theorem names_beyond_end : ValidHeader (libraryFile 92) (.ofBytes (headerBytes 0 0 1)) ∧ (libraryFile 92).length = 92 ∧
    elfGetProgHeader (libraryFile 92) (.ofBytes (headerBytes 0 0 1)) 0 = some ⟨elfpTypeShlib, 92, 0, 8, 0⟩ ∧
    ¬ Ends (nameTurn (libraryFile 92) 92 8 fun name names => name :: names) ⟨0, replicate 30 65, []⟩ :=
  ⟨by decide +kernel, by decide +kernel, by decide +kernel, not_ends_unread (by decide) (by decide +kernel)⟩

end Fixos.Loader
