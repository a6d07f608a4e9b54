import Fixos.Loader.Libraries

/-! # Looking up a symbol (`loader/elfloader/elf_utils.c`)

`elf_symbol_lookup` compares names through a buffer of 29 bytes, and does not look at the results of its reads.
-/

namespace Fixos.Loader

open Loop Option List

structure ElfSectionHeader where
  type : Nat
  offset : Nat
  size : Nat
  link : Nat
deriving DecidableEq

def elfSectionHeaderSize : Nat := 40

def ElfSectionHeader.ofBytes (bytes : Bytes) : ElfSectionHeader where
  type := field bytes 4 4
  offset := field bytes 16 4
  size := field bytes 20 4
  link := field bytes 24 4

structure ElfSymbol where
  name : Nat
  value : Nat
  size : Nat
  info : Nat
  other : Nat
  shndx : Nat
deriving DecidableEq

def elfSymbolSize : Nat := 16

def ElfSymbol.ofBytes (bytes : Bytes) : ElfSymbol where
  name := field bytes 0 4
  value := field bytes 4 4
  size := field bytes 8 4
  info := field bytes 12 1
  other := field bytes 13 1
  shndx := field bytes 14 2

def sectionBytes (contents : Bytes) (h : ElfHeader) (index : Nat) : Bytes :=
  readAt contents (h.shoff + index * elfSectionHeaderSize) elfSectionHeaderSize

def symbolBytes (contents : Bytes) (symtab : ElfSectionHeader) (index : Nat) : Bytes :=
  readAt contents (symtab.offset + index * elfSymbolSize) elfSymbolSize

def elfGetSection (contents : Bytes) (h : ElfHeader) (index : UInt16) (dest : Bytes) : Bytes × Int :=
  let bytes := sectionBytes contents h index.toNat
  (Buffer.splice dest 0 bytes, if bytes.length = elfSectionHeaderSize then 0 else -1)

def elfsTypeSymtab : Nat := 2

def elfGetSymtab (contents : Bytes) (h : ElfHeader) : Nat → Nat → Option ElfSectionHeader
  | 0, _ => none
  | left + 1, cursec =>
    let bytes := sectionBytes contents h cursec
    if bytes.length = elfSectionHeaderSize then
      if (ElfSectionHeader.ofBytes bytes).type = elfsTypeSymtab then some (.ofBytes bytes)
      else elfGetSymtab contents h left (cursec + 1)
    else none

def elfGetSymbol (contents : Bytes) (symtab : ElfSectionHeader) (index : Nat) (dest : Bytes) : Bytes × Int :=
  let bytes := symbolBytes contents symtab index
  (Buffer.splice dest 0 bytes, if bytes.length = elfSymbolSize then 0 else -1)

def elfGetString (contents : Bytes) (strtab : ElfSectionHeader) (index : Nat) (dest : Bytes) (max : Nat) :
    Bytes × Int :=
  let bytes := readAt contents (strtab.offset + index) (max - 1)
  if bytes.length = 0 then (dest, -1) else ((Buffer.splice dest 0 bytes).set bytes.length 0, 0)

/-- Also what the memory holds before: `last_strtab`, the structure for the symbol, and the bytes from `buf` on. -/
structure SymbolLookup where
  contents : Bytes
  header : ElfHeader
  symtab : ElfSectionHeader
  name : Bytes
  lastStrtab : Bytes
  symbol : Bytes
  buf : Bytes

namespace SymbolLookup

/-- The loop from the symbol `cursym` on: the result, the symbol at which it stops, and what `symbol` holds then. -/
def loop (c : SymbolLookup) (strtab : ElfSectionHeader) : Nat → Nat → Bytes → Bytes → Int × Nat × ElfSymbol
  | 0, cursym, symbol, _ => (-1, cursym, .ofBytes symbol)
  | left + 1, cursym, symbol, buf =>
    let symbol := (elfGetSymbol c.contents c.symtab cursym symbol).1
    if (ElfSymbol.ofBytes symbol).name ≠ 0 then
      let buf := (elfGetString c.contents strtab (ElfSymbol.ofBytes symbol).name buf 30).1
      if cString buf = c.name then (0, cursym, .ofBytes symbol) else loop c strtab left (cursym + 1) symbol buf
    else loop c strtab left (cursym + 1) symbol buf

variable (c : SymbolLookup)

def number : Nat := c.symtab.size / elfSymbolSize

def elfSymbolLookup : Int × Nat × ElfSymbol :=
  let lastStrtab := (elfGetSection c.contents c.header (.ofNat c.symtab.link) c.lastStrtab).1
  c.loop (.ofBytes lastStrtab) c.number 0 c.symbol c.buf

/-- The bytes of the file at this offset, which an `off_t` has to reach. -/
def bytesAt (offset n : Nat) : Option Bytes :=
  if offset < 2 ^ 31 ∧ offset + n ≤ c.contents.length then some ((c.contents.drop offset).take n) else none

/-- The section that the table is linked to; numbers of sections have 16 bits. -/
def linkedSection : Option ElfSectionHeader :=
  if c.symtab.link < 2 ^ 16 then
    (c.bytesAt (c.header.shoff + c.symtab.link * elfSectionHeaderSize) elfSectionHeaderSize).map .ofBytes
  else none

def symbolAt (i : Nat) : Option ElfSymbol :=
  (c.bytesAt (c.symtab.offset + i * elfSymbolSize) elfSymbolSize).map .ofBytes

/-- A string lies in the file and in the table up to the zero at its end. -/
def stringAt (strtab : ElfSectionHeader) (index : Nat) : Option Bytes :=
  let bytes := (c.contents.drop (strtab.offset + index)).take (strtab.size - index)
  if strtab.offset + index < 2 ^ 31 ∧ 0 ∈ bytes then some (cString bytes) else none

def symbolString (i : Nat) : Option (ElfSymbol × Bytes) := do
  let strtab ← c.linkedSection
  let symbol ← c.symbolAt i
  let string ← c.stringAt strtab symbol.name
  return (symbol, string)

def Named (i : Nat) : Prop := ∃ symbol, c.symbolString i = some (symbol, c.name)

def Answers : Option Nat → Prop
  | some i => ∃ symbol, c.symbolAt i = some symbol ∧ c.elfSymbolLookup = (0, i, symbol)
  | none => c.elfSymbolLookup.1 = -1

def Right : Prop := ∃ found, Finds c.Named c.number found ∧ c.Answers found

def seenMemory (k : Nat) : Bytes :=
  (range k).foldl (fun symbol i => Buffer.splice symbol 0 (symbolBytes c.contents c.symtab i)) c.symbol

def seenSymbol (i : Nat) : ElfSymbol := .ofBytes (c.seenMemory (i + 1))

def seenStrtab : ElfSectionHeader :=
  .ofBytes (Buffer.splice c.lastStrtab 0 (sectionBytes c.contents c.header (c.symtab.link % 2 ^ 16)))

def seenString (i : Nat) : Bytes := readAt c.contents (c.seenStrtab.offset + (c.seenSymbol i).name) 29

def StringRead (k : Nat) : Prop := ∃ j < k, (c.seenSymbol j).name ≠ 0 ∧ c.seenString j ≠ []

/-- When no string has ever been read, the buffer holds what lay on the stack. -/
def Shows (i : Nat) : Prop :=
  (c.seenSymbol i).name ≠ 0 ∧
    if c.seenString i = [] then ¬ c.StringRead i ∧ cString c.buf = c.name else cString (c.seenString i) = c.name

lemma cString_set_zero (buf bytes : Bytes) : cString ((Buffer.splice buf 0 bytes).set bytes.length 0) = cString bytes := by
  rw [splice_front]
  cases hRest : buf.drop bytes.length with
  | nil => rw [append_nil, set_eq_of_length_le (Nat.le_refl _)]
  | cons b rest =>
    rw [set_append_right _ _ (Nat.le_refl _), Nat.sub_self, set_cons_zero, cString, takeWhile_append]
    split_ifs with hAll
    · have hWhole := takeWhile_prefix (· ≠ (0 : UInt8)) |>.eq_of_length hAll
      rw [takeWhile_cons_of_neg (by simp), append_nil, cString, hWhole]
    · rfl

structure At (c : SymbolLookup) (k : Nat) (symbol buf : Bytes) : Prop where
  symbol_eq : symbol = c.seenMemory k
  unread : ¬ c.StringRead k → buf = c.buf
  other : c.StringRead k → cString buf ≠ c.name

def nextBuf (k : Nat) (buf : Bytes) : Bytes :=
  if (c.seenSymbol k).name = 0 then buf else (elfGetString c.contents c.seenStrtab (c.seenSymbol k).name buf 30).1

variable {c} {i k : Nat} {symbol buf : Bytes}

lemma stringRead_succ : c.StringRead (k + 1) ↔ c.StringRead k ∨ (c.seenSymbol k).name ≠ 0 ∧ c.seenString k ≠ [] := by
  simp only [StringRead, Nat.lt_succ_iff_lt_or_eq, or_and_right, exists_or, exists_eq_left]

lemma seenMemory_succ (c : SymbolLookup) (k : Nat) :
    c.seenMemory (k + 1) = Buffer.splice (c.seenMemory k) 0 (symbolBytes c.contents c.symtab k) := by
  rw [seenMemory, range_succ, foldl_append]
  rfl

lemma cString_nextBuf (hName : (c.seenSymbol k).name ≠ 0) (buf : Bytes) :
    cString (c.nextBuf k buf) = if c.seenString k = [] then cString buf else cString (c.seenString k) := by
  have hBytes : readAt c.contents (c.seenStrtab.offset + (c.seenSymbol k).name) (30 - 1) = c.seenString k := rfl
  rw [nextBuf, if_neg hName, elfGetString, hBytes]
  simp only [length_eq_zero_iff]
  split
  · rfl
  · exact cString_set_zero _ _

section

variable (hAt : c.At k symbol buf)
include hAt

lemma shows_iff : c.Shows k ↔ (c.seenSymbol k).name ≠ 0 ∧ cString (c.nextBuf k buf) = c.name := by
  refine and_congr_right fun hName => ?_
  rw [cString_nextBuf hName]
  by_cases hRead : c.seenString k = []
  · rw [if_pos hRead, if_pos hRead]
    by_cases hEarlier : c.StringRead k
    · exact iff_of_false (fun hBuf => hBuf.1 hEarlier) (hAt.other hEarlier)
    · rw [hAt.unread hEarlier]
      exact and_iff_right hEarlier
  · rw [if_neg hRead, if_neg hRead]

lemma At.next (hNot : ¬ c.Shows k) : c.At (k + 1) (c.seenMemory (k + 1)) (c.nextBuf k buf) where
  symbol_eq := rfl
  unread := by
    intro hNone
    rw [stringRead_succ, not_or] at hNone
    obtain ⟨hEarlier, hHere⟩ := hNone
    rw [← hAt.unread hEarlier, nextBuf, elfGetString]
    split
    · rfl
    · rename_i hName
      have hRead : c.seenString k = [] := by
        by_contra hRead
        exact hHere ⟨hName, hRead⟩
      exact congrArg Prod.fst (if_pos (congrArg length hRead))
  other := by
    intro hSome
    by_cases hName : (c.seenSymbol k).name = 0
    · rw [nextBuf, if_pos hName]
      exact hAt.other ((stringRead_succ.mp hSome).resolve_right fun hHere => hHere.1 hName)
    · exact fun hEq => hNot ((shows_iff hAt).mpr ⟨hName, hEq⟩)

lemma loop_succ (left : Nat) : c.loop c.seenStrtab (left + 1) k symbol buf =
      if (c.seenSymbol k).name ≠ 0 ∧ cString (c.nextBuf k buf) = c.name then (0, k, c.seenSymbol k)
      else c.loop c.seenStrtab left (k + 1) (c.seenMemory (k + 1)) (c.nextBuf k buf) := by
  have hSymbol : (elfGetSymbol c.contents c.symtab k symbol).1 = c.seenMemory (k + 1) := by
    rw [seenMemory_succ, ← hAt.symbol_eq]
    rfl
  have hSeen : ElfSymbol.ofBytes (c.seenMemory (k + 1)) = c.seenSymbol k := rfl
  rw [loop, hSymbol, hSeen]
  by_cases hName : (c.seenSymbol k).name = 0
  · rw [if_neg (not_not_intro hName), if_neg fun hShown => hShown.1 hName, nextBuf, if_pos hName]
  · rw [if_pos hName, nextBuf, if_neg hName]
    simp [hName]

end

def Gives (c : SymbolLookup) (result : Int × Nat × ElfSymbol) : Option Nat → Prop
  | some i => result = (0, i, c.seenSymbol i)
  | none => result.1 = -1

lemma loop_spec (left : Nat) (hAt : c.At k symbol buf) (hBefore : ∀ j < k, ¬ c.Shows j) :
    ∃ found, Finds c.Shows (k + left) found ∧ c.Gives (c.loop c.seenStrtab left k symbol buf) found := by
  induction left generalizing k symbol buf with
  | zero => exact ⟨none, hBefore, rfl⟩
  | succ left ih =>
    rw [loop_succ hAt]
    by_cases hShows : c.Shows k
    · exact ⟨some k, ⟨by omega, hShows, hBefore⟩, if_pos ((shows_iff hAt).mp hShows)⟩
    · rw [if_neg (hShows ∘ (shows_iff hAt).mpr), ← Nat.add_assoc, Nat.add_right_comm]
      exact ih (hAt.next hShows) (Nat.forall_lt_succ_right.mpr ⟨hBefore, hShows⟩)

lemma elfSymbolLookup_spec (c : SymbolLookup) :
    ∃ found, Finds c.Shows c.number found ∧ c.Gives c.elfSymbolLookup found := by
  have hAt : c.At 0 c.symbol c.buf := by
    refine ⟨rfl, fun _ => rfl, ?_⟩
    rintro ⟨j, hj, _⟩
    exact absurd hj (Nat.not_lt_zero j)
  have hStrtab : ElfSectionHeader.ofBytes (elfGetSection c.contents c.header (.ofNat c.symtab.link) c.lastStrtab).1 =
      c.seenStrtab := by
    rw [elfGetSection, UInt16.toNat_ofNat', seenStrtab]
  have hLoop := loop_spec c.number hAt fun j hj => absurd hj (Nat.not_lt_zero j)
  rwa [Nat.zero_add, ← hStrtab] at hLoop

lemma field_append {bytes : Bytes} {start n : Nat} (hIn : start + n ≤ bytes.length) (rest : Bytes) :
    field (bytes ++ rest) start n = field bytes start n := by
  rw [field, drop_append_of_le_length (by omega), take_append_of_le_length (by rw [length_drop]; omega), field]

lemma ofBytes_append {bytes : Bytes} (hLength : bytes.length = elfSymbolSize) (rest : Bytes) :
    ElfSymbol.ofBytes (bytes ++ rest) = .ofBytes bytes := by
  have hField : ∀ {start n}, start + n ≤ 16 → field (bytes ++ rest) start n = field bytes start n :=
    fun hIn => field_append (hLength ▸ hIn) rest
  rw [ElfSymbol.ofBytes, hField (by decide), hField (by decide), hField (by decide), hField (by decide), hField (by decide),
    hField (by decide), ElfSymbol.ofBytes]

lemma bytesAt_spec {offset n : Nat} {bytes : Bytes} (h : c.bytesAt offset n = some bytes) :
    bytes.length = n ∧ readAt c.contents offset n = bytes := by
  obtain ⟨⟨hLow, hIn⟩, ⟨⟩⟩ := ite_none_right_eq_some.mp h
  refine ⟨?_, readAt_low hLow⟩
  rw [length_take, length_drop]
  omega

lemma cString_take {bytes : Bytes} {n : Nat} (hZero : 0 ∈ bytes.take n) : cString (bytes.take n) = cString bytes := by
  obtain ⟨string, rest, hSplit, hString⟩ := eq_append_cons_of_mem hZero
  have hChars : ∀ b ∈ string, decide (b ≠ 0) = true := fun b hb => decide_eq_true fun hEq => hString (hEq ▸ hb)
  have hTake : ∀ rest, cString (string ++ 0 :: rest) = string := fun rest => by
    rw [cString, takeWhile_append_of_pos hChars, takeWhile_cons_of_neg (by simp), append_nil]
  have hWhole : string ++ 0 :: (rest ++ bytes.drop n) = bytes := by
    rw [← cons_append, ← append_assoc, ← hSplit, take_append_drop]
  rw [hSplit, hTake, ← hTake (rest ++ bytes.drop n), hWhole]

lemma seenSymbol_eq {symbol : ElfSymbol} (hAt : c.symbolAt i = some symbol) : c.seenSymbol i = symbol := by
  obtain ⟨bytes, hBytes, rfl⟩ := map_eq_some_iff.mp hAt
  obtain ⟨hLength, hRead⟩ := bytesAt_spec hBytes
  rw [seenSymbol, seenMemory_succ, splice_front, symbolBytes, hRead, ofBytes_append hLength]

lemma seenStrtab_offset {strtab : ElfSectionHeader} (hLinked : c.linkedSection = some strtab) :
    c.seenStrtab.offset = strtab.offset := by
  obtain ⟨hLink, hSection⟩ := ite_none_right_eq_some.mp hLinked
  obtain ⟨bytes, hBytes, rfl⟩ := map_eq_some_iff.mp hSection
  obtain ⟨hLength, hRead⟩ := bytesAt_spec hBytes
  rw [seenStrtab, Nat.mod_eq_of_lt hLink, splice_front, sectionBytes, hRead]
  exact field_append (by rw [hLength]; decide) _

lemma symbolString_spec {symbol : ElfSymbol} {string : Bytes} (hString : c.symbolString i = some (symbol, string)) :
    c.symbolAt i = some symbol ∧ (c.Shows i ↔ symbol.name ≠ 0 ∧ string.take 29 = c.name) := by
  obtain ⟨strtab, hLinked, hRest⟩ := bind_eq_some_iff.mp hString
  obtain ⟨_, hAt, hRest⟩ := bind_eq_some_iff.mp hRest
  obtain ⟨_, hIn, ⟨⟩⟩ := bind_eq_some_iff.mp hRest
  obtain ⟨⟨hLow, hZero⟩, ⟨⟩⟩ := ite_none_right_eq_some.mp hIn
  have hSeen : c.seenString i = (c.contents.drop (strtab.offset + symbol.name)).take 29 := by
    rw [seenString, seenStrtab_offset hLinked, seenSymbol_eq hAt, readAt_low hLow]
  have hSome : c.seenString i ≠ [] := by
    rw [hSeen]
    simpa using ne_nil_of_mem (mem_of_mem_take hZero)
  refine ⟨hAt, ?_⟩
  rw [Shows, seenSymbol_eq hAt, if_neg hSome, hSeen, cString_take hZero, cString, cString, take_takeWhile]

/-- Up to the first symbol with the name: a string in its place is the name just when the buffer holds it, and what is
read elsewhere or left from other reads is not. -/
def Sound (c : SymbolLookup) : Prop :=
  ∀ i < c.number, (∀ j < i, ¬ c.Named j) →
    (∀ symbol string, c.symbolString i = some (symbol, string) →
      (string = c.name ↔ symbol.name ≠ 0 ∧ string.take 29 = c.name)) ∧
    (c.symbolString i = none → ¬ c.Shows i)

lemma agree_iff (i : Nat) : (c.Shows i ↔ c.Named i) ↔ (∀ symbol string, c.symbolString i = some (symbol, string) →
      (string = c.name ↔ symbol.name ≠ 0 ∧ string.take 29 = c.name)) ∧
    (c.symbolString i = none → ¬ c.Shows i) := by
  cases hString : c.symbolString i with
  | none => simp [Named, hString]
  | some found =>
    obtain ⟨symbol, string⟩ := found
    simp [Named, hString, (symbolString_spec hString).2, iff_comm]

lemma Answers.found_unique {found shown : Option Nat} (h : c.Answers found) (hGives : c.Gives c.elfSymbolLookup shown) :
    found = shown := by
  have hError : (0 : Int) ≠ -1 := by decide
  cases found with
  | none =>
    cases shown with
    | none => rfl
    | some j => exact absurd ((congrArg Prod.fst hGives).symm.trans h) hError
  | some i =>
    obtain ⟨_, _, hEq⟩ := h
    cases shown with
    | none => exact absurd ((congrArg Prod.fst hEq).symm.trans hGives) hError
    | some j =>
      cases hEq.symm.trans hGives
      rfl

lemma right_iff_agree (c : SymbolLookup) : c.Right ↔ ∀ i < c.number, (∀ j < i, ¬ c.Named j) → (c.Shows i ↔ c.Named i) := by
  obtain ⟨shown, hShown, hGives⟩ := c.elfSymbolLookup_spec
  rw [← hShown.agree_iff]
  constructor
  · rintro ⟨_, hFound, hAnswers⟩
    exact hAnswers.found_unique hGives ▸ hFound
  · intro hFound
    refine ⟨shown, hFound, ?_⟩
    cases shown with
    | none => exact hGives
    | some i =>
      obtain ⟨_, ⟨symbol, hString⟩, _⟩ := hFound
      obtain ⟨hAt, _⟩ := symbolString_spec hString
      exact ⟨symbol, hAt, hGives.trans (by rw [seenSymbol_eq hAt])⟩

end SymbolLookup

theorem symbol_lookup_iff (c : SymbolLookup) : c.Right ↔ c.Sound := by
  rw [c.right_iff_agree]
  exact forall_congr' fun i => imp_congr_right fun _ => imp_congr_right fun _ => SymbolLookup.agree_iff i

def symbolFile (string : Bytes) : Bytes :=
  headerBytes 0 52 0 ++
    (replicate 16 0 ++ Arch.wordBytes 108 ++ Arch.wordBytes (string.length + 2) ++ replicate 16 0) ++
    (Arch.wordBytes 1 ++ Arch.wordBytes 0x1000 ++ Arch.wordBytes 0 ++ [0x12, 0, 0, 1]) ++ 0 :: string ++ [0]

def symbolCall (string name : Bytes) : SymbolLookup :=
  ⟨symbolFile string, .ofBytes (headerBytes 0 52 0), ⟨elfsTypeSymtab, 92, 16, 0⟩, name, replicate 40 65, replicate 16 65,
    replicate 30 65⟩

def mainName : Bytes := [0x6d, 0x61, 0x69, 0x6e]

theorem symbol_lookup_main : (symbolCall mainName mainName).Right := by
  refine (symbol_lookup_iff (symbolCall mainName mainName)).mpr ?_
  intro i hi _
  obtain rfl : i = 0 := Nat.lt_one_iff.mp hi
  have hString : (symbolCall mainName mainName).symbolString 0 = some (⟨1, 0x1000, 0, 0x12, 0, 1⟩, mainName) := by
    decide +kernel
  rw [hString]
  constructor
  · rintro _ _ ⟨⟩
    decide
  · rintro ⟨⟩

def longName : Bytes := replicate 30 97

theorem long_symbol_confused : (symbolCall longName longName).symbolString 0 = some (⟨1, 0x1000, 0, 0x12, 0, 1⟩, longName) ∧
      (symbolCall longName (longName.take 29)).elfSymbolLookup.1 = 0 ∧
      (symbolCall longName longName).elfSymbolLookup.1 = -1 ∧ ¬ (symbolCall longName longName).Right := by
  have hString : (symbolCall longName longName).symbolString 0 = some (⟨1, 0x1000, 0, 0x12, 0, 1⟩, longName) := by
    decide +kernel
  have hNot : (symbolCall longName longName).elfSymbolLookup.1 = -1 := by decide +kernel
  refine ⟨hString, by decide +kernel, hNot, ?_⟩
  rintro ⟨found, hFound, hAnswers⟩
  cases found with
  | none => exact hFound 0 (by decide) ⟨_, hString⟩
  | some i =>
    obtain ⟨_, _, hEq⟩ := hAnswers
    rw [hEq] at hNot
    exact absurd hNot (show (0 : Int) ≠ -1 by decide)

end Fixos.Loader
