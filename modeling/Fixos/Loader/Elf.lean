import Fixos.Arch.PhysicalMemory
import Fixos.Fs.SmemFile

/-! # The files that the loader reads (`loader/elfloader/elf.h`, `loader/elfloader/elf_utils.c`)

`vfs_lseek` goes to an offset that is computed as an unsigned word, and `vfs_read` copies what is there.
-/

namespace Fixos.Loader

open Arch Fs Word List

def seekSet (size offset : Nat) : Nat :=
  if offset % 2 ^ 32 < 2 ^ 31 then min (offset % 2 ^ 32) size else 0

def readAt (contents : Bytes) (offset len : Nat) : Bytes :=
  (contents.drop (seekSet contents.length offset)).take len

section

variable {contents : Bytes} {size offset len : Nat}

lemma seekSet_le (size offset : Nat) : seekSet size offset ≤ size := by
  unfold seekSet
  split <;> omega

lemma seekSet_low (h : offset < 2 ^ 31) : seekSet size offset = min offset size := by
  have hWord : offset % 2 ^ 32 = offset := Nat.mod_eq_of_lt (by omega)
  rw [seekSet, hWord, if_pos h]

lemma seekSet_high (hLow : 2 ^ 31 ≤ offset) (hHigh : offset < 2 ^ 32) : seekSet size offset = 0 := by
  rw [seekSet, Nat.mod_eq_of_lt hHigh, if_neg (Nat.not_lt.mpr hLow)]

lemma seekSet_wrapped (h : offset < 2 ^ 31) : seekSet size (2 ^ 32 + offset) = min offset size := by
  rw [seekSet, Nat.add_mod_left, ← seekSet, seekSet_low h]

lemma length_readAt (contents : Bytes) (offset len : Nat) :
    (readAt contents offset len).length = min len (contents.length - seekSet contents.length offset) := by
  rw [readAt, length_take, length_drop]

lemma readAt_low (h : offset < 2 ^ 31) : readAt contents offset len = (contents.drop offset).take len := by
  rw [readAt, seekSet_low h]
  rcases Nat.le_total offset contents.length with hIn | hOut
  · rw [Nat.min_eq_left hIn]
  · rw [Nat.min_eq_right hOut, drop_length, drop_eq_nil_of_le hOut]

lemma readAt_high (hLow : 2 ^ 31 ≤ offset) (hHigh : offset < 2 ^ 32) : readAt contents offset len = contents.take len := by
  rw [readAt, seekSet_high hLow hHigh, drop_zero]

lemma readAt_wrapped (h : offset < 2 ^ 31) : readAt contents (2 ^ 32 + offset) len = readAt contents offset len := by
  rw [readAt, seekSet_wrapped h, readAt, seekSet_low h]

lemma smemfsRead_readAt {vol : SmemVolume} {entry : SmemEntry} (h : entry.WellFormed vol)
    (hSize : entry.fileSize < 2 ^ 31) {flags : BitVec 32} (hFlags : flags &&& O_RDONLY ≠ 0) (pos offset len : Nat) :
    ∃ filep, smemfsRead vol (smemfsLseek ⟨entry, flags, pos⟩ (signed (offset % 2 ^ 32)) .seekSet).2 len =
      some (readAt (entry.bytes vol) offset len, ((readAt (entry.bytes vol) offset len).length : Int), filep) := by
  have hSeek : (smemfsLseek ⟨entry, flags, pos⟩ (signed (offset % 2 ^ 32)) .seekSet).2 =
      ⟨entry, flags, seekSet entry.fileSize offset⟩ := by
    have hPos : (if (if signed (offset % 2 ^ 32) < 0 then 0 else (signed (offset % 2 ^ 32)).toNat) > entry.fileSize then
        entry.fileSize else if signed (offset % 2 ^ 32) < 0 then 0 else (signed (offset % 2 ^ 32)).toNat) =
        seekSet entry.fileSize offset := by
      unfold seekSet signed
      split <;> split <;> split <;> omega
    exact congrArg (SmemfsFile.mk entry flags) hPos
  rw [hSeek, smemfsRead_eq h hSize hFlags (seekSet_le _ _), length_readAt, readAt, h.length_bytes, Nat.min_comm]
  exact ⟨_, rfl⟩

end

def field (bytes : Bytes) (start n : Nat) : Nat :=
  ((bytes.drop start).take n).foldl (fun value byte => value * 256 + byte.toNat) 0

structure ElfHeader where
  magic : Bytes
  elfClass : UInt8
  endianness : UInt8
  identVersion : UInt8
  osabi : UInt8
  type : Nat
  machine : Nat
  version : Nat
  entry : Nat
  phoff : Nat
  shoff : Nat
  ehsize : Nat
  phentsize : Nat
  phnum : Nat
  shnum : Nat
deriving DecidableEq

def elfHeaderSize : Nat := 52

def ElfHeader.ofBytes (bytes : Bytes) : ElfHeader where
  magic := bytes.take 4
  elfClass := bytes.getD 4 0
  endianness := bytes.getD 5 0
  identVersion := bytes.getD 6 0
  osabi := bytes.getD 7 0
  type := field bytes 16 2
  machine := field bytes 18 2
  version := field bytes 20 4
  entry := field bytes 24 4
  phoff := field bytes 28 4
  shoff := field bytes 32 4
  ehsize := field bytes 40 2
  phentsize := field bytes 42 2
  phnum := field bytes 44 2
  shnum := field bytes 48 2

structure ElfProgHeader where
  type : Nat
  offset : Nat
  vaddr : Nat
  filesz : Nat
  memsz : Nat
deriving DecidableEq

def elfProgHeaderSize : Nat := 32

def ElfProgHeader.ofBytes (bytes : Bytes) : ElfProgHeader where
  type := field bytes 0 4
  offset := field bytes 4 4
  vaddr := field bytes 8 4
  filesz := field bytes 16 4
  memsz := field bytes 20 4

def elfpTypeLoad : Nat := 1

def elfpTypeShlib : Nat := 5

def elfGetHeader (contents : Bytes) : Option ElfHeader :=
  let bytes := readAt contents 0 elfHeaderSize
  if bytes.length = elfHeaderSize then some (.ofBytes bytes) else none

def checkElfHeader (h : ElfHeader) : Int :=
  if h.magic = [0x7f, 0x45, 0x4c, 0x46] then
    if h.elfClass = 1 ∧ h.endianness = 2 ∧ h.identVersion = 1 ∧ h.osabi = 0 then
      if h.type = 2 ∧ h.machine = 42 ∧ h.version = 1 ∧ h.ehsize = elfHeaderSize ∧
          h.phentsize = elfProgHeaderSize then
        0
      else -1
    else -1
  else -1

def elfGetProgHeader (contents : Bytes) (h : ElfHeader) (i : Nat) : Option ElfProgHeader :=
  let bytes := readAt contents (h.phoff + i * elfProgHeaderSize) elfProgHeaderSize
  if bytes.length = elfProgHeaderSize then some (.ofBytes bytes) else none

def ValidHeader (contents : Bytes) (h : ElfHeader) : Prop :=
  elfGetHeader contents = some h ∧ checkElfHeader h = 0
deriving Decidable

section

variable {contents : Bytes} {h : ElfHeader}

lemma elfGetHeader_eq (hGet : elfGetHeader contents = some h) :
    elfHeaderSize ≤ contents.length ∧ h = .ofBytes (contents.take elfHeaderSize) := by
  have hRead : readAt contents 0 elfHeaderSize = contents.take elfHeaderSize := readAt_low (by decide)
  simp only [elfGetHeader, hRead] at hGet
  split at hGet
  · rename_i hLength
    rw [length_take] at hLength
    exact ⟨by omega, (Option.some.inj hGet).symm⟩
  · cases hGet

def elfIdent : Bytes := [0x7f, 0x45, 0x4c, 0x46, 1, 2, 1, 0]

lemma ValidHeader.ident (hValid : ValidHeader contents h) : ∃ rest, contents = elfIdent ++ rest := by
  obtain ⟨hGet, hCheck⟩ := hValid
  obtain ⟨hLength, rfl⟩ := elfGetHeader_eq hGet
  unfold checkElfHeader at hCheck
  split at hCheck
  · rename_i hMagic
    split at hCheck
    · rename_i hIdent
      match contents, hLength with
      | b0 :: b1 :: b2 :: b3 :: b4 :: b5 :: b6 :: b7 :: rest, hLength =>
        simp only [ElfHeader.ofBytes, elfHeaderSize, take_succ_cons, take_zero, cons.injEq, and_true,
          getD_cons_succ, getD_cons_zero] at hMagic hIdent
        obtain ⟨rfl, rfl, rfl, rfl⟩ := hMagic
        obtain ⟨rfl, rfl, rfl, rfl⟩ := hIdent
        exact ⟨rest, rfl⟩
    · cases hCheck
  · cases hCheck

end

def headerBytes (entry shoff : Nat) (phnum : UInt8) : Bytes :=
  elfIdent ++ replicate 8 0 ++ [0, 2, 0, 42] ++ wordBytes 1 ++ wordBytes entry ++ wordBytes elfHeaderSize ++
    wordBytes shoff ++ wordBytes 0 ++ [0, 52, 0, 32, 0, phnum, 0, 40, 0, 0, 0, 0]

def progHeaderBytes (ph : ElfProgHeader) : Bytes :=
  wordBytes ph.type ++ wordBytes ph.offset ++ wordBytes ph.vaddr ++ wordBytes 0 ++ wordBytes ph.filesz ++
    wordBytes ph.memsz ++ wordBytes 0 ++ wordBytes 0

end Fixos.Loader
