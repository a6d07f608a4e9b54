import Fixos.Lib.Word

/-! # The flash memory (`arch/sh/memory/c_s29jl032h.c`)

The driver writes words to the bus, and the chip takes one as a programming or an erasure when the commands before it
say so. The polls after every operation only read and are left out.
-/

namespace Fixos.Arch

open Word List

def eepromModifyLow : Nat := 0x1A0000
def eepromModifyHigh : Nat := 0x200000

structure BusWrite where
  addr : Nat
  data : BitVec 16
deriving DecidableEq

inductive FlashMode where
  | read
  | unlocked
  | ready
  | program
  | erase
  | eraseUnlocked
  | eraseReady
  | bypass
  | bypassProgram
  | bypassReset
deriving DecidableEq

inductive FlashOp where
  | program (addr : Nat) (data : BitVec 16)
  | eraseSector (addr : Nat)
deriving DecidableEq

def commandA : BusWrite := ⟨0xAAA, 0xAA⟩
def commandB : BusWrite := ⟨0x554, 0x55⟩

def FlashMode.command (data : BitVec 16) : FlashMode :=
  if data = 0xA0 then .program else if data = 0x80 then .erase else if data = 0x20 then .bypass else .read

def flashWrite (mode : FlashMode) (w : BusWrite) : FlashMode × List FlashOp :=
  match mode with
  | .read => (if w = commandA then .unlocked else .read, [])
  | .unlocked => (if w = commandB then .ready else .read, [])
  | .ready => (if w.addr = 0xAAA then .command w.data else .read, [])
  | .program => (.read, [.program w.addr w.data])
  | .erase => (if w = commandA then .eraseUnlocked else .read, [])
  | .eraseUnlocked => (if w = commandB then .eraseReady else .read, [])
  | .eraseReady => (.read, if w.data = 0x30 then [.eraseSector w.addr] else [])
  | .bypass => (if w.data = 0xA0 then .bypassProgram else if w.data = 0x90 then .bypassReset else .bypass, [])
  | .bypassProgram => (.bypass, [.program w.addr w.data])
  | .bypassReset => (if w.data = 0x00 then .read else .bypass, [])

def flashRun : FlashMode → List BusWrite → FlashMode × List FlashOp
  | mode, [] => (mode, [])
  | mode, w :: rest =>
    let next := flashWrite mode w
    let last := flashRun next.1 rest
    (last.1, next.2 ++ last.2)

lemma flashRun_append (mode : FlashMode) (before after : List BusWrite) :
    flashRun mode (before ++ after) = ((flashRun (flashRun mode before).1 after).1,
      (flashRun mode before).2 ++ (flashRun (flashRun mode before).1 after).2) := by
  induction before generalizing mode with
  | nil => rfl
  | cons w before ih =>
    rw [cons_append, flashRun, flashRun, ih]
    simp

def maskedAddr (addr : Nat) : Nat := addr % 0x400000

def eepromProgramWord (addr : Nat) (data : BitVec 16) : List BusWrite :=
  let maskedaddr := maskedAddr addr
  -- protection to avoid stupid erasement of Casio OS!
  if eepromModifyLow ≤ maskedaddr ∧ maskedaddr < eepromModifyHigh then
    [commandA, commandB, ⟨0xAAA, 0xA0⟩, ⟨maskedaddr, data⟩, ⟨0, 0xF0⟩]
  else []

def wordOf (high low : UInt8) : BitVec 16 := high.toBitVec ++ low.toBitVec

def programBytes (data : Nat → UInt8) : Nat → Nat → Nat → List BusWrite
  | _, _, 0 => []
  | maskedlow, pos, 1 => [⟨0, 0xA0⟩, ⟨maskedlow, wordOf (data pos) 0xFF⟩]
  | maskedlow, pos, size + 2 =>
    ⟨0, 0xA0⟩ :: ⟨maskedlow, wordOf (data pos) (data (pos + 1))⟩ ::
      programBytes data (add maskedlow 2) (pos + 2) size

def eepromProgramArray (addrDest : Nat) (data : Nat → UInt8) (size : Nat) : List BusWrite :=
  let maskedlow := maskedAddr addrDest
  let maskedhigh := maskedAddr (add addrDest size)
  if eepromModifyLow ≤ maskedlow ∧ maskedhigh < eepromModifyHigh then
    [commandA, commandB, ⟨0xAAA, 0x20⟩] ++
      (if addrDest % 2 = 1 then
        ⟨0, 0xA0⟩ :: ⟨maskedlow - 1, wordOf 0xFF (data 0)⟩ :: programBytes data (maskedlow + 1) 1 (sub size 1)
      else programBytes data maskedlow 0 size) ++
      [⟨0, 0x90⟩, ⟨0, 0x00⟩]
  else []

def eepromEraseSector (addr : Nat) : List BusWrite :=
  let maskedaddr := maskedAddr addr
  if eepromModifyLow ≤ maskedaddr ∧ maskedaddr < eepromModifyHigh then
    let sector := if 0x10000 ≤ maskedaddr then maskedaddr / 0x10000 * 0x10000 else maskedaddr / 0x2000 * 0x2000
    [commandA, commandB, ⟨0xAAA, 0x80⟩, commandA, commandB, ⟨sector, 0x30⟩]
  else []

inductive EepromCall where
  | programWord (addr : UInt32) (data : BitVec 16)
  | programArray (addrDest : UInt32) (data : Nat → UInt8) (size : UInt32)
  | eraseSector (addr : UInt32)

def EepromCall.writes : EepromCall → List BusWrite
  | .programWord addr data => eepromProgramWord addr.toNat data
  | .programArray addrDest data size => eepromProgramArray addrDest.toNat data size.toNat
  | .eraseSector addr => eepromEraseSector addr.toNat

def UnitAllowed (size addr : Nat) : Prop :=
  eepromModifyLow ≤ addr / size * size ∧ addr / size * size + size ≤ eepromModifyHigh

def FlashOp.Allowed : FlashOp → Prop
  | .program addr _ => UnitAllowed 2 addr
  | .eraseSector addr => UnitAllowed 0x10000 addr

/-- An array that passes the check of the bounds is not empty and lies inside them, or is empty from an even
address on. -/
def EepromCall.Fits : EepromCall → Prop
  | .programArray addrDest _ size =>
    eepromModifyLow ≤ maskedAddr addrDest.toNat → maskedAddr (add addrDest.toNat size.toNat) < eepromModifyHigh →
      if size = 0 then addrDest.toNat % 2 = 0 else maskedAddr addrDest.toNat + size.toNat ≤ eepromModifyHigh
  | .programWord _ _ | .eraseSector _ => True

section

variable {op : FlashOp}

lemma flashRun_bypassProgram (addr : Nat) (data : BitVec 16) (rest : List BusWrite) :
    flashRun .bypass (⟨0, 0xA0⟩ :: ⟨addr, data⟩ :: rest) =
      ((flashRun .bypass rest).1, .program addr data :: (flashRun .bypass rest).2) := rfl

lemma flashRun_programBytes (data : Nat → UInt8) (maskedlow pos size : Nat) (hLow : maskedlow < 2 ^ 32) :
    (flashRun .bypass (programBytes data maskedlow pos size)).1 = .bypass ∧
    ((∀ op ∈ (flashRun .bypass (programBytes data maskedlow pos size)).2, op.Allowed) ↔
      ∀ i, 2 * i < size → UnitAllowed 2 ((maskedlow + 2 * i) % 2 ^ 32)) := by
  have hFirst : (maskedlow + 2 * 0) % 2 ^ 32 = maskedlow := Nat.mod_eq_of_lt hLow
  fun_induction programBytes data maskedlow pos size with
  | case1 => exact ⟨rfl, by simp [flashRun]⟩
  | case2 maskedlow pos =>
    rw [flashRun_bypassProgram]
    refine ⟨rfl, ?_⟩
    simp only [flashRun, forall_mem_singleton]
    constructor
    · intro hWord i hi
      obtain rfl : i = 0 := by omega
      rw [hFirst]
      exact hWord
    · intro hAll
      have hWord := hAll 0 (by decide)
      rwa [hFirst] at hWord
  | case3 maskedlow pos size ih =>
    have hNext : add maskedlow 2 < 2 ^ 32 := Nat.mod_lt _ (by decide)
    obtain ⟨hMode, hRest⟩ := ih hNext (Nat.mod_eq_of_lt hNext)
    have hShift (i : Nat) : (add maskedlow 2 + 2 * i) % 2 ^ 32 = (maskedlow + 2 * (i + 1)) % 2 ^ 32 := by
      rw [add, Nat.mod_add_mod]
      congr 1
      omega
    rw [flashRun_bypassProgram]
    refine ⟨hMode, ?_⟩
    rw [forall_mem_cons, hRest]
    constructor
    · rintro ⟨hWord, hLater⟩ i hi
      cases i with
      | zero =>
        rw [hFirst]
        exact hWord
      | succ i =>
        rw [← hShift]
        exact hLater i (by omega)
    · intro hAll
      have hWord := hAll 0 (by omega)
      rw [hFirst] at hWord
      refine ⟨hWord, fun i hi => ?_⟩
      rw [hShift]
      exact hAll (i + 1) (by omega)

lemma words_allowed_iff {start size : Nat} (hEven : start % 2 = 0) (hLow : eepromModifyLow ≤ start)
    (hStart : start < 2 ^ 31) :
    (∀ i, 2 * i < size → UnitAllowed 2 ((start + 2 * i) % 2 ^ 32)) ↔ size = 0 ∨ start + size ≤ eepromModifyHigh := by
  have hHigh : eepromModifyHigh = 0x200000 := rfl
  unfold UnitAllowed
  constructor
  · intro hAll
    by_contra hNot
    -- the word at the upper bound, or the first one behind it
    rcases Nat.lt_or_ge start eepromModifyHigh with _ | _
    · have hLast := (hAll ((eepromModifyHigh - start) / 2) (by omega)).2
      omega
    · have hFirst := (hAll 0 (by omega)).2
      omega
  · intro _ i _
    omega

lemma flashRun_bypassed {body : List BusWrite} (hBody : (flashRun .bypass body).1 = .bypass) :
    flashRun .read ([commandA, commandB, ⟨0xAAA, 0x20⟩] ++ body ++ [⟨0, 0x90⟩, ⟨0, 0x00⟩]) =
      (.read, (flashRun .bypass body).2) := by
  have hEnter : flashRun .read [commandA, commandB, ⟨0xAAA, 0x20⟩] = (.bypass, []) := rfl
  have hLeave : flashRun .bypass [⟨0, 0x90⟩, ⟨0, 0x00⟩] = (.read, []) := rfl
  rw [append_assoc, flashRun_append, hEnter, flashRun_append, hBody, hLeave]
  simp

lemma flashRun_programArray (addrDest : Nat) (data : Nat → UInt8) (size : Nat) (hSize : size < 2 ^ 32) :
    (flashRun .read (eepromProgramArray addrDest data size)).1 = .read ∧
    ((∀ op ∈ (flashRun .read (eepromProgramArray addrDest data size)).2, op.Allowed) ↔
      (eepromModifyLow ≤ maskedAddr addrDest → maskedAddr (add addrDest size) < eepromModifyHigh →
        if size = 0 then addrDest % 2 = 0 else maskedAddr addrDest + size ≤ eepromModifyHigh)) := by
  have hLow : eepromModifyLow = 0x1A0000 := rfl
  have hHigh : eepromModifyHigh = 0x200000 := rfl
  have hMasked : maskedAddr addrDest < 0x400000 := Nat.mod_lt _ (by decide)
  have hParity : maskedAddr addrDest % 2 = addrDest % 2 := by
    unfold maskedAddr
    omega
  unfold eepromProgramArray
  dsimp only
  split
  · rename_i hPassed
    simp only [hPassed.1, hPassed.2, true_imp_iff]
    split
    · -- one byte less is left, and with none at all the count wraps
      obtain ⟨left, hLeft⟩ : ∃ left, sub size 1 = left := ⟨_, rfl⟩
      have hCount : (size = 0 ∧ left = 2 ^ 32 - 1) ∨ (0 < size ∧ left = size - 1) := by
        rw [← hLeft, sub]
        omega
      rw [hLeft]
      obtain ⟨hMode, hWords⟩ := flashRun_programBytes data (maskedAddr addrDest + 1) 1 left (by omega)
      rw [words_allowed_iff (by omega) (by omega) (by omega)] at hWords
      rw [flashRun_bypassed (by exact hMode), flashRun_bypassProgram, forall_mem_cons, hWords]
      refine ⟨rfl, ?_⟩
      simp only [FlashOp.Allowed, UnitAllowed]
      split <;> omega
    · obtain ⟨hMode, hWords⟩ := flashRun_programBytes data (maskedAddr addrDest) 0 size (by omega)
      rw [words_allowed_iff (by omega) hPassed.1 (by omega)] at hWords
      rw [flashRun_bypassed hMode, hWords]
      refine ⟨rfl, ?_⟩
      split <;> omega
  · rename_i hRefused
    refine ⟨rfl, fun _ hOver hUnder => absurd ⟨hOver, hUnder⟩ hRefused, fun _ op hOp => absurd hOp not_mem_nil⟩

lemma flashRun_programWord (addr : Nat) (data : BitVec 16) : (flashRun .read (eepromProgramWord addr data)).1 = .read ∧
      ∀ op ∈ (flashRun .read (eepromProgramWord addr data)).2, op.Allowed := by
  have hLow : eepromModifyLow = 0x1A0000 := rfl
  have hHigh : eepromModifyHigh = 0x200000 := rfl
  unfold eepromProgramWord
  dsimp only
  split_ifs with hPassed
  · have hOps : flashRun .read [commandA, commandB, ⟨0xAAA, 0xA0⟩, ⟨maskedAddr addr, data⟩, ⟨0, 0xF0⟩] =
        (.read, [.program (maskedAddr addr) data]) := rfl
    rw [hOps]
    refine ⟨rfl, forall_mem_singleton.mpr ?_⟩
    unfold FlashOp.Allowed UnitAllowed
    omega
  · exact ⟨rfl, fun op hOp => absurd hOp not_mem_nil⟩

lemma flashRun_eraseSector (addr : Nat) : (flashRun .read (eepromEraseSector addr)).1 = .read ∧
      ∀ op ∈ (flashRun .read (eepromEraseSector addr)).2, op.Allowed := by
  have hLow : eepromModifyLow = 0x1A0000 := rfl
  have hHigh : eepromModifyHigh = 0x200000 := rfl
  unfold eepromEraseSector
  dsimp only
  split
  · have hOps (sector : Nat) : flashRun .read [commandA, commandB, ⟨0xAAA, 0x80⟩, commandA, commandB, ⟨sector, 0x30⟩] =
        (.read, [.eraseSector sector]) := rfl
    rw [hOps, if_pos (by omega)]
    refine ⟨rfl, forall_mem_singleton.mpr ?_⟩
    unfold FlashOp.Allowed UnitAllowed
    omega
  · exact ⟨rfl, fun op hOp => absurd hOp not_mem_nil⟩

lemma EepromCall.operations (call : EepromCall) : (flashRun .read call.writes).1 = .read ∧
    ((∀ op ∈ (flashRun .read call.writes).2, op.Allowed) ↔ call.Fits) := by
  cases call with
  | programWord addr data =>
    obtain ⟨hMode, hAllowed⟩ := flashRun_programWord addr.toNat data
    exact ⟨hMode, iff_of_true hAllowed trivial⟩
  | programArray addrDest data size =>
    obtain ⟨hMode, hAllowed⟩ := flashRun_programArray addrDest.toNat data size.toNat size.toNat_lt
    refine ⟨hMode, hAllowed.trans ?_⟩
    simp [EepromCall.Fits, ← UInt32.toNat_inj]
  | eraseSector addr =>
    obtain ⟨hMode, hAllowed⟩ := flashRun_eraseSector addr.toNat
    exact ⟨hMode, iff_of_true hAllowed trivial⟩

end

/-- Over any calls, the chip programs and erases only where modifications are allowed exactly if every array fits. -/
theorem eeprom_operations_allowed_iff (calls : List EepromCall) :
    (∀ op ∈ (flashRun .read (calls.flatMap EepromCall.writes)).2, op.Allowed) ↔ ∀ call ∈ calls, call.Fits := by
  induction calls with
  | nil => simp [flashRun]
  | cons call calls ih =>
    obtain ⟨hMode, hCall⟩ := call.operations
    rw [flatMap_cons, flashRun_append, hMode, forall_mem_cons, ← ih, ← hCall, forall_mem_append]

/-- Two bytes at the end of the chip pass the check of the bounds, since the end of the array wraps to 0. -/
theorem eeprom_programs_outside : ∃ op ∈ (flashRun .read (eepromProgramArray 0x3FFFFE (fun _ => 0) 2)).2, ¬ op.Allowed := by
  refine ⟨.program 0x3FFFFE 0, ?_, ?_⟩
  · decide
  · unfold FlashOp.Allowed UnitAllowed
    decide

end Fixos.Arch
