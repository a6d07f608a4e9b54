import Mathlib.Algebra.Ring.Nat
import Mathlib.Data.List.Count

/-! # Physical pages (`arch/sh/physical_memory.c`)

A page is handed out with whatever it holds. Each byte remembers which process stored it, which the machine does not.
-/

namespace Fixos.Arch

open Function Option

def pmPageBytes : Nat := 1024

abbrev Ppn := Nat

structure Cell where
  value : UInt8
  writer : Option Nat
deriving DecidableEq

structure PhysMem where
  free : List Ppn
  cells : Ppn → Nat → Cell

def PhysMem.store (pm : PhysMem) (ppn pos : Nat) (writer : Option Nat) (bytes : List UInt8) : PhysMem :=
  { pm with
    cells := update pm.cells ppn fun i =>
      if pos ≤ i ∧ i < pos + bytes.length then ⟨bytes.getD (i - pos) 0, writer⟩
      else pm.cells ppn i }

def PhysMem.copy (pm : PhysMem) (dest orig : Ppn) : PhysMem :=
  { pm with cells := update pm.cells dest (pm.cells orig) }

def wordBytes (word : Nat) : List UInt8 :=
  [.ofNat (word / 2 ^ 24), .ofNat (word / 2 ^ 16), .ofNat (word / 2 ^ 8), .ofNat word]

def pmFirstFree : List Ppn → Nat
  | [] => 0
  | ppn :: _ => 0x80000000 + ppn * pmPageBytes

def pmGetFreePage (pm : PhysMem) : Option (Ppn × PhysMem) :=
  match pm.free with
  | [] => none
  | ppn :: free => some (ppn, { pm with free })

def pmFreePage (pm : PhysMem) (ppn : Ppn) : Option PhysMem :=
  if ppn = 0 then none
  else some { pm.store ppn 0 none (wordBytes (pmFirstFree pm.free)) with free := ppn :: pm.free }

@[simp] lemma PhysMem.store_free (pm : PhysMem) (ppn pos : Nat) (writer : Option Nat)
    (bytes : List UInt8) : (pm.store ppn pos writer bytes).free = pm.free := rfl

variable {pm pm' : PhysMem} {ppn : Ppn}

lemma pmGetFreePage_eq_some (h : pmGetFreePage pm = some (ppn, pm')) :
    pm.free = ppn :: pm'.free ∧ pm'.cells = pm.cells := by
  unfold pmGetFreePage at h
  split at h
  · cases h
  · cases h
    exact ⟨‹_›, rfl⟩

lemma pmFreePage_free (h : pmFreePage pm ppn = some pm') : pm'.free = ppn :: pm.free := by
  unfold pmFreePage at h
  split at h
  · cases h
  · cases h
    rfl

lemma pmFreePage_cells {r : Ppn} (h : pmFreePage pm ppn = some pm') (hr : r ≠ ppn) : pm'.cells r = pm.cells r := by
  unfold pmFreePage at h
  split at h
  · cases h
  · cases h
    exact update_of_ne hr _ _

lemma pmFreePage_some (h : ppn ≠ 0) (pm : PhysMem) : ∃ pm', pmFreePage pm ppn = some pm' := by
  rw [pmFreePage, if_neg h]
  exact ⟨_, rfl⟩

section

variable (q : Nat)

def Cell.erase (c : Cell) : Cell := if c.writer = some q then { c with value := 0 } else c

/-- The memory with zeroes for the bytes that process `q` stored last. -/
def PhysMem.erase (pm : PhysMem) : PhysMem := { pm with cells := fun ppn i => (pm.cells ppn i).erase q }

lemma Cell.erase_of_ne {c : Cell} (h : c.writer ≠ some q) : c.erase q = c := if_neg h

@[simp] lemma Cell.erase_writer (c : Cell) : (c.erase q).writer = c.writer := by
  unfold Cell.erase
  split <;> rfl

lemma PhysMem.erase_store (pm : PhysMem) (ppn pos : Nat) (bytes : List UInt8) :
    (pm.store ppn pos none bytes).erase q = (pm.erase q).store ppn pos none bytes := by
  simp only [store, erase, mk.injEq, true_and]
  funext r i
  rcases eq_or_ne r ppn with rfl | hr
  · simp only [update_self]
    split <;> rfl
  · simp [update_of_ne hr]

lemma PhysMem.erase_userStore (pm : PhysMem) (ppn pos p : Nat) (byte : UInt8) :
    (pm.store ppn pos (some p) [byte]).erase q = (pm.erase q).store ppn pos (some p) [if p = q then 0 else byte] := by
  simp only [store, erase, mk.injEq, true_and]
  funext r i
  rcases eq_or_ne r ppn with rfl | hr
  · simp only [update_self, List.length_singleton]
    split
    · have hi : i - pos = 0 := by omega
      simp only [Cell.erase, some_inj, hi, List.getD_cons_zero]
      split <;> rfl
    · rfl
  · simp [update_of_ne hr]

lemma PhysMem.erase_copy (pm : PhysMem) (dest orig : Ppn) : (pm.copy dest orig).erase q = (pm.erase q).copy dest orig := by
  simp only [copy, erase, mk.injEq, true_and]
  funext r i
  rcases eq_or_ne r dest with rfl | hr
  · simp
  · simp [update_of_ne hr]

lemma pmGetFreePage_erase (pm : PhysMem) :
    pmGetFreePage (pm.erase q) = (pmGetFreePage pm).map fun r => (r.1, r.2.erase q) := by
  obtain ⟨free, _⟩ := pm
  cases free <;> rfl

lemma pmFreePage_erase (pm : PhysMem) (ppn : Ppn) :
    pmFreePage (pm.erase q) ppn = (pmFreePage pm ppn).map (PhysMem.erase q) := by
  unfold pmFreePage
  split
  · rfl
  · rw [map_some, some_inj]
    exact congrArg (fun pm' : PhysMem => PhysMem.mk (ppn :: pm.free) pm'.cells)
      (PhysMem.erase_store q pm ppn 0 (wordBytes (pmFirstFree pm.free))).symm

end

def PhysMem.CleanAt (q : Nat) (pm : PhysMem) (ppn : Ppn) (i : Nat) : Prop :=
  (pm.cells ppn i).writer ≠ some q

instance (q : Nat) (pm : PhysMem) (ppn : Ppn) (i : Nat) :
    Decidable (pm.CleanAt q ppn i) :=
  inferInstanceAs (Decidable (_ ≠ _))

def PhysMem.KeepsClean (q : Nat) (pm pm' : PhysMem) : Prop :=
  ∀ ppn i, pm.CleanAt q ppn i → pm'.CleanAt q ppn i

variable {q : Nat} {pm pm' pm'' : PhysMem}

lemma PhysMem.KeepsClean.refl (pm : PhysMem) : pm.KeepsClean q pm := fun _ _ h => h

lemma PhysMem.KeepsClean.trans (h : pm.KeepsClean q pm') (h' : pm'.KeepsClean q pm'') : pm.KeepsClean q pm'' :=
  fun ppn i hClean => h' ppn i (h ppn i hClean)

lemma PhysMem.store_cells (pm : PhysMem) (ppn pos : Nat) (writer : Option Nat) (bytes : List UInt8) (r : Ppn) (i : Nat) :
    (pm.store ppn pos writer bytes).cells r i =
      if r = ppn ∧ pos ≤ i ∧ i < pos + bytes.length then ⟨bytes.getD (i - pos) 0, writer⟩
      else pm.cells r i := by
  simp only [store, update_apply]
  split
  · rename_i hr
    simp [hr]
  · rename_i hr
    rw [if_neg fun h => hr h.1]

lemma PhysMem.keepsClean_store (pm : PhysMem) (ppn pos : Nat) (bytes : List UInt8) :
    pm.KeepsClean q (pm.store ppn pos none bytes) := by
  intro r i hClean
  rw [CleanAt, store_cells]
  split
  · simp
  · exact hClean

lemma PhysMem.cleanAt_store (pm : PhysMem) (ppn : Ppn) {pos i : Nat} {bytes : List UInt8}
    (hLow : pos ≤ i) (hHigh : i < pos + bytes.length) :
    (pm.store ppn pos none bytes).CleanAt q ppn i := by
  rw [CleanAt, store_cells, if_pos ⟨rfl, hLow, hHigh⟩]
  simp

lemma pmGetFreePage_keepsClean (h : pmGetFreePage pm = some (ppn, pm')) : pm.KeepsClean q pm' := by
  intro r i _
  rwa [PhysMem.CleanAt, (pmGetFreePage_eq_some h).2]

lemma pmFreePage_keepsClean (h : pmFreePage pm ppn = some pm') : pm.KeepsClean q pm' := by
  unfold pmFreePage at h
  split at h
  · cases h
  · cases h
    exact PhysMem.keepsClean_store pm ppn 0 _

end Fixos.Arch
