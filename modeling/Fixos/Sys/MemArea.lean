import Fixos.Lib.Word
import Fixos.Fs.File

/-! # Memory areas (`sys/mem_area.c`)

The areas of a process are a list, newest first. Addresses are 32-bit.
-/

namespace Fixos.Sys

open Fs Word

/-- What the operations of an area need: nothing for an anonymous one. -/
inductive AreaKind where
  | anon
  | file (filep : FileRef) (baseOffset infileSize : Nat) (isPartial : Bool)
deriving DecidableEq

structure MemArea where
  address : Nat
  maxSize : Nat
  kind : AreaKind
deriving DecidableEq

def MemArea.filep (area : MemArea) : Option FileRef :=
  match area.kind with
  | .anon => none
  | .file filep _ _ _ => some filep

def MemArea.meets (area other : MemArea) : Bool :=
  area.address < add other.address other.maxSize && add area.address area.maxSize > other.address

def memAreaCheckRange (areas : List MemArea) (area : MemArea) : Bool :=
  areas.any fun other => other.meets area

def memAreaInsert (areas : List MemArea) (area : MemArea) : List MemArea × Int :=
  if memAreaCheckRange areas area then (areas, -1) else (area :: areas, 0)

lemma MemArea.meets_comm (area other : MemArea) : area.meets other = other.meets area := by
  simp only [meets, Bool.and_comm, gt_iff_lt]

def Disjoint (areas : List MemArea) : Prop := areas.Pairwise fun area other => area.meets other = false

lemma memAreaInsert_of_disjoint {areas : List MemArea} {area : MemArea} (h : ∀ other ∈ areas, other.meets area = false) :
    memAreaInsert areas area = (area :: areas, 0) := by
  rw [memAreaInsert, memAreaCheckRange, if_neg]
  intro hAny
  obtain ⟨other, hMem, hMeets⟩ := List.any_eq_true.mp hAny
  rw [h other hMem] at hMeets
  cases hMeets

end Fixos.Sys
