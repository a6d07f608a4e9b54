import Fixos.Lib.Bytes
import Fixos.Lib.Links
import Fixos.Lib.Run
import Fixos.Lib.Word
import Fixos.Utils.PoolAlloc

/-! # Pools of objects in memory (`utils/pool_alloc.c`)

A page of a pool starts with a header of three words: the next page, the first free object and the
number of free objects.
-/

namespace Fixos.Utils

open Arch Bytes Links Transition Option List

def pageRoom : Nat := 1012

/-- An object size for which a page has room for an object and, behind the last one, for a word. -/
structure ObjSize where
  bytes : Nat
  pos : 0 < bytes
  fits : bytes ≤ pageRoom
  slack : pageRoom / bytes * bytes + 4 ≤ pageRoom

def ObjSize.perpage (objsz : ObjSize) : Nat := pageRoom / objsz.bytes

structure PoolMem where
  mem : ByteMemory
  firstPage : Nat
  firstNonfull : Nat

def nextPage (mem : ByteMemory) (page : Nat) : Nat := loadWord mem page

def firstEmpty (mem : ByteMemory) (page : Nat) : Nat := loadWord mem (page + 4)

def nbempty (mem : ByteMemory) (page : Nat) : Nat := loadWord mem (page + 8)

def notPositive (w : Nat) : Bool := w = 0 || 2 ^ 31 ≤ w

def linkObjects (objsz : ObjSize) : Nat → ByteMemory → Nat → Nat → ByteMemory × Nat
  | 0, mem, _, cur => (mem, cur)
  | n + 1, mem, prev, cur =>
    linkObjects objsz n (if prev ≠ 0 then storeWord mem prev cur else mem) cur (cur + objsz.bytes)

def getNewPoolPage (objsz : ObjSize) (mem : ByteMemory) (page : Nat) : ByteMemory :=
  let mem := storeWord mem (page + 8) objsz.perpage
  let mem := storeWord mem page 0
  let mem := storeWord mem (page + 4) (page + 12)
  let (mem, cur) := linkObjects objsz objsz.perpage mem 0 (page + 12)
  storeWord mem cur 0

/-- The stores of the loop for objects of any size, in order, and where `cur` is behind it. -/
def linkStores (bytes : Nat) : Nat → Nat → Nat → List (Nat × Nat) × Nat
  | 0, _, cur => ([], cur)
  | n + 1, prev, cur =>
    let (stores, last) := linkStores bytes n cur (cur + bytes)
    (if prev ≠ 0 then (prev, cur) :: stores else stores, last)

def newPageStores (bytes page : Nat) : List (Nat × Nat) :=
  let perpage := pageRoom / bytes
  let (stores, cur) := linkStores bytes perpage 0 (page + 12)
  [(page + 8, perpage), (page, 0), (page + 4, page + 12)] ++ stores ++ [(cur, 0)]

def storeAll (mem : ByteMemory) (stores : List (Nat × Nat)) : ByteMemory :=
  stores.foldl (fun mem s => storeWord mem s.1 s.2) mem

def pageLimit : Nat := 2 ^ 22

def PoolMem.getFirstNonfull (s : PoolMem) : Option Nat :=
  advance (fun page => page = 0 || !notPositive (nbempty s.mem page)) (nextPage s.mem) (pageLimit + 1)
    s.firstPage

def PoolMem.checkPageOwned (s : PoolMem) (page : Nat) : Option Bool :=
  (advance (fun cur => cur = 0 || cur = page) (nextPage s.mem) (pageLimit + 1) s.firstPage).map
    fun cur => decide (cur ≠ 0)

def PoolMem.takeFirst (s : PoolMem) (curpage : Nat) : Option (PoolMem × Nat) :=
  let ret := firstEmpty s.mem curpage
  let mem := storeWord s.mem (curpage + 4) (loadWord s.mem ret)
  let mem := storeWord mem (curpage + 8) (Word.sub (nbempty mem curpage) 1)
  let s := { s with mem }
  if notPositive (nbempty mem curpage) then
    s.getFirstNonfull.map fun page => ({ s with firstNonfull := page }, ret)
  else some (s, ret)

/-- `page` is what the page allocator answers if it is asked. -/
def PoolMem.poolAlloc (s : PoolMem) (objsz : ObjSize) (page : Option Nat) : Option (PoolMem × Nat) :=
  if s.firstNonfull = 0 then
    match page with
    | none => some (s, 0)
    | some page =>
      let mem := getNewPoolPage objsz s.mem page
      let mem := storeWord mem page s.firstPage
      PoolMem.takeFirst ⟨mem, page, page⟩ page
  else s.takeFirst s.firstNonfull

def PoolMem.poolFree (s : PoolMem) (object : Nat) : Option PoolMem :=
  let page := object - object % pmPageBytes
  (s.checkPageOwned page).map fun owned =>
    if owned then
      let mem := storeWord s.mem object (firstEmpty s.mem page)
      let mem := storeWord mem (page + 4) object
      { s with mem := storeWord mem (page + 8) (Word.add (nbempty mem page) 1) }
    else s

def slots (objsz : ObjSize) (page : Nat) : List Nat := range' (page + 12) objsz.perpage objsz.bytes

variable {other : Nat}

section

variable {objsz : ObjSize} {page object : Nat}

lemma ObjSize.four_le (objsz : ObjSize) : 4 ≤ objsz.bytes := by
  by_contra hSmall
  have hPos := objsz.pos
  have hSlack := objsz.slack
  obtain hSize | hSize | hSize : objsz.bytes = 1 ∨ objsz.bytes = 2 ∨ objsz.bytes = 3 := by omega
  all_goals
    rw [hSize] at hSlack
    omega

lemma ObjSize.perpage_pos (objsz : ObjSize) : 0 < objsz.perpage := Nat.div_pos objsz.fits objsz.pos

lemma ObjSize.perpage_lt (objsz : ObjSize) : objsz.perpage < 2 ^ 31 := by
  have hLe : objsz.perpage ≤ pageRoom := Nat.div_le_self _ _
  unfold pageRoom at hLe
  omega

lemma mem_slots : object ∈ slots objsz page ↔ ∃ i < objsz.perpage, object = page + 12 + objsz.bytes * i := mem_range'

lemma slots_nodup : (slots objsz page).Nodup := nodup_range' objsz.bytes objsz.pos

lemma ObjSize.room (objsz : ObjSize) : 12 + objsz.bytes * objsz.perpage + 4 ≤ pmPageBytes := by
  have hSlack : objsz.perpage * objsz.bytes + 4 ≤ pageRoom := objsz.slack
  rw [Nat.mul_comm] at hSlack
  unfold pageRoom at hSlack
  unfold pmPageBytes
  omega

lemma slot_bounds (h : object ∈ slots objsz page) :
    page + 12 ≤ object ∧ object + objsz.bytes ≤ page + 12 + objsz.bytes * objsz.perpage ∧
      object + objsz.bytes + 4 ≤ page + pmPageBytes := by
  obtain ⟨i, hi, rfl⟩ := mem_slots.mp h
  have hRoom := objsz.room
  have hEnd : objsz.bytes * (i + 1) ≤ objsz.bytes * objsz.perpage := Nat.mul_le_mul_left _ hi
  rw [Nat.mul_succ] at hEnd
  omega

lemma slot_apart (h : object ∈ slots objsz page) (hOther : other ∈ slots objsz page) (hNe : object ≠ other) :
    object + objsz.bytes ≤ other ∨ other + objsz.bytes ≤ object := by
  obtain ⟨i, _, rfl⟩ := mem_slots.mp h
  obtain ⟨j, _, rfl⟩ := mem_slots.mp hOther
  have hStep : ∀ {i j : Nat}, i < j → objsz.bytes * i + objsz.bytes ≤ objsz.bytes * j := by
    intro i j hij
    rw [← Nat.mul_succ]
    exact Nat.mul_le_mul_left _ hij
  rcases Nat.lt_trichotomy i j with hLt | rfl | hLt
  · have := hStep hLt
    omega
  · exact absurd rfl hNe
  · have := hStep hLt
    omega

end

section

variable {mem : ByteMemory} {stores : List (Nat × Nat)} {a v : Nat}

lemma linkObjects_eq_storeAll (objsz : ObjSize) (n prev cur : Nat) : linkObjects objsz n mem prev cur =
    (storeAll mem (linkStores objsz.bytes n prev cur).1, (linkStores objsz.bytes n prev cur).2) := by
  induction n generalizing mem prev cur with
  | zero => rfl
  | succ n ih =>
    rw [linkObjects, ih, linkStores]
    split <;> rfl

lemma getNewPoolPage_eq_storeAll (objsz : ObjSize) (page : Nat) :
    getNewPoolPage objsz mem page = storeAll mem (newPageStores objsz.bytes page) := by
  rw [getNewPoolPage, linkObjects_eq_storeAll, newPageStores, storeAll, storeAll, foldl_append, foldl_append]
  rfl

lemma linkStores_eq (bytes n : Nat) {prev : Nat} (h : prev ≠ 0) : linkStores bytes n prev (prev + bytes) =
    ((range n).map fun i => (prev + bytes * i, prev + bytes * (i + 1)), prev + bytes * (n + 1)) := by
  induction n generalizing prev with
  | zero => rw [linkStores, range_zero, map_nil, Nat.mul_one]
  | succ n ih =>
    rw [linkStores, ih (by omega), range_succ_eq_map, map_cons, List.map_map]
    dsimp only
    rw [if_pos h, Nat.mul_zero, Nat.add_zero, Nat.mul_one, Prod.mk.injEq, cons.injEq]
    refine ⟨⟨rfl, map_congr_left fun i _ => ?_⟩, by grind⟩
    rw [Function.comp_apply, Prod.mk.injEq]
    grind

lemma storeAll_of_out {i : Nat} (h : ∀ s ∈ stores, i < s.1 ∨ s.1 + 4 ≤ i) : storeAll mem stores i = mem i := by
  induction stores generalizing mem with
  | nil => rfl
  | cons s stores ih =>
    obtain ⟨hHere, hRest⟩ := forall_mem_cons.mp h
    exact (ih hRest).trans (storeWord_of_out hHere)

lemma loadWord_storeAll_of_out (h : ∀ s ∈ stores, a + 4 ≤ s.1 ∨ s.1 + 4 ≤ a) :
    loadWord (storeAll mem stores) a = loadWord mem a :=
  loadWord_congr fun i hLow hHigh => storeAll_of_out fun s hs => by
    have hApart := h s hs
    omega

lemma loadWord_storeAll (hMem : (a, v) ∈ stores) (hv : v < 2 ^ 32)
    (h : ∀ s ∈ stores, s = (a, v) ∨ a + 4 ≤ s.1 ∨ s.1 + 4 ≤ a) : loadWord (storeAll mem stores) a = v := by
  induction stores generalizing mem with
  | nil => exact absurd hMem not_mem_nil
  | cons s stores ih =>
    obtain ⟨_, hRest⟩ := forall_mem_cons.mp h
    by_cases hLater : (a, v) ∈ stores
    · exact ih hLater hRest
    · obtain rfl : (a, v) = s := (mem_cons.mp hMem).resolve_right hLater
      rw [storeAll, foldl_cons, ← storeAll, loadWord_storeAll_of_out, loadWord_storeWord hv]
      exact fun t ht => (hRest t ht).resolve_left fun hEq => hLater (hEq ▸ ht)

lemma walk_range' {next : Nat → Nat} {step n p q : Nat} (h : ∀ i < n, next (p + step * i) = p + step * (i + 1)) :
    Walk next p (range' p (n + 1) step) q ↔ next (p + step * n) = q := by
  induction n generalizing p with
  | zero => simp [Walk]
  | succ n ih =>
    have hFirst := h 0 (by omega)
    rw [Nat.mul_zero, Nat.add_zero, Nat.mul_one] at hFirst
    rw [range'_succ, Walk, hFirst, ih, Nat.mul_succ, Nat.add_right_comm, Nat.add_assoc]
    · exact ⟨fun hWalk => hWalk.2, fun hWalk => ⟨rfl, hWalk⟩⟩
    · intro i hi
      grind

end

/-- A new page with `n + 1` objects. Each of them but the last is linked to the next one. -/
structure NewPage (bytes page n : Nat) (mem mem' : ByteMemory) : Prop where
  count : nbempty mem' page = n + 1
  first : firstEmpty mem' page = page + 12
  links : ∀ i < n, loadWord mem' (page + 12 + bytes * i) = page + 12 + bytes * (i + 1)
  last : loadWord mem' (page + 12 + bytes * n) = loadWord mem (page + 12 + bytes * n)

lemma mem_newPageStores {bytes page n : Nat} (hn : pageRoom / bytes = n + 1) {s : Nat × Nat} :
    s ∈ newPageStores bytes page ↔ s ∈ [(page + 8, n + 1), (page, 0), (page + 4, page + 12)] ∨
      (∃ i < n, (page + 12 + bytes * i, page + 12 + bytes * (i + 1)) = s) ∨ s = (page + 12 + bytes * (n + 1), 0) := by
  rw [newPageStores, hn, linkStores, linkStores_eq _ _ (by omega)]
  simp only [ne_eq, not_true_eq_false, if_false, append_assoc, mem_append, List.mem_map, mem_range, mem_singleton]

lemma newPageStores_inside {bytes page n : Nat} (hn : pageRoom / bytes = n + 1)
    (hRoom : 12 + bytes * (pageRoom / bytes) + 4 ≤ pmPageBytes) {s : Nat × Nat} (hs : s ∈ newPageStores bytes page) :
    page ≤ s.1 ∧ s.1 + 4 ≤ page + pmPageBytes := by
  rw [hn] at hRoom
  rcases (mem_newPageStores hn).mp hs with hHere | ⟨i, hi, rfl⟩ | rfl
  · simp only [mem_cons, not_mem_nil, or_false] at hHere
    rcases hHere with rfl | rfl | rfl <;> dsimp only <;> omega
  · have hLe : bytes * i ≤ bytes * (n + 1) := Nat.mul_le_mul_left bytes (by omega)
    dsimp only
    omega
  · dsimp only
    omega

lemma newPage_storeAll {bytes page n : Nat} (hn : pageRoom / bytes = n + 1) (hBytes : 4 ≤ bytes)
    (hPage : page + pmPageBytes ≤ 2 ^ 32) (mem : ByteMemory) :
    NewPage bytes page n mem (storeAll mem (newPageStores bytes page)) := by
  have hRoom : bytes * (n + 1) ≤ 1012 := hn ▸ Nat.mul_div_le pageRoom bytes
  have hSize : pmPageBytes = 1024 := rfl
  have hApart {i j : Nat} (hij : i < j) : bytes * i + 4 ≤ bytes * j :=
    (Nat.add_le_add_left hBytes _).trans (Nat.mul_succ bytes i ▸ Nat.mul_le_mul_left bytes hij)
  have hHead : ∀ s ∈ [(page + 8, n + 1), (page, 0), (page + 4, page + 12)], s.1 + 4 ≤ page + 12 := by simp
  have hHeader : ∀ s ∈ [(page + 8, n + 1), (page, 0), (page + 4, page + 12)], s.2 < 2 ^ 32 →
      loadWord (storeAll mem (newPageStores bytes page)) s.1 = s.2 := by
    intro s hs hWord
    refine loadWord_storeAll ((mem_newPageStores hn).mpr (Or.inl hs)) hWord fun t ht => ?_
    have hEnd := hHead s hs
    rcases (mem_newPageStores hn).mp ht with hHere | ⟨i, _, rfl⟩ | rfl
    · grind
    · omega
    · omega
  have hn' : n < 2 ^ 31 := by
    have := hApart (Nat.lt_add_one n)
    have := Nat.le_mul_of_pos_left n (by omega : 0 < bytes)
    omega
  constructor
  case count => exact hHeader (page + 8, n + 1) (by simp) (by dsimp only; omega)
  case first => exact hHeader (page + 4, page + 12) (by simp) (by dsimp only; omega)
  case links =>
    intro i hi
    have hEnd := hApart (show i + 1 < n + 1 by omega)
    refine loadWord_storeAll ((mem_newPageStores hn).mpr (Or.inr (Or.inl ⟨i, hi, rfl⟩))) (by omega) fun s hs => ?_
    rcases (mem_newPageStores hn).mp hs with hHere | ⟨j, hj, rfl⟩ | rfl
    · have := hHead s hHere
      omega
    · rcases Nat.lt_trichotomy i j with hLt | rfl | hLt
      · have := hApart hLt
        omega
      · exact Or.inl rfl
      · have := hApart hLt
        omega
    · have := hApart (show i < n + 1 by omega)
      omega
  case last =>
    refine loadWord_storeAll_of_out fun s hs => ?_
    rcases (mem_newPageStores hn).mp hs with hHere | ⟨j, hj, rfl⟩ | rfl
    · have := hHead s hHere
      omega
    · have := hApart hj
      omega
    · have := hApart (Nat.lt_add_one n)
      omega

/-- The words a page with the free objects `chain` is read for are the same. -/
structure PageFrame (mem mem' : ByteMemory) (page : Nat) (chain : List Nat) : Prop where
  next_eq : nextPage mem' page = nextPage mem page
  first_eq : firstEmpty mem' page = firstEmpty mem page
  count_eq : nbempty mem' page = nbempty mem page
  links_eq : ∀ object ∈ chain, loadWord mem' object = loadWord mem object

structure PageSound (objsz : ObjSize) (mem : ByteMemory) (live : List Nat) (page : Nat) (chain : List Nat) :
    Prop where
  count_eq : nbempty mem page = chain.length
  walk : ∃ stop, Walk (loadWord mem) (firstEmpty mem page) chain stop
  nodup : chain.Nodup
  mem_chain : ∀ object, object ∈ chain ↔ object ∈ slots objsz page ∧ object ∉ live

variable {object : Nat}

section

variable {objsz : ObjSize} {mem mem' : ByteMemory} {live live' : List Nat} {page : Nat} {chain : List Nat}

section

variable (h : PageSound objsz mem live page chain)
include h

lemma PageSound.congr (hFirst : firstEmpty mem' page = firstEmpty mem page) (hCount : nbempty mem' page = nbempty mem page)
    (hLinks : ∀ object ∈ chain, loadWord mem' object = loadWord mem object)
    (hLive : ∀ object ∈ slots objsz page, object ∈ live' ↔ object ∈ live) :
    PageSound objsz mem' live' page chain := by
  refine { h with count_eq := ?_, walk := ?_, mem_chain := ?_ }
  · rw [hCount, h.count_eq]
  · obtain ⟨stop, hWalk⟩ := h.walk
    rw [hFirst]
    exact ⟨stop, hWalk.congr hLinks⟩
  · intro object
    rw [h.mem_chain]
    exact and_congr_right fun hSlot => not_congr (hLive object hSlot).symm

lemma PageSound.frame (hFrame : PageFrame mem mem' page chain)
    (hLive : ∀ object ∈ slots objsz page, object ∈ live' ↔ object ∈ live) :
    PageSound objsz mem' live' page chain :=
  h.congr hFrame.first_eq hFrame.count_eq hFrame.links_eq hLive

lemma PageSound.length_le : chain.length ≤ objsz.perpage := by
  have hSub : chain ⊆ slots objsz page := fun object hObject => ((h.mem_chain object).mp hObject).1
  have hLength := (subperm_of_subset h.nodup hSub).length_le
  rwa [slots, length_range'] at hLength

lemma PageSound.frame_of_outside (hSame : ∀ a, page ≤ a → a < page + pmPageBytes → mem' a = mem a) :
    PageFrame mem mem' page chain := by
  have hRoom := objsz.room
  constructor
  case next_eq => exact loadWord_congr fun a _ _ => hSame a (by omega) (by omega)
  case first_eq => exact loadWord_congr fun a _ _ => hSame a (by omega) (by omega)
  case count_eq => exact loadWord_congr fun a _ _ => hSame a (by omega) (by omega)
  case links_eq =>
    intro object hObject
    have hBounds := slot_bounds ((h.mem_chain object).mp hObject).1
    exact loadWord_congr fun a _ _ => hSame a (by omega) (by omega)

end

lemma PageSound.take (h : PageSound objsz mem live page (object :: chain)) : firstEmpty mem page = object ∧
      PageSound objsz (storeWord (storeWord mem (page + 4) (loadWord mem object)) (page + 8) chain.length)
        (object :: live) page chain := by
  obtain ⟨stop, hFirst, hWalk⟩ := h.walk
  have hLength := h.length_le
  have hPerpage := objsz.perpage_lt
  rw [length_cons] at hLength
  obtain ⟨hNotMem, hNodup⟩ := nodup_cons.mp h.nodup
  refine ⟨hFirst, ?_⟩
  constructor
  case count_eq => exact loadWord_storeWord (by omega)
  case walk =>
    refine ⟨stop, ?_⟩
    rw [firstEmpty, loadWord_storeWord_of_out (by omega), loadWord_storeWord loadWord_lt]
    refine hWalk.congr fun other hOther => ?_
    have hBounds := slot_bounds ((h.mem_chain other).mp (mem_cons_of_mem _ hOther)).1
    simp (disch := omega) only [loadWord_storeWord_of_out]
  case nodup => exact hNodup
  case mem_chain =>
    intro other
    have hOther := h.mem_chain other
    rw [mem_cons] at hOther
    rw [mem_cons, not_or]
    constructor
    · intro hMem
      obtain ⟨hSlot, hFree⟩ := hOther.mp (Or.inr hMem)
      refine ⟨hSlot, ?_, hFree⟩
      rintro rfl
      exact hNotMem hMem
    · rintro ⟨hSlot, hNe, hFree⟩
      exact (hOther.mpr ⟨hSlot, hFree⟩).resolve_left hNe

lemma PageSound.free (h : PageSound objsz mem live page chain) (hSlot : object ∈ slots objsz page)
    (hLive : object ∈ live) (hNodup : live.Nodup) (hBound : page + pmPageBytes ≤ 2 ^ 32) :
    PageSound objsz (storeWord (storeWord (storeWord mem object (firstEmpty mem page)) (page + 4) object) (page + 8)
        (chain.length + 1))
      (live.erase object) page (object :: chain) := by
  have hLength := h.length_le
  have hPerpage := objsz.perpage_lt
  have hBytes := objsz.four_le
  have hBounds := slot_bounds hSlot
  have hNotMem : object ∉ chain := fun hMem => ((h.mem_chain object).mp hMem).2 hLive
  constructor
  case count_eq => exact loadWord_storeWord (by omega)
  case walk =>
    obtain ⟨stop, hWalk⟩ := h.walk
    refine ⟨stop, ?_, ?_⟩
    · rw [firstEmpty, loadWord_storeWord_of_out (by omega), loadWord_storeWord (by omega)]
    · have hFirst : firstEmpty mem page < 2 ^ 32 := loadWord_lt
      simp (disch := omega) only [loadWord_storeWord_of_out, loadWord_storeWord]
      refine hWalk.congr fun other hOther => ?_
      have hOtherSlot := ((h.mem_chain other).mp hOther).1
      have hOtherBounds := slot_bounds hOtherSlot
      have hApart := slot_apart hSlot hOtherSlot fun hEq => hNotMem (hEq ▸ hOther)
      simp (disch := omega) only [loadWord_storeWord_of_out]
  case nodup => exact nodup_cons.mpr ⟨hNotMem, h.nodup⟩
  case mem_chain =>
    intro other
    rw [mem_cons, h.mem_chain, hNodup.mem_erase_iff]
    by_cases hEq : other = object
    · simp [hEq, hSlot]
    · simp [hEq]

lemma getNewPoolPage_sound (mem : ByteMemory) (hBound : page + pmPageBytes ≤ 2 ^ 32)
    (hFresh : ∀ object ∈ slots objsz page, object ∉ live) :
    PageSound objsz (getNewPoolPage objsz mem page) live page (slots objsz page) ∧
      ∀ a, a < page ∨ page + pmPageBytes ≤ a → getNewPoolPage objsz mem page a = mem a := by
  obtain ⟨n, hn⟩ : ∃ n, objsz.perpage = n + 1 := Nat.exists_eq_add_one.mpr objsz.perpage_pos
  have hNew := newPage_storeAll hn objsz.four_le hBound mem
  rw [getNewPoolPage_eq_storeAll]
  refine ⟨?_, fun a ha => storeAll_of_out fun s hs => ?_⟩
  · constructor
    case count_eq => rw [hNew.count, slots, length_range', hn]
    case walk =>
      rw [hNew.first, slots, hn]
      exact ⟨_, (walk_range' hNew.links).mpr rfl⟩
    case nodup => exact slots_nodup
    case mem_chain => exact fun object => ⟨fun hSlot => ⟨hSlot, hFresh object hSlot⟩, And.left⟩
  · have hInside := newPageStores_inside hn objsz.room hs
    omega

end

def IsPage (page : Nat) : Prop := page ≠ 0 ∧ page % pmPageBytes = 0 ∧ page + pmPageBytes ≤ 2 ^ 32
deriving Decidable

variable {page : Nat}

lemma IsPage.apart (h : IsPage page) (hOther : IsPage other) (hNe : page ≠ other) :
    page + pmPageBytes ≤ other ∨ other + pmPageBytes ≤ page := by
  obtain ⟨_, _, _⟩ := h
  obtain ⟨_, _, _⟩ := hOther
  unfold pmPageBytes at *
  omega

variable {objsz : ObjSize}

lemma IsPage.of_slot (h : IsPage page) (hSlot : object ∈ slots objsz page) : object - object % pmPageBytes = page := by
  obtain ⟨_, _, _⟩ := h
  have hBounds := slot_bounds hSlot
  unfold pmPageBytes at *
  omega

structure PoolSound (objsz : ObjSize) (s : PoolMem) (live pages : List Nat) : Prop where
  walk : Walk (nextPage s.mem) s.firstPage pages 0
  nodup : pages.Nodup
  isPage : ∀ page ∈ pages, IsPage page
  sound : ∀ page ∈ pages, ∃ chain, PageSound objsz s.mem live page chain
  live_nodup : live.Nodup
  live_slot : ∀ object ∈ live, ∃ page ∈ pages, object ∈ slots objsz page
  nonfull : s.firstNonfull = 0 ∨ s.firstNonfull ∈ pages ∧ 0 < nbempty s.mem s.firstNonfull

section

variable {objsz : ObjSize} {s : PoolMem} {live live' pages : List Nat} {page : Nat}

lemma PoolSound.proper (h : PoolSound objsz s live pages) : 0 ∉ pages := fun hMem => (h.isPage 0 hMem).1 rfl

lemma PoolSound.length_le (h : PoolSound objsz s live pages) : pages.length ≤ pageLimit := by
  have hNumbers : (pages.map (· / pmPageBytes)).Nodup := by
    refine h.nodup.map_on fun page hPage other hOther hEq => ?_
    by_contra hNe
    have hApart := (h.isPage page hPage).apart (h.isPage other hOther) hNe
    unfold pmPageBytes at *
    omega
  have hSub : pages.map (· / pmPageBytes) ⊆ range pageLimit := by
    intro _ hMem
    obtain ⟨page, hPage, rfl⟩ := mem_map.mp hMem
    have hBound := (h.isPage page hPage).2.2
    rw [mem_range]
    unfold pmPageBytes pageLimit at *
    omega
  have hLength := (subperm_of_subset hNumbers hSub).length_le
  rwa [length_map, length_range] at hLength

lemma PoolSound.slots_apart (h : PoolSound objsz s live pages) (hPage : page ∈ pages) (hOther : other ∈ pages)
    (hSlot : object ∈ slots objsz page) (hOtherSlot : object ∈ slots objsz other) :
    page = other :=
  ((h.isPage page hPage).of_slot hSlot).symm.trans ((h.isPage other hOther).of_slot hOtherSlot)

section

variable (hWalk : Walk (nextPage s.mem) s.firstPage pages 0) (hLength : pages.length ≤ pageLimit)
  (hProper : 0 ∉ pages)
include hWalk hLength hProper

lemma getFirstNonfull_spec :
    ∃ found, s.getFirstNonfull = some found ∧ (found = 0 ∨ found ∈ pages ∧ 0 < nbempty s.mem found) := by
  refine ⟨_, advance_walk hWalk rfl (by omega), ?_⟩
  cases hFind : pages.find? fun page => page = 0 || !notPositive (nbempty s.mem page) with
  | none => exact Or.inl rfl
  | some found =>
    right
    have hMem := mem_of_find?_eq_some hFind
    have hNull : found ≠ 0 := by
      rintro rfl
      exact hProper hMem
    have hTest := find?_some hFind
    refine ⟨hMem, ?_⟩
    simp only [notPositive, getD_some, hNull, decide_false, Bool.false_or, Bool.not_eq_true',
      Bool.or_eq_false_iff, decide_eq_false_iff_not] at hTest ⊢
    omega

lemma checkPageOwned_spec (hPage : page ∈ pages) : s.checkPageOwned page = some true := by
  rw [PoolMem.checkPageOwned, advance_walk hWalk rfl (by omega)]
  cases hFind : pages.find? fun cur => cur = 0 || cur = page with
  | none => exact absurd (by simp) (find?_eq_none.mp hFind page hPage)
  | some found =>
    have hNull : found ≠ 0 := by
      rintro rfl
      exact hProper (mem_of_find?_eq_some hFind)
    simp [hNull]

end

section

variable (h : PoolSound objsz s live pages)
include h

lemma PoolSound.congr {mem' : ByteMemory} (hFrame : ∀ page ∈ pages, ∀ chain, PageSound objsz s.mem live page chain →
      PageFrame s.mem mem' page chain) :
    PoolSound objsz { s with mem := mem' } live pages := by
  have hWords : ∀ page ∈ pages, nextPage mem' page = nextPage s.mem page ∧ nbempty mem' page = nbempty s.mem page := by
    intro page hPage
    obtain ⟨chain, hChain⟩ := h.sound page hPage
    exact ⟨(hFrame page hPage chain hChain).next_eq, (hFrame page hPage chain hChain).count_eq⟩
  refine { h with walk := ?_, sound := ?_, nonfull := ?_ }
  · exact h.walk.congr fun page hPage => (hWords page hPage).1
  · intro page hPage
    obtain ⟨chain, hChain⟩ := h.sound page hPage
    exact ⟨chain, hChain.frame (hFrame page hPage chain hChain) fun _ _ => Iff.rfl⟩
  · refine h.nonfull.imp id fun ⟨hMem, hCount⟩ => ⟨hMem, ?_⟩
    rw [(hWords _ hMem).2]
    exact hCount

lemma PoolSound.kept (live' : List Nat) (mem' : ByteMemory) (hOther : other ∈ pages)
    (hOut : ∀ a, other ≤ a → a < other + pmPageBytes → mem' a = s.mem a)
    (hLive : ∀ object ∈ slots objsz other, object ∈ live' ↔ object ∈ live) :
    nextPage mem' other = nextPage s.mem other ∧ nbempty mem' other = nbempty s.mem other ∧
      ∃ chain, PageSound objsz mem' live' other chain := by
  obtain ⟨chain, hChain⟩ := h.sound other hOther
  have hFrame := hChain.frame_of_outside hOut
  exact ⟨hFrame.next_eq, hFrame.count_eq, chain, hChain.frame hFrame hLive⟩

lemma PoolSound.change (hPage : page ∈ pages) {mem' : ByteMemory} {chain : List Nat} {firstNonfull : Nat}
    (hOut : ∀ a, a < page ∨ page + pmPageBytes ≤ a → mem' a = s.mem a)
    (hNext : nextPage mem' page = nextPage s.mem page) (hSound : PageSound objsz mem' live' page chain)
    (hLive : ∀ object, object ∉ slots objsz page → (object ∈ live' ↔ object ∈ live)) (hNodup : live'.Nodup)
    (hNonfull : firstNonfull = 0 ∨ firstNonfull ∈ pages ∧ 0 < nbempty mem' firstNonfull) :
    PoolSound objsz ⟨mem', s.firstPage, firstNonfull⟩ live' pages := by
  have hOther := fun other (hMem : other ∈ pages) (hNe : other ≠ page) =>
    h.kept live' mem' hMem
      (fun a hLow hHigh => hOut a (by have := (h.isPage other hMem).apart (h.isPage page hPage) hNe; omega))
      fun object hSlot => hLive object fun hHere => hNe (h.slots_apart hMem hPage hSlot hHere)
  refine { h with walk := ?_, sound := ?_, live_nodup := ?_, live_slot := ?_, nonfull := ?_ }
  · refine h.walk.congr fun other hMem => ?_
    by_cases hEq : other = page
    · rw [hEq]
      exact hNext
    · exact (hOther other hMem hEq).1
  · intro other hMem
    by_cases hEq : other = page
    · rw [hEq]
      exact ⟨chain, hSound⟩
    · exact (hOther other hMem hEq).2.2
  · exact hNodup
  · intro object hObject
    by_cases hSlot : object ∈ slots objsz page
    · exact ⟨page, hPage, hSlot⟩
    · exact h.live_slot object ((hLive object hSlot).mp hObject)
  · exact hNonfull

lemma PoolSound.takeFirst (hPage : page ∈ pages) (hRoom : 0 < nbempty s.mem page) (hNonfull : s.firstNonfull = page) :
    ∃ t object, s.takeFirst page = some (t, object) ∧ object ∈ slots objsz page ∧ object ∉ live ∧
      PoolSound objsz t (object :: live) pages := by
  obtain ⟨chain, hChain⟩ := h.sound page hPage
  rw [hChain.count_eq] at hRoom
  obtain ⟨object, chain, rfl⟩ := exists_cons_of_length_pos hRoom
  obtain ⟨hFirst, hTaken⟩ := hChain.take
  obtain ⟨hSlot, hFree⟩ := (hChain.mem_chain object).mp mem_cons_self
  have hLength := hChain.length_le
  have hPerpage := objsz.perpage_lt
  have hCount := hChain.count_eq
  rw [length_cons] at hLength hCount
  -- the memory after the two stores
  have hSub : Word.sub (nbempty (storeWord s.mem (page + 4) (loadWord s.mem object)) page) 1 = chain.length := by
    rw [nbempty, loadWord_storeWord_of_out (by omega), ← nbempty, hCount, Word.sub_of_le (by omega) (by omega)]
    rfl
  generalize hMem : storeWord (storeWord s.mem (page + 4) (loadWord s.mem object)) (page + 8) chain.length = mem at hTaken
  have hOut : ∀ a, a < page ∨ page + pmPageBytes ≤ a → mem a = s.mem a := by
    intro a ha
    unfold pmPageBytes at ha
    rw [← hMem]
    simp (disch := omega) only [storeWord_of_out]
  have hNext : nextPage mem page = nextPage s.mem page := by
    rw [← hMem]
    simp (disch := omega) only [nextPage, loadWord_storeWord_of_out]
  have hLive : ∀ other, other ∉ slots objsz page → (other ∈ object :: live ↔ other ∈ live) := by
    intro other hOther
    rw [mem_cons, or_iff_right]
    rintro rfl
    exact hOther hSlot
  have hNodup := nodup_cons.mpr ⟨hFree, h.live_nodup⟩
  have hCountNew : nbempty mem page = chain.length := hTaken.count_eq
  rw [PoolMem.takeFirst]
  rw [hFirst, hSub, hMem, hCountNew]
  by_cases hFull : notPositive chain.length
  · rw [if_pos hFull]
    have hWalk := (h.change hPage hOut hNext hTaken hLive hNodup (Or.inl rfl)).walk
    obtain ⟨found, hFound, hFoundRoom⟩ :=
      getFirstNonfull_spec (s := ⟨mem, s.firstPage, s.firstNonfull⟩) hWalk h.length_le h.proper
    refine ⟨⟨mem, s.firstPage, found⟩, object, ?_, hSlot, hFree, h.change hPage hOut hNext hTaken hLive hNodup hFoundRoom⟩
    rw [hFound, map_some]
  · rw [if_neg hFull]
    refine ⟨⟨mem, s.firstPage, s.firstNonfull⟩, object, rfl, hSlot, hFree,
      h.change hPage hOut hNext hTaken hLive hNodup (Or.inr ?_)⟩
    rw [hNonfull, hCountNew]
    refine ⟨hPage, Nat.pos_of_ne_zero fun hZero => hFull ?_⟩
    rw [hZero]
    rfl

lemma PoolSound.firstPage_lt : s.firstPage < 2 ^ 32 := by
  have hWalk := h.walk
  cases pages with
  | nil =>
    rw [show s.firstPage = 0 from hWalk]
    omega
  | cons page pages =>
    have hBound := (h.isPage page mem_cons_self).2.2
    rw [hWalk.1]
    unfold pmPageBytes at hBound
    omega

lemma PoolSound.newPage (hPage : IsPage page) (hNew : page ∉ pages) :
    PoolSound objsz ⟨storeWord (getNewPoolPage objsz s.mem page) page s.firstPage, page, page⟩ live (page :: pages) := by
  have hFresh : ∀ object ∈ slots objsz page, object ∉ live := by
    intro object hSlot hLive
    obtain ⟨other, hOther, hOtherSlot⟩ := h.live_slot object hLive
    have hSame := (hPage.of_slot hSlot).symm.trans ((h.isPage other hOther).of_slot hOtherSlot)
    exact hNew (hSame ▸ hOther)
  obtain ⟨hSound, hOut⟩ := getNewPoolPage_sound s.mem hPage.2.2 hFresh
  have hSize : 4 ≤ pmPageBytes := by decide
  have hSoundNew : PageSound objsz (storeWord (getNewPoolPage objsz s.mem page) page s.firstPage) live page
      (slots objsz page) := by
    refine hSound.congr (loadWord_storeWord_of_out (by omega)) (loadWord_storeWord_of_out (by omega))
      (fun object hSlot => loadWord_storeWord_of_out ?_) fun _ _ => Iff.rfl
    have hBounds := slot_bounds hSlot
    omega
  have hKept := fun other (hOther : other ∈ pages) => h.kept live
    (storeWord (getNewPoolPage objsz s.mem page) page s.firstPage) hOther (fun a hLow hHigh => by
      have hApart := (h.isPage other hOther).apart hPage fun hEq => hNew (hEq ▸ hOther)
      rw [storeWord_of_out (by omega), hOut a (by omega)]) fun _ _ => Iff.rfl
  refine { h with walk := ?_, nodup := ?_, isPage := ?_, sound := ?_, live_slot := ?_, nonfull := ?_ }
  · refine ⟨rfl, ?_⟩
    rw [nextPage, loadWord_storeWord h.firstPage_lt]
    exact h.walk.congr fun other hOther => (hKept other hOther).1
  · exact nodup_cons.mpr ⟨hNew, h.nodup⟩
  · exact forall_mem_cons.mpr ⟨hPage, h.isPage⟩
  · exact forall_mem_cons.mpr ⟨⟨_, hSoundNew⟩, fun other hOther => (hKept other hOther).2.2⟩
  · intro object hLive
    obtain ⟨other, hOther, hSlot⟩ := h.live_slot object hLive
    exact ⟨other, mem_cons_of_mem page hOther, hSlot⟩
  · right
    refine ⟨mem_cons_self, ?_⟩
    rw [hSoundNew.count_eq, slots, length_range']
    exact objsz.perpage_pos

lemma PoolSound.poolAlloc {answer : Option Nat} (hAnswer : ∀ page ∈ answer, IsPage page ∧ page ∉ pages) :
    s.poolAlloc objsz answer = some (s, 0) ∧ answer = none ∨
      ∃ t object pages', s.poolAlloc objsz answer = some (t, object) ∧ object ∉ live ∧
        (∃ page ∈ pages', object ∈ slots objsz page) ∧ PoolSound objsz t (object :: live) pages' := by
  unfold PoolMem.poolAlloc
  by_cases hNone : s.firstNonfull = 0
  · rw [if_pos hNone]
    cases answer with
    | none => exact Or.inl ⟨rfl, rfl⟩
    | some page =>
      right
      obtain ⟨hPage, hNew⟩ := hAnswer page rfl
      have hPool := h.newPage hPage hNew
      have hRoom := (hPool.nonfull.resolve_left hPage.1).2
      obtain ⟨t, object, hTake, hSlot, hFree, hSound⟩ := hPool.takeFirst mem_cons_self hRoom rfl
      exact ⟨t, object, page :: pages, hTake, hFree, ⟨page, mem_cons_self, hSlot⟩, hSound⟩
  · right
    rw [if_neg hNone]
    obtain ⟨hMem, hRoom⟩ := h.nonfull.resolve_left hNone
    obtain ⟨t, object, hTake, hSlot, hFree, hSound⟩ := h.takeFirst hMem hRoom rfl
    exact ⟨t, object, pages, hTake, hFree, ⟨_, hMem, hSlot⟩, hSound⟩

lemma PoolSound.poolFree (hLive : object ∈ live) :
    ∃ t, s.poolFree object = some t ∧ PoolSound objsz t (live.erase object) pages := by
  obtain ⟨page, hPage, hSlot⟩ := h.live_slot object hLive
  obtain ⟨chain, hChain⟩ := h.sound page hPage
  have hIsPage := h.isPage page hPage
  have hBounds := slot_bounds hSlot
  have hLength := hChain.length_le
  have hPerpage := objsz.perpage_lt
  have hFreed := hChain.free hSlot hLive h.live_nodup hIsPage.2.2
  have hAdd : Word.add (nbempty (storeWord (storeWord s.mem object (firstEmpty s.mem page)) (page + 4) object)
      page) 1 = chain.length + 1 := by
    rw [nbempty, loadWord_storeWord_of_out (by omega), loadWord_storeWord_of_out (by omega), ← nbempty,
      hChain.count_eq, Word.add_of_lt (by omega)]
  generalize hMem : storeWord (storeWord (storeWord s.mem object (firstEmpty s.mem page)) (page + 4) object)
    (page + 8) (chain.length + 1) = mem at hFreed
  have hOut : ∀ a, a < page ∨ page + pmPageBytes ≤ a → mem a = s.mem a := by
    intro a _
    rw [← hMem]
    simp (disch := omega) only [storeWord_of_out]
  refine ⟨⟨mem, s.firstPage, s.firstNonfull⟩, ?_, h.change hPage hOut ?_ hFreed ?_ ?_ ?_⟩
  · rw [PoolMem.poolFree]
    dsimp only
    rw [hIsPage.of_slot hSlot, checkPageOwned_spec h.walk h.length_le h.proper hPage, map_some, if_pos rfl, hAdd, hMem]
  · rw [← hMem]
    simp (disch := omega) only [nextPage, loadWord_storeWord_of_out]
  · intro _ hOther
    rw [h.live_nodup.mem_erase_iff, and_iff_right]
    rintro rfl
    exact hOther hSlot
  · exact h.live_nodup.erase object
  · refine h.nonfull.imp id fun ⟨hMem, hRoom⟩ => ⟨hMem, ?_⟩
    by_cases hHere : s.firstNonfull = page
    · rw [hHere, hFreed.count_eq]
      exact Nat.succ_pos _
    · have hApart := (h.isPage _ hMem).apart hIsPage hHere
      rw [(h.kept live mem hMem (fun a hLow hHigh => hOut a (by omega)) fun _ _ => Iff.rfl).2.1]
      exact hRoom

lemma PoolSound.write {addr : Nat} (byte : UInt8) (hAddr : (∃ object ∈ live, object ≤ addr ∧ addr < object + objsz.bytes) ∨
      ∀ page ∈ pages, addr < page ∨ page + pmPageBytes ≤ addr) :
    PoolSound objsz { s with mem := storeByte s.mem addr byte } live pages := by
  have hBytes := objsz.four_le
  refine h.congr fun page hPage chain hChain => ?_
  rcases hAddr with ⟨object, hLive, _, _⟩ | hOutside
  · obtain ⟨home, hHome, hSlot⟩ := h.live_slot object hLive
    have hBounds := slot_bounds hSlot
    by_cases hHere : page = home
    · subst hHere
      constructor
      case next_eq => exact loadWord_storeByte_of_out (by omega)
      case first_eq => exact loadWord_storeByte_of_out (by omega)
      case count_eq => exact loadWord_storeByte_of_out (by omega)
      case links_eq =>
        intro other hOther
        obtain ⟨hOtherSlot, hFree⟩ := (hChain.mem_chain other).mp hOther
        have hApart := slot_apart hSlot hOtherSlot fun hEq => hFree (hEq ▸ hLive)
        exact loadWord_storeByte_of_out (by omega)
    · have hApart := (h.isPage page hPage).apart (h.isPage home hHome) hHere
      exact hChain.frame_of_outside fun a hFrom hTo => storeByte_of_ne (by omega)
  · have hOut := hOutside page hPage
    exact hChain.frame_of_outside fun a hFrom hTo => storeByte_of_ne (by omega)

lemma PoolSound.count_live (hPage : page ∈ pages) :
    nbempty s.mem page + live.countP (fun object => object - object % pmPageBytes = page) = objsz.perpage := by
  obtain ⟨chain, hChain⟩ := h.sound page hPage
  have hFree : chain.Perm ((slots objsz page).filter fun object => object ∉ live) := by
    rw [perm_ext_iff_of_nodup hChain.nodup (slots_nodup.filter _)]
    intro object
    rw [hChain.mem_chain, mem_filter, decide_eq_true_iff]
  have hUsed : (live.filter fun object => object - object % pmPageBytes = page).Perm
      ((slots objsz page).filter fun object => object ∈ live) := by
    rw [perm_ext_iff_of_nodup (h.live_nodup.filter _) (slots_nodup.filter _)]
    intro object
    rw [mem_filter, mem_filter, decide_eq_true_iff, decide_eq_true_iff]
    constructor
    · rintro ⟨hLive, hHere⟩
      obtain ⟨home, hHome, hSlot⟩ := h.live_slot object hLive
      have hSame := (h.isPage home hHome).of_slot hSlot
      rw [hHere] at hSame
      exact ⟨hSame ▸ hSlot, hLive⟩
    · rintro ⟨hSlot, hLive⟩
      exact ⟨hLive, (h.isPage page hPage).of_slot hSlot⟩
  have hSplit : (slots objsz page).length = _ := length_eq_countP_add_countP fun object => decide (object ∈ live)
  rw [slots, length_range', ← slots, countP_eq_length_filter, countP_eq_length_filter] at hSplit
  simp only [decide_eq_true_eq] at hSplit
  rw [hChain.count_eq, countP_eq_length_filter, hFree.length_eq, hUsed.length_eq, hSplit, Nat.add_comm]

end

end

structure PoolRun where
  pool : PoolMem
  live : List Nat

inductive PoolAction where
  | alloc (answer : Option Nat)
  | free (object : Nat)
  | write (addr : Nat) (byte : UInt8)

def PoolRun.step (objsz : ObjSize) (s : PoolRun) : PoolAction → Option PoolRun
  | .alloc answer => (s.pool.poolAlloc objsz answer).map fun (pool, object) =>
      ⟨pool, if object = 0 then s.live else object :: s.live⟩
  | .free object => (s.pool.poolFree object).map fun pool => ⟨pool, s.live.erase object⟩
  | .write addr byte => some { s with pool.mem := storeByte s.pool.mem addr byte }

def PoolMem.pages (s : PoolMem) : List Nat := collect (nextPage s.mem) 0 pageLimit s.firstPage

/-- A page is new, only live objects are freed, and the bytes of the pool outside of live objects are left alone. -/
def PoolRun.Allowed (objsz : ObjSize) (s : PoolRun) : PoolAction → Prop
  | .alloc answer => ∀ page ∈ answer, IsPage page ∧ page ∉ s.pool.pages
  | .free object => object ∈ s.live
  | .write addr _ => (∃ object ∈ s.live, object ≤ addr ∧ addr < object + objsz.bytes) ∨
      ∀ page ∈ s.pool.pages, addr < page ∨ page + pmPageBytes ≤ addr

instance (objsz : ObjSize) (s : PoolRun) (a : PoolAction) : Decidable (s.Allowed objsz a) := by
  unfold PoolRun.Allowed
  split <;> infer_instance

lemma PoolSound.pages_eq {s : PoolMem} {live pages : List Nat} (h : PoolSound objsz s live pages) : s.pages = pages :=
  collect_walk h.walk h.proper h.length_le

lemma PoolRun.sound_step (s : PoolRun) (a : PoolAction) (t : PoolRun) (hAllowed : s.Allowed objsz a)
    (h : ∃ pages, PoolSound objsz s.pool s.live pages) (hStep : s.step objsz a = some t) :
    ∃ pages, PoolSound objsz t.pool t.live pages := by
  obtain ⟨pages, h⟩ := h
  cases a with
  | alloc answer =>
    have hAnswer : ∀ page ∈ answer, IsPage page ∧ page ∉ s.pool.pages := hAllowed
    rw [h.pages_eq] at hAnswer
    obtain ⟨⟨pool, object⟩, hAlloc, rfl⟩ := map_eq_some_iff.mp hStep
    rcases h.poolAlloc hAnswer with ⟨hNull, _⟩ | ⟨pool', _, pages', hTaken, _, ⟨_, _, hSlot⟩, hSound⟩
    · cases hNull.symm.trans hAlloc
      exact ⟨pages, h⟩
    · cases hTaken.symm.trans hAlloc
      have hBounds := slot_bounds hSlot
      refine ⟨pages', ?_⟩
      dsimp only
      rw [if_neg (by omega)]
      exact hSound
  | free object =>
    obtain ⟨pool, hFree, rfl⟩ := map_eq_some_iff.mp hStep
    obtain ⟨pool', hFreed, hSound⟩ := h.poolFree hAllowed
    cases hFreed.symm.trans hFree
    exact ⟨pages, hSound⟩
  | write addr byte =>
    cases hStep
    have hAddr : (∃ object ∈ s.live, object ≤ addr ∧ addr < object + objsz.bytes) ∨
        ∀ page ∈ s.pool.pages, addr < page ∨ page + pmPageBytes ≤ addr := hAllowed
    rw [h.pages_eq] at hAddr
    exact ⟨pages, h.write byte hAddr⟩

lemma PoolSound.empty (objsz : ObjSize) (mem : ByteMemory) : PoolSound objsz ⟨mem, 0, 0⟩ [] [] where
  walk := rfl
  nodup := nodup_nil
  isPage := by simp
  sound := by simp
  live_nodup := nodup_nil
  live_slot := by simp
  nonfull := Or.inl rfl

/-- The object lies in a page of the pool, behind its header, and overlaps no other slot. -/
def PlacedIn (objsz : ObjSize) (page object : Nat) : Prop :=
  object ∈ slots objsz page ∧ page + 12 ≤ object ∧ object + objsz.bytes ≤ page + pmPageBytes ∧
    ∀ other ∈ slots objsz page, other ≠ object →
      object + objsz.bytes ≤ other ∨ other + objsz.bytes ≤ object

lemma placedIn_of_slot (h : object ∈ slots objsz page) : PlacedIn objsz page object := by
  have hBounds := slot_bounds h
  exact ⟨h, hBounds.1, by omega, fun other hOther hNe => slot_apart h hOther hNe.symm⟩

def freeChain (mem : ByteMemory) (page : Nat) : List Nat :=
  follow (loadWord mem) (nbempty mem page) (firstEmpty mem page)

lemma PageSound.freeChain_eq {mem : ByteMemory} {live chain : List Nat} (h : PageSound objsz mem live page chain) :
    freeChain mem page = chain := by
  obtain ⟨_, hWalk⟩ := h.walk
  rw [freeChain, h.count_eq, follow_walk hWalk]

/-- The pool after any calls and any stores to its objects, and what its calls then do. -/
theorem pool_run_sound (objsz : ObjSize) (mem : ByteMemory) {as : List PoolAction} {s : PoolRun}
    (h : Run (PoolRun.step objsz) (PoolRun.Allowed objsz) ⟨⟨mem, 0, 0⟩, []⟩ as s) :
    (∀ page ∈ s.pool.pages, IsPage page ∧ nbempty s.pool.mem page = objsz.perpage -
        s.live.countP (fun object => object - object % pmPageBytes = page) ∧
      (freeChain s.pool.mem page).Nodup ∧
      ∀ object, object ∈ freeChain s.pool.mem page ↔ object ∈ slots objsz page ∧ object ∉ s.live) ∧
    (s.pool.firstNonfull = 0 ∨ s.pool.firstNonfull ∈ s.pool.pages ∧ 0 < nbempty s.pool.mem s.pool.firstNonfull) ∧
    s.live.Nodup ∧ (∀ object ∈ s.live, ∃ page ∈ s.pool.pages, PlacedIn objsz page object) ∧
    (∀ answer, s.Allowed objsz (.alloc answer) → ∃ pool object, s.pool.poolAlloc objsz answer = some (pool, object) ∧
        (object = 0 ∧ answer = none ∨ object ∉ s.live ∧ ∃ page ∈ pool.pages, PlacedIn objsz page object)) ∧
    ∀ object ∈ s.live, ∃ pool, s.pool.poolFree object = some pool := by
  obtain ⟨_, hSound⟩ := h.invariant (fun s a t => PoolRun.sound_step s a t) ⟨[], PoolSound.empty objsz mem⟩
  rw [hSound.pages_eq]
  refine ⟨fun page hPage => ?_, hSound.nonfull, hSound.live_nodup, fun object hLive => ?_,
    fun answer hAllowed => ?_, fun object hLive => ?_⟩
  · obtain ⟨_, hChain⟩ := hSound.sound page hPage
    have hCount := hSound.count_live hPage
    rw [hChain.freeChain_eq]
    exact ⟨hSound.isPage page hPage, by omega, hChain.nodup, hChain.mem_chain⟩
  · obtain ⟨page, hPage, hSlot⟩ := hSound.live_slot object hLive
    exact ⟨page, hPage, placedIn_of_slot hSlot⟩
  · have hAnswer : ∀ page ∈ answer, IsPage page ∧ page ∉ s.pool.pages := hAllowed
    rw [hSound.pages_eq] at hAnswer
    rcases hSound.poolAlloc hAnswer with ⟨hNull, hNone⟩ | ⟨pool, object, _, hTaken, hFree, hSlot, hNext⟩
    · exact ⟨s.pool, 0, hNull, Or.inl ⟨rfl, hNone⟩⟩
    · obtain ⟨home, hHome, hSlot⟩ := hSlot
      rw [← hNext.pages_eq] at hHome
      exact ⟨pool, object, hTaken, Or.inr ⟨hFree, home, hHome, placedIn_of_slot hSlot⟩⟩
  · obtain ⟨pool, hFree, _⟩ := hSound.poolFree hLive
    exact ⟨pool, hFree⟩

/-- Objects of 300 bytes, three in a page. -/
def largeSize : ObjSize := ⟨300, by decide, by decide, by decide⟩

/-- A page is filled, an object of it is overwritten and freed while a second page is in use. -/
def poolActions : List PoolAction :=
  [.alloc (some 4096), .alloc none, .alloc none, .write 4720 0xff, .alloc (some 8192), .write 4408 0xff,
    .free 4408, .alloc none, .free 8204, .alloc none, .alloc none]

theorem pool_run_sound_poolActions : ∃ s : PoolRun,
    Run (PoolRun.step largeSize) (PoolRun.Allowed largeSize) ⟨⟨fun _ => 0xaa, 0, 0⟩, []⟩ poolActions s ∧
    s.pool.pages = [8192, 4096] ∧ s.live = [8804, 8204, 8504, 4708, 4108] ∧
    nbempty s.pool.mem 4096 = 1 ∧ (∀ object, object ∈ freeChain s.pool.mem 4096 ↔
      object ∈ slots largeSize 4096 ∧ object ∉ s.live) := by
  have hExec : (exec (guarded (PoolRun.step largeSize) (PoolRun.Allowed largeSize))
      ⟨⟨fun _ => 0xaa, 0, 0⟩, []⟩ poolActions).map (fun s => (s.pool.pages, s.live)) =
      some ([8192, 4096], [8804, 8204, 8504, 4708, 4108]) := by decide +kernel
  obtain ⟨s, hExec, hEnd⟩ := map_eq_some_iff.mp hExec
  have hRun := run_of_exec_guarded hExec
  obtain ⟨hPages, hLive⟩ := Prod.mk.inj hEnd
  obtain ⟨_, hCount, _, hChain⟩ := (pool_run_sound largeSize _ hRun).1 4096 (by simp [hPages])
  refine ⟨s, hRun, hPages, hLive, ?_, hChain⟩
  rw [hCount, hLive]
  decide

/-- All stores are inside of the page, and from the first empty object on there is a chain of `perpage` nodes. -/
def PageLinked (bytes page : Nat) (mem : ByteMemory) : Prop :=
  (∀ s ∈ newPageStores bytes page, page ≤ s.1 ∧ s.1 + 4 ≤ page + pmPageBytes) ∧
  ∃ chain : List Nat, chain.length = pageRoom / bytes ∧
    Walk (loadWord (storeAll mem (newPageStores bytes page))) (firstEmpty (storeAll mem (newPageStores bytes page)) page)
      chain 0

/-- The page is right exactly if a word is left behind the objects and the last object happened to begin with zero. -/
theorem new_page_linked_iff {bytes page : Nat} (mem : ByteMemory) (hSize : 4 ≤ bytes ∧ bytes ≤ 512)
    (hPage : page + pmPageBytes ≤ 2 ^ 32) :
    PageLinked bytes page mem ↔ 4 ≤ pageRoom % bytes ∧ loadWord mem (page + 12 + bytes * (pageRoom / bytes - 1)) = 0 := by
  obtain ⟨n, hn⟩ : ∃ n, pageRoom / bytes = n + 1 :=
    Nat.exists_eq_add_one.mpr (Nat.div_pos (hSize.2.trans (by decide)) (by omega))
  have hDiv : bytes * (pageRoom / bytes) + pageRoom % bytes = 1012 := Nat.div_add_mod pageRoom bytes
  have hBytes : pmPageBytes = 1024 := rfl
  have hNew := newPage_storeAll hn hSize.1 hPage mem
  have hWalk := walk_range' (q := 0) hNew.links
  rw [PageLinked, hn, Nat.add_sub_cancel, ← hNew.last, ← hWalk, hNew.first]
  refine and_congr ⟨fun hAll => ?_, fun hSlack s hs => newPageStores_inside hn (by omega) hs⟩ ⟨?_,
    fun hChain => ⟨_, length_range', hChain⟩⟩
  · have hEnd := (hAll _ ((mem_newPageStores hn).mpr (Or.inr (Or.inr rfl)))).2
    rw [hn] at hDiv
    dsimp only at hEnd
    omega
  · rintro ⟨chain, hLength, hChain⟩
    have hFollow := follow_walk ((walk_range' hNew.links).mpr rfl)
    rw [length_range'] at hFollow
    rwa [← hFollow, ← hLength, follow_walk hChain]

theorem new_page_linked_eight : PageLinked 8 1024 fun _ => 0 :=
  (new_page_linked_iff _ (by decide) (by decide)).mpr ⟨by decide, rfl⟩

/-- With words as objects the page behind is written to; with eight bytes the last link is what the page held. -/
theorem new_page_ends_outside : (1024 + pmPageBytes, 0) ∈ newPageStores 4 1024 ∧
    loadWord (storeAll (fun _ => 0xaa) (newPageStores 8 1024)) (1024 + 12 + 8 * 125) = 0xaaaaaaaa := by
  decide +kernel

end Fixos.Utils
