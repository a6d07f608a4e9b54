import Fixos.Lib.Links
import Fixos.Sys.Memory

/-! # Page directories in memory (`sys/memory.c`)

The directories of a process are a doubly linked list of objects of a pool.
-/

namespace Fixos.Sys

open Arch Links Transition Option Function List

structure DirNode where
  dirId : Nat
  next : Nat
  prev : Nat
  pages : Fin memDirectoryPages → PageEntry

structure DirMemory where
  node : Nat → DirNode
  head : Nat

def dirLimit : Nat := 2 ^ 17

namespace DirMemory

def next (s : DirMemory) (p : Nat) : Nat := (s.node p).next

def prev (s : DirMemory) (p : Nat) : Nat := (s.node p).prev

def set (s : DirMemory) (p : Nat) (node : DirNode) : DirMemory :=
  { s with node := update s.node p node }

def setNext (s : DirMemory) (p next : Nat) : DirMemory := s.set p { s.node p with next }

def setPrev (s : DirMemory) (p prev : Nat) : DirMemory := s.set p { s.node p with prev }

def setHead (s : DirMemory) (head : Nat) : DirMemory := { s with head }

section

variable (s : DirMemory) (p q r : Nat)

@[simp] lemma set_node (node : DirNode) : (s.set p node).node q = if q = p then node else s.node q := update_apply _ _ _ _

@[simp] lemma setNext_next : (s.setNext p r).next q = if q = p then r else s.next q := by
  rw [next, setNext, set_node, apply_ite DirNode.next]
  rfl

@[simp] lemma setNext_prev : (s.setNext p r).prev q = s.prev q := by
  rw [prev, setNext, set_node, apply_ite DirNode.prev]
  exact ite_eq_right_iff.mpr fun hq => congrArg s.prev hq.symm

@[simp] lemma setPrev_prev : (s.setPrev p r).prev q = if q = p then r else s.prev q := by
  rw [prev, setPrev, set_node, apply_ite DirNode.prev]
  rfl

@[simp] lemma setPrev_next : (s.setPrev p r).next q = s.next q := by
  rw [next, setPrev, set_node, apply_ite DirNode.next]
  exact ite_eq_right_iff.mpr fun hq => congrArg s.next hq.symm

@[simp] lemma setNext_head : (s.setNext p r).head = s.head := rfl

@[simp] lemma setPrev_head : (s.setPrev p r).head = s.head := rfl

@[simp] lemma setHead_head : (s.setHead r).head = r := rfl

@[simp] lemma setHead_next : (s.setHead r).next q = s.next q := rfl

@[simp] lemma setHead_prev : (s.setHead r).prev q = s.prev q := rfl

end

def nodes (s : DirMemory) : List Nat := collect s.next 0 dirLimit s.head

def memFindPage (s : DirMemory) (addr : Nat) : Option (Option PageEntry) :=
  let dirId := memAddressDirectory addr
  (advance (fun p => p = 0 || !decide ((s.node p).dirId < dirId)) s.next (dirLimit + 1) s.head).map fun cur =>
    if cur ≠ 0 ∧ (s.node cur).dirId = dirId then some ((s.node cur).pages (memAddressIndex addr)) else none

end DirMemory

/-- The object `newdir` is prepared with the entries it holds, without their flags. -/
def DirNode.prepare (node : DirNode) (dirId : Nat) : DirNode :=
  { node with dirId, pages := fun i => { node.pages i with isPrivate := true, valid := false, cached := false } }

def DirMemory.linkFirst (s : DirMemory) (newdir : Nat) : DirMemory :=
  ((s.setNext newdir 0).setPrev newdir 0).setHead newdir

def DirMemory.linkBefore (s : DirMemory) (newdir cur : Nat) : DirMemory :=
  let s := s.setNext newdir cur
  let s := s.setPrev newdir (s.prev cur)
  let s := if s.prev cur = 0 then s.setHead newdir else s.setNext (s.prev cur) newdir
  s.setPrev cur newdir

def DirMemory.linkAfter (s : DirMemory) (newdir cur : Nat) : DirMemory :=
  let s := s.setNext newdir (s.next cur)
  let s := s.setPrev newdir cur
  let s := if s.next cur ≠ 0 then s.setPrev (s.next cur) newdir else s
  s.setNext cur newdir

def DirMemory.insertDir (s : DirMemory) (newdir cur dirId : Nat) : DirMemory :=
  if cur = 0 then s.linkFirst newdir
  else if (s.node cur).dirId > dirId then s.linkBefore newdir cur
  else s.linkAfter newdir cur

def DirMemory.setEntry (s : DirMemory) (cur addr : Nat) (page : PageEntry) : DirMemory :=
  s.set cur { s.node cur with pages := update (s.node cur).pages (memAddressIndex addr) page }

/-- `newdir` is what the pool of directories answers if it is asked. -/
def DirMemory.memInsertPage (s : DirMemory) (page : PageEntry) (addr : Nat) (newdir : Option Nat) :
    Option (DirMemory × Int) :=
  let dirId := memAddressDirectory addr
  (advance (fun p => p = 0 || !decide ((s.node p).dirId < dirId) || s.next p = 0) s.next (dirLimit + 1)
    s.head).map fun cur =>
      if cur = 0 ∨ (s.node cur).dirId ≠ dirId then
        match newdir with
        | none => (s, -1)
        | some newdir =>
          let s := s.set newdir ((s.node newdir).prepare dirId)
          let s := s.insertDir newdir cur dirId
          (s.setEntry newdir addr page, 0)
      else (s.setEntry cur addr page, 0)

def DirMemory.dirOf (s : DirMemory) (p : Nat) : PageDir :=
  ⟨(s.node p).dirId, p / pmPageBytes, (s.node p).pages⟩

structure DirMemory.Holds (s : DirMemory) (l : List Nat) (list : DirList) : Prop where
  links : DList s.next s.prev 0 s.head l
  dirs_eq : list.dirs = l.map s.dirOf
  dirId_lt : ∀ dir ∈ list.dirs, dir.dirId < dirLimit

variable {cur addr dirId r : Nat}

section

variable {s : DirMemory} {l : List Nat} {list : DirList}

lemma DirMemory.Holds.length_le (h : s.Holds l list) : l.length ≤ dirLimit := by
  have hIds : (list.dirs.map PageDir.dirId).Nodup := (pairwise_map.mpr list.sorted).imp fun hLt => Nat.ne_of_lt hLt
  have hSub : list.dirs.map PageDir.dirId ⊆ range dirLimit := by
    intro _ hMem
    obtain ⟨dir, hDir, rfl⟩ := mem_map.mp hMem
    exact mem_range.mpr (h.dirId_lt dir hDir)
  have hLength := (subperm_of_subset hIds hSub).length_le
  rwa [length_map, h.dirs_eq, length_map, length_range] at hLength

lemma DirMemory.Holds.nodes_eq (h : s.Holds l list) : s.nodes = l := collect_walk h.links.walk h.links.proper h.length_le

lemma findDir_dirs (s : DirMemory) (dirId : Nat) (hProper : 0 ∉ l) : findDir dirId (l.map s.dirOf) =
      let cur := (l.find? fun p => p = 0 || !decide ((s.node p).dirId < dirId)).getD 0
      if cur ≠ 0 ∧ (s.node cur).dirId = dirId then some (s.dirOf cur) else none := by
  induction l with
  | nil => rfl
  | cons p l ih =>
    rw [mem_cons, not_or] at hProper
    have hp : p ≠ 0 := Ne.symm hProper.1
    rw [map_cons, findDir]
    by_cases hLess : (s.dirOf p).dirId < dirId
    · rw [if_pos hLess, ih hProper.2, find?_cons_of_neg (by simp [hp, show (s.node p).dirId < dirId from hLess])]
    · rw [if_neg hLess, find?_cons_of_pos (by simp [show ¬(s.node p).dirId < dirId from hLess])]
      simp only [getD_some, hp, ne_eq, not_false_eq_true, true_and]
      rfl

namespace DirMemory

section

variable (h : s.Holds l list)
include h

lemma Holds.memFindPage_eq (addr : Nat) : s.memFindPage addr = some (Sys.memFindPage list addr) := by
  have hLength := h.length_le
  rw [memFindPage, advance_walk h.links.walk rfl (by omega), Sys.memFindPage, h.dirs_eq, findDir_dirs s _ h.links.proper]
  simp only [map_some, some_inj]
  split <;> rfl

lemma Holds.set_of_notMem {p : Nat} (hp : p ∉ l) (node : DirNode) : (s.set p node).Holds l list := by
  have hSame : ∀ q ∈ l, (s.set p node).node q = s.node q := by
    intro q hq
    refine update_of_ne ?_ _ _
    rintro rfl
    exact hp hq
  refine { h with links := ?_, dirs_eq := ?_ }
  · exact h.links.congr (fun q hq => congrArg DirNode.next (hSame q hq)) fun q hq => congrArg DirNode.prev (hSame q hq)
  · rw [h.dirs_eq]
    refine map_congr_left fun q hq => ?_
    rw [dirOf, dirOf, hSame q hq]

lemma Holds.sorted : l.Pairwise fun p q => (s.node p).dirId < (s.node q).dirId := by
  have hDirs := list.sorted
  rw [h.dirs_eq, pairwise_map] at hDirs
  exact hDirs

lemma Holds.dirId_inj {p q : Nat} (hp : p ∈ l) (hq : q ∈ l) (hId : (s.node p).dirId = (s.node q).dirId) : p = q := by
  have hNodup : (l.map fun p => (s.node p).dirId).Nodup := pairwise_map.mpr (h.sorted.imp fun hLt => Nat.ne_of_lt hLt)
  exact inj_on_of_nodup_map hNodup hp hq hId

lemma Holds.setEntry (hCur : cur ∈ l) (hId : (s.node cur).dirId = memAddressDirectory addr) (page : PageEntry) :
    (s.setEntry cur addr page).Holds l (list.setPage addr page) := by
  have hNode : ∀ p, (s.setEntry cur addr page).node p =
      if p = cur then { s.node cur with pages := update (s.node cur).pages (memAddressIndex addr) page }
      else s.node p :=
    fun p => update_apply _ _ _ _
  constructor
  case links =>
    refine h.links.congr (fun p _ => ?_) fun p _ => ?_
    · rw [next, hNode]
      split_ifs with hp
      · rw [hp]
        rfl
      · rfl
    · rw [prev, hNode]
      split_ifs with hp
      · rw [hp]
        rfl
      · rfl
  case dirs_eq =>
    show list.dirs.map _ = _
    rw [h.dirs_eq, List.map_map]
    refine map_congr_left fun p hp => ?_
    rw [comp_apply, PageDir.setPage]
    unfold dirOf
    rw [hNode]
    by_cases hHere : p = cur
    · rw [hHere, if_pos hId, if_pos rfl]
    · rw [if_neg fun hEq => hHere (h.dirId_inj hp hCur (hEq.trans hId.symm)), if_neg hHere]
  case dirId_lt =>
    intro _ hDir
    obtain ⟨old, hOld, rfl⟩ := mem_map.mp hDir
    rw [PageDir.setPage_dirId]
    exact h.dirId_lt old hOld

end

/-- At the first directory that is not below the wanted one, or at the last. -/
def StopsAt (s : DirMemory) (l : List Nat) (dirId cur : Nat) : Prop :=
  l = [] ∧ cur = 0 ∨ ∃ front back, l = front ++ cur :: back ∧ cur ≠ 0 ∧
    (∀ p ∈ front, (s.node p).dirId < dirId) ∧ (dirId ≤ (s.node cur).dirId ∨ back = [])

lemma StopsAt.set_of_notMem (h : s.StopsAt l dirId cur) (hr : r ∉ l) (node : DirNode) :
    (s.set r node).StopsAt l dirId cur := by
  refine h.imp id ?_
  rintro ⟨front, back, rfl, hCur, hFront, hBack⟩
  have hSame : ∀ p ∈ front ++ cur :: back, (s.set r node).node p = s.node p := by
    intro p hp
    rw [set_node, if_neg]
    rintro rfl
    exact hr hp
  refine ⟨front, back, rfl, hCur, fun p hp => ?_, ?_⟩
  · rw [hSame p (by simp [hp])]
    exact hFront p hp
  · rw [hSame cur (by simp)]
    exact hBack

lemma Holds.stopsAt (h : s.Holds l list) (dirId : Nat) :
    ∃ cur, advance (fun p => p = 0 || !decide ((s.node p).dirId < dirId) || s.next p = 0) s.next
        (dirLimit + 1) s.head = some cur ∧ s.StopsAt l dirId cur := by
  have hLength := h.length_le
  refine ⟨_, advance_walk h.links.walk rfl (by omega), ?_⟩
  cases hFind : l.find? fun p => p = 0 || !decide ((s.node p).dirId < dirId) || s.next p = 0 with
  | none =>
    left
    rw [find?_eq_none] at hFind
    rcases eq_nil_or_concat l with rfl | ⟨front, last, rfl⟩
    · exact ⟨rfl, rfl⟩
    · -- the last node has no next one
      rw [concat_eq_append] at h hFind
      have hLast : s.next last = 0 := (walk_concat.mp h.links.walk).2
      exact absurd (by simp [hLast]) (hFind last (by simp))
  | some cur =>
    right
    obtain ⟨hStop, front, back, rfl, hFront⟩ := find?_eq_some_iff_append.mp hFind
    have hCur : cur ≠ 0 := by
      rintro rfl
      exact h.links.proper (by simp)
    refine ⟨front, back, rfl, hCur, fun p hp => ?_, ?_⟩
    · have hPass := hFront p hp
      simp only [Bool.not_eq_true', Bool.or_eq_false_iff, Bool.not_eq_false', decide_eq_true_eq] at hPass
      exact hPass.1.2
    · simp only [getD_some, Bool.or_eq_true, decide_eq_true_eq, hCur, false_or, Bool.not_eq_true',
        decide_eq_false_iff_not, Nat.not_lt] at hStop ⊢
      refine hStop.imp id fun hNext => ?_
      obtain ⟨_, _, rfl, hBack⟩ := walk_append.mp h.links.walk
      rw [hNext] at hBack
      cases back with
      | nil => rfl
      | cons p back =>
        exact absurd (by simp [hBack.1]) h.links.proper

lemma StopsAt.findDir_eq_none (hStop : s.StopsAt l dirId cur) (h : s.Holds l list)
    (hNot : cur = 0 ∨ (s.node cur).dirId ≠ dirId) : findDir dirId list.dirs = none := by
  rw [findDir_eq_none_iff list.sorted, h.dirs_eq, List.forall_mem_map]
  intro p hp
  show (s.node p).dirId ≠ dirId
  rcases hStop with ⟨rfl, _⟩ | ⟨_, _, rfl, hCur, hFront, hBack⟩
  · exact absurd hp not_mem_nil
  have hCurId := hNot.resolve_left hCur
  rcases mem_append.mp hp with hp | hp
  · exact Nat.ne_of_lt (hFront p hp)
  rcases mem_cons.mp hp with rfl | hp
  · exact hCurId
  · -- behind the place where the walk stopped the directories are above it
    have hAbove := (pairwise_cons.mp (pairwise_append.mp h.sorted).2.1).1 p hp
    rcases hBack with _ | rfl
    · omega
    · exact absurd hp not_mem_nil

end DirMemory

lemma linkDir_append {dir : PageDir} {front : List PageDir} (rest : List PageDir)
    (h : ∀ cur ∈ front, cur.dirId < dir.dirId) : linkDir dir (front ++ rest) = front ++ linkDir dir rest := by
  induction front with
  | nil => rfl
  | cons cur front ih =>
    have hCur := h cur mem_cons_self
    rw [cons_append, linkDir, if_neg (by omega), ih fun next hNext => h next (mem_cons_of_mem _ hNext)]
    rfl

namespace DirMemory

@[simp] lemma setNext_dirOf (s : DirMemory) (p r q : Nat) : (s.setNext p r).dirOf q = s.dirOf q := by
  unfold dirOf setNext
  rw [set_node]
  split_ifs with hq
  · rw [hq]
  · rfl

@[simp] lemma setPrev_dirOf (s : DirMemory) (p r q : Nat) : (s.setPrev p r).dirOf q = s.dirOf q := by
  unfold dirOf setPrev
  rw [set_node]
  split_ifs with hq
  · rw [hq]
  · rfl

@[simp] lemma setHead_dirOf (s : DirMemory) (r q : Nat) : (s.setHead r).dirOf q = s.dirOf q := rfl

lemma linkFirst_dirOf (s : DirMemory) (newdir : Nat) : (s.linkFirst newdir).dirOf = s.dirOf := by
  funext p
  simp [linkFirst]

lemma linkBefore_dirOf (s : DirMemory) (newdir cur : Nat) : (s.linkBefore newdir cur).dirOf = s.dirOf := by
  funext p
  unfold linkBefore
  rw [setPrev_dirOf]
  split <;> simp

lemma linkAfter_dirOf (s : DirMemory) (newdir cur : Nat) : (s.linkAfter newdir cur).dirOf = s.dirOf := by
  funext p
  unfold linkAfter
  rw [setNext_dirOf]
  split <;> simp

lemma Holds.link (h : s.Holds l list) {s' : DirMemory} {l' : List Nat} {dir : PageDir}
    (hNew : findDir dir.dirId list.dirs = none) (hLt : dir.dirId < dirLimit)
    (hLinks : DList s'.next s'.prev 0 s'.head l') (hDirs : linkDir dir list.dirs = l'.map s'.dirOf) :
    s'.Holds l' (list.link dir hNew) := by
  refine ⟨hLinks, hDirs, fun found hFound => ?_⟩
  rcases mem_cons.mp ((perm_linkDir dir list.dirs).mem_iff.mp hFound) with rfl | hOld
  · exact hLt
  · exact h.dirId_lt found hOld

lemma Holds.linkFirst (h : s.Holds [] list) (hr : r ≠ 0)
    (hNew : findDir (s.dirOf r).dirId list.dirs = none) (hLt : (s.dirOf r).dirId < dirLimit) :
    (s.linkFirst r).Holds [r] (list.link (s.dirOf r) hNew) := by
  refine h.link hNew hLt (DList.singleton hr ?_ ?_) ?_
  · simp [DirMemory.linkFirst]
  · simp [DirMemory.linkFirst]
  · have hDirs : list.dirs = [] := h.dirs_eq
    rw [hDirs, linkFirst_dirOf]
    rfl

lemma Holds.linkBefore {front back : List Nat} (h : s.Holds (front ++ cur :: back) list) (hr : r ≠ 0)
    (hFresh : r ∉ front ++ cur :: back) (hNew : findDir (s.dirOf r).dirId list.dirs = none)
    (hLt : (s.dirOf r).dirId < dirLimit) (hFront : ∀ p ∈ front, (s.node p).dirId < (s.dirOf r).dirId)
    (hCur : (s.dirOf r).dirId < (s.node cur).dirId) :
    (s.linkBefore r cur).Holds (front ++ r :: cur :: back) (list.link (s.dirOf r) hNew) := by
  have hNe : ∀ p ∈ front ++ cur :: back, p ≠ r ∧ p ≠ 0 := by
    intro p hp
    constructor
    · rintro rfl
      exact hFresh hp
    · rintro rfl
      exact h.links.proper hp
  have hCurNe : cur ≠ r := (hNe cur (by simp)).1
  have hPrevNe : s.prev cur ≠ r := by
    rw [h.links.prev_eq]
    rcases eq_nil_or_concat front with rfl | ⟨_, last, rfl⟩
    · exact hr.symm
    · rw [concat_eq_append, getLastD_concat]
      exact (hNe last (by simp)).1
  have hHead : (s.linkBefore r cur).head = if s.prev cur = 0 then r else s.head := by
    simp only [DirMemory.linkBefore, setPrev_prev, setNext_prev, if_neg hCurNe]
    split <;> simp
  refine h.link hNew hLt ?_ ?_
  · rw [hHead]
    refine h.links.insert_before hr hFresh (fun p hp => ?_) ?_ (fun p hp => ?_) ?_
    all_goals simp [DirMemory.linkBefore, setPrev_prev, setNext_prev, setPrev_next]
    · obtain ⟨hpNew, hpNull⟩ := hNe p hp
      by_cases hFirst : s.prev cur = 0
      · simp [hFirst, hpNew, hpNull]
      · simp [hFirst, hpNew]
    · by_cases hFirst : s.prev cur = 0
      · simp [hFirst]
      · simp [hFirst, hPrevNe.symm]
    · obtain ⟨hpNew, _⟩ := hNe p hp
      by_cases hFirst : s.prev cur = 0
      · simp [hFirst, hpNew]
      · simp [hFirst, hpNew]
    · rw [if_neg hCurNe.symm]
      by_cases hFirst : s.prev cur = 0
      · simp [hFirst]
      · simp [hFirst]
  · rw [linkBefore_dirOf, h.dirs_eq, map_append, linkDir_append _ (forall_mem_map.mpr hFront), map_append,
      map_cons, linkDir, if_pos (by exact hCur)]
    rfl

lemma Holds.linkAfter {front : List Nat} (h : s.Holds (front ++ [cur]) list) (hr : r ≠ 0)
    (hFresh : r ∉ front ++ [cur]) (hNew : findDir (s.dirOf r).dirId list.dirs = none)
    (hLt : (s.dirOf r).dirId < dirLimit) (hFront : ∀ p ∈ front ++ [cur], (s.node p).dirId < (s.dirOf r).dirId) :
    (s.linkAfter r cur).Holds (front ++ [cur, r]) (list.link (s.dirOf r) hNew) := by
  have hNe : ∀ p ∈ front ++ [cur], p ≠ r := by
    rintro p hp rfl
    exact hFresh hp
  have hCurNe : cur ≠ r := hNe cur (by simp)
  have hLast : s.next cur = 0 := (walk_concat.mp h.links.walk).2
  have hLink : s.linkAfter r cur = ((s.setNext r 0).setPrev r cur).setNext cur r := by
    simp [DirMemory.linkAfter, setPrev_next, setNext_next, hLast]
  refine h.link hNew hLt ?_ ?_
  · rw [hLink]
    refine h.links.concat hr hFresh (fun p hp => ?_) ?_ ?_ (fun p hp => ?_) ?_
    · have hpCur : p ≠ cur := by
        rintro rfl
        exact (nodup_append.mp h.links.nodup).2.2 p hp p (by simp) rfl
      simp [hpCur, hNe p (by simp [hp])]
    · simp
    · simp [hCurNe.symm]
    · simp [hNe p hp]
    · simp
  · rw [linkAfter_dirOf, h.dirs_eq, ← append_nil ((front ++ [cur]).map s.dirOf),
      linkDir_append _ (forall_mem_map.mpr hFront)]
    simp [linkDir]

lemma Holds.insertDir (h : s.Holds l list) (hr : r ≠ 0) (hFresh : r ∉ l) (hId : (s.dirOf r).dirId = dirId)
    (hStop : s.StopsAt l dirId cur) (hNot : cur = 0 ∨ (s.node cur).dirId ≠ dirId)
    (hNew : findDir (s.dirOf r).dirId list.dirs = none) (hLt : dirId < dirLimit) :
    ∃ l', (s.insertDir r cur dirId).Holds l' (list.link (s.dirOf r) hNew) ∧ r ∈ l' ∧
      (s.insertDir r cur dirId).dirOf = s.dirOf := by
  subst hId
  unfold insertDir
  rcases hStop with ⟨rfl, rfl⟩ | ⟨_, back, rfl, hCur, hFront, hBack⟩
  · rw [if_pos rfl]
    exact ⟨[r], h.linkFirst hr hNew hLt, by simp, linkFirst_dirOf s r⟩
  rw [if_neg hCur]
  by_cases hAbove : (s.node cur).dirId > (s.dirOf r).dirId
  · rw [if_pos hAbove]
    exact ⟨_, h.linkBefore hr hFresh hNew hLt hFront hAbove, by simp, linkBefore_dirOf s r cur⟩
  · rw [if_neg hAbove]
    obtain rfl : back = [] := hBack.resolve_left fun hLe => by omega
    refine ⟨_, h.linkAfter hr hFresh hNew hLt fun p hp => ?_, by simp, linkAfter_dirOf s r cur⟩
    rcases mem_append.mp hp with hp | hp
    · exact hFront p hp
    · rw [mem_singleton.mp hp]
      omega

end DirMemory

end

variable {list : DirList}

lemma DirMemory.Holds.memInsertPage {s : DirMemory} {l : List Nat} (h : s.Holds l list) (page : PageEntry)
    (hAddr : addr < 2 ^ 32) {newdir : Option Nat} (hFresh : ∀ r ∈ newdir, r ≠ 0 ∧ r ∉ l) :
    s.memInsertPage page addr newdir = some (s, -1) ∨
      ∃ t l' list', s.memInsertPage page addr newdir = some (t, 0) ∧ t.Holds l' list' ∧
        EntryInserted list page addr list' := by
  have hIdLt : memAddressDirectory addr < dirLimit := by
    unfold memAddressDirectory pmPageBytes memDirectoryPages dirLimit
    omega
  obtain ⟨cur, hAdvance, hStop⟩ := h.stopsAt (memAddressDirectory addr)
  unfold DirMemory.memInsertPage
  dsimp only
  rw [hAdvance, map_some]
  by_cases hNot : cur = 0 ∨ (s.node cur).dirId ≠ memAddressDirectory addr
  · rw [if_pos hNot]
    cases newdir with
    | none => exact Or.inl rfl
    | some r =>
      right
      obtain ⟨hr, hrNew⟩ := hFresh r rfl
      have hs' := h.set_of_notMem hrNew ((s.node r).prepare (memAddressDirectory addr))
      have hStop' := hStop.set_of_notMem hrNew ((s.node r).prepare (memAddressDirectory addr))
      dsimp only
      generalize hSet : s.set r ((s.node r).prepare (memAddressDirectory addr)) = s' at hs' hStop' ⊢
      have hNode : s'.node r = (s.node r).prepare (memAddressDirectory addr) := by
        rw [← hSet, set_node, if_pos rfl]
      have hId : (s'.dirOf r).dirId = memAddressDirectory addr := by
        rw [dirOf, hNode]
        rfl
      have hNot' : cur = 0 ∨ (s'.node cur).dirId ≠ memAddressDirectory addr := by
        rcases hStop with ⟨_, hNull⟩ | ⟨front, back, rfl, _, _, _⟩
        · exact Or.inl hNull
        · have hCurNe : cur ≠ r := by
            rintro rfl
            exact hrNew (by simp)
          rwa [← hSet, set_node, if_neg hCurNe]
      have hNew : findDir (s'.dirOf r).dirId list.dirs = none := by
        rw [hId]
        exact hStop'.findDir_eq_none hs' hNot'
      obtain ⟨l', hHolds, hMem, hDirOf⟩ := hs'.insertDir hr hrNew hId hStop' hNot' hNew hIdLt
      refine ⟨_, l', _, rfl, hHolds.setEntry hMem ?_ page, entryInserted_link hNew hId fun i => ?_⟩
      · exact (congrArg PageDir.dirId (congrFun hDirOf r)).trans hId
      · rw [dirOf, hNode]
        rfl
  · rw [if_neg hNot]
    obtain ⟨hCur, hId⟩ := not_or.mp hNot
    rw [not_not] at hId
    right
    rcases hStop with ⟨_, hNull⟩ | ⟨front, back, rfl, _, _, _⟩
    · exact absurd hNull hCur
    · have hDir : findDir (memAddressDirectory addr) list.dirs = some (s.dirOf cur) := by
        rw [findDir_eq_some_iff list.sorted, h.dirs_eq]
        exact ⟨mem_map_of_mem (by simp), hId⟩
      exact ⟨_, _, _, rfl, h.setEntry (by simp) hId page, entryInserted_setPage hDir⟩

/-- The memory and, newest first, the entries inserted with success, by the number of their page. -/
structure DirRun where
  mem : DirMemory
  log : List (Nat × PageEntry)

/-- The objects that are not in the list can change in any way. -/
inductive DirAction where
  | insert (page : PageEntry) (addr : Nat) (newdir : Option Nat)
  | elsewhere (r : Nat) (node : DirNode)

def DirRun.step (s : DirRun) : DirAction → Option DirRun
  | .insert page addr newdir => (s.mem.memInsertPage page addr newdir).map fun (mem, result) =>
      ⟨mem, if result = 0 then (addr / pmPageBytes, page) :: s.log else s.log⟩
  | .elsewhere r node => some { s with mem := s.mem.set r node }

def DirRun.Allowed (s : DirRun) : DirAction → Prop
  | .insert _ addr newdir => addr < 2 ^ 32 ∧ ∀ r ∈ newdir, r ≠ 0 ∧ r ∉ s.mem.nodes
  | .elsewhere r _ => r ∉ s.mem.nodes

instance (s : DirRun) (a : DirAction) : Decidable (s.Allowed a) := by
  unfold DirRun.Allowed
  split <;> infer_instance

def Recorded (list : DirList) (log : List (Nat × PageEntry)) : Prop :=
  ∀ addr, match log.lookup (addr / pmPageBytes) with
    | some page => memFindPage list addr = some page
    | none => (memFindPage list addr).filter PageEntry.valid = none

variable {list' : DirList} {page : PageEntry}

lemma EntryInserted.recorded (h : EntryInserted list page addr list')
    {log : List (Nat × PageEntry)} (hLog : Recorded list log) :
    Recorded list' ((addr / pmPageBytes, page) :: log) := by
  intro addr'
  by_cases hPage : addr' / pmPageBytes = addr / pmPageBytes
  · rw [hPage, lookup_cons_self]
    exact h.here addr' hPage
  · rw [lookup_cons, beq_eq_false_iff_ne.mpr hPage]
    have hOld := hLog addr'
    rcases h.elsewhere addr' hPage with hSame | ⟨hNone, hInvalid⟩
    · rw [hSame]
      exact hOld
    · cases hLookup : log.lookup (addr' / pmPageBytes) with
      | none => exact hInvalid
      | some page' =>
        rw [hLookup, hNone] at hOld
        cases hOld

def DirRun.Sound (s : DirRun) : Prop := ∃ l list, s.mem.Holds l list ∧ Recorded list s.log

lemma DirRun.sound_step (s : DirRun) (a : DirAction) (t : DirRun) (hAllowed : s.Allowed a)
    (h : s.Sound) (hStep : s.step a = some t) : t.Sound := by
  obtain ⟨l, list, hHolds, hLog⟩ := h
  cases a with
  | insert page addr newdir =>
    obtain ⟨hAddr, hFresh⟩ := hAllowed
    rw [hHolds.nodes_eq] at hFresh
    obtain ⟨⟨_, _⟩, hInsert, rfl⟩ := map_eq_some_iff.mp hStep
    rcases hHolds.memInsertPage page hAddr hFresh with hFail | ⟨_, l', list', hDone, hHolds', hInserted⟩
    · cases hFail.symm.trans hInsert
      exact ⟨l, list, hHolds, hLog⟩
    · cases hDone.symm.trans hInsert
      exact ⟨l', list', hHolds', hInserted.recorded hLog⟩
  | elsewhere r node =>
    cases hStep
    have hOut : r ∉ s.mem.nodes := hAllowed
    rw [hHolds.nodes_eq] at hOut
    exact ⟨l, list, hHolds.set_of_notMem hOut node, hLog⟩

lemma DirRun.sound_empty (node : Nat → DirNode) : DirRun.Sound ⟨⟨node, 0⟩, []⟩ := by
  refine ⟨[], DirList.empty, ⟨dlist_nil _ _ _, rfl, fun _ hDir => absurd hDir not_mem_nil⟩, fun addr => ?_⟩
  rfl

def DirMemory.validPage (s : DirMemory) (addr : Nat) : Option (Option PageEntry) :=
  (s.memFindPage addr).map fun found => found.filter PageEntry.valid

lemma EntryInserted.valid_eq {addr' : Nat}
    (h : EntryInserted list page addr list') (hPage : addr' / pmPageBytes ≠ addr / pmPageBytes) :
    (memFindPage list' addr').filter PageEntry.valid = (memFindPage list addr').filter PageEntry.valid := by
  rcases h.elsewhere addr' hPage with hSame | ⟨hNone, hInvalid⟩
  · rw [hSame]
  · rw [hNone, hInvalid]
    rfl

theorem dirRun_sound (node : Nat → DirNode) {as : List DirAction} {s : DirRun}
    (h : Run DirRun.step DirRun.Allowed ⟨⟨node, 0⟩, []⟩ as s) :
    DList s.mem.next s.mem.prev 0 s.mem.head s.mem.nodes ∧
    (s.mem.nodes.Pairwise fun p q => (s.mem.node p).dirId < (s.mem.node q).dirId) ∧
    (∀ addr, ∃ found, s.mem.memFindPage addr = some found ∧ match s.log.lookup (addr / pmPageBytes) with
      | some page => found = some page
      | none => ∀ entry, found = some entry → entry.valid = false) ∧
    ∀ page addr newdir, s.Allowed (.insert page addr newdir) →
      ∃ mem result, s.mem.memInsertPage page addr newdir = some (mem, result) ∧ (result = 0 ∨ result = -1 ∧ mem = s.mem) ∧
        ∀ addr', addr' / pmPageBytes ≠ addr / pmPageBytes → mem.validPage addr' = s.mem.validPage addr' := by
  obtain ⟨l, _, hHolds, hLog⟩ := h.invariant DirRun.sound_step (DirRun.sound_empty node)
  have hNodes := hHolds.nodes_eq
  rw [hNodes]
  refine ⟨hHolds.links, hHolds.sorted, fun addr => ⟨_, hHolds.memFindPage_eq addr, ?_⟩, ?_⟩
  · have hAddr := hLog addr
    revert hAddr
    cases s.log.lookup (addr / pmPageBytes) with
    | some page => exact id
    | none =>
      intro hInvalid entry hEntry
      simpa [hEntry] using hInvalid
  · rintro page addr newdir ⟨hAddr, hFresh⟩
    rw [hNodes] at hFresh
    rcases hHolds.memInsertPage page hAddr hFresh with hFail | ⟨mem, _, _, hDone, hHolds', hInserted⟩
    · exact ⟨s.mem, -1, hFail, Or.inr ⟨rfl, rfl⟩, fun _ _ => rfl⟩
    · refine ⟨mem, 0, hDone, Or.inl rfl, fun addr' hPage => ?_⟩
      rw [DirMemory.validPage, DirMemory.validPage, hHolds'.memFindPage_eq, hHolds.memFindPage_eq,
        map_some, map_some, hInserted.valid_eq hPage]

def dirActions : List DirAction :=
  [.insert ⟨7, true, true, true⟩ 65536 (some 4108), .insert ⟨8, true, true, true⟩ 1024 (some 4248),
    .insert ⟨9, true, true, true⟩ 163840 (some 4388), .insert ⟨10, true, true, true⟩ 98304 none,
    .elsewhere 4528 ⟨3, 4108, 4108, fun _ => ⟨1, true, true, true⟩⟩,
    .insert ⟨11, true, true, false⟩ 66000 none]

def noDirs : DirRun := ⟨⟨fun _ => ⟨0, 0, 0, fun _ => ⟨0, true, false, false⟩⟩, 0⟩, []⟩

theorem dirRun_sound_dirActions : ∃ s : DirRun, Run DirRun.step DirRun.Allowed noDirs dirActions s ∧
    s.mem.nodes = [4248, 4108, 4388] ∧ DList s.mem.next s.mem.prev 0 s.mem.head s.mem.nodes ∧
    s.mem.memFindPage 65540 = some (some ⟨11, true, true, false⟩) := by
  have hExec : (exec (guarded DirRun.step DirRun.Allowed) noDirs dirActions).map (fun s => (s.mem.nodes, s.log.lookup 64)) =
      some ([4248, 4108, 4388], some ⟨11, true, true, false⟩) := by decide +kernel
  obtain ⟨s, hExec, hEnd⟩ := map_eq_some_iff.mp hExec
  have hRun := run_of_exec_guarded hExec
  obtain ⟨hNodes, hLog⟩ := Prod.mk.inj hEnd
  obtain ⟨hLinks, _, hFind, _⟩ := dirRun_sound _ hRun
  obtain ⟨_, hFound, hMatch⟩ := hFind 65540
  have hPage : 65540 / pmPageBytes = 64 := rfl
  rw [hPage, hLog] at hMatch
  exact ⟨s, hRun, hNodes, hLinks, hFound.trans (congrArg some hMatch)⟩

end Fixos.Sys
