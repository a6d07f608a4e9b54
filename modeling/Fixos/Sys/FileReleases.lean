import Fixos.Sys.FileCounts

/-! # Calls of the release operation

`vfs_close` calls the release operation on every close, not only on the last one.
-/

namespace Fixos.Sys

open Fs RefCount Transition Function List Option

/-- The files with a reference and a property of their operations and private data. -/
def openSet (fs : FileState) (refs : FileRef → Nat) (P : FileOps → PrivateData → Bool) :
    Finset FileRef :=
  fs.inUse.filter fun f => refs f ≠ 0 ∧ P (fs.file f).op (fs.file f).privateData

def isPipeOn (page : PageRef) (op : FileOps) (data : PrivateData) : Bool :=
  op = .pipe && data = .page page

def isKeyboard (op : FileOps) (_ : PrivateData) : Bool := op = .fxkdb

/-- A referenced file whose table has a release operation, which is still to be called. -/
def pendingRelease (fs : FileState) (refs : FileRef → Nat) (f : FileRef) : Nat :=
  if refs f ≠ 0 ∧ (fs.file f).op.release.isSome then 1 else 0

structure Released (fs : FileState) (refs opens : FileRef → Nat) : Prop where
  inUse : ∀ f, refs f ≠ 0 → f ∈ fs.inUse
  releases : ∀ f, fs.releases f + pendingRelease fs refs f = opens f
  page : ∀ f, refs f ≠ 0 → (fs.file f).op = .pipe →
    ∃ page ∈ fs.pipePages, (fs.file f).privateData = .page page
  pipeCount : ∀ page ∈ fs.pipePages, fs.pipeCount page = (openSet fs refs (isPipeOn page)).card
  listener : fs.listener = (openSet fs refs isKeyboard).card

variable {fs : FileState} {refs : FileRef → Nat} {f : FileRef}

abbrev Is (fs : FileState) (f : FileRef) (P : FileOps → PrivateData → Bool) : Bool :=
    P (fs.file f).op (fs.file f).privateData

variable {P : FileOps → PrivateData → Bool}

lemma mem_openSet : f ∈ openSet fs refs P ↔ f ∈ fs.inUse ∧ refs f ≠ 0 ∧ Is fs f P = true := Finset.mem_filter

structure SameKind (fs fs' : FileState) (f : FileRef) : Prop where
  op : (fs'.file f).op = (fs.file f).op
  privateData : (fs'.file f).privateData = (fs.file f).privateData

variable {fs' : FileState} {refs' : FileRef → Nat}

lemma SameKind.is_eq (h : SameKind fs fs' f) (P : FileOps → PrivateData → Bool) : Is fs' f P = Is fs f P := by
  rw [Is, h.op, h.privateData]

lemma openSet_congr (P : FileOps → PrivateData → Bool) (hRefs : ∀ f, refs' f ≠ 0 ↔ refs f ≠ 0)
    (hUse : ∀ f, refs f ≠ 0 → (f ∈ fs'.inUse ↔ f ∈ fs.inUse)) (hKind : ∀ f, refs f ≠ 0 → SameKind fs fs' f) :
    openSet fs' refs' P = openSet fs refs P := by
  ext f
  rw [mem_openSet, mem_openSet, hRefs f]
  rcases eq_or_ne (refs f) 0 with hZero | hRef
  · simp [hZero]
  · rw [hUse f hRef, (hKind f hRef).is_eq]

lemma SameKind.trans {mid : FileState} (h : SameKind fs mid f) (h' : SameKind mid fs' f) : SameKind fs fs' f :=
  ⟨h'.op.trans h.op, h'.privateData.trans h.privateData⟩

lemma sameKind_setCount (fs : FileState) (filep f : FileRef) (count : Int) :
    SameKind fs (fs.setFile filep { fs.file filep with count }) f := by
  rcases eq_or_ne f filep with rfl | hNe
  · constructor <;> simp only [FileState.setFile, update_self]
  · constructor <;> simp only [FileState.setFile, update_of_ne hNe]

structure Closes (fs : FileState) (filep : FileRef) (fs' : FileState) : Prop where
  kind : ∀ f, SameKind fs fs' f
  inUse : ∀ f ≠ filep, f ∈ fs'.inUse ↔ f ∈ fs.inUse
  releases : fs'.releases = update fs.releases filep
    (fs.releases filep + if (fs.file filep).op.release.isSome then 1 else 0)
  listener : fs'.listener = fs.listener - if Is fs filep isKeyboard then 1 else 0
  pipeCount : ∀ page, fs'.pipeCount page = fs.pipeCount page - if Is fs filep (isPipeOn page) then 1 else 0
  pipePages : ∀ page, page ∈ fs'.pipePages ↔
    page ∈ fs.pipePages ∧ (Is fs filep (isPipeOn page) → 0 < fs'.pipeCount page)

variable {filep : FileRef}

lemma Closes.of_rest {op : FileOps} (hOp : (fs.file filep).op = op) (hPipe : op ≠ .pipe) (hFile : fs'.file = fs.file)
    (hUse : fs'.inUse = fs.inUse) (hCount : fs'.pipeCount = fs.pipeCount) (hPages : fs'.pipePages = fs.pipePages)
    (hReleases : fs'.releases = update fs.releases filep (fs.releases filep + if op.release.isSome then 1 else 0))
    (hListener : fs'.listener = fs.listener - if op = .fxkdb then 1 else 0) : Closes fs filep fs' where
  kind f := ⟨by rw [hFile], by rw [hFile]⟩
  inUse f _ := by rw [hUse]
  releases := hOp ▸ hReleases
  listener := by simp only [hListener, isKeyboard, hOp, decide_eq_true_eq]
  pipeCount page := by simp [hCount, isPipeOn, hOp, hPipe]
  pipePages page := by simp [hPages, isPipeOn, hOp, hPipe]

lemma pipeRelease_closes (h : (fs.file filep).op = .pipe) :
    Closes fs filep (pipeRelease { fs with releases := update fs.releases filep (fs.releases filep + 1) } filep).1 := by
  have hListener : fs.listener = fs.listener - if Is fs filep isKeyboard then 1 else 0 := by
    simp [isKeyboard, h]
  have hReleases : update fs.releases filep (fs.releases filep + 1) = update fs.releases filep
        (fs.releases filep + if (fs.file filep).op.release.isSome then 1 else 0) := by
    rw [h]
    rfl
  unfold pipeRelease
  split
  · rename_i page hData
    have hOn : ∀ other, Is fs filep (isPipeOn other) = decide (page = other) := by
      intro other
      simp only at hData
      simp [isPipeOn, h, hData]
    refine ⟨fun _ => ⟨rfl, rfl⟩, fun _ _ => Iff.rfl, hReleases, hListener, fun other => ?_, fun other => ?_⟩
    · rw [hOn]
      rcases eq_or_ne other page with rfl | hNe
      · simp
      · simp [hNe, hNe.symm]
    · rw [hOn]
      rcases eq_or_ne other page with rfl | hNe
      · simp only [update_self]
        split_ifs with hZero
        · have hNot : ¬ 0 < fs.pipeCount other - 1 := Int.not_lt.mpr hZero
          simp only [decide_true, forall_const, hNot, and_false, Finset.notMem_erase]
        · simp only [decide_true, forall_const, Int.not_le.mp hZero, and_true]
      · simp only [decide_eq_true_eq, hNe.symm, false_implies, and_true]
        split
        · exact Finset.mem_erase.trans (and_iff_right hNe)
        · exact Iff.rfl
  · rename_i hOther
    have hOff : ∀ page, Is fs filep (isPipeOn page) = false := fun page => by simpa [isPipeOn, h] using hOther page
    refine ⟨fun _ => ⟨rfl, rfl⟩, fun _ _ => Iff.rfl, hReleases, hListener, fun page => ?_, fun page => ?_⟩ <;>
      simp [hOff page]

lemma callRelease_closes (fs : FileState) (filep : FileRef) : Closes fs filep (callRelease fs filep).1 := by
  unfold callRelease
  cases hOp : (fs.file filep).op with
  | pipe => exact pipeRelease_closes hOp
  | fxkdb => exact .of_rest hOp (by decide) rfl rfl rfl rfl rfl rfl
  | display =>
    simp only [FileOps.release, displayRelease]
    split <;> exact .of_rest hOp (by decide) rfl rfl rfl rfl rfl (Int.sub_zero _).symm
  | ttydev | smemfs => exact .of_rest hOp (by decide) rfl rfl rfl rfl rfl (Int.sub_zero _).symm
  | directory =>
    exact .of_rest hOp (by decide) rfl rfl rfl rfl (update_eq_self _ _).symm (Int.sub_zero _).symm

lemma vfsClose_closes (fs : FileState) (filep : FileRef) : Closes fs filep (vfsClose fs filep).1 := by
  have hRelease := callRelease_closes fs filep
  simp only [vfsClose]
  generalize (callRelease fs filep).1 = rel at hRelease
  have hKind : ∀ f, SameKind fs (rel.setFile filep { rel.file filep with count := (rel.file filep).count - 1 }) f :=
    fun f => (hRelease.kind f).trans (sameKind_setCount rel filep f _)
  split
  · refine ⟨fun f => ⟨(hKind f).op, (hKind f).privateData⟩, ?_, hRelease.releases,
      hRelease.listener, hRelease.pipeCount, hRelease.pipePages⟩
    intro f hNe
    exact (Finset.mem_erase.trans (and_iff_right hNe)).trans (hRelease.inUse f hNe)
  · exact ⟨hKind, hRelease.inUse, hRelease.releases, hRelease.listener, hRelease.pipeCount, hRelease.pipePages⟩

lemma Closes.card_openSet (h : Closes fs filep fs') (hUse : filep ∈ fs.inUse) (hRef : refs filep ≠ 0)
    (P : FileOps → PrivateData → Bool) :
    (openSet fs' (update refs filep 0) P).card + (if Is fs filep P then 1 else 0) = (openSet fs refs P).card := by
  have hErase : openSet fs' (update refs filep 0) P = (openSet fs refs P).erase filep := by
    ext f
    rw [mem_openSet, Finset.mem_erase, mem_openSet]
    rcases eq_or_ne f filep with rfl | hNe
    · simp
    · rw [h.inUse f hNe, update_of_ne hNe, (h.kind f).is_eq]
      exact (and_iff_right hNe).symm
  rw [hErase]
  split_ifs with hP
  · exact Finset.card_erase_add_one (mem_openSet.mpr ⟨hUse, hRef, hP⟩)
  · rw [Finset.erase_eq_of_notMem fun hMem => hP (mem_openSet.mp hMem).2.2, Nat.add_zero]

variable {opens : FileRef → Nat}

lemma Released.close (h : Released fs refs opens) (hCloses : Closes fs filep fs') (hLast : refs filep = 1) :
    Released fs' (update refs filep 0) opens := by
  have hRef : refs filep ≠ 0 := by omega
  have hUse : filep ∈ fs.inUse := h.inUse filep hRef
  have hCard := hCloses.card_openSet hUse hRef
  have hOther : ∀ f, update refs filep 0 f ≠ 0 → f ≠ filep ∧ refs f ≠ 0 := by
    intro f hf
    have hNe : f ≠ filep := by
      rintro rfl
      exact hf (update_self _ _ _)
    exact ⟨hNe, update_of_ne hNe 0 refs ▸ hf⟩
  constructor
  case inUse =>
    intro f hf
    obtain ⟨hNe, hOld⟩ := hOther f hf
    exact (hCloses.inUse f hNe).mpr (h.inUse f hOld)
  case releases =>
    intro f
    rw [← h.releases f, hCloses.releases]
    rcases eq_or_ne f filep with rfl | hNe
    · simp [pendingRelease, hLast]
    · simp [pendingRelease, update_of_ne hNe, (hCloses.kind f).op]
  case page =>
    intro f hf hPipe
    obtain ⟨hNe, hOld⟩ := hOther f hf
    rw [(hCloses.kind f).op] at hPipe
    obtain ⟨page, hPage, hData⟩ := h.page f hOld hPipe
    refine ⟨page, (hCloses.pipePages page).mpr ⟨hPage, fun hOn => ?_⟩, (hCloses.kind f).privateData.trans hData⟩
    -- both ends are open, so the count of the page is at least two
    have hTwo : 1 < (openSet fs refs (isPipeOn page)).card := by
      refine Finset.one_lt_card.mpr ⟨f, ?_, filep, mem_openSet.mpr ⟨hUse, hRef, hOn⟩, hNe⟩
      exact mem_openSet.mpr ⟨h.inUse f hOld, hOld, by simp [isPipeOn, hPipe, hData]⟩
    rw [hCloses.pipeCount, if_pos hOn, h.pipeCount page hPage]
    omega
  case pipeCount =>
    intro page hPage
    rw [hCloses.pipeCount, h.pipeCount page ((hCloses.pipePages page).mp hPage).1, ← hCard]
    split <;> simp
  case listener =>
    rw [hCloses.listener, h.listener, ← hCard]
    split <;> simp

lemma Released.closeAll (h : Released fs refs opens) (rs : List FileRef) (hLast : ∀ r ∈ rs, refs r = 1)
    (hRefs : ∀ s, refs s = refs' s + rs.count s) :
    Released (rs.foldl (fun fs filep => (vfsClose fs filep).1) fs) refs' opens := by
  induction rs generalizing fs refs with
  | nil => exact (funext hRefs : refs = refs') ▸ h
  | cons r rs ih =>
    have hOne := hLast r mem_cons_self
    have hClosed : Released (vfsClose fs r).1 (fun s => refs' s + rs.count s) opens := by
      have hRest : (fun s => refs' s + rs.count s) = update refs r 0 := by
        funext s
        have hSum := hRefs s
        rw [count_cons] at hSum
        rcases eq_or_ne s r with rfl | hNe
        · simp only [beq_self_eq_true, if_true, update_self] at hSum ⊢
          omega
        · simpa [update_of_ne hNe, hNe.symm] using hSum.symm
      rw [hRest]
      exact h.close (vfsClose_closes fs r) hOne
    refine ih hClosed (fun s hs => ?_) fun _ => rfl
    have hCount := hRefs s
    have hTwice : 0 < rs.count s := count_pos_iff.mpr hs
    rw [hLast s (mem_cons_of_mem r hs), count_cons] at hCount
    omega

/-- The lives of a file: one more begins when a file with a release operation gets its first
reference. -/
def countOpens (k k' : FdState) (opens : FileRef → Nat) (f : FileRef) : Nat :=
  opens f + if k.refs f = 0 then pendingRelease k'.fs k'.refs f else 0

structure ReleaseRun where
  k : FdState
  opens : FileRef → Nat

def ReleaseRun.step (r : ReleaseRun) (a : FdAction) : Option ReleaseRun :=
  (r.k.step a).map fun k' => ⟨k', countOpens r.k k' r.opens⟩

def FdAction.LastOnly (k : FdState) (a : FdAction) : Prop :=
  a.NoDup k ∧ ∀ f ∈ a.drops k, k.refs f = 1
deriving Decidable

structure ReleaseRun.Inv (r : ReleaseRun) : Prop where
  tidy : r.k.Tidy
  released : Released r.k.fs r.k.refs r.opens

lemma Released.keep (h : Released fs refs opens) (hRefs : ∀ f, refs' f ≠ 0 ↔ refs f ≠ 0)
    (hUse : ∀ f, refs f ≠ 0 → (f ∈ fs'.inUse ↔ f ∈ fs.inUse)) (hKind : ∀ f, refs f ≠ 0 → SameKind fs fs' f)
    (hReleases : fs'.releases = fs.releases) (hCount : fs'.pipeCount = fs.pipeCount)
    (hPages : fs'.pipePages = fs.pipePages) (hListener : fs'.listener = fs.listener) : Released fs' refs' opens := by
  have hOpen := fun P => openSet_congr P hRefs hUse hKind
  constructor
  case inUse => exact fun f hf => (hUse f ((hRefs f).mp hf)).mpr (h.inUse f ((hRefs f).mp hf))
  case releases =>
    intro f
    rw [hReleases, ← h.releases f]
    simp only [pendingRelease, hRefs f]
    by_cases hf : refs f = 0
    · simp [hf]
    · rw [(hKind f hf).op]
  case page =>
    intro f hf hPipe
    have hOld := (hRefs f).mp hf
    rw [(hKind f hOld).op] at hPipe
    obtain ⟨page, hPage, hData⟩ := h.page f hOld hPipe
    exact ⟨page, hPages ▸ hPage, (hKind f hOld).privateData.trans hData⟩
  case pipeCount =>
    intro page hPage
    rw [hOpen, hCount]
    exact h.pipeCount page (hPages ▸ hPage)
  case listener => rw [hOpen, hListener, h.listener]

structure Joins (fs : FileState) (refs : FileRef → Nat) (fs' : FileState) (refs' : FileRef → Nat)
    (new : Finset FileRef) : Prop where
  inUse : fs'.inUse = new ∪ fs.inUse
  fresh : ∀ f ∈ new, f ∉ fs.inUse ∧ refs' f ≠ 0
  old : ∀ f ∉ new, refs' f = refs f ∧ fs'.file f = fs.file f

variable {new : Finset FileRef}

lemma Joins.card_openSet (h : Joins fs refs fs' refs' new) (P : FileOps → PrivateData → Bool) :
    (openSet fs' refs' P).card = (openSet fs refs P).card + (new.filter fun f => Is fs' f P).card := by
  have hUnion : openSet fs' refs' P = openSet fs refs P ∪ new.filter fun f => Is fs' f P := by
    ext f
    rw [mem_openSet, Finset.mem_union, mem_openSet, Finset.mem_filter, h.inUse, Finset.mem_union]
    rcases Decidable.em (f ∈ new) with hNew | hOld
    · obtain ⟨hFree, hRef⟩ := h.fresh f hNew
      simp [hNew, hFree, hRef]
    · obtain ⟨hRefs, hFile⟩ := h.old f hOld
      simp [hOld, hRefs, Is, hFile]
  rw [hUnion]
  refine Finset.card_union_of_disjoint (Finset.disjoint_left.mpr fun f hOld hNew => ?_)
  exact (h.fresh f (Finset.mem_filter.mp hNew).1).1 (mem_openSet.mp hOld).1

section

variable (h : Released fs refs opens)
include h

lemma Released.join (hJoins : Joins fs refs fs' refs' new)
    (hReleases : fs'.releases = fs.releases) (hPages : fs.pipePages ⊆ fs'.pipePages)
    (hPage : ∀ f ∈ new, (fs'.file f).op = .pipe →
      ∃ page ∈ fs'.pipePages, (fs'.file f).privateData = .page page) (hCount : ∀ page ∈ fs'.pipePages, fs'.pipeCount page =
      (openSet fs refs (isPipeOn page)).card + (new.filter fun f => Is fs' f (isPipeOn page)).card)
    (hListener : fs'.listener = fs.listener + (new.filter fun f => Is fs' f isKeyboard).card) :
    Released fs' refs' fun f => opens f + if refs f = 0 then pendingRelease fs' refs' f else 0 := by
  constructor
  case inUse =>
    intro f hf
    rw [hJoins.inUse, Finset.mem_union]
    rcases Decidable.em (f ∈ new) with hNew | hOld
    · exact Or.inl hNew
    · exact Or.inr (h.inUse f ((hJoins.old f hOld).1 ▸ hf))
  case releases =>
    intro f
    have hBefore := h.releases f
    rw [hReleases, ← hBefore]
    rcases Decidable.em (f ∈ new) with hNew | hOld
    · have hZero : refs f = 0 := by
        by_contra hRefs
        exact (hJoins.fresh f hNew).1 (h.inUse f hRefs)
      simp [hZero, pendingRelease]
    · obtain ⟨hRefs, hFile⟩ := hJoins.old f hOld
      simp only [pendingRelease, hRefs, hFile]
      split
      · rename_i hPending
        rw [if_neg hPending.1]
      · rw [ite_self]
  case page =>
    intro f hf hPipe
    rcases Decidable.em (f ∈ new) with hNew | hOld
    · exact hPage f hNew hPipe
    · obtain ⟨hRefs, hFile⟩ := hJoins.old f hOld
      rw [hFile] at hPipe ⊢
      obtain ⟨page, hMem, hData⟩ := h.page f (hRefs ▸ hf) hPipe
      exact ⟨page, hPages hMem, hData⟩
  case pipeCount =>
    intro page hPage
    rw [hJoins.card_openSet, hCount page hPage, Nat.cast_add]
  case listener => rw [hJoins.card_openSet, hListener, h.listener, Nat.cast_add]

lemma Released.opened (hFree : filep ∉ fs.inUse) (hOpened : Opened fs filep fs')
    (hRefs : ∀ s, refs' s = refs s + if filep = s then 1 else 0) :
    Released fs' refs' fun f => opens f + if refs f = 0 then pendingRelease fs' refs' f else 0 := by
  have hJoins : Joins fs refs fs' refs' {filep} := by
    refine ⟨?_, ?_, ?_⟩
    · rw [hOpened.rest]
      rfl
    · intro f hf
      rw [Finset.mem_singleton.mp hf, hRefs, if_pos rfl]
      exact ⟨hFree, Nat.succ_ne_zero _⟩
    · intro f hf
      have hNe : f ≠ filep := fun hSame => hf (Finset.mem_singleton.mpr hSame)
      rw [hRefs, if_neg hNe.symm, hOpened.rest]
      exact ⟨rfl, update_of_ne hNe _ _⟩
  have hPages : fs'.pipePages = fs.pipePages := by rw [hOpened.rest]
  have hCounts : fs'.pipeCount = fs.pipeCount := by rw [hOpened.rest]
  refine h.join hJoins (by rw [hOpened.rest]) hPages.symm.subset ?_ ?_ ?_
  · intro f hf hPipe
    rw [Finset.mem_singleton.mp hf] at hPipe
    exact absurd hPipe hOpened.op_ne_pipe
  · intro page hPage
    rw [hCounts, h.pipeCount page (hPages ▸ hPage), Finset.filter_singleton, if_neg]
    · simp
    · simp [isPipeOn, hOpened.op_ne_pipe]
  · rw [hOpened.listener, Finset.filter_singleton]
    split <;> simp_all [isKeyboard]

lemma Released.piped {fin fout : FileRef} {page : PageRef} (hFreeIn : fin ∉ fs.inUse)
    (hFreeOut : fout ∉ fs.inUse) (hNe : fin ≠ fout) (hFreePage : page ∉ fs.pipePages)
    (hRefs : ∀ s, refs' s = refs s + (if fin = s then 1 else 0) + if fout = s then 1 else 0) :
    Released (pipeCreate fs (some fin) (some fout) (some page)).1 refs' fun f => opens f + if refs f = 0 then
        pendingRelease (pipeCreate fs (some fin) (some fout) (some page)).1 refs' f else 0 := by
  have hJoins : Joins fs refs (pipeCreate fs (some fin) (some fout) (some page)).1 refs' {fin, fout} := by
    refine ⟨?_, ?_, ?_⟩
    · ext f
      simp only [pipeCreate, vfsFileAlloc, FileState.setFile, Finset.mem_insert, Finset.mem_union, Finset.mem_singleton]
      tauto
    · intro f hf
      rw [hRefs]
      rcases Finset.mem_insert.mp hf with rfl | hf
      · rw [if_pos rfl]
        exact ⟨hFreeIn, by omega⟩
      · rw [Finset.mem_singleton.mp hf, if_pos (rfl : fout = fout)]
        exact ⟨hFreeOut, by omega⟩
    · intro f hf
      rw [Finset.mem_insert, Finset.mem_singleton, not_or] at hf
      rw [hRefs, if_neg (Ne.symm hf.1), if_neg (Ne.symm hf.2)]
      simp only [pipeCreate, vfsFileAlloc, FileState.setFile, update_of_ne hf.1, update_of_ne hf.2]
      exact ⟨rfl, trivial⟩
  have hEnds : ∀ f ∈ ({fin, fout} : Finset FileRef),
      ((pipeCreate fs (some fin) (some fout) (some page)).1.file f).op = .pipe ∧
      ((pipeCreate fs (some fin) (some fout) (some page)).1.file f).privateData = .page page := by
    intro f hf
    simp only [pipeCreate, vfsFileAlloc, FileState.setFile]
    rcases Finset.mem_insert.mp hf with rfl | hf
    · rw [update_of_ne hNe, update_self]
      exact ⟨rfl, rfl⟩
    · rw [Finset.mem_singleton.mp hf, update_self]
      exact ⟨rfl, rfl⟩
  refine h.join hJoins rfl (Finset.subset_insert _ _) ?_ ?_ ?_
  · exact fun f hf _ => ⟨page, Finset.mem_insert_self _ _, (hEnds f hf).2⟩
  · intro other hOther
    rcases eq_or_ne other page with rfl | hOtherNe
    · have hNone : openSet fs refs (isPipeOn other) = ∅ := by
        refine Finset.eq_empty_of_forall_notMem fun f hMem => ?_
        obtain ⟨_, hRef, hOn⟩ := mem_openSet.mp hMem
        simp only [isPipeOn, Bool.and_eq_true, decide_eq_true_eq] at hOn
        obtain ⟨_, hOld, hData⟩ := h.page f hRef hOn.1
        rw [hOn.2] at hData
        exact absurd (PrivateData.page.inj hData ▸ hOld) hFreePage
      rw [hNone, Finset.filter_true_of_mem fun f hf => by simp [isPipeOn, hEnds f hf], Finset.card_pair hNe]
      exact update_self _ _ _
    · rw [Finset.filter_false_of_mem fun f hf => by simp [isPipeOn, hEnds f hf, hOtherNe.symm]]
      have hOld := h.pipeCount other (Finset.mem_of_mem_insert_of_ne hOther hOtherNe)
      exact (update_of_ne hOtherNe _ _).trans (hOld.trans (by simp))
  · rw [Finset.filter_false_of_mem fun f hf => by simp [isKeyboard, hEnds f hf]]
    exact (Int.add_zero _).symm

end

lemma foldl_countUp_frame (fs : FileState) (rs : List FileRef) :
    (∀ f, SameKind fs (rs.foldl countUp fs) f) ∧ (rs.foldl countUp fs).inUse = fs.inUse ∧
      (rs.foldl countUp fs).releases = fs.releases ∧
      (rs.foldl countUp fs).pipeCount = fs.pipeCount ∧
      (rs.foldl countUp fs).pipePages = fs.pipePages ∧
      (rs.foldl countUp fs).listener = fs.listener := by
  induction rs generalizing fs with
  | nil => exact ⟨fun _ => ⟨rfl, rfl⟩, rfl, rfl, rfl, rfl, rfl⟩
  | cons r rs ih =>
    obtain ⟨hKind, hUse, hReleases, hCount, hPages, hListener⟩ := ih (countUp fs r)
    exact ⟨fun f => (sameKind_setCount fs r f _).trans (hKind f), hUse, hReleases, hCount, hPages, hListener⟩

lemma countOpens_eq {k k' : FdState} (h : ∀ f, k.refs f = 0 → k'.refs f = 0)
    (opens : FileRef → Nat) : countOpens k k' opens = opens := by
  funext f
  rw [countOpens]
  split_ifs with hZero
  · simp [pendingRelease, h f hZero]
  · rfl

variable {a : FdAction}

lemma ReleaseRun.Inv.step {r r' : ReleaseRun} (h : r.Inv) (hLast : a.LastOnly r.k) (hStep : r.step a = some r') :
    r'.Inv := by
  obtain ⟨k', hTaken, rfl⟩ := map_eq_some_iff.mp hStep
  have hEnabled := (ite_none_right_eq_some.mp hTaken).1
  obtain ⟨hEffect, hTidy⟩ := FdState.step_effect h.tidy hLast.1 hTaken
  refine ⟨hTidy, ?_⟩
  have hReleased := h.released
  simp only
  cases hEffect with
  | unchanged hFs hRefs =>
    rw [countOpens_eq (fun f hf => (hRefs f).trans hf), hFs, funext hRefs]
    exact hReleased
  | failed filep file hFree hFs hRefs =>
    rw [countOpens_eq (fun f hf => (hRefs f).trans hf), hFs, funext hRefs]
    refine hReleased.keep (fun _ => Iff.rfl) (fun _ _ => Iff.rfl) (fun f hf => ?_) rfl rfl rfl rfl
    have hNe := ne_of_mem_of_not_mem (hReleased.inUse f hf) hFree
    constructor <;> simp only [FileState.setFile, update_of_ne hNe]
  | opened filep hFree hFs hRefs => exact hReleased.opened hFree hFs hRefs
  | piped cur fin fout page hAction _ hFs hRefs =>
    subst hAction
    obtain ⟨_, hFreeIn, hFreeOut, hOther, hPage⟩ := hEnabled
    have hNe : fin ≠ fout := by
      rintro rfl
      exact hOther fin rfl rfl
    have hPiped := hReleased.piped (hFreeIn fin rfl) (hFreeOut fout rfl) hNe (hPage page rfl) hRefs
    rw [← hFs] at hPiped
    exact hPiped
  | acquired rs hHeld hFs hRefs =>
    have hSame : ∀ f, k'.refs f ≠ 0 ↔ r.k.refs f ≠ 0 := by
      intro f
      rw [hRefs f]
      constructor
      · intro _ hZero
        have hCount : rs.count f = 0 := count_eq_zero.mpr fun hMem => hHeld f hMem hZero
        omega
      · omega
    rw [countOpens_eq fun f hf => by_contra fun hNe => (hSame f).mp hNe hf, hFs]
    obtain ⟨hKind, hUse, hReleases, hCount, hPages, hListener⟩ := foldl_countUp_frame r.k.fs rs
    exact hReleased.keep hSame (fun f _ => by rw [hUse]) (fun f _ => hKind f) hReleases hCount hPages hListener
  | dropped hFs hRefs =>
    rw [countOpens_eq fun f hf => by have := hRefs f; omega, hFs]
    exact hReleased.closeAll _ hLast.2 hRefs

lemma FdEffect.sameKind {k k' : FdState} (h : FdEffect k a k') (hEnabled : a.Enabled k) (hUse : f ∈ k.fs.inUse) :
    SameKind k.fs k'.fs f := by
  cases h with
  | unchanged hFs _ => exact ⟨by rw [hFs], by rw [hFs]⟩
  | failed filep file hFree hFs _ =>
    have hNe := ne_of_mem_of_not_mem hUse hFree
    rw [hFs]
    constructor <;> simp only [FileState.setFile, update_of_ne hNe]
  | opened filep hFree hFs _ =>
    have hNe := ne_of_mem_of_not_mem hUse hFree
    rw [hFs.rest]
    constructor <;> simp only [update_of_ne hNe]
  | piped cur fin fout page hAction _ hFs _ =>
    subst hAction
    obtain ⟨_, hFreeIn, hFreeOut, _, _⟩ := hEnabled
    have hIn := ne_of_mem_of_not_mem hUse (hFreeIn fin rfl)
    have hOut := ne_of_mem_of_not_mem hUse (hFreeOut fout rfl)
    rw [hFs]
    constructor <;>
      simp [pipeCreate, vfsFileAlloc, FileState.setFile, update_of_ne hIn, update_of_ne hOut]
  | acquired rs _ hFs _ =>
    rw [hFs]
    exact (foldl_countUp_frame k.fs rs).1 f
  | dropped hFs _ =>
    rw [hFs]
    generalize a.drops k = rs
    generalize k.fs = fs
    induction rs generalizing fs with
    | nil => exact ⟨rfl, rfl⟩
    | cons r rs ih => exact ((vfsClose_closes fs r).kind f).trans (ih _)

lemma ReleaseRun.Inv.releases_step {r r' : ReleaseRun} (h : r.Inv) (hLast : a.LastOnly r.k)
    (hStep : r.step a = some r') (f : FileRef) :
    r'.k.fs.releases f = r.k.fs.releases f + if r'.k.refs f = 0 then pendingRelease r.k.fs r.k.refs f else 0 := by
  have hAfter := (h.step hLast hStep).released.releases f
  have hBefore := h.released.releases f
  obtain ⟨k', hTaken, rfl⟩ := map_eq_some_iff.mp hStep
  obtain ⟨hEffect, _⟩ := FdState.step_effect h.tidy hLast.1 hTaken
  have hEnabled := (ite_none_right_eq_some.mp hTaken).1
  simp only [countOpens] at hAfter ⊢
  rcases Nat.eq_zero_or_pos (r.k.refs f) with hZero | hPos
  · have hNone : pendingRelease r.k.fs r.k.refs f = 0 := by simp [pendingRelease, hZero]
    rw [if_pos hZero] at hAfter
    rw [hNone, ite_self]
    omega
  · have hRef : r.k.refs f ≠ 0 := Nat.ne_of_gt hPos
    have hKind := hEffect.sameKind hEnabled (h.released.inUse f hRef)
    rw [if_neg hRef] at hAfter
    split_ifs with hGone
    · have hNone : pendingRelease k'.fs k'.refs f = 0 := by simp [pendingRelease, hGone]
      omega
    · have hSame : pendingRelease k'.fs k'.refs f = pendingRelease r.k.fs r.k.refs f := by
        simp [pendingRelease, hRef, hGone, hKind.op]
      omega

lemma ReleaseRun.boot_inv (contents : FileRef → File) : (⟨FdState.boot contents, fun _ => 0⟩ : ReleaseRun).Inv where
  tidy := FdState.boot_tidy contents
  released := by
    have hRefs := FdState.boot_refs contents
    refine ⟨fun f hf => absurd (hRefs f) hf, fun f => ?_, fun f hf => absurd (hRefs f) hf, ?_, rfl⟩
    · simp only [pendingRelease, hRefs f]
      rfl
    · exact fun page hPage => absurd hPage (Finset.notMem_empty page)

/-- In every run whose closes all drop the only reference to their file, it is released exactly at its last close, the
page of a pipe is kept as long as a slot refers to an end, and the keyboard's listeners are its open files. -/
theorem release_on_last_close {contents : FileRef → File} {actions : List FdAction} {r : ReleaseRun}
    (hRun : Run ReleaseRun.step (fun r a => a.LastOnly r.k) ⟨FdState.boot contents, fun _ => 0⟩ actions r) :
    (∀ f, r.k.fs.releases f + pendingRelease r.k.fs r.k.refs f = r.opens f) ∧
    (∀ a r', a.LastOnly r.k → r.step a = some r' → ∀ f, r'.k.fs.releases f =
      r.k.fs.releases f + if r'.k.refs f = 0 then pendingRelease r.k.fs r.k.refs f else 0) ∧
    (∀ p ∈ r.k.live, ∀ f, some f ∈ (r.k.proc p).files → (r.k.fs.file f).op = .pipe →
      ∃ page ∈ r.k.fs.pipePages, (r.k.fs.file f).privateData = .page page) ∧
    r.k.fs.listener = (openSet r.k.fs r.k.refs isKeyboard).card := by
  have hInv : r.Inv := hRun.invariant (fun _ _ _ hLast h hStep => h.step hLast hStep) (ReleaseRun.boot_inv contents)
  refine ⟨hInv.released.releases, fun a r' hLast hStep => hInv.releases_step hLast hStep, ?_, hInv.released.listener⟩
  intro p hp f hf hPipe
  refine hInv.released.page f (r.k.refs_ne_zero hp ?_) hPipe
  exact mem_append_left _ (mem_filterMap.mpr ⟨some f, hf, rfl⟩)

def keyboardInode : Inode := ⟨some .protofs, false, true, 0, 0x21, 0⟩

/-- A child that closes both ends of a pipe gives back the page its parent uses, and one that closes the keyboard leaves
it without listeners. -/
theorem shared_close_releases : (∃ r, exec ReleaseRun.step ⟨FdState.boot fun _ => leftOver 1, fun _ => 0⟩
        [.pipe2 0 (some 5) (some 6) (some 9), .fork 0 1, .close 1 0, .close 1 1] = some r ∧
      (r.k.proc 0).fileOf 0 = some 5 ∧ (r.k.fs.file 5).op = .pipe ∧
      (r.k.fs.file 5).privateData = .page 9 ∧ 9 ∉ r.k.fs.pipePages ∧
      r.k.fs.releases 5 = 1 ∧ r.k.refs 5 = 1) ∧
    ∃ r, exec ReleaseRun.step ⟨FdState.boot fun _ => leftOver 0, fun _ => 0⟩
        [.openName 0 (some keyboardInode) O_RDONLY (some 5), .fork 0 1, .close 1 0] = some r ∧
      r.k.fs.listener = 0 ∧ (r.k.proc 0).fileOf 0 = some 5 ∧ (r.k.fs.file 5).op = .fxkdb :=
  ⟨⟨_, rfl, by decide, by decide, by decide, by decide, by decide, by decide⟩, _, rfl, by decide, by decide, by decide⟩

theorem release_on_last_close_exit : ∃ r, exec ReleaseRun.step ⟨FdState.boot fun _ => leftOver 0, fun _ => 0⟩
        [.openName 0 (some keyboardInode) O_RDONLY (some 5), .close 0 0,
          .pipe2 0 (some 5) (some 6) (some 9), .exit 0] = some r ∧
      ∀ f, r.k.fs.releases f + pendingRelease r.k.fs r.k.refs f = r.opens f :=
  ⟨_, rfl, (release_on_last_close (run_of_exec_guarded rfl : Run ReleaseRun.step
    (fun r a => a.LastOnly r.k) ⟨FdState.boot fun _ => leftOver 0, fun _ => 0⟩
    [.openName 0 (some keyboardInode) O_RDONLY (some 5), .close 0 0, .pipe2 0 (some 5) (some 6) (some 9), .exit 0] _)).1⟩

end Fixos.Sys
