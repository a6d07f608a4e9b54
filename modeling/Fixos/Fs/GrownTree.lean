import Fixos.Fs.Mounts

/-! # A tree with one more node

Every path leads where it led before, and the only new ones lead over the name of the new node.
-/

namespace Fixos.Fs

open MountTree Option List

structure FsData.Extends (fs fs' : FsData) : Prop where
  rootNode : fs'.rootNode = fs.rootNode
  legible : fs.Legible → fs'.Legible
  handed : ∀ {node}, fs.HandsOut node → fs'.HandsOut node
  parentOf : ∀ {node}, fs.HandsOut node → fs'.parentOf node = fs.parentOf node
  isDirectory : ∀ {node}, fs.HandsOut node → fs'.isDirectory node = fs.isDirectory node
  attrs : ∀ {node}, fs.HandsOut node → fs'.attrs node = fs.attrs node

lemma FsData.Extends.refl (fs : FsData) : fs.Extends fs := ⟨rfl, id, id, fun _ => rfl, fun _ => rfl, fun _ => rfl⟩

def FsTable.Extends (fs fs' : FsTable) : Prop := ∀ inst, (fs inst).Extends (fs' inst)

section

variable {fs fs' : FsTable} {ns : Namespace} {c : VfsCache} {r : InodeRef}

lemma FsTable.Extends.real (h : fs.Extends fs') (mounts : Mounts Nat Nat) (k : NodeKey) :
    fs'.forest.real mounts k = fs.forest.real mounts k := by
  unfold Forest.real
  split
  · exact congrArg (Prod.mk _) (h _).rootNode
  · rfl

lemma Namespace.Legible.extend (h : ns.Legible fs) (hExtends : fs.Extends fs') : ns.Legible fs' where
  legible inst hInst := (hExtends inst).legible (h.legible inst hInst)
  nodup := h.nodup
  point_inst := h.point_inst
  point_handed p hp := (hExtends _).handed (h.point_handed p hp)
  point_inside p hp := by
    rw [(hExtends _).parentOf (h.point_handed p hp)]
    exact h.point_inside p hp

lemma Faithful.extend (h : Faithful fs ns c r) (hExtends : fs.Extends fs') : Faithful fs' ns c r := by
  have hParent := (hExtends _).parentOf h.handed
  constructor
  case ne_zero => exact h.ne_zero
  case inst => exact h.inst
  case handed => exact (hExtends _).handed h.handed
  case root =>
    rw [hParent]
    exact h.root
  case directory =>
    rw [(hExtends _).isDirectory h.handed]
    exact h.directory
  case shown =>
    rw [(hExtends _).attrs h.handed]
    exact h.shown
  case parent =>
    rw [hParent]
    exact h.parent
  case mountpoint => exact h.mountpoint
  case mnt_root =>
    intro inst hOn
    rw [(hExtends _).rootNode]
    exact h.mnt_root inst hOn
  case mnt_point =>
    rw [hParent]
    exact h.mnt_point

lemma Layout.extend (h : Layout fs ns c) (hExtends : fs.Extends fs') : Layout fs' ns c := by
  refine ⟨h.sound, fun r hr => (h.faithful r hr).extend hExtends, fun k hk => h.pins k ?_⟩
  rcases hk with ⟨hInst, hRoot⟩ | hPoint
  · exact Or.inl ⟨hInst, hRoot.trans (hExtends k.1).rootNode⟩
  · exact Or.inr hPoint

lemma Vfs.Ready.extend {v : Vfs} {held : List InodeRef} (h : v.Ready fs held) (hExtends : fs.Extends fs') :
    v.Ready fs' held :=
  ⟨h.root, h.legible.extend hExtends, h.layout.extend hExtends, h.counted, h.points⟩

end

structure FsTable.Grows (fs : FsTable) (dir : NodeKey) (name : Bytes) (node : Nat) (fs' : FsTable) : Prop where
  extend : fs.Extends fs'
  fresh : ¬ (fs dir.1).HandsOut node
  handed_iff : ∀ inst n, (fs' inst).HandsOut n ↔ (fs inst).HandsOut n ∨ (inst, n) = (dir.1, node)
  upward : ∀ {n p}, (fs dir.1).HandsOut n → (fs dir.1).parentOf n = some p → p ≠ node
  unused : fs.forest.childOf dir.1 dir.2 name = none
  child : ∀ {inst n}, (fs inst).HandsOut n → ∀ label, fs'.forest.childOf inst n label =
    if (inst, n) = dir ∧ label = name then some node else fs.forest.childOf inst n label
  childless : ∀ label, fs'.forest.childOf dir.1 node label = none
  parent : (fs' dir.1).parentOf node = some dir.2

lemma stepOf_down {name label : Bytes} (h : stepOf name = .down label) : name = label := by
  unfold stepOf at h
  split at h
  · cases h
  · split at h <;> cases h
    rfl

variable {fs fs' : FsTable} {ns : Namespace} {dir : NodeKey} {name : Bytes} {node : Nat}

section

variable (h : fs.Grows dir name node fs') (hSpace : ns.Legible fs)
include h hSpace

variable {k : NodeKey}

lemma FsTable.Grows.walk_eq (hInst : k.1 ∈ ns.insts) (hHanded : (fs k.1).HandsOut k.2) (label : Bytes) :
    ns.walk fs' k label = if stepOf label = .down name ∧ fs.forest.real ns.mounts k = dir then some (dir.1, node)
      else ns.walk fs k label := by
  cases hStep : stepOf label with
  | stay =>
    rw [if_neg (fun hDown => by cases hDown.1), Namespace.walk_stay hStep hHanded,
      Namespace.walk_stay hStep ((h.extend _).handed hHanded)]
  | up =>
    rw [if_neg (fun hDown => by cases hDown.1), Namespace.walk, Namespace.walk, hStep, Forest.walk, Forest.walk]
    have hBelow : fs'.forest.below ns.mounts k = fs.forest.below ns.mounts k := by
      have hParent : fs'.forest.parentOf k.1 k.2 = fs.forest.parentOf k.1 k.2 := (h.extend _).parentOf hHanded
      rw [Forest.below, Forest.below, hParent]
    rw [hBelow]
    cases hPoint : fs.forest.below ns.mounts k with
    | none => rfl
    | some below =>
      obtain ⟨_, hBelowHanded⟩ := hSpace.below hInst hHanded hPoint
      have hParent : fs'.forest.parentKey below = fs.forest.parentKey below :=
        congrArg (Option.map (Prod.mk below.1)) ((h.extend _).parentOf hBelowHanded)
      rw [bind_some, bind_some, hParent]
      cases hKey : fs.forest.parentKey below with
      | none => rfl
      | some k' =>
        obtain ⟨p, hp, rfl⟩ := map_eq_some_iff.mp hKey
        have hIff : (fs' below.1).HandsOut p ↔ (fs below.1).HandsOut p := by
          rw [h.handed_iff]
          refine ⟨fun hOr => hOr.resolve_right fun hNew => ?_, Or.inl⟩
          obtain ⟨hSame, hNode⟩ := Prod.mk.inj hNew
          rw [hSame] at hBelowHanded
          have hp' : fs.forest.parentOf dir.1 below.2 = some p := hSame ▸ hp
          exact h.upward hBelowHanded hp' hNode
        simp only [filter_some, hIff]
  | down label' =>
    obtain rfl := stepOf_down hStep
    rw [Namespace.walk, Namespace.walk, hStep, Forest.walk, Forest.walk, h.extend.real,
      h.child (Namespace.real_handed hHanded) label]
    by_cases hHere : fs.forest.real ns.mounts k = dir ∧ label = name
    · obtain ⟨hReal, rfl⟩ := hHere
      rw [hReal, if_pos ⟨rfl, rfl⟩, if_pos ⟨rfl, rfl⟩]
      exact filter_some_pos (decide_eq_true ((h.handed_iff _ _).mpr (Or.inr rfl)))
    · rw [if_neg hHere, if_neg fun hDown => hHere ⟨hDown.2, stepOf_down hStep ▸ Step.down.inj hDown.1⟩]
      cases hFind : fs.forest.childOf (fs.forest.real ns.mounts k).1 (fs.forest.real ns.mounts k).2 label with
      | none => rfl
      | some x =>
        have hOld : (fs (fs.forest.real ns.mounts k).1).HandsOut x := FsData.findSubNode_handsOut hFind
        simp only [map_some, filter_some, (h.extend _).handed hOld, hOld]

variable {k' : NodeKey} {names : List Bytes}

section

variable (hInst : k.1 ∈ ns.insts) (hHanded : (fs k.1).HandsOut k.2)
include hInst hHanded

lemma FsTable.Grows.follow_old (hFollow : ns.follow fs k names = some k') : ns.follow fs' k names = some k' := by
  induction names generalizing k with
  | nil => exact hFollow
  | cons label names ih =>
    obtain ⟨_, hWalk, hRest⟩ := bind_eq_some_iff.mp hFollow
    obtain ⟨hForest, hNext⟩ := Namespace.walk_handed hWalk
    have hOld : ¬ (stepOf label = .down name ∧ fs.forest.real ns.mounts k = dir) := by
      rintro ⟨hStep, hReal⟩
      rw [hStep, Forest.walk, hReal, h.unused] at hForest
      cases hForest
    rw [Namespace.follow, h.walk_eq hSpace hInst hHanded, if_neg hOld, hWalk]
    exact ih (hSpace.walk_inst hInst hHanded hForest) hNext hRest

lemma FsTable.Grows.follow_new (hFollow : ns.follow fs' k names = some k') :
    ns.follow fs k names = some k' ∨ ∃ front back kDir, names = front ++ name :: back ∧
      ns.follow fs k front = some kDir ∧ fs.forest.real ns.mounts kDir = dir ∧
        ns.follow fs' (dir.1, node) back = some k' := by
  induction names generalizing k with
  | nil => exact Or.inl hFollow
  | cons label names ih =>
    obtain ⟨_, hWalk, hRest⟩ := bind_eq_some_iff.mp hFollow
    rw [h.walk_eq hSpace hInst hHanded] at hWalk
    split_ifs at hWalk with hHere
    · cases hWalk
      exact Or.inr ⟨[], names, k, congrArg (· :: names) (stepOf_down hHere.1), rfl, hHere.2, hRest⟩
    · obtain ⟨hForest, hNext⟩ := Namespace.walk_handed hWalk
      rcases ih (hSpace.walk_inst hInst hHanded hForest) hNext hRest with hOld |
        ⟨front, back, kDir, hNames, hFront, hDir, hBack⟩
      · refine Or.inl ?_
        rw [Namespace.follow, hWalk]
        exact hOld
      · refine Or.inr ⟨label :: front, back, kDir, congrArg (label :: ·) hNames, ?_, hDir, hBack⟩
        rw [Namespace.follow, hWalk]
        exact hFront

end

lemma FsTable.Grows.not_mounted : ns.mounts.on (dir.1, node) = none := by
  refine Mounts.on_eq_none.mpr fun p hp hEq => h.fresh ?_
  have hHanded := hSpace.point_handed p hp
  rwa [hEq] at hHanded

lemma FsTable.Grows.follow_node (hNames : [46, 46] ∉ names) (hFollow : ns.follow fs' (dir.1, node) names = some k) :
    k = (dir.1, node) ∧ ∀ label ∈ names, stepOf label = .stay := by
  induction names with
  | nil => exact ⟨(some.inj hFollow).symm, fun _ hMem => absurd hMem not_mem_nil⟩
  | cons label names ih =>
    obtain ⟨hDots, hRest⟩ := ne_and_not_mem_of_not_mem_cons hNames
    obtain ⟨_, hWalk, hTail⟩ := bind_eq_some_iff.mp hFollow
    have hForest := (Namespace.walk_handed hWalk).1
    have hStay : stepOf label = .stay := by
      unfold stepOf at hForest ⊢
      split at hForest
      · rename_i hStay
        exact if_pos hStay
      · rw [if_neg hDots.symm, Forest.walk, Forest.real, h.not_mounted hSpace] at hForest
        rw [h.childless] at hForest
        cases hForest
    rw [hStay] at hForest
    cases hForest
    obtain ⟨hSame, hStays⟩ := ih hRest hTail
    refine ⟨hSame, fun other hMem => ?_⟩
    rcases mem_cons.mp hMem with rfl | hMem
    · exact hStay
    · exact hStays other hMem

end

end Fixos.Fs
