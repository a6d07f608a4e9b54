import Fixos.Lib.Links

/-! # Hash tables with chained entries

A table is well formed when every entry is in the bucket of its own key and no two entries have one key.
-/

namespace HashChain

open Links Function List

universe u v w

variable {P : Type u} {K : Type v} {B : Type w}

structure Chained (key : P → K) (hash : K → B) (null : P) (next : P → P) (head : B → P)
    (chain : B → List P) : Prop where
  walk : ∀ b, Walk next (head b) (chain b) null
  nodup : ∀ b, (chain b).Nodup
  proper : ∀ b, null ∉ chain b
  hashed : ∀ b, ∀ p ∈ chain b, hash (key p) = b
  unique : ∀ b, ∀ p ∈ chain b, ∀ q ∈ chain b, key p = key q → p = q

def Member (chain : B → List P) (p : P) : Prop := ∃ b, p ∈ chain b

section

variable {key : P → K} {hash : K → B} {null : P} {next : P → P} {head : B → P} {chain : B → List P}

lemma Chained.member_iff (h : Chained key hash null next head chain) {p : P} :
    Member chain p ↔ p ∈ chain (hash (key p)) := by
  constructor
  · rintro ⟨b, hp⟩
    rwa [h.hashed b p hp]
  · exact fun hp => ⟨_, hp⟩

lemma Chained.ne_null (h : Chained key hash null next head chain) {p : P} (hp : Member chain p) : p ≠ null := by
  obtain ⟨b, hMem⟩ := hp
  rintro rfl
  exact h.proper b hMem

variable [DecidableEq P] [DecidableEq K]

def find (key : P → K) (hash : K → B) (null : P) (next : P → P) (head : B → P) (fuel : Nat) (k : K) : Option P :=
  advance (fun p => p = null || key p = k) next fuel (head (hash k))

variable {fuel : Nat}

section

variable (h : Chained key hash null next head chain) (hFuel : ∀ b, (chain b).length < fuel)
include h hFuel

lemma Chained.find_member {p : P} (hp : Member chain p) : find key hash null next head fuel (key p) = some p := by
  have hMem := h.member_iff.mp hp
  have hFind : (chain (hash (key p))).find? (fun q => q = null || key q = key p) = some p := by
    obtain ⟨q, hq⟩ : ∃ q, (chain (hash (key p))).find? (fun q => q = null || key q = key p) = some q :=
      Option.isSome_iff_exists.mp (find?_isSome.mpr ⟨p, hMem, by simp⟩)
    have hqMem := mem_of_find?_eq_some hq
    have hqTest := find?_some hq
    simp only [Bool.or_eq_true, decide_eq_true_eq] at hqTest
    rcases hqTest with rfl | hKey
    · exact absurd hqMem (h.proper _)
    · rw [hq, h.unique _ q hqMem p hMem hKey]
  rw [find, advance_walk (h.walk _) (by simp) (hFuel _), hFind]
  rfl

lemma Chained.find_absent {k : K} (hk : ∀ p, Member chain p → key p ≠ k) :
    find key hash null next head fuel k = some null := by
  have hFind : (chain (hash k)).find? (fun q => q = null || key q = k) = none := by
    rw [find?_eq_none]
    intro p hp hTest
    simp only [Bool.or_eq_true, decide_eq_true_eq] at hTest
    rcases hTest with rfl | hKey
    · exact h.proper _ hp
    · exact hk p ⟨_, hp⟩ hKey
  rw [find, advance_walk (h.walk _) (by simp) (hFuel _), hFind]
  rfl

lemma Chained.find_cases (k : K) : (find key hash null next head fuel k = some null ∧ ∀ p, Member chain p → key p ≠ k) ∨
      ∃ p, find key hash null next head fuel k = some p ∧ Member chain p ∧ key p = k := by
  by_cases hk : ∃ p, Member chain p ∧ key p = k
  · obtain ⟨p, hp, rfl⟩ := hk
    exact Or.inr ⟨p, h.find_member hFuel hp, hp, rfl⟩
  · push Not at hk
    exact Or.inl ⟨h.find_absent hFuel hk, hk⟩

end

end

variable {key key' : P → K} {hash : K → B} {null : P} {next next' : P → P}
  {head head' : B → P} {chain : B → List P} {r : P}

variable [DecidableEq B]

def link (chain : B → List P) (b : B) (r : P) : B → List P := update chain b (r :: chain b)

lemma mem_link {b b' : B} {p : P} : p ∈ link chain b r b' ↔ (b' = b ∧ p = r) ∨ p ∈ chain b' := by
  unfold link
  rcases eq_or_ne b' b with rfl | hb
  · simp
  · simp [hb]

lemma member_link {b : B} {p : P} : Member (link chain b r) p ↔ p = r ∨ Member chain p := by
  constructor
  · rintro ⟨b', hp⟩
    exact (mem_link.mp hp).imp And.right fun hMem => ⟨b', hMem⟩
  · rintro (rfl | ⟨b', hp⟩)
    · exact ⟨b, mem_link.mpr (Or.inl ⟨rfl, rfl⟩)⟩
    · exact ⟨b', mem_link.mpr (Or.inr hp)⟩

variable [DecidableEq P]

lemma Chained.insert (h : Chained key hash null next head chain) (hNull : r ≠ null) (hNew : ¬ Member chain r)
    (hAbsent : ∀ p, Member chain p → key p ≠ key' r) (hKey : ∀ p, p ≠ r → key' p = key p)
    (hNext : next' = update next r (head (hash (key' r))))
    (hHead : head' = update head (hash (key' r)) r) :
    Chained key' hash null next' head' (link chain (hash (key' r)) r) := by
  subst hNext hHead
  have hNe : ∀ {b p}, p ∈ chain b → p ≠ r := fun hp hEq => hNew ⟨_, hEq ▸ hp⟩
  have hWalk : ∀ b, Walk (update next r (head (hash (key' r)))) (head b) (chain b) null := fun b =>
    (h.walk b).congr fun p hp => update_of_ne (hNe hp) _ _
  constructor
  case walk =>
    intro b
    unfold link
    rcases eq_or_ne b (hash (key' r)) with rfl | hb
    · rw [update_self, update_self]
      refine ⟨rfl, ?_⟩
      rw [update_self]
      exact hWalk _
    · rw [update_of_ne hb, update_of_ne hb]
      exact hWalk b
  case nodup =>
    intro b
    unfold link
    rcases eq_or_ne b (hash (key' r)) with rfl | hb
    · rw [update_self]
      exact nodup_cons.mpr ⟨fun hMem => hNew ⟨_, hMem⟩, h.nodup _⟩
    · rw [update_of_ne hb]
      exact h.nodup b
  case proper =>
    intro b hMem
    rcases mem_link.mp hMem with ⟨_, hEq⟩ | hMem
    · exact hNull hEq.symm
    · exact h.proper b hMem
  case hashed =>
    intro b p hp
    rcases mem_link.mp hp with ⟨rfl, rfl⟩ | hp
    · rfl
    · rw [hKey p (hNe hp), h.hashed b p hp]
  case unique =>
    intro b p hp q hq hEq
    rcases mem_link.mp hp with ⟨_, hpr⟩ | hpOld <;> rcases mem_link.mp hq with ⟨_, hqr⟩ | hqOld
    · exact hpr.trans hqr.symm
    · rw [hpr, hKey q (hNe hqOld)] at hEq
      exact absurd hEq.symm (hAbsent q ⟨b, hqOld⟩)
    · rw [hqr, hKey p (hNe hpOld)] at hEq
      exact absurd hEq (hAbsent p ⟨b, hpOld⟩)
    · rw [hKey p (hNe hpOld), hKey q (hNe hqOld)] at hEq
      exact h.unique b p hpOld q hqOld hEq

def unlink (chain : B → List P) (b : B) (r : P) : B → List P := update chain b ((chain b).erase r)

lemma member_unlink (h : Chained key hash null next head chain) {p : P} :
    Member (unlink chain (hash (key r)) r) p ↔ Member chain p ∧ p ≠ r := by
  unfold Member unlink
  constructor
  · rintro ⟨b, hp⟩
    rcases eq_or_ne b (hash (key r)) with rfl | hb
    · rw [update_self, (h.nodup _).mem_erase_iff] at hp
      exact ⟨⟨_, hp.2⟩, hp.1⟩
    · rw [update_of_ne hb] at hp
      exact ⟨⟨b, hp⟩, fun hEq => hb (by rw [← hEq, h.hashed b p hp])⟩
  · rintro ⟨⟨b, hp⟩, hNe⟩
    refine ⟨b, ?_⟩
    rcases eq_or_ne b (hash (key r)) with rfl | hb
    · rw [update_self, (h.nodup _).mem_erase_iff]
      exact ⟨hNe, hp⟩
    · rwa [update_of_ne hb]

lemma Chained.remove (h : Chained key hash null next head chain)
    (hWalk : Walk next' (head' (hash (key r))) ((chain (hash (key r))).erase r) null)
    (hNext : ∀ p, p ∉ chain (hash (key r)) → next' p = next p) (hHead : ∀ b, b ≠ hash (key r) → head' b = head b) :
    Chained key hash null next' head' (unlink chain (hash (key r)) r) := by
  have hSub : ∀ {b p}, p ∈ unlink chain (hash (key r)) r b → p ∈ chain b := by
    intro b p hp
    unfold unlink at hp
    rcases eq_or_ne b (hash (key r)) with rfl | hb
    · rw [update_self] at hp
      exact mem_of_mem_erase hp
    · rwa [update_of_ne hb] at hp
  constructor
  case walk =>
    intro b
    unfold unlink
    rcases eq_or_ne b (hash (key r)) with rfl | hb
    · rwa [update_self]
    · rw [update_of_ne hb, hHead b hb]
      refine (h.walk b).congr fun p hp => hNext p fun hMem => hb ?_
      rw [← h.hashed b p hp, h.hashed _ p hMem]
  case nodup =>
    intro b
    unfold unlink
    rcases eq_or_ne b (hash (key r)) with rfl | hb
    · rw [update_self]
      exact (h.nodup _).erase r
    · rw [update_of_ne hb]
      exact h.nodup b
  case proper => exact fun b hMem => h.proper b (hSub hMem)
  case hashed => exact fun b p hp => h.hashed b p (hSub hp)
  case unique => exact fun b p hp q hq => h.unique b p (hSub hp) q (hSub hq)

end HashChain
