import Mathlib.Data.Finset.Card
import Fixos.Lib.Run
import Fixos.Arch.Mmu

/-! # Isolation of address spaces

Any number of address spaces are initialised, switched to and released in any order, with TLB
entries loaded in between.
-/

namespace Fixos.Arch

open Transition Option Function List

abbrev SpaceId := Nat × Nat

/-- What a TLB entry was loaded for, and how often that space had been released by then. -/
structure LoadedFor where
  space : Option SpaceId
  releases : Nat
deriving DecidableEq

/-- `asid k` is absent before `arch_adrsp_init`. The fields from `releases` on are history. -/
structure Spaces where
  mmu : Mmu LoadedFor
  asid : Nat → Option Nat
  gen : Nat → Nat
  releases : SpaceId → Nat
  holder : Nat → SpaceId
  live : Finset SpaceId
  current : Option SpaceId

def Spaces.boot : Spaces where
  mmu := mmuInit
  asid := fun _ => none
  gen := fun _ => 0
  releases := fun _ => 0
  holder := fun _ => (0, 0)
  live := ∅
  current := none

def Spaces.id (s : Spaces) (k : Nat) : SpaceId := (k, s.gen k)

def Spaces.init (s : Spaces) (k : Nat) : Spaces :=
  { s with
    asid := update s.asid k (some archAdrspInit)
    gen := update s.gen k (s.gen k + 1)
    live := insert (k, s.gen k + 1) s.live }

def Spaces.switchTo (s : Spaces) (k : Nat) : Option (Int × Spaces) :=
  (s.asid k).map fun asid =>
    let (mmu, asid, ret) := archAdrspSwitchTo s.mmu asid
    (ret, { s with
      mmu
      asid := update s.asid k (some asid)
      holder := if ret = 0 then update s.holder asid (s.id k) else s.holder
      live := insert (s.id k) s.live
      current := if ret = 0 then some (s.id k) else s.current })

/-- The idle task keeps its reserved identifier, so switching to it only sets the register. -/
def Spaces.switchToIdle (s : Spaces) : Spaces :=
  { s with mmu := (archAdrspSwitchTo s.mmu asidIdle).1, current := none }

def Spaces.release (s : Spaces) (k : Nat) : Option Spaces :=
  (s.asid k).map fun asid =>
    let (mmu, asid, _) := archAdrspRelease s.mmu asid
    { s with
      mmu
      asid := update s.asid k (some asid)
      releases := update s.releases (s.id k) (s.releases (s.id k) + 1)
      live := s.live.erase (s.id k) }

def Spaces.load (s : Spaces) (vpn ppn : Nat) : Spaces :=
  { s with mmu := s.mmu.tlbFillload vpn ppn ⟨s.current, (s.current.map s.releases).getD 0⟩ }

inductive SpaceAction where
  | init (k : Nat)
  | switchTo (k : Nat)
  | switchToIdle
  | release (k : Nat)
  | load (vpn ppn : Nat)
deriving DecidableEq

def Spaces.step (s : Spaces) : SpaceAction → Option Spaces
  | .init k => some (s.init k)
  | .switchTo k => (s.switchTo k).map Prod.snd
  | .switchToIdle => some s.switchToIdle
  | .release k => s.release k
  | .load vpn ppn => some (s.load vpn ppn)

/-- Every identifier in use has one space holding it, and the TLB entries under it were loaded
for that space since its last release. -/
structure Spaces.Inv (s : Spaces) : Prop where
  held : ∀ k a, s.asid k = some a → a ≠ asidInvalid →
    a < asidMax ∧ s.mmu.usage a = .used ∧ s.holder a = s.id k
  gen_le : ∀ i < asidMax, s.mmu.usage i = .used → (s.holder i).2 ≤ s.gen (s.holder i).1
  field : ∀ i < asidMax, s.mmu.usage i = .used → ∀ k, s.holder i = s.id k → s.asid k = some i
  live : ∀ i < asidMax, s.mmu.usage i = .used → s.holder i ∈ s.live
  injective : ∀ i < asidMax, ∀ j < asidMax, s.mmu.usage i = .used → s.mmu.usage j = .used →
    s.holder i = s.holder j → i = j
  loaded : ∀ e ∈ s.mmu.tlb, e.asid < asidMax → s.mmu.usage e.asid ≠ .free ∧
    (s.mmu.usage e.asid = .used → e.tag = ⟨some (s.holder e.asid), s.releases (s.holder e.asid)⟩)
  register : s.mmu.asid < asidMax → s.mmu.usage s.mmu.asid ≠ .free ∧
    (s.mmu.usage s.mmu.asid = .used → s.current = some (s.holder s.mmu.asid))

lemma Spaces.boot_inv : Spaces.boot.Inv where
  held k a h := by cases h
  gen_le i _ h := by cases h
  field i _ h := by cases h
  live i _ h := by cases h
  injective i _ j _ h := by cases h
  loaded e he := by cases he
  register h := absurd h (by decide)

variable {s : Spaces}

lemma Spaces.Inv.init (h : s.Inv) (k : Nat) : (s.init k).Inv where
  held k' a hk' ha := by
    simp only [Spaces.init, Spaces.id] at hk' ⊢
    by_cases hEq : k' = k
    · subst hEq
      rw [update_self] at hk'
      exact absurd (some.inj hk').symm ha
    · rw [update_of_ne hEq] at hk' ⊢
      exact h.held k' a hk' ha
  gen_le i hi hUsed := by
    have hLe := h.gen_le i hi hUsed
    simp only [Spaces.init]
    by_cases hEq : (s.holder i).1 = k
    · rw [hEq, update_self]
      rw [hEq] at hLe
      omega
    · rwa [update_of_ne hEq]
  field i hi hUsed k' hHolder := by
    have hLe := h.gen_le i hi hUsed
    simp only [Spaces.init, Spaces.id] at hHolder ⊢
    by_cases hEq : k' = k
    · subst hEq
      rw [update_self] at hHolder
      rw [hHolder] at hLe
      exact absurd hLe (Nat.not_succ_le_self _)
    · rw [update_of_ne hEq] at hHolder ⊢
      exact h.field i hi hUsed k' hHolder
  live i hi hUsed := Finset.mem_insert_of_mem (h.live i hi hUsed)
  injective := h.injective
  loaded := h.loaded
  register := h.register

lemma Spaces.Inv.load (h : s.Inv) (vpn ppn : Nat) : (s.load vpn ppn).Inv where
  held := h.held
  gen_le := h.gen_le
  field := h.field
  live := h.live
  injective := h.injective
  loaded e he hAsid := by
    rcases mem_cons.mp he with rfl | he
    · obtain ⟨hFree, hCurrent⟩ := h.register hAsid
      refine ⟨hFree, fun hUsed => ?_⟩
      simp only [hCurrent hUsed, map_some, getD_some]
      rfl
    · exact h.loaded e he hAsid
  register := h.register

lemma Spaces.Inv.switchToIdle (h : s.Inv) : s.switchToIdle.Inv where
  held := h.held
  gen_le := h.gen_le
  field := h.field
  live := h.live
  injective := h.injective
  loaded := h.loaded
  register hAsid := absurd hAsid (show ¬ asidIdle < asidMax by decide)

variable {k : Nat}

lemma Spaces.Inv.holder_ne (h : s.Inv) {i a : Nat} (hk : s.asid k = some a) (hi : i < asidMax)
    (hUsed : s.mmu.usage i = .used) (hNe : i ≠ a) : s.holder i ≠ s.id k := by
  intro hHolder
  rw [h.field i hi hUsed k hHolder] at hk
  exact hNe (some.inj hk)

variable {t : Spaces}

lemma Spaces.Inv.release (h : s.Inv) (hStep : s.release k = some t) : t.Inv := by
  obtain ⟨a, hk, rfl⟩ := map_eq_some_iff.mp hStep
  -- the identifiers still in use after the release are those of the other spaces
  have hUsage : ∀ i < asidMax, (archAdrspRelease s.mmu a).1.usage i = .used →
      s.mmu.usage i = .used ∧ s.holder i ≠ s.id k := by
    intro i hi hUsed
    rw [archAdrspRelease_usage s.mmu a hi] at hUsed
    split at hUsed
    · cases hUsed
    · exact ⟨hUsed, h.holder_ne hk hi hUsed ‹_›⟩
  have hFree : ∀ i < asidMax, s.mmu.usage i ≠ .free → (archAdrspRelease s.mmu a).1.usage i ≠ .free := by
    intro i hi hNotFree
    rw [archAdrspRelease_usage s.mmu a hi]
    split
    · simp
    · exact hNotFree
  constructor
  case held =>
    intro k' b hk' hb
    simp only [Spaces.id] at hk' ⊢
    by_cases hEq : k' = k
    · subst hEq
      rw [update_self, archAdrspRelease_field] at hk'
      exact absurd (some.inj hk').symm hb
    · rw [update_of_ne hEq] at hk'
      obtain ⟨hLt, hUsed, hHolder⟩ := h.held k' b hk' hb
      refine ⟨hLt, ?_, hHolder⟩
      rw [archAdrspRelease_usage s.mmu a hLt, if_neg, hUsed]
      rintro rfl
      -- two structures with the same identifier are the same structure
      have hSame := (h.held k b hk hb).2.2
      rw [hHolder] at hSame
      exact hEq (congrArg Prod.fst hSame)
  case gen_le => exact fun i hi hUsed => h.gen_le i hi (hUsage i hi hUsed).1
  case field =>
    intro i hi hUsed k' hHolder
    obtain ⟨hUsed', hNe⟩ := hUsage i hi hUsed
    have hEq : k' ≠ k := by
      rintro rfl
      exact hNe hHolder
    simp only [update_of_ne hEq]
    exact h.field i hi hUsed' k' hHolder
  case live =>
    intro i hi hUsed
    obtain ⟨hUsed', hNe⟩ := hUsage i hi hUsed
    exact Finset.mem_erase.mpr ⟨hNe, h.live i hi hUsed'⟩
  case injective =>
    intro i hi j hj hUsedI hUsedJ
    exact h.injective i hi j hj (hUsage i hi hUsedI).1 (hUsage j hj hUsedJ).1
  case loaded =>
    intro e he hLt
    simp only [archAdrspRelease_tlb] at he
    obtain ⟨hNotFree, hTag⟩ := h.loaded e he hLt
    refine ⟨hFree _ hLt hNotFree, fun hUsed => ?_⟩
    obtain ⟨hUsed', hNe⟩ := hUsage _ hLt hUsed
    simp only [update_of_ne hNe]
    exact hTag hUsed'
  case register =>
    intro hLt
    simp only [archAdrspRelease_register] at hLt ⊢
    obtain ⟨hNotFree, hCurrent⟩ := h.register hLt
    exact ⟨hFree _ hLt hNotFree, fun hUsed => hCurrent (hUsage _ hLt hUsed).1⟩

lemma asidInvalid_not_lt : ¬ asidInvalid < asidMax := by decide

/-- The identifier is nobody's, and no TLB entry is left under it. `base` is the unit after the flush, if there was one.
-/
lemma Spaces.Inv.assign (h : s.Inv) {i : Nat} {base : Mmu LoadedFor} (hk : s.asid k = some asidInvalid)
    (hi : i < asidMax) (hUnused : s.mmu.usage i ≠ .used)
    (hUsed : ∀ j < asidMax, base.usage j = .used ↔ s.mmu.usage j = .used)
    (hTlb : ∀ e ∈ base.tlb, e ∈ s.mmu.tlb ∧ e.asid ≠ i)
    (hFree : ∀ e ∈ base.tlb, e.asid < asidMax → base.usage e.asid ≠ .free) :
    Spaces.Inv { s with
      mmu := base.assign i
      asid := update s.asid k (some i)
      holder := update s.holder i (s.id k)
      live := insert (s.id k) s.live
      current := some (s.id k) } := by
  have hOther : ∀ j < asidMax, (base.assign i).usage j = .used → j ≠ i → s.mmu.usage j = .used := by
    intro j hj hUsage hNe
    simp only [Mmu.assign, update_of_ne hNe] at hUsage
    exact (hUsed j hj).mp hUsage
  have hNotHolder : ∀ j < asidMax, s.mmu.usage j = .used → s.holder j ≠ s.id k := by
    intro j hj hUsage
    refine h.holder_ne hk hj hUsage ?_
    rintro rfl
    exact asidInvalid_not_lt hj
  constructor
  case held =>
    intro k' b hk' hb
    simp only [Spaces.id] at hk' ⊢
    rcases eq_or_ne k' k with rfl | hEq
    · rw [update_self] at hk'
      obtain rfl := some.inj hk'
      exact ⟨hi, update_self .., update_self ..⟩
    · rw [update_of_ne hEq] at hk'
      obtain ⟨hLt, hUsage, hHolder⟩ := h.held k' b hk' hb
      have hNe : b ≠ i := by
        rintro rfl
        exact hUnused hUsage
      simp only [Mmu.assign, update_of_ne hNe]
      exact ⟨hLt, (hUsed b hLt).mpr hUsage, hHolder⟩
  case gen_le =>
    intro j hj hUsage
    rcases eq_or_ne j i with rfl | hNe
    · simp only [update_self]
      exact Nat.le_refl _
    · simp only [update_of_ne hNe]
      exact h.gen_le j hj (hOther j hj hUsage hNe)
  case field =>
    intro j hj hUsage k' hHolder
    rcases eq_or_ne j i with rfl | hNe
    · simp only [update_self] at hHolder
      obtain rfl : k = k' := congrArg Prod.fst hHolder
      exact update_self ..
    · simp only [update_of_ne hNe] at hHolder
      have hUsage' := hOther j hj hUsage hNe
      have hEq : k' ≠ k := by
        rintro rfl
        exact hNotHolder j hj hUsage' hHolder
      simp only [update_of_ne hEq]
      exact h.field j hj hUsage' k' hHolder
  case live =>
    intro j hj hUsage
    rcases eq_or_ne j i with rfl | hNe
    · simp only [update_self]
      exact Finset.mem_insert_self _ _
    · simp only [update_of_ne hNe]
      exact Finset.mem_insert_of_mem (h.live j hj (hOther j hj hUsage hNe))
  case injective =>
    intro j hj j' hj' hUsage hUsage' hHolder
    rcases eq_or_ne j i with hEq | hNe <;> rcases eq_or_ne j' i with hEq' | hNe'
    · exact hEq.trans hEq'.symm
    · subst hEq
      simp only [update_self, update_of_ne hNe'] at hHolder
      exact absurd hHolder.symm (hNotHolder j' hj' (hOther j' hj' hUsage' hNe'))
    · subst hEq'
      simp only [update_self, update_of_ne hNe] at hHolder
      exact absurd hHolder (hNotHolder j hj (hOther j hj hUsage hNe))
    · simp only [update_of_ne hNe, update_of_ne hNe'] at hHolder
      exact h.injective j hj j' hj' (hOther j hj hUsage hNe) (hOther j' hj' hUsage' hNe') hHolder
  case loaded =>
    intro e he hLt
    obtain ⟨hOld, hNe⟩ := hTlb e he
    refine ⟨?_, fun hUsage => ?_⟩
    · simp only [Mmu.assign, update_of_ne hNe]
      exact hFree e he hLt
    · simp only [update_of_ne hNe]
      exact (h.loaded e hOld hLt).2 (hOther e.asid hLt hUsage hNe)
  case register =>
    intro _
    simp [Mmu.assign, update_self]

variable {ret : Int}

lemma Spaces.Inv.switchTo (h : s.Inv) (hStep : s.switchTo k = some (ret, t)) : t.Inv := by
  obtain ⟨a, hk, hResult⟩ := map_eq_some_iff.mp hStep
  have hOutcome := archAdrspSwitchTo_outcome s.mmu a
  generalize archAdrspSwitchTo s.mmu a = out at hOutcome hResult
  have hSame : update s.asid k (some a) = s.asid := by rw [← hk, update_eq_self]
  cases hOutcome with
  | held hAsid =>
    obtain ⟨hLt, hUsed, hHolder⟩ := h.held k a hk hAsid
    have hHeld : update s.holder a (s.id k) = s.holder := by
      rw [← hHolder, update_eq_self]
    simp only [hSame, if_true, hHeld] at hResult
    cases hResult
    refine ⟨h.held, h.gen_le, h.field, ?_, h.injective, h.loaded, ?_⟩
    · exact fun i hi hi' => Finset.mem_insert_of_mem (h.live i hi hi')
    · intro _
      refine ⟨?_, fun _ => congrArg some hHolder.symm⟩
      rw [Mmu.setasid, hUsed]
      simp
  | fresh hAsid i hi hFree =>
    subst hAsid
    cases hResult
    refine h.assign hk hi (by simp [hFree]) (fun _ _ => Iff.rfl) ?_ (fun e he hLt => (h.loaded e he hLt).1)
    intro e he
    refine ⟨he, ?_⟩
    rintro rfl
    exact (h.loaded e he hi).1 hFree
  | flushed hAsid hFull i hi hDirty =>
    subst hAsid
    simp only [if_true] at hResult
    cases hResult
    exact h.assign hk hi (by simp [hDirty]) (fun _ _ => cleaned_eq_used) (by simp) (by simp)
  | exhausted hAsid hUsed =>
    simp only [hSame] at hResult
    cases hResult
    refine ⟨h.held, h.gen_le, h.field, ?_, h.injective, h.loaded, h.register⟩
    exact fun i hi hi' => Finset.mem_insert_of_mem (h.live i hi hi')

lemma Spaces.Inv.step {a : SpaceAction} (h : s.Inv) (hStep : s.step a = some t) : t.Inv := by
  cases a with
  | init k =>
    cases hStep
    exact h.init k
  | switchTo k =>
    obtain ⟨⟨_, r⟩, hSwitch, rfl⟩ := map_eq_some_iff.mp hStep
    exact h.switchTo hSwitch
  | switchToIdle =>
    cases hStep
    exact h.switchToIdle
  | release k => exact h.release hStep
  | load vpn ppn =>
    cases hStep
    exact h.load vpn ppn

lemma Spaces.switchTo_result (hStep : s.switchTo k = some (ret, t)) :
    (ret = 0 ∧ ∃ a, t.asid k = some a ∧ a ≠ asidInvalid ∧ t.mmu.asid = a) ∨ ret = -1 := by
  obtain ⟨a, _, hResult⟩ := map_eq_some_iff.mp hStep
  have hOutcome := archAdrspSwitchTo_outcome s.mmu a
  generalize archAdrspSwitchTo s.mmu a = out at hOutcome hResult
  cases hOutcome with
  | held hAsid =>
    cases hResult
    exact Or.inl ⟨rfl, a, update_self .., hAsid, rfl⟩
  | fresh _ i hi _ =>
    cases hResult
    refine Or.inl ⟨rfl, i, update_self .., ?_, rfl⟩
    rintro rfl
    exact asidInvalid_not_lt hi
  | flushed _ _ i hi _ =>
    cases hResult
    refine Or.inl ⟨rfl, i, update_self .., ?_, rfl⟩
    rintro rfl
    exact asidInvalid_not_lt hi
  | exhausted =>
    cases hResult
    exact Or.inr rfl

/-- A switch leaves the other spaces alone, and it never brings old TLB entries under the identifier
of its own space. -/
lemma Spaces.Inv.switchTo_frame (h : s.Inv) (hStep : s.switchTo k = some (ret, t)) :
    t.gen = s.gen ∧ t.live = insert (s.id k) s.live ∧ (∀ j, j ≠ k → t.asid j = s.asid j) ∧
      ∀ e ∈ t.mmu.tlb, e ∈ s.mmu.tlb ∧ (t.asid k = some e.asid → e.asid ≠ asidInvalid → s.asid k = some e.asid) := by
  obtain ⟨a, hk, hResult⟩ := map_eq_some_iff.mp hStep
  have hOutcome := archAdrspSwitchTo_outcome s.mmu a
  generalize archAdrspSwitchTo s.mmu a = out at hOutcome hResult
  cases hOutcome with
  | held hAsid =>
    cases hResult
    refine ⟨rfl, rfl, fun j hj => update_of_ne hj _ _, fun e he => ⟨he, fun hEntry _ => ?_⟩⟩
    simp only [update_self] at hEntry
    rw [hk, hEntry]
  | fresh hAsid i hi hFree =>
    cases hResult
    refine ⟨rfl, rfl, fun j hj => update_of_ne hj _ _, fun e he => ⟨he, fun hEntry _ => ?_⟩⟩
    simp only [update_self] at hEntry
    obtain rfl := some.inj hEntry
    exact absurd hFree (h.loaded e he hi).1
  | flushed hAsid hFull i hi hDirty =>
    cases hResult
    refine ⟨rfl, rfl, fun j hj => update_of_ne hj _ _, fun e he => ?_⟩
    cases he
  | exhausted hAsid hUsed =>
    cases hResult
    refine ⟨rfl, rfl, fun j hj => update_of_ne hj _ _, fun e he => ⟨he, fun hEntry hNe => ?_⟩⟩
    simp only [update_self] at hEntry
    exact absurd ((some.inj hEntry).symm.trans hAsid) hNe

lemma Spaces.release_frame {spaces spaces' : Spaces} {p : Nat} (hStep : spaces.release p = some spaces') :
    spaces'.gen = spaces.gen ∧ spaces'.live = spaces.live.erase (spaces.id p) ∧
      spaces'.asid p = some asidInvalid ∧ (∀ q, q ≠ p → spaces'.asid q = spaces.asid q) ∧
      spaces'.mmu.tlb = spaces.mmu.tlb := by
  obtain ⟨a, _, rfl⟩ := map_eq_some_iff.mp hStep
  refine ⟨rfl, rfl, ?_, fun q hq => update_of_ne hq _ _, archAdrspRelease_tlb _ _⟩
  simp

lemma Spaces.Inv.holder_unique {spaces : Spaces} (h : spaces.Inv) {p q a : Nat} (hp : spaces.asid p = some a)
    (hq : spaces.asid q = some a) (hNe : a ≠ asidInvalid) : q = p := by
  have hHolder := (h.held p a hp hNe).2.2
  rw [(h.held q a hq hNe).2.2] at hHolder
  exact congrArg Prod.fst hHolder

def Spaces.used (s : Spaces) : Finset Nat := (Finset.range asidMax).filter fun i => s.mmu.usage i = .used

lemma Spaces.Inv.used_card_le (h : s.Inv) : s.used.card ≤ s.live.card := by
  refine Finset.card_le_card_of_injOn s.holder (fun i hi => ?_) fun i hi j hj hSame => ?_
  · obtain ⟨hLt, hUsed⟩ := Finset.mem_filter.mp hi
    exact h.live i (Finset.mem_range.mp hLt) hUsed
  · obtain ⟨hi, hUsed⟩ := Finset.mem_filter.mp hi
    obtain ⟨hj, hUsed'⟩ := Finset.mem_filter.mp hj
    exact h.injective i (Finset.mem_range.mp hi) j (Finset.mem_range.mp hj) hUsed hUsed' hSame

lemma Spaces.live_card_le {owners : List Nat} (h : ∀ x ∈ s.live, ∃ k ∈ owners, x = s.id k) :
    s.live.card ≤ owners.length := by
  have hSubset : s.live ⊆ owners.toFinset.image s.id := by
    intro x hx
    obtain ⟨k, hk, rfl⟩ := h x hx
    exact Finset.mem_image_of_mem _ (mem_toFinset.mpr hk)
  calc
    s.live.card ≤ (owners.toFinset.image s.id).card := Finset.card_le_card hSubset
    _ ≤ owners.toFinset.card := Finset.card_image_le
    _ ≤ owners.length := toFinset_card_le owners

lemma Spaces.Inv.exhausted (h : s.Inv) (hStep : s.switchTo k = some (ret, t)) (hRet : ret ≠ 0) : asidMax < t.live.card := by
  obtain ⟨a, hk, hResult⟩ := map_eq_some_iff.mp hStep
  have hOutcome := archAdrspSwitchTo_outcome s.mmu a
  generalize archAdrspSwitchTo s.mmu a = out at hOutcome hResult
  cases hOutcome with
  | held | fresh | flushed => exact absurd (congrArg Prod.fst hResult).symm hRet
  | exhausted hAsid hUsed =>
    cases hResult
    subst hAsid
    have hImage : ((Finset.range asidMax).image s.holder).card = asidMax := by
      rw [Finset.card_image_of_injOn, Finset.card_range]
      intro i hi j hj hEq
      have hi := Finset.mem_range.mp hi
      have hj := Finset.mem_range.mp hj
      exact h.injective i hi j hj (hUsed i hi) (hUsed j hj) hEq
    have hNew : s.id k ∉ (Finset.range asidMax).image s.holder := by
      intro hMem
      obtain ⟨i, hi, hEq⟩ := Finset.mem_image.mp hMem
      have hi := Finset.mem_range.mp hi
      refine h.holder_ne hk hi (hUsed i hi) ?_ hEq
      rintro rfl
      exact asidInvalid_not_lt hi
    have hSubset : insert (s.id k) ((Finset.range asidMax).image s.holder) ⊆ insert (s.id k) s.live := by
      apply Finset.insert_subset_insert
      intro x hx
      obtain ⟨i, hi, rfl⟩ := Finset.mem_image.mp hx
      have hi := Finset.mem_range.mp hi
      exact h.live i hi (hUsed i hi)
    have hCard := Finset.card_le_card hSubset
    rw [Finset.card_insert_of_notMem hNew, hImage] at hCard
    exact hCard

/-- After any sequence of operations and TLB loads: valid identifiers are not shared; a switch that returns 0 leaves
only TLB entries of its space since its last release; and one fails only with more than `ASID_MAX` live spaces. -/
theorem address_spaces_isolated {s : Spaces} {actions : List SpaceAction}
    (h : Run Spaces.step always Spaces.boot actions s) :
    (∀ k k' a, s.asid k = some a → s.asid k' = some a → a ≠ asidInvalid → k = k') ∧
    ∀ k ret t, s.switchTo k = some (ret, t) → (ret = 0 ∨ ret = -1) ∧
      (ret = 0 → ∃ a, t.asid k = some a ∧ a ≠ asidInvalid ∧ t.mmu.asid = a ∧
        ∀ e ∈ t.mmu.tlb, e.asid = a → e.tag = ⟨some (t.id k), t.releases (t.id k)⟩) ∧
      (ret = -1 → asidMax < t.live.card) := by
  have hInv : s.Inv := h.invariant (fun _ _ _ _ hs hStep => hs.step hStep) Spaces.boot_inv
  constructor
  · intro k k' a hk hk' ha
    have hSame := (hInv.held k a hk ha).2.2
    rw [(hInv.held k' a hk' ha).2.2] at hSame
    exact (congrArg Prod.fst hSame).symm
  · intro k ret t hStep
    have hNext := hInv.switchTo hStep
    rcases Spaces.switchTo_result hStep with ⟨rfl, a, hk, ha, hReg⟩ | rfl
    · refine ⟨Or.inl rfl, fun _ => ⟨a, hk, ha, hReg, ?_⟩, fun hRet => absurd hRet (by decide)⟩
      rintro e he rfl
      obtain ⟨hLt, hUsed, hHolder⟩ := hNext.held k e.asid hk ha
      rw [(hNext.loaded e he hLt).2 hUsed, hHolder]
    · exact ⟨Or.inr rfl, fun hRet => absurd hRet (by decide), fun _ => hInv.exhausted hStep (by decide)⟩

theorem address_spaces_isolated_three :
    ∃ s t, exec Spaces.step Spaces.boot [.init 0, .switchTo 0, .load 64 8, .init 1, .switchTo 1,
        .load 64 9, .release 0, .init 2, .switchTo 2] = some s ∧
      (∀ k k' a, s.asid k = some a → s.asid k' = some a → a ≠ asidInvalid → k = k') ∧ s.switchTo 1 = some (0, t) ∧
      ∃ a, t.asid 1 = some a ∧ a ≠ asidInvalid ∧ t.mmu.asid = a ∧
        ∀ e ∈ t.mmu.tlb, e.asid = a → e.tag = ⟨some (t.id 1), t.releases (t.id 1)⟩ := by
  obtain ⟨hApart, hSwitch⟩ := address_spaces_isolated (run_of_exec rfl : Run Spaces.step always Spaces.boot
    [.init 0, .switchTo 0, .load 64 8, .init 1, .switchTo 1, .load 64 9, .release 0, .init 2, .switchTo 2] _)
  exact ⟨_, _, rfl, hApart, rfl, (hSwitch 1 0 _ rfl).2.1 rfl⟩

end Fixos.Arch
