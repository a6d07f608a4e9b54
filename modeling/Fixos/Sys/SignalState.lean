import Fixos.Sys.SignalDelivery

/-! # What a delivery does to the state of its process

Only the default action of `SIGSTOP` changes it.
-/

namespace Fixos.Sys

open Interface Arch List

def SigProcess.passesOver (proc : SigProcess) (sig : Nat) : Prop :=
  ∀ index, transNumber2index sig = some index →
    (proc.sigArray index).saHandler = SIG_IGN ∨ ((proc.sigArray index).saHandler = SIG_DFL ∧
      (transIndex2default index = .ign ∨ transIndex2default index = .cont))

def sigstopIndex : Nat := 8

def sigcontIndex : Nat := 7

@[mk_iff takesStop_def] structure SigProcess.TakesStop (proc : SigProcess) : Prop where
  pending : sigismember (signalPending proc) SIGSTOP = true
  default : (proc.sigArray sigstopIndex).saHandler = SIG_DFL
  first : ∀ sig < SIGSTOP, sigismember (signalPending proc) sig = true → proc.passesOver sig

lemma transNumber2index_sigstop {sig : Nat} (h : transNumber2index sig = some sigstopIndex) : sig = SIGSTOP := by
  rcases Nat.lt_or_ge sig 20 with hLt | hGe
  · have hTable : ∀ n < 20, transNumber2index n = some sigstopIndex → n = SIGSTOP := by decide
    exact hTable sig hLt h
  · simp [transNumber2index, hGe] at h

lemma transIndex2default_stop {index : Nat} (h : transIndex2default index = .stop) : index = sigstopIndex := by
  rcases Nat.lt_or_ge index 9 with hLt | hGe
  · have hTable : ∀ n < 9, transIndex2default n = .stop → n = sigstopIndex := by decide
    exact hTable index hLt h
  · simp [transIndex2default, hGe] at h

namespace SigProcess

variable {proc : SigProcess} {sig : Nat}

lemma passesOver_iff : proc.passesOver sig ↔ proc.disposition sig = .pass := by
  unfold passesOver disposition
  cases transNumber2index sig with
  | none => simp
  | some index =>
    by_cases hIgn : (proc.sigArray index).saHandler = SIG_IGN
    · simp [hIgn]
    by_cases hDfl : (proc.sigArray index).saHandler = SIG_DFL
    · rw [hDfl] at hIgn
      cases hDefault : transIndex2default index <;> simp [hIgn, hDfl, hDefault]
    · simp [hIgn, hDfl]

lemma stops_iff : proc.stops sig = true ↔ sig = SIGSTOP ∧ (proc.sigArray sigstopIndex).saHandler = SIG_DFL := by
  rw [stops, decide_eq_true_eq, disposition]
  constructor
  · intro h
    split at h
    · cases h
    · rename_i index hIndex
      split at h
      · cases h
      · split at h
        · cases hDefault : transIndex2default index <;> simp only [hDefault, reduceCtorEq] at h
          obtain rfl := transIndex2default_stop hDefault
          exact ⟨transNumber2index_sigstop hIndex, ‹_›⟩
        · cases h
  · rintro ⟨rfl, hDefault⟩
    simp only [show transNumber2index SIGSTOP = some sigstopIndex from rfl, hDefault]
    rw [if_neg (by decide), if_pos trivial]
    rfl

lemma leaves_eq_false_iff : proc.leaves sig = false ↔ proc.passesOver sig ∨ proc.stops sig = true := by
  rw [passesOver_iff, stops, leaves]
  cases proc.disposition sig <;> simp [Disposition.leaves]

lemma takesStop_iff : proc.TakesStop ↔ proc.treated.any proc.stops = true := by
  rw [any_eq_true]
  constructor
  · rintro ⟨hPending, hDefault, hFirst⟩
    refine ⟨SIGSTOP, mem_treated.mpr ⟨(deliverable_iff (by decide)).mpr hPending, fun other hLt hOther => ?_⟩,
      stops_iff.mpr ⟨rfl, hDefault⟩⟩
    exact leaves_eq_false_iff.mpr (.inl (hFirst other hLt ((deliverable_iff hOther.1).mp hOther)))
  · rintro ⟨_, hMem, hStops⟩
    obtain ⟨rfl, hDefault⟩ := stops_iff.mp hStops
    obtain ⟨hPending, hFirst⟩ := mem_treated.mp hMem
    refine ⟨(deliverable_iff (by decide)).mp hPending, hDefault, fun other hLt hOther => ?_⟩
    have hDeliver : proc.Deliverable other := (deliverable_iff (hLt.trans (by decide))).mpr hOther
    refine (leaves_eq_false_iff.mp (hFirst other hLt hDeliver)).resolve_right fun hStop => ?_
    exact absurd (stops_iff.mp hStop).1 hLt.ne

lemma TakesStop.find?_leaves (h : proc.TakesStop) : proc.due.find? proc.leaves = none := by
  refine find?_eq_none.mpr fun sig hMem => ?_
  have hDeliver := mem_due.mp hMem
  rw [Bool.not_eq_true, leaves_eq_false_iff]
  rcases Nat.lt_trichotomy sig SIGSTOP with hLt | rfl | hGt
  · exact .inl (h.first sig hLt ((deliverable_iff hDeliver.1).mp hDeliver))
  · exact .inr (stops_iff.mpr ⟨rfl, h.default⟩)
  · have hNone : ∀ n < signalMax, SIGSTOP < n → transNumber2index n = none := by decide
    refine .inl fun index hIndex => ?_
    rw [hNone sig hDeliver.1 hGt] at hIndex
    cases hIndex

end SigProcess

section

variable {trampoline : Word32} {st st' : SigState}

lemma deliverAndResume_stop (trampoline : Word32) (st : SigState) (hUser : st.proc.acnt.privileged = false)
    (hStop : st.proc.TakesStop) :
    ∃ st', deliverAndResume trampoline st = .resumed st' ∧ st'.proc.state = .stopped := by
  rw [deliverAndResume, if_pos ((archProcessMode_eq_one _).mpr hUser), signalDeliverPending_eq, hStop.find?_leaves]
  exact ⟨_, rfl, if_pos (SigProcess.takesStop_iff.mp hStop)⟩

section

variable (h : deliverAndResume trampoline st = .resumed st')
include h

lemma deliverAndResume_state
    (hStop : st.proc.acnt.privileged = false → ¬ st.proc.TakesStop) : st'.proc.state = st.proc.state := by
  rcases deliverAndResume_resumed h with ⟨_, rfl⟩ | ⟨hUser, hCases⟩
  · rfl
  have hState : (st.treat st.proc.treated).proc.state = st.proc.state :=
    if_neg (mt SigProcess.takesStop_iff.mpr (hStop hUser))
  rcases hCases with rfl | ⟨_, _, hStart⟩
  · exact hState
  · obtain ⟨_, rfl⟩ := startHandler_resumed hStart
    exact hState

lemma deliverAndResume_alive (hAlive : st.proc.state ≠ .zombie) : st'.proc.state ≠ .zombie := by
  by_cases hStop : st.proc.acnt.privileged = false ∧ st.proc.TakesStop
  · obtain ⟨_, hLast, hState⟩ := deliverAndResume_stop trampoline st hStop.1 hStop.2
    rw [h] at hLast
    cases hLast
    rw [hState]
    decide
  · rw [deliverAndResume_state h fun hUser hTakes => hStop ⟨hUser, hTakes⟩]
    exact hAlive

end

end

/-! ## Stops and continues raised between two deliveries

The pending set keeps no order and `SIGCONT` has the lower number, so a pending `SIGSTOP` outlives
the `SIGCONT` raised after it.
-/

def SigState.raiseAll (st : SigState) (sigs : List Nat) : SigState :=
  { st with proc := { sigs.foldl signalRaise st.proc with state := .running } }

def StopsNext (trampoline : Word32) (st : SigState) (sigs : List Nat) : Prop :=
  ∃ st', (signalDeliverPending trampoline (st.raiseAll sigs) = .returned st' ∨
    signalDeliverPending trampoline (st.raiseAll sigs) = .resumed st') ∧ st'.proc.state = .stopped

def LastStops (sigs : List Nat) : Prop :=
  (sigs.filter fun sig => sig = SIGSTOP ∨ sig = SIGCONT).getLast? = some SIGSTOP

structure SigProcess.DefaultStops (proc : SigProcess) : Prop where
  stop : (proc.sigArray sigstopIndex).saHandler = SIG_DFL
  cont : (proc.sigArray sigcontIndex).saHandler = SIG_DFL
  stop_open : sigismember proc.sigBlocked SIGSTOP = false
  cont_open : sigismember proc.sigBlocked SIGCONT = false

/-- No signal that is delivered before `SIGSTOP` enters a handler or ends the process. -/
def SigProcess.QuietBelow (proc : SigProcess) (sigs : List Nat) : Prop :=
  ∀ sig < SIGSTOP, sigismember proc.sigPending sig = true ∨ sig ∈ sigs →
    sigismember proc.sigBlocked sig = false → proc.passesOver sig

variable {trampoline : Word32} {st st' : SigState} {sigs : List Nat}

lemma foldl_signalRaise (proc : SigProcess) (sigs : List Nat) :
    ∃ state, sigs.foldl signalRaise proc = { proc with sigPending := sigs.foldl sigaddset proc.sigPending, state } := by
  induction sigs generalizing proc with
  | nil => exact ⟨proc.state, rfl⟩
  | cons sig sigs ih =>
    obtain ⟨_, hFirst⟩ := signalRaise_eq proc sig
    obtain ⟨state, hRest⟩ := ih (signalRaise proc sig)
    exact ⟨state, by rw [foldl_cons, hRest, hFirst, foldl_cons]⟩

lemma sigismember_foldl_sigaddset (set : Sigset) (sigs : List Nat) {sig : Nat} (h : sig < signalMax) :
    sigismember (sigs.foldl sigaddset set) sig = true ↔ sigismember set sig = true ∨ sig ∈ sigs := by
  induction sigs generalizing set with
  | nil => simp
  | cons other sigs ih =>
    rw [foldl_cons, ih, sigismember_eq_getLsbD _ h, sigismember_eq_getLsbD _ h, getLsbD_sigaddset _ _ h,
      Bool.or_eq_true, decide_eq_true_eq, mem_cons, or_assoc]

lemma SigState.deliverable_raiseAll (st : SigState) (sigs : List Nat) {sig : Nat} :
    (st.raiseAll sigs).proc.Deliverable sig ↔ sig < signalMax ∧
      (sigismember st.proc.sigPending sig = true ∨ sig ∈ sigs) ∧ sigismember st.proc.sigBlocked sig = false := by
  obtain ⟨_, hRaised⟩ := foldl_signalRaise st.proc sigs
  simp only [SigState.raiseAll, SigProcess.Deliverable, hRaised]
  exact and_congr_right fun hSig => and_congr_left' (sigismember_foldl_sigaddset _ _ hSig)

lemma SigState.takesStop_raiseAll (st : SigState) (sigs : List Nat) (h : st.proc.DefaultStops) :
    (st.raiseAll sigs).proc.TakesStop ↔
      (sigismember st.proc.sigPending SIGSTOP = true ∨ SIGSTOP ∈ sigs) ∧ st.proc.QuietBelow sigs := by
  have hArray : (st.raiseAll sigs).proc.sigArray = st.proc.sigArray := by
    obtain ⟨_, hRaised⟩ := foldl_signalRaise st.proc sigs
    rw [SigState.raiseAll, hRaised]
  have hDeliver : ∀ sig < signalMax, sigismember (signalPending (st.raiseAll sigs).proc) sig = true ↔
      (sigismember st.proc.sigPending sig = true ∨ sig ∈ sigs) ∧ sigismember st.proc.sigBlocked sig = false :=
    fun sig hSig => by rw [← SigProcess.deliverable_iff hSig, st.deliverable_raiseAll, and_iff_right hSig]
  constructor
  · rintro ⟨hPending, -, hFirst⟩
    refine ⟨((hDeliver SIGSTOP (by decide)).mp hPending).1, fun sig hLt hSome hOpen => ?_⟩
    have hPass := hFirst sig hLt ((hDeliver sig (hLt.trans (by decide))).mpr ⟨hSome, hOpen⟩)
    rwa [SigProcess.passesOver, hArray] at hPass
  · rintro ⟨hSome, hQuiet⟩
    refine ⟨(hDeliver SIGSTOP (by decide)).mpr ⟨hSome, h.stop_open⟩, by rw [hArray, h.stop], fun sig hLt hMem => ?_⟩
    obtain ⟨hSome, hOpen⟩ := (hDeliver sig (hLt.trans (by decide))).mp hMem
    rw [SigProcess.passesOver, hArray]
    exact hQuiet sig hLt hSome hOpen

lemma stopsNext_iff (trampoline : Word32) (st : SigState) (sigs : List Nat) :
    StopsNext trampoline st sigs ↔ (st.raiseAll sigs).proc.TakesStop := by
  constructor
  · rintro ⟨_, hDeliver, hState⟩
    by_contra hNot
    have hRunning : ((st.raiseAll sigs).treat (st.raiseAll sigs).proc.treated).proc.state = .running :=
      if_neg (mt SigProcess.takesStop_iff.mpr hNot)
    rcases hDeliver with hDeliver | hDeliver
    · rw [signalDeliverPending_returned hDeliver, hRunning] at hState
      cases hState
    · obtain ⟨_, _, -, -, hStart⟩ := signalDeliverPending_resumed hDeliver
      obtain ⟨_, rfl⟩ := startHandler_resumed hStart
      exact absurd (hRunning.symm.trans hState) (by decide)
  · intro hStop
    rw [StopsNext, signalDeliverPending_eq, hStop.find?_leaves]
    exact ⟨_, .inl rfl, if_pos (SigProcess.takesStop_iff.mp hStop)⟩

lemma LastStops.mem (h : LastStops sigs) : SIGSTOP ∈ sigs := (mem_filter.mp (mem_of_getLast? h)).1

/-- The last of the raised stops and continues decides exactly when nothing is delivered before a last `SIGSTOP`, and
none is left otherwise. -/
theorem stop_follows_last_raised (trampoline : Word32) (st : SigState) (sigs : List Nat) (h : st.proc.DefaultStops) :
    (StopsNext trampoline st sigs ↔ LastStops sigs) ↔ (LastStops sigs → st.proc.QuietBelow sigs) ∧
      (¬ LastStops sigs → sigismember st.proc.sigPending SIGSTOP = true ∨ SIGSTOP ∈ sigs → ¬ st.proc.QuietBelow sigs) := by
  rw [stopsNext_iff, st.takesStop_raiseAll sigs h]
  constructor
  · intro hIff
    exact ⟨fun hLast => (hIff.mpr hLast).2, fun hNot hSome hQuiet => hNot (hIff.mp ⟨hSome, hQuiet⟩)⟩
  · rintro ⟨hQuiet, hNone⟩
    refine ⟨fun ⟨hSome, hBelow⟩ => ?_, fun hLast => ⟨.inr hLast.mem, hQuiet hLast⟩⟩
    by_contra hNot
    exact hNone hNot hSome hBelow

def userProcess : SigState where
  proc := {
    acnt := ⟨fun _ => 0, 0, 0, 0, 0, 0, 0, 0⟩
    state := .running
    sigBlocked := 0
    sigPending := 0
    sigArray := fun _ => ⟨SIG_DFL, 0, 0⟩ }
  mem := ⟨fun _ => 0, fun _ => true⟩
  needReschedule := false

lemma userProcess_defaultStops : userProcess.proc.DefaultStops := ⟨rfl, rfl, by decide, by decide⟩

lemma userProcess_quietBelow (h : ∀ sig ∈ sigs, sig = SIGSTOP ∨ sig = SIGCONT) : userProcess.proc.QuietBelow sigs := by
  intro sig hLt hSome _ _ hIndex
  have hNone : sigismember 0 sig = false := by simp [sigismember]
  rcases h sig (hSome.resolve_left (hNone ▸ Bool.false_ne_true)) with rfl | rfl
  · exact absurd hLt (Nat.lt_irrefl _)
  · cases hIndex
    exact .inr ⟨rfl, .inr rfl⟩

theorem cont_leaves_stop_pending :
    userProcess.proc.DefaultStops ∧ StopsNext 0 userProcess [SIGSTOP, SIGCONT] ∧ ¬ LastStops [SIGSTOP, SIGCONT] :=
  ⟨userProcess_defaultStops,
    (stopsNext_iff 0 userProcess _).mpr ((userProcess.takesStop_raiseAll _ userProcess_defaultStops).mpr
      ⟨.inr (by decide), userProcess_quietBelow (by decide)⟩),
    by rw [LastStops]; decide⟩

theorem stop_raised_last : StopsNext 0 userProcess [SIGCONT, SIGSTOP] ↔ LastStops [SIGCONT, SIGSTOP] :=
  (stop_follows_last_raised 0 userProcess [SIGCONT, SIGSTOP] userProcess_defaultStops).mpr
    ⟨fun _ => userProcess_quietBelow (by decide), fun hNot => absurd (by rw [LastStops]; decide) hNot⟩

end Fixos.Sys
