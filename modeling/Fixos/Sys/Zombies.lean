import Fixos.Sys.SignalState
import Fixos.Sys.Kernel

/-! # Zombies stay what they are

Every write to the state of a process either looks at the state before, or is made by the process itself, or by the
scheduler for a process it has found running.
-/

namespace Fixos.Sys

open Interface Arch Transition Option Function List

structure Sched.Keeps (s s' : Sched) : Prop where
  tasks : s'.tasks = s.tasks
  processList : s'.processList = s.processList
  pidUsed : s'.pidUsed = s.pidUsed
  pid : ∀ p, (s'.proc p).pid = (s.proc p).pid
  dead : ∀ p, (s.proc p).state = .zombie → s'.proc p = s.proc p
  ended : ∀ p, (s'.proc p).state = .zombie → (s.proc p).state = .zombie ∨ ∃ i, s.tasks i = some p

section

variable {s s' s'' : Sched} {p : ProcRef}

lemma Sched.Keeps.refl (s : Sched) : s.Keeps s := ⟨rfl, rfl, rfl, fun _ => rfl, fun _ _ => rfl, fun _ h => Or.inl h⟩

lemma Sched.Keeps.trans (h : s.Keeps s') (h' : s'.Keeps s'') : s.Keeps s'' where
  tasks := h'.tasks.trans h.tasks
  processList := h'.processList.trans h.processList
  pidUsed := h'.pidUsed.trans h.pidUsed
  pid p := (h'.pid p).trans (h.pid p)
  dead p hDead := (h'.dead p (by rw [h.dead p hDead, hDead])).trans (h.dead p hDead)
  ended p hDead := by
    rcases h'.ended p hDead with hMid | hTask
    · exact h.ended p hMid
    · rw [h.tasks] at hTask
      exact Or.inr hTask

lemma Sched.Keeps.table (h : s.Keeps s') (hTable : s.Table) : s'.Table := by
  obtain ⟨_, _, _, _, _, _, _, _⟩ := hTable
  constructor
  all_goals simp only [h.tasks, h.processList, h.pidUsed, h.pid]
  all_goals assumption

lemma Sched.keeps_update {contents : Process} (hPid : contents.pid = (s.proc p).pid)
    (hAlive : (s.proc p).state ≠ .zombie) (hEnded : contents.state = .zombie → ∃ i, s.tasks i = some p) :
    s.Keeps { s with proc := update s.proc p contents } := by
  refine ⟨rfl, rfl, rfl, fun q => ?_, fun q hDead => ?_, fun q hDead => ?_⟩
  · rcases eq_or_ne q p with rfl | hNe
    · exact (congrArg Process.pid (update_self _ _ _)).trans hPid
    · exact congrArg Process.pid (update_of_ne hNe _ _)
  · refine update_of_ne ?_ _ _
    rintro rfl
    exact hAlive hDead
  · dsimp only at hDead
    rcases eq_or_ne q p with rfl | hNe
    · rw [update_self] at hDead
      exact Or.inr (hEnded hDead)
    · rw [update_of_ne hNe] at hDead
      exact Or.inl hDead

variable {state : ProcState}

lemma Sched.keeps_setState (hAlive : (s.proc p).state ≠ .zombie) (hState : state ≠ .zombie) :
    s.Keeps (s.setState p state) :=
  Sched.keeps_update rfl hAlive fun hDead => absurd hDead hState

lemma Sched.setState_self (s : Sched) (p : ProcRef) : s.setState p (s.proc p).state = s := by
  rw [Sched.setState, update_eq_self]

lemma Sched.keeps_state (hDead : (s.proc p).state = .zombie → state = .zombie)
    (hAlive : (s.proc p).state ≠ .zombie → state ≠ .zombie) : s.Keeps (s.setState p state) := by
  rcases eq_or_ne (s.proc p).state .zombie with hZombie | hNot
  · rw [hDead hZombie, ← hZombie, s.setState_self]
    exact .refl s
  · exact Sched.keeps_setState hNot (hAlive hNot)

end

/-- A write that makes no zombie, revives none and stops nobody. -/
structure ProcState.Mild (state written : ProcState) : Prop where
  zombie : written = .zombie ↔ state = .zombie
  stopped : written = .stopped → state = .stopped

lemma ProcState.mild_wakeUp (state : ProcState) : state.Mild state.wakeUp := by
  constructor <;> cases state <;> decide

lemma ProcState.mild_signalRaise (proc : SigProcess) (sig : Nat) : proc.state.Mild (signalRaise proc sig).state := by
  have hWake := proc.state.mild_wakeUp
  have hCont : ProcState.cont = .running := rfl
  simp only [signalRaise]
  split <;> split
  · refine ⟨?_, ?_⟩ <;> simp_all [schedWakeUp, schedContProc]
  · exact hWake
  · refine ⟨?_, ?_⟩ <;> simp_all [schedContProc]
  · exact ⟨Iff.rfl, id⟩

lemma ProcState.mild_sysSigaction (proc : SigProcess) (sig : Int) (act : Option Sigaction) :
    proc.state.Mild (sysSigaction proc sig act).2.1.state := by
  obtain ⟨_, hEq⟩ := sysSigaction_eq proc sig act
  rw [hEq]
  exact ⟨Iff.rfl, id⟩

lemma ProcState.mild_sysSigprocmask (proc : SigProcess) (how : Int) (set : Option Sigset) :
    proc.state.Mild (sysSigprocmask proc how set).1.state := by
  obtain ⟨_, hEq⟩ := sysSigprocmask_eq proc how set
  rw [hEq]
  exact ⟨Iff.rfl, id⟩

/-- Zombies and the current process have their slots, and no user context of a zombie is left. -/
structure Kernel.Inv (k : Kernel) : Prop where
  table : k.sched.Table
  zombie_task : ∀ p ∈ k.sched.processList, k.state p = .zombie → ∃ i, k.sched.tasks i = some p
  current_task : ∀ p, k.current = some p → ∃ i, k.sched.tasks i = some p
  dead : ∀ p, k.state p = .zombie →
    (∀ acnt ∈ k.contexts p, acnt.privileged = true) ∧ (k.current = some p → k.inUser = false)

lemma Kernel.boot_kernelInv (stale : Process) (signals : ProcRef → Signals) (mem : ProcRef → UserMem) :
    (Kernel.boot stale signals mem).Inv where
  table := (WaitRun.boot_inv stale).table
  zombie_task _ h := absurd h not_mem_nil
  current_task _ h := by cases h
  dead _ _ := ⟨fun _ h => absurd h not_mem_nil, fun h => by cases h⟩

section

variable {trampoline : Word32} {k k' : Kernel} {p : ProcRef}

lemma Kernel.Inv.of_keeps (h : k.Inv) (hKeeps : k.sched.Keeps k'.sched)
    (hCurrent : ∀ p, k'.current = some p → ∃ i, k.sched.tasks i = some p)
    (hDead : ∀ p, k'.state p = .zombie →
      (∀ acnt ∈ k'.contexts p, acnt.privileged = true) ∧ (k'.current = some p → k'.inUser = false)) : k'.Inv where
  table := hKeeps.table h.table
  zombie_task p hp hZombie := by
    rw [hKeeps.tasks]
    rcases hKeeps.ended p hZombie with hOld | hTask
    · exact h.zombie_task p (hKeeps.processList ▸ hp) hOld
    · exact hTask
  current_task p hp := by
    rw [hKeeps.tasks]
    exact hCurrent p hp
  dead := hDead

lemma Sched.state_setState (s : Sched) (p q : ProcRef) (state : ProcState) :
    ((s.setState p state).proc q).state = if q = p then state else (s.proc q).state := by
  rcases eq_or_ne q p with rfl | hNe
  · simp [Sched.setState]
  · simp [Sched.setState, hNe]

namespace Kernel

structure Writes (k k' : Kernel) (p : ProcRef) (state : ProcState) : Prop where
  sched : k'.sched = k.sched.setState p state
  current : k'.current = k.current
  inUser : k'.inUser = k.inUser
  contexts : k'.contexts = k.contexts
  mild : (k.state p).Mild state

lemma Inv.writes {state : ProcState} (h : k.Inv) (hWrites : k.Writes k' p state) : k.sched.Keeps k'.sched ∧ k'.Inv := by
  have hKeeps : k.sched.Keeps k'.sched :=
    hWrites.sched ▸ Sched.keeps_state hWrites.mild.zombie.mpr (mt hWrites.mild.zombie.mp)
  refine ⟨hKeeps, h.of_keeps hKeeps (fun q hq => h.current_task q (hWrites.current ▸ hq)) fun q hq => ?_⟩
  rw [hWrites.contexts, hWrites.current, hWrites.inUser]
  rw [Kernel.state, hWrites.sched, Sched.state_setState] at hq
  split_ifs at hq with hEq
  · subst hEq
    exact h.dead q (hWrites.mild.zombie.mp hq)
  · exact h.dead q hq

lemma nextTask_spec {slot : Nat} (h : k.nextTask = some (slot, p)) :
    k.sched.tasks slot = some p ∧ k.state p = .running := by
  obtain ⟨i, _, hSlot⟩ := exists_of_findSome?_eq_some h
  obtain ⟨q, hFilter, ⟨⟩⟩ := map_eq_some_iff.mp hSlot
  obtain ⟨hTask, hState⟩ := filter_eq_some_iff.mp hFilter
  exact ⟨hTask, by simpa using hState⟩

lemma caller_spec (h : k.caller = some p) : k.inUser = false ∧ k.current = some p ∧ k.state p ≠ .zombie := by
  unfold caller at h
  cases hUser : k.inUser with
  | true => simp [hUser] at h
  | false =>
    rw [hUser, if_neg Bool.false_ne_true] at h
    obtain ⟨hCurrent, hState⟩ := filter_eq_some_iff.mp h
    exact ⟨rfl, hCurrent, by simpa using hState⟩

lemma Inv.terminate (h : k.Inv) (hTask : ∃ i, k.sched.tasks i = some p) (hAlive : k.state p ≠ .zombie) (status : Int) :
    k.sched.Keeps (k.terminate p status).sched ∧ (k.terminate p status).Inv := by
  have hKeeps : k.sched.Keeps (k.terminate p status).sched := Sched.keeps_update rfl hAlive fun _ => hTask
  refine ⟨hKeeps, h.of_keeps hKeeps h.current_task fun q hq => ⟨fun acnt hAcnt => ?_, fun _ => rfl⟩⟩
  rcases eq_or_ne q p with rfl | hNe
  · simp [Kernel.terminate] at hAcnt
  · have hOld : k.state q = .zombie := by
      rw [Kernel.state, Kernel.terminate, processTerminate] at hq
      dsimp only at hq
      rwa [update_of_ne hNe] at hq
    rw [Kernel.terminate] at hAcnt
    dsimp only at hAcnt
    rw [update_of_ne hNe] at hAcnt
    exact (h.dead q hOld).1 acnt hAcnt

lemma Inv.save (h : k.Inv) (acnt : Context) (hMode : acnt.privileged = !k.inUser) :
    (k.save acnt).sched = k.sched ∧ (k.save acnt).inUser = false ∧ (k.save acnt).Inv := by
  unfold Kernel.save
  cases hCurrent : k.current with
  | none =>
    refine ⟨rfl, rfl, h.of_keeps (.refl _) (fun q hq => ?_) fun q hq => ⟨(h.dead q hq).1, fun _ => rfl⟩⟩
    exact h.current_task q (hCurrent.trans hq)
  | some p =>
    refine ⟨rfl, rfl, h.of_keeps (.refl _) (fun q hq => ?_) fun q hq => ⟨fun c hc => ?_, fun _ => rfl⟩⟩
    · exact h.current_task q (hCurrent.trans hq)
    · have hOld := h.dead q hq
      dsimp only at hc
      rcases eq_or_ne q p with rfl | hNe
      · rw [update_self] at hc
        rcases mem_cons.mp hc with rfl | hc
        · rw [hMode, hOld.2 hCurrent]
          rfl
        · exact hOld.1 c hc
      · rw [update_of_ne hNe] at hc
        exact hOld.1 c hc

lemma Inv.contextjmp (h : k.Inv) (hTask : ∃ i, k.sched.tasks i = some p) (hAlive : k.state p ≠ .zombie)
    (k₁ : Kernel) (hSched : k₁.sched = k.sched) (hUser : k₁.inUser = false)
    (hContexts : ∀ q ≠ p, k₁.contexts q = k.contexts q) :
    k.sched.Keeps (k₁.contextjmp p).sched ∧ (k₁.contextjmp p).Inv := by
  have hKeeps : k.sched.Keeps (k₁.contextjmp p).sched := by
    rw [Kernel.contextjmp, hSched]
    exact Sched.keeps_setState hAlive (by decide)
  refine ⟨hKeeps, h.of_keeps hKeeps (fun q hq => ?_) fun q hq => ⟨fun c hc => ?_, fun _ => hUser⟩⟩
  · cases hq
    exact hTask
  · have hOther : q ≠ p ∧ k.state q = .zombie := by
      rw [Kernel.state, Kernel.contextjmp, hSched, Sched.state_setState] at hq
      split at hq
      · cases hq
      · exact ⟨‹_›, hq⟩
    rw [Kernel.contextjmp] at hc
    rw [hContexts q hOther.1] at hc
    exact (h.dead q hOther.2).1 c hc

lemma Inv.contextSavedNext (h : k.Inv) (hUser : k.inUser = false) :
    k.sched.Keeps k.contextSavedNext.sched ∧ k.contextSavedNext.Inv := by
  unfold Kernel.contextSavedNext
  dsimp only
  split
  · rename_i slot p hNext
    obtain ⟨hTask, hState⟩ := nextTask_spec hNext
    have hAlive : k.state p ≠ .zombie := by
      rw [show k.state p = .running from hState]
      decide
    exact h.contextjmp ⟨slot, hTask⟩ hAlive
      { k with quantumLeft := schedQuantumTicks, needReschedule := false, curTask := slot } rfl hUser fun q _ => rfl
  · exact ⟨.refl _, h.of_keeps (.refl _) (fun q hq => by cases hq) fun q hq => ⟨(h.dead q hq).1, fun _ => hUser⟩⟩

/-- The current process, the one that the scheduler selects or, after a jump, the caller again. -/
inductive Arrives (k k' : Kernel) : Prop
  | stays (h : k' = k)
  | selects (mid : Kernel) (hMid : mid = k ∨ ∃ acnt, acnt.privileged = true ∧ mid = k.save acnt)
      (h : k' = mid.contextSavedNext)
  | jumps (p : ProcRef) (mid : Kernel) (hCaller : k.caller = some p) (hSched : mid.sched = k.sched)
      (hUser : mid.inUser = k.inUser) (hContexts : ∀ q ≠ p, mid.contexts q = k.contexts q) (h : k' = mid.contextjmp p)

variable {way : WayBack}

lemma arrive_spec (h : k.arrive way = some k') : k.inUser = false ∧ k.Arrives k' := by
  cases way with
  | leave =>
    simp only [Kernel.arrive] at h
    split at h
    · cases h
    · cases h
      refine ⟨Bool.not_eq_true _ ▸ ‹_›, ?_⟩
      unfold schedIfNeeded
      split
      · exact .selects k (Or.inl rfl) rfl
      · exact .stays rfl
  | schedule acnt =>
    simp only [Kernel.arrive] at h
    split at h
    · cases h
    · rename_i hNot
      obtain ⟨hUser, hMode⟩ := not_or.mp hNot
      cases h
      exact ⟨Bool.not_eq_true _ ▸ hUser, .selects _ (Or.inr ⟨acnt, Bool.not_eq_false _ ▸ hMode, rfl⟩) rfl⟩
  | execJump acnt =>
    simp only [Kernel.arrive] at h
    split at h
    · cases h
    · obtain ⟨p, hCaller, rfl⟩ := map_eq_some_iff.mp h
      exact ⟨(caller_spec hCaller).1, .jumps p { k with contexts := update k.contexts p [acnt] } hCaller rfl rfl
        (fun q hq => update_of_ne hq _ _) rfl⟩
  | sigreturn =>
    obtain ⟨p, hCaller, hRest⟩ := bind_eq_some_iff.mp h
    obtain ⟨acnt, _, hRest⟩ := bind_eq_some_iff.mp hRest
    obtain ⟨⟨restored, oldmask⟩, _, ⟨⟩⟩ := bind_eq_some_iff.mp hRest
    exact ⟨(caller_spec hCaller).1, .jumps p { k with
        contexts := update k.contexts p [restored]
        signals := update k.signals p { k.signals p with blocked := oldmask } } hCaller rfl rfl
      (fun q hq => update_of_ne hq _ _) rfl⟩

lemma Inv.arrive (h : k.Inv) (hArrive : k.arrive way = some k') : k.sched.Keeps k'.sched ∧ k'.Inv := by
  obtain ⟨hUser, hArrives⟩ := arrive_spec hArrive
  cases hArrives with
  | stays hSame =>
    subst hSame
    exact ⟨.refl _, h⟩
  | selects mid hMid hSelects =>
    subst hSelects
    rcases hMid with rfl | ⟨acnt, hMode, rfl⟩
    · exact h.contextSavedNext hUser
    · obtain ⟨hSched, hFlag, hInv⟩ := h.save acnt (by rw [hMode, hUser]; rfl)
      exact hSched ▸ hInv.contextSavedNext hFlag
  | jumps p mid hCaller hSched hMode hContexts hJump =>
    obtain ⟨_, hCurrent, hAlive⟩ := caller_spec hCaller
    exact hJump ▸ h.contextjmp (h.current_task p hCurrent) hAlive mid hSched (hMode.trans hUser) hContexts

lemma Inv.resume (h : k.Inv) (hResume : k.resume trampoline = some k') : k.sched.Keeps k'.sched ∧ k'.Inv := by
  unfold Kernel.resume at hResume
  cases hCurrent : k.current with
  | none =>
    simp only [hCurrent] at hResume
    cases hResume
    refine ⟨.refl _, h.of_keeps (.refl _) (fun q hq => h.current_task q (hCurrent.trans hq)) fun q hq =>
      ⟨(h.dead q hq).1, fun _ => rfl⟩⟩
  | some p =>
    simp only [hCurrent] at hResume
    cases hContexts : k.contexts p with
    | nil => simp [hContexts] at hResume
    | cons acnt older =>
      simp only [hContexts] at hResume
      have hHead : k.state p = .zombie → acnt.privileged = true := fun hDead =>
        (h.dead p hDead).1 acnt (hContexts ▸ mem_cons_self)
      cases hDeliver : deliverAndResume trampoline (k.view p acnt) with
      | returned st | oops => simp [hDeliver] at hResume
      | terminated st status =>
        simp only [hDeliver] at hResume
        cases hResume
        refine h.terminate (h.current_task p hCurrent) (fun hDead => ?_) status
        rw [deliverAndResume_of_privileged (hHead hDead)] at hDeliver
        cases hDeliver
      | resumed st =>
        simp only [hDeliver] at hResume
        cases hResume
        have hMode : st.proc.acnt.privileged = acnt.privileged := deliverAndResume_privileged hDeliver
        have hDead : k.state p = .zombie → st.proc.state = .zombie := by
          intro hDead
          refine (deliverAndResume_state hDeliver fun hUser => ?_).trans hDead
          rw [show (k.view p acnt).proc.acnt.privileged = true from hHead hDead] at hUser
          cases hUser
        have hAlive : k.state p ≠ .zombie → st.proc.state ≠ .zombie := deliverAndResume_alive hDeliver
        have hKeeps : k.sched.Keeps (k.sched.setState p st.proc.state) := Sched.keeps_state hDead hAlive
        refine ⟨hKeeps, h.of_keeps hKeeps h.current_task fun q hq => ?_⟩
        rw [Kernel.state, put, Sched.state_setState] at hq
        dsimp only
        split_ifs at hq with hEq
        · subst hEq
          have hOld : k.state q = .zombie := by_contra fun hNot => hAlive hNot hq
          refine ⟨fun c hc => ?_, fun _ => ?_⟩
          · rw [update_self] at hc
            exact (h.dead q hOld).1 c (hContexts ▸ mem_cons_of_mem _ hc)
          · rw [hMode, hHead hOld]
            rfl
        · rw [update_of_ne hEq]
          refine ⟨(h.dead q hq).1, fun hSame => ?_⟩
          rw [put, hCurrent] at hSame
          exact absurd (some.inj hSame).symm hEq

variable {sched : Sched}

lemma Inv.born {fresh : ProcRef} {parent : Option ProcRef} (h : k.Inv)
    (hAdds : k.sched.Adds sched fresh parent) (acnt : Context) (signals : Signals) (mem : UserMem) :
    (k.born sched fresh acnt signals mem).Inv := by
  have hNew : ∀ q, (sched.proc q).state = .zombie → q ≠ fresh ∧ k.state q = .zombie := by
    intro q hq
    have hNe : q ≠ fresh := by
      rintro rfl
      exact hAdds.state_ne.1 hq
    rw [hAdds.proc_other q hNe] at hq
    exact ⟨hNe, hq⟩
  refine ⟨h.table.adds hAdds, fun q hq hZombie => ?_, fun q hq => ?_, fun q hq => ?_⟩
  · obtain ⟨hNe, hOld⟩ := hNew q hZombie
    have hMem : q ∈ fresh :: k.sched.processList := hAdds.processList ▸ hq
    obtain ⟨i, hi⟩ := h.zombie_task q ((mem_cons.mp hMem).resolve_left hNe) hOld
    exact ⟨i, hAdds.tasks_kept hi⟩
  · obtain ⟨i, hi⟩ := h.current_task q hq
    exact ⟨i, hAdds.tasks_kept hi⟩
  · obtain ⟨hNe, hOld⟩ := hNew q hq
    simp only [Kernel.born, update_of_ne hNe]
    exact h.dead q hOld

lemma Inv.wait {cur : ProcRef} (h : k.Inv) (hCaller : k.caller = some cur)
    (hWaits : k.sched.Waits sched cur) : Inv { k with sched } := by
  obtain ⟨_, hCurrent, hAlive⟩ := caller_spec hCaller
  refine ⟨hWaits.table, fun q hq hZombie => ?_, fun q hq => ?_, fun q hq => ?_⟩
  · obtain ⟨hOld, hKept⟩ := (hWaits.listed q).mp hq
    rw [Kernel.state, hWaits.proc] at hZombie
    obtain ⟨i, hi⟩ := h.zombie_task q hOld hZombie
    exact ⟨i, hWaits.slot_kept hi hKept⟩
  · obtain ⟨i, hi⟩ := h.current_task q hq
    refine ⟨i, hWaits.slot_kept hi fun j hChild => ?_⟩
    obtain rfl : cur = q := some.inj (hCurrent.symm.trans hq)
    exact hAlive (Sched.mem_zombieIn.mp hChild).2.2
  · rw [Kernel.state, hWaits.proc] at hq
    exact h.dead q hq

inductive Effect (k : Kernel) (a : KernelAction) (k' : Kernel) : Prop
  | keeps (h : k.sched.Keeps k'.sched)
  | adds (fresh : ProcRef) (parent : Option ProcRef) (h : k.sched.Adds k'.sched fresh parent)
  | waits (wantStatus : Bool) (cur : ProcRef) (hAction : a = .wait wantStatus) (hCaller : k.caller = some cur)
      (h : k.sched.Waits k'.sched cur)

inductive Move (trampoline : Word32) (k : Kernel) (a : KernelAction) (k' : Kernel) : Prop
  | enter (acnt : Context) (hMode : acnt.privileged = !k.inUser) (h : k' = k.save acnt)
  | write (p : ProcRef) (state : ProcState) (h : k.Writes k' p state)
  | adds (sched : Sched) (fresh : ProcRef) (parent : Option ProcRef) (hAdds : k.sched.Adds sched fresh parent)
      (acnt : Context)
      (signals : Signals) (mem : UserMem) (h : k' = k.born sched fresh acnt signals mem)
  | wait (wantStatus : Bool) (p : ProcRef) (hAction : a = .wait wantStatus) (hCaller : k.caller = some p)
      (h : k' = { k with sched := (sysWaitTurn k.sched p wantStatus).1 })
  | exit (p : ProcRef) (status : Int) (hCaller : k.caller = some p) (h : k' = k.terminate p status)
  | back (way : WayBack) (mid : Kernel) (hAction : a = .back way) (hArrive : k.arrive way = some mid)
      (hResume : mid.resume trampoline = some k')

variable {a : KernelAction}

lemma Move.mapSignals (k : Kernel) (p : ProcRef) {f : SigProcess → SigProcess}
    (hMild : ∀ proc : SigProcess, proc.state.Mild (f proc).state) : Move trampoline k a (k.mapSignals p f) :=
  .write p _ ⟨rfl, rfl, rfl, rfl, hMild (k.view p ⟨fun _ => 0, 0, 0, 0, 0, 0, 0, 0⟩).proc⟩

lemma step_move (hStep : k.step trampoline a = some k') : Move trampoline k a k' := by
  have hQuiet : k'.sched = k.sched → k'.current = k.current → k'.inUser = k.inUser → k'.contexts = k.contexts →
      Move trampoline k a k' := fun hSched hCurrent hUser hContexts =>
    .write 0 (k.state 0) ⟨hSched.trans (k.sched.setState_self 0).symm, hCurrent, hUser, hContexts, Iff.rfl, id⟩
  cases a with
  | start fresh acnt mem =>
    simp only [Kernel.step] at hStep
    split at hStep
    · cases hStep
    · obtain ⟨s, hAlloc, rfl⟩ := map_eq_some_iff.mp hStep
      obtain ⟨hAdds, hTasks⟩ := processAlloc_adds hAlloc
      exact .adds _ fresh none (schedAddTask_adds hAdds hTasks) _ _ _ rfl
  | user mem =>
    simp only [Kernel.step] at hStep
    split at hStep
    · obtain ⟨p, _, rfl⟩ := map_eq_some_iff.mp hStep
      exact hQuiet rfl rfl rfl rfl
    · cases hStep
  | enter acnt =>
    obtain ⟨hMode, ⟨⟩⟩ := ite_none_right_eq_some.mp hStep
    exact .enter acnt hMode rfl
  | tick | preemptBlock | preemptUnblock =>
    cases hStep
    exact hQuiet rfl rfl rfl rfl
  | wakeUp p =>
    cases hStep
    exact .write p _ ⟨rfl, rfl, rfl, rfl, (k.state p).mild_wakeUp⟩
  | raise p sig =>
    cases hStep
    exact .mapSignals k p fun proc => ProcState.mild_signalRaise proc sig
  | sigaction sig act =>
    obtain ⟨p, _, rfl⟩ := map_eq_some_iff.mp hStep
    exact .mapSignals k p fun proc => ProcState.mild_sysSigaction proc sig act
  | sigprocmask how set =>
    obtain ⟨p, _, rfl⟩ := map_eq_some_iff.mp hStep
    exact .mapSignals k p fun proc => ProcState.mild_sysSigprocmask proc how set
  | sleep | loadImage mem =>
    obtain ⟨p, hCaller, rfl⟩ := map_eq_some_iff.mp hStep
    have hAlive := (caller_spec hCaller).2.2
    exact .write p _ ⟨rfl, rfl, rfl, rfl, iff_of_false (by decide) hAlive, fun hStopped => by cases hStopped⟩
  | fork fresh kstack =>
    obtain ⟨p, _, hFork⟩ := bind_eq_some_iff.mp hStep
    unfold fork at hFork
    split at hFork
    · obtain ⟨s, hNew, rfl⟩ := map_eq_some_iff.mp hFork
      exact .adds s fresh (some p) (sysFork_adds hNew) _ _ _ rfl
    · cases hFork
      exact hQuiet rfl rfl rfl rfl
  | wait wantStatus =>
    obtain ⟨p, hCaller, rfl⟩ := map_eq_some_iff.mp hStep
    exact .wait wantStatus p rfl hCaller rfl
  | exit status =>
    obtain ⟨p, hCaller, rfl⟩ := map_eq_some_iff.mp hStep
    exact .exit p status hCaller rfl
  | back way =>
    obtain ⟨mid, hArrive, hResume⟩ := bind_eq_some_iff.mp hStep
    exact .back way mid rfl hArrive hResume

lemma Inv.step (h : k.Inv) (hStep : k.step trampoline a = some k') : k.Effect a k' ∧ k'.Inv := by
  have hQuiet : k.sched.Keeps k'.sched ∧ k'.Inv → k.Effect a k' ∧ k'.Inv := fun hKept => ⟨.keeps hKept.1, hKept.2⟩
  cases step_move hStep with
  | enter acnt hMode hSave =>
    obtain ⟨hSched, _, hInv⟩ := h.save acnt hMode
    exact hQuiet (hSave ▸ ⟨hSched ▸ .refl _, hInv⟩)
  | write p state hWrites => exact hQuiet (h.writes hWrites)
  | adds sched fresh parent hAdds acnt signals mem hBorn =>
    exact hBorn ▸ ⟨.adds fresh parent hAdds, h.born hAdds _ _ _⟩
  | wait wantStatus p hAction hCaller hWait =>
    have hWaits := h.table.wait p wantStatus
    exact hWait ▸ ⟨.waits wantStatus p hAction hCaller hWaits, h.wait hCaller hWaits⟩
  | exit p status hCaller hExit =>
    obtain ⟨_, hCurrent, hAlive⟩ := caller_spec hCaller
    exact hQuiet (hExit ▸ h.terminate (h.current_task p hCurrent) hAlive status)
  | back way mid _ hArrive hResume =>
    obtain ⟨hKeeps, hInv⟩ := h.arrive hArrive
    obtain ⟨hKeeps', hInv'⟩ := hInv.resume hResume
    exact hQuiet ⟨hKeeps.trans hKeeps', hInv'⟩

end Kernel

end

section

variable {trampoline : Word32} {k k' : Kernel} {a : KernelAction} {i : Nat} {p q cur : ProcRef} {status : Int}

namespace Kernel

structure ZombieAt (k : Kernel) (i : Nat) (p : ProcRef) (status : Int) : Prop where
  task : k.sched.tasks i = some p
  state : k.state p = .zombie
  status : (k.sched.proc p).exitStatus = status

/-- The step is a `sys_wait` of the parent of `p` that empties its slot and frees it. -/
structure ReapedBy (k : Kernel) (a : KernelAction) (k' : Kernel) (i : Nat) (p cur : ProcRef) : Prop where
  action : ∃ wantStatus, a = .wait wantStatus
  caller : k.caller = some cur
  parent : (k.sched.proc p).parent = some cur
  slot : k'.sched.tasks i = none
  freed : p ∉ k'.sched.processList

lemma ZombieAt.step (hZombie : k.ZombieAt i p status) (h : k.Inv)
    (hStep : k.step trampoline a = some k') : k'.ZombieAt i p status ∨ ∃ cur, k.ReapedBy a k' i p cur := by
  obtain ⟨hTask, hState, hStatus⟩ := hZombie
  cases (h.step hStep).1 with
  | keeps hKeeps =>
    have hProc := hKeeps.dead p hState
    refine Or.inl ⟨by rw [hKeeps.tasks, hTask], ?_, ?_⟩
    · rw [Kernel.state, hProc]
      exact hState
    · rw [hProc, hStatus]
  | adds fresh parent hAdds =>
    have hNe : p ≠ fresh := by
      rintro rfl
      exact hAdds.fresh_free (h.table.listed i p hTask)
    have hProc := hAdds.proc_other p hNe
    refine Or.inl ⟨hAdds.tasks_kept hTask, ?_, ?_⟩
    · rw [Kernel.state, hProc]
      exact hState
    · rw [hProc, hStatus]
  | waits wantStatus cur hAction hCaller hWaits =>
    rcases eq_or_ne (k.sched.proc p).parent (some cur) with hParent | hOther
    · have hChild : k.sched.zombieIn cur i = some p := Sched.mem_zombieIn.mpr ⟨hTask, hParent, hState⟩
      refine Or.inr ⟨cur, ⟨wantStatus, hAction⟩, hCaller, hParent, ?_, fun hMem => ?_⟩
      · rw [hWaits.tasks, hChild]
        rfl
      · exact ((hWaits.listed p).mp hMem).2 i hChild
    · refine Or.inl ⟨?_, ?_, ?_⟩
      · exact hWaits.slot_kept hTask fun j hChild => hOther (Sched.mem_zombieIn.mp hChild).2.1
      · rw [Kernel.state, hWaits.proc]
        exact hState
      · rw [hWaits.proc, hStatus]

lemma current_contextSavedNext (h : k.contextSavedNext.current = some q) :
    (∃ slot, k.sched.tasks slot = some q) ∧ k.state q = .running := by
  unfold Kernel.contextSavedNext at h
  dsimp only at h
  split at h
  · rename_i slot p hNext
    obtain ⟨hTask, hState⟩ := nextTask_spec hNext
    cases h
    exact ⟨⟨slot, hTask⟩, hState⟩
  · cases h

lemma resume_current (h : k.resume trampoline = some k') : k'.current = k.current := by
  unfold Kernel.resume at h
  split at h
  · cases h
    rfl
  · split at h
    · cases h
    · split at h <;> cases h <;> rfl

@[simp] lemma save_sched (k : Kernel) (acnt : Context) : (k.save acnt).sched = k.sched := by
  unfold Kernel.save
  split <;> rfl

@[simp] lemma save_current (k : Kernel) (acnt : Context) : (k.save acnt).current = k.current := by
  unfold Kernel.save
  split <;> simp_all

lemma step_switch (hStep : k.step trampoline a = some k') (hNext : k'.current = some q)
    (hOther : k.current ≠ some q) : k.state q = .running := by
  cases step_move hStep with
  | enter acnt _ hSave => exact absurd ((k.save_current acnt).symm.trans (hSave ▸ hNext)) hOther
  | write p state hWrites => exact absurd (hWrites.current.symm.trans hNext) hOther
  | adds _ _ _ _ _ _ _ hEq | wait _ _ _ _ hEq | exit _ _ _ hEq =>
    subst hEq
    exact absurd hNext hOther
  | back way mid _ hArrive hResume =>
    rw [resume_current hResume] at hNext
    cases (arrive_spec hArrive).2 with
    | stays hSame => exact absurd (hSame ▸ hNext) hOther
    | selects mid' hMid hSelects =>
      subst hSelects
      have hRunning := (current_contextSavedNext hNext).2
      rcases hMid with rfl | ⟨acnt, _, rfl⟩
      · exact hRunning
      · rwa [Kernel.state, save_sched] at hRunning
    | jumps p mid' hCaller _ _ _ hJump =>
      subst hJump
      cases hNext
      exact absurd (caller_spec hCaller).2.1 hOther

end Kernel

end

/-- Only the idle task and running processes are switched to, and a zombie keeps its slot and its status until its
parent waits. -/
theorem zombies_await_parent (trampoline : Word32) (stale : Process) (signals : ProcRef → Signals)
    (mem : ProcRef → UserMem) (actions : List KernelAction) (k : Kernel)
    (hRun : Run (Kernel.step trampoline) always (Kernel.boot stale signals mem) actions k) :
    (∀ q, k.contextSavedNext.current = some q → k.state q = .running) ∧
    (∀ a k' q, k.step trampoline a = some k' → k'.current = some q → k.current ≠ some q → k.state q = .running) ∧
    (∀ p ∈ k.sched.processList, k.state p = .zombie → ∃ i < schedMaxTasks, k.sched.tasks i = some p) ∧
    ∀ i p status, k.ZombieAt i p status → ∀ later k', Run (Kernel.step trampoline) always k later k' →
      k'.ZombieAt i p status ∨
      ∃ before a after u v, later = before ++ a :: after ∧ Run (Kernel.step trampoline) always k before u ∧
        u.ZombieAt i p status ∧ u.step trampoline a = some v ∧ (∃ cur, u.ReapedBy a v i p cur) ∧
        Run (Kernel.step trampoline) always v after k' := by
  have hInv : k.Inv := hRun.invariant (fun _ _ _ _ h hStep => (h.step hStep).2) (Kernel.boot_kernelInv stale signals mem)
  refine ⟨fun q hq => (Kernel.current_contextSavedNext hq).2, fun a k' q => Kernel.step_switch, fun p hp hZombie => ?_, ?_⟩
  · obtain ⟨i, hi⟩ := hInv.zombie_task p hp hZombie
    exact ⟨i, hInv.table.slot_lt i p hi, hi⟩
  · intro i p status hZombie later k' hLater
    have hStep : ∀ (s : Kernel) a (t : Kernel), s.Inv ∧ s.ZombieAt i p status → s.step trampoline a = some t →
        (t.Inv ∧ t.ZombieAt i p status) ∨ ∃ cur, s.ReapedBy a t i p cur := by
      rintro s a t ⟨hs, hAt⟩ hTaken
      rcases hAt.step hs hTaken with hKept | hReaped
      · exact Or.inl ⟨(hs.step hTaken).2, hKept⟩
      · exact Or.inr hReaped
    rcases hLater.lasts_or_ends (fun s a t _ => hStep s a t) ⟨hInv, hZombie⟩ with hLast |
      ⟨before, a, after, u, v, hSplit, hBefore, hu, ha, hEnd, hAfter⟩
    · exact Or.inl hLast.2
    · exact Or.inr ⟨before, a, after, u, v, hSplit, hBefore, hu.2, ha, hEnd, hAfter⟩

def plainContext (sr : Word32) : Context := ⟨fun _ => 0, 0, 0, 0, 0, sr, 0, 0⟩

def flatMem : UserMem := ⟨fun _ => 0, fun _ => true⟩

def quietKernel : Kernel := Kernel.boot blankProcess (fun _ => emptySignals) fun _ => flatMem

def childExits : List KernelAction :=
  [.start 0 (plainContext 0) flatMem, .back .leave, .enter (plainContext 0), .fork 1 7,
    .back (.schedule (plainContext SR_MD_MASK)), .enter (plainContext 0), .exit 5]

theorem zombies_await_parent_child : ∃ k, Run (Kernel.step 0) always quietKernel childExits k ∧ k.ZombieAt 1 1 5 ∧
      ∀ later k', Run (Kernel.step 0) always k later k' → k'.ZombieAt 1 1 5 ∨
        ∃ before a after u v, later = before ++ a :: after ∧ Run (Kernel.step 0) always k before u ∧
          u.ZombieAt 1 1 5 ∧ u.step 0 a = some v ∧ (∃ cur, u.ReapedBy a v 1 1 cur) ∧
          Run (Kernel.step 0) always v after k' := by
  have hEval : (exec (Kernel.step 0) quietKernel childExits).map (fun k =>
      (k.sched.tasks 1, k.state 1, (k.sched.proc 1).exitStatus)) = some (some 1, .zombie, 5) := by
    decide +kernel
  obtain ⟨k, hExec, hEq⟩ := map_eq_some_iff.mp hEval
  simp only [Prod.mk.injEq] at hEq
  have hZombie : k.ZombieAt 1 1 5 := ⟨hEq.1, hEq.2.1, hEq.2.2⟩
  have hRun : Run (Kernel.step 0) always quietKernel childExits k := run_of_exec hExec
  exact ⟨k, hRun, hZombie, (zombies_await_parent 0 blankProcess _ _ childExits k hRun).2.2.2 1 1 5 hZombie⟩

end Fixos.Sys
