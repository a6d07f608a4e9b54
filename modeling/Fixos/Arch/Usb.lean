import Fixos.Utils.CyclicFifo

/-! # The receiving side of the USB controller (`arch/sh/modules/usb.c`)

Packets that arrive at the out endpoints wait in the controller.
-/

namespace Fixos.Arch

open Utils Transition Buffer Option Function List

def usbEp0oBufferSize : Nat := 128
def usbEp1oBufferSize : Nat := 512

/-- The packets are those that the controller holds, the one in the data register first. -/
structure OutEndpoint where
  fifo : CyclicFifo
  enabled : Bool
  flagged : Bool
  packets : List Bytes
deriving DecidableEq

def OutEndpoint.data (ep : OutEndpoint) : Bytes := ep.packets.headD []

def OutEndpoint.raised (ep : OutEndpoint) : Bool := ep.enabled && ep.flagged

/-- `handed` is what the receive callback was called with. -/
structure Usb where
  ep0o : OutEndpoint
  ep1o : OutEndpoint
  brst : Bool
  setup : Bool
  callback : Bool
  handed : Bytes
deriving DecidableEq

def copyPacket (fifo : CyclicFifo) (data : Bytes) : Option CyclicFifo :=
  (ringFill fifo.maxSize fifo.buffer ((fifo.top + fifo.size) % fifo.maxSize) data).map fun buffer =>
    { fifo with buffer, size := fifo.size + data.length }

def Usb.handleReset (u : Usb) : Usb :=
  if u.brst then { u with brst := false, ep0o.packets := [], ep1o.packets := [] } else u

def Usb.handleSetup (u : Usb) : Usb :=
  if u.setup then { u with setup := false, ep0o.packets := [] } else u

/-- A packet of endpoint 0 is gone afterwards, whether it fits or not. -/
def Usb.handleEp0o (u : Usb) : Option Usb :=
  if u.ep0o.raised then
    let ep := { u.ep0o with flagged := false, packets := u.ep0o.packets.tail }
    if 0 < u.ep0o.data.length ∧ u.ep0o.fifo.size + u.ep0o.data.length ≤ u.ep0o.fifo.maxSize then
      (copyPacket u.ep0o.fifo u.ep0o.data).map fun fifo => { u with ep0o := { ep with fifo } }
    else some { u with ep0o := ep }
  else some u

def Usb.handleEp1o (u : Usb) : Option Usb :=
  if u.ep1o.raised then
    if u.callback then
      some { u with
        handed := u.handed ++ u.ep1o.data
        ep1o.flagged := false
        ep1o.packets := u.ep1o.packets.tail }
    else if u.ep1o.fifo.size + u.ep1o.data.length ≤ u.ep1o.fifo.maxSize then
      (copyPacket u.ep1o.fifo u.ep1o.data).map fun fifo =>
        { u with ep1o := { u.ep1o with fifo, flagged := false, packets := u.ep1o.packets.tail } }
    else some { u with ep1o.enabled := false, ep1o.flagged := false }
  else some u

def Usb.interruptHandler (u : Usb) : Option Usb :=
  u.handleReset.handleSetup.handleEp0o.bind Usb.handleEp1o

def usbSh3Ep1Read (ep : OutEndpoint) : OutEndpoint :=
  if Word.sub ep.fifo.maxSize ep.fifo.size > ep.data.length then { ep with enabled := true } else ep

inductive UsbEndpoint where
  | ep0out
  | ep1out
  | other
deriving DecidableEq

/-- The arguments and the variables of a `usb_receive`; `ret` is the machine word. -/
structure UsbReceive where
  endpoint : UsbEndpoint
  data : Bytes
  size : Nat
  recvPartial : Bool
  recvNonblock : Bool
  ret : Nat
  triedOnce : Bool
deriving DecidableEq

def usbReceive (endpoint : UsbEndpoint) (data : Bytes) (size : Nat) (recvPartial recvNonblock : Bool) : UsbReceive :=
  { endpoint, data, size, recvPartial, recvNonblock, ret := 0, triedOnce := false }

def UsbReceive.goesOn (c : UsbReceive) : Bool :=
  c.endpoint ≠ .other && c.ret < 2 ^ 31 && c.ret < c.size && !(c.recvPartial && c.ret ≠ 0) &&
    !(c.recvNonblock && c.triedOnce)

def UsbReceive.result (c : UsbReceive) : Int :=
  if c.endpoint = .other then -1 else if c.ret < 2 ^ 31 then c.ret else (c.ret : Int) - 2 ^ 32

/-- A turn of the loop on the fifo of the endpoint, with the number of bytes taken. -/
def usbReceiveTurn (fifo : CyclicFifo) (c : UsbReceive) : Option (CyclicFifo × UsbReceive × Nat) :=
  let nbbytes := Word.add fifo.size c.ret
  let nbbytes := if nbbytes > c.size then Word.sub c.size c.ret else Word.sub nbbytes c.ret
  if 0 < nbbytes ∧ nbbytes < 2 ^ 31 then
    (cfifoPop fifo (c.data.drop c.ret) nbbytes).map fun (fifo, data) =>
      (fifo, { c with data := c.data.take c.ret ++ data, ret := Word.add c.ret nbbytes, triedOnce := true }, nbbytes)
  else some (fifo, { c with triedOnce := true }, 0)

def Usb.receiveTurn (u : Usb) (c : UsbReceive) : Option (Usb × UsbReceive × Nat) :=
  match c.endpoint with
  | .ep0out => (usbReceiveTurn u.ep0o.fifo c).map fun (fifo, c, nb) => ({ u with ep0o.fifo := fifo }, c, nb)
  | .ep1out => (usbReceiveTurn u.ep1o.fifo c).map fun (fifo, c, nb) =>
      let ep := { u.ep1o with fifo }
      ({ u with ep1o := if 0 < nb then usbSh3Ep1Read ep else ep }, c, nb)
  | .other => none

/-- `accepted` and `delivered` are what the handler took for endpoint 1 and what `usb_receive` put into buffers; `got`
is that of one call. -/
structure UsbSystem where
  usb : Usb
  calls : Nat → Option UsbReceive
  got : Nat → Bytes
  returned : List (UsbReceive × Bytes)
  accepted : Bytes
  delivered : Bytes

def OutEndpoint.init (size : Nat) (buffer : Bytes) : OutEndpoint where
  fifo := ⟨size, 0, 0, buffer⟩
  enabled := true
  flagged := false
  packets := []

def UsbSystem.init (buffer0 buffer1 : Bytes) : UsbSystem where
  usb :=
    { ep0o := .init usbEp0oBufferSize buffer0
      ep1o := .init usbEp1oBufferSize buffer1
      brst := false
      setup := false
      callback := false
      handed := [] }
  calls := fun _ => none
  got := fun _ => []
  returned := []
  accepted := []
  delivered := []

inductive UsbAction where
  | packet0 (data : Bytes)
  | packet1 (data : Bytes)
  | flags (ep0 ep1 brst setup : Bool)
  | interrupt
  | call (id : Nat) (c : UsbReceive)
  | turn (id : Nat)

def Usb.accepts (u : Usb) : Bytes :=
  if u.ep1o.raised ∧ u.callback = false ∧ u.ep1o.fifo.size + u.ep1o.data.length ≤ u.ep1o.fifo.maxSize then u.ep1o.data
  else []

def UsbSystem.turn (s : UsbSystem) (id : Nat) (c : UsbReceive) : Option UsbSystem :=
  if c.goesOn then
    (s.usb.receiveTurn c).map fun (usb, c', nb) =>
      let bytes := (c'.data.drop c.ret).take nb
      { s with
        usb
        calls := update s.calls id (some c')
        got := update s.got id (s.got id ++ bytes)
        delivered := if c.endpoint = .ep1out then s.delivered ++ bytes else s.delivered }
  else some { s with
    calls := update s.calls id none
    returned := s.returned ++ [(c, s.got id)] }

def UsbSystem.step (s : UsbSystem) : UsbAction → Option UsbSystem
  | .packet0 data => some { s with usb.ep0o := { s.usb.ep0o with packets := s.usb.ep0o.packets ++ [data], flagged := true } }
  | .packet1 data => some { s with usb.ep1o := { s.usb.ep1o with packets := s.usb.ep1o.packets ++ [data], flagged := true } }
  | .flags ep0 ep1 brst setup => some { s with usb := { s.usb with
      ep0o.flagged := s.usb.ep0o.flagged || ep0
      ep1o.flagged := s.usb.ep1o.flagged || ep1
      brst := s.usb.brst || brst
      setup := s.usb.setup || setup } }
  | .interrupt => do
    let mid ← s.usb.handleReset.handleSetup.handleEp0o
    let usb ← s.usb.interruptHandler
    return { s with usb, accepted := s.accepted ++ mid.accepts }
  | .call id c =>
    match s.calls id with
    | none => some { s with calls := update s.calls id (some c), got := update s.got id [] }
    | some _ => none
  | .turn id => (s.calls id).bind (s.turn id)

/-- Packets have at most 64 bytes, and a call begins with a buffer that has `size` bytes. -/
def UsbSystem.Allowed (_ : UsbSystem) : UsbAction → Prop
  | .packet0 data | .packet1 data => data.length ≤ 64
  | .call _ c => c = usbReceive c.endpoint c.data c.size c.recvPartial c.recvNonblock ∧ c.size ≤ c.data.length ∧
      c.size < 2 ^ 32
  | _ => True

instance UsbSystem.decidableAllowed (s : UsbSystem) (a : UsbAction) : Decidable (s.Allowed a) := by
  unfold UsbSystem.Allowed
  split <;> infer_instance

structure UsbReceive.Holds (c : UsbReceive) (got : Bytes) : Prop where
  ret_le : c.ret ≤ c.size
  size_le : c.size ≤ c.data.length
  size_lt : c.size < 2 ^ 32
  data_eq : c.data.take c.ret = got

structure UsbSystem.Inv (s : UsbSystem) : Prop where
  carries : s.usb.ep1o.fifo.Carries usbEp1oBufferSize s.accepted s.delivered
  carries0 : ∃ sent received, s.usb.ep0o.fifo.Carries usbEp0oBufferSize sent received
  callback : s.usb.callback = false
  calls : ∀ id c, s.calls id = some c → c.Holds (s.got id)
  returned : ∀ r ∈ s.returned, r.1.Holds r.2

section

variable {fifo : CyclicFifo} {data : Bytes} {u : Usb}

lemma copyPacket_eq_push (h : fifo.Valid) (hFits : fifo.size + data.length ≤ fifo.maxSize) :
    copyPacket fifo data = cfifoPush fifo data data.length := by
  obtain ⟨_, hPush, hStore⟩ := cfifoPush_eq h (le_refl data.length)
  have hAccepted : fifo.accepted data.length = data.length := Nat.min_eq_left (by omega)
  have hLength := h.length_buffer
  have hPos : (fifo.top + fifo.size) % fifo.maxSize < fifo.buffer.length := by
    rw [hLength]
    exact Nat.mod_lt _ h.pos
  obtain ⟨_, hFill, hFillStore⟩ := ringFill_ringStore data hPos (by omega)
  rw [hAccepted] at hPush hStore
  rw [hLength] at hFill
  rw [copyPacket, hFill, hPush, hFillStore.unique hPos hStore]
  rfl

variable {sent received : Bytes}

lemma copyPacket_carries {capacity : Nat} (h : fifo.Carries capacity sent received)
    (hFits : fifo.size + data.length ≤ fifo.maxSize) :
    ∃ fifo', copyPacket fifo data = some fifo' ∧ fifo'.Carries capacity (sent ++ data) received := by
  rw [copyPacket_eq_push h.valid hFits]
  rw [h.maxSize_eq] at hFits
  obtain ⟨fifo', hPush, hCarries⟩ := h.push (le_refl data.length) (by omega)
  rw [take_length] at hCarries
  exact ⟨fifo', hPush, hCarries⟩

lemma Usb.reset_setup_fifo (u : Usb) :
    u.handleReset.handleSetup.ep0o.fifo = u.ep0o.fifo ∧ u.handleReset.handleSetup.ep1o.fifo = u.ep1o.fifo ∧
      u.handleReset.handleSetup.callback = u.callback := by
  unfold Usb.handleSetup Usb.handleReset
  split_ifs <;> exact ⟨rfl, rfl, rfl⟩

lemma Usb.handleEp0o_spec (h : ∃ sent received, u.ep0o.fifo.Carries usbEp0oBufferSize sent received) :
    ∃ u', u.handleEp0o = some u' ∧ u'.ep1o = u.ep1o ∧ u'.callback = u.callback ∧
      ∃ sent received, u'.ep0o.fifo.Carries usbEp0oBufferSize sent received := by
  obtain ⟨sent, received, hCarries⟩ := h
  unfold Usb.handleEp0o
  split
  · split_ifs with hFits
    · obtain ⟨_, hCopy, hNext⟩ := copyPacket_carries hCarries hFits.2
      rw [hCopy, map_some]
      exact ⟨_, rfl, rfl, rfl, _, _, hNext⟩
    · exact ⟨_, rfl, rfl, rfl, sent, received, hCarries⟩
  · exact ⟨u, rfl, rfl, rfl, sent, received, hCarries⟩

lemma Usb.handleEp1o_cases (hValid : u.ep1o.fifo.Valid) (hCallback : u.callback = false) (hRaised : u.ep1o.raised = true) :
    (u.ep1o.fifo.size + u.ep1o.data.length ≤ u.ep1o.fifo.maxSize →
      u.handleEp1o = (cfifoPush u.ep1o.fifo u.ep1o.data u.ep1o.data.length).map fun fifo =>
        { u with ep1o := { u.ep1o with fifo, flagged := false, packets := u.ep1o.packets.tail } }) ∧
    (u.ep1o.fifo.maxSize < u.ep1o.fifo.size + u.ep1o.data.length →
      u.handleEp1o = some { u with ep1o := { u.ep1o with enabled := false, flagged := false } }) := by
  unfold Usb.handleEp1o
  rw [if_pos hRaised, hCallback, if_neg Bool.false_ne_true]
  constructor
  · intro hFits
    rw [if_pos hFits, copyPacket_eq_push hValid hFits]
  · intro hFull
    rw [if_neg (Nat.not_le.mpr hFull)]

lemma Usb.handleEp1o_carries (h : u.ep1o.fifo.Carries usbEp1oBufferSize sent received) (hCallback : u.callback = false) :
    ∃ u', u.handleEp1o = some u' ∧ u'.ep0o = u.ep0o ∧ u'.callback = false ∧
      u'.ep1o.fifo.Carries usbEp1oBufferSize (sent ++ u.accepts) received := by
  unfold Usb.accepts
  by_cases hRaised : u.ep1o.raised = true
  · obtain ⟨hPushed, hStays⟩ := Usb.handleEp1o_cases h.valid hCallback hRaised
    rcases Nat.lt_or_ge u.ep1o.fifo.maxSize (u.ep1o.fifo.size + u.ep1o.data.length) with hFull | hFits
    · rw [if_neg fun hAll => absurd hAll.2.2 (Nat.not_le.mpr hFull), append_nil]
      exact ⟨_, hStays hFull, rfl, hCallback, h⟩
    · rw [if_pos ⟨hRaised, hCallback, hFits⟩]
      obtain ⟨_, hCopy, hNext⟩ := copyPacket_carries h hFits
      rw [copyPacket_eq_push h.valid hFits] at hCopy
      rw [hPushed hFits, hCopy, map_some]
      exact ⟨_, rfl, rfl, hCallback, hNext⟩
  · rw [if_neg fun hAll => hRaised hAll.1, append_nil, Usb.handleEp1o, if_neg hRaised]
    exact ⟨u, rfl, rfl, hCallback, h⟩

end

section

variable {fifo : CyclicFifo} {capacity : Nat} {sent received got : Bytes} {c : UsbReceive}

lemma UsbReceive.goesOn_spec (h : c.goesOn = true) : c.endpoint ≠ .other ∧ c.ret < 2 ^ 31 ∧ c.ret < c.size := by
  simp only [UsbReceive.goesOn, Bool.and_eq_true, decide_eq_true_eq] at h
  exact ⟨h.1.1.1.1, h.1.1.1.2, h.1.1.2⟩

lemma usbReceiveTurn_spec (h : fifo.Carries capacity sent received) (hCapacity : capacity < 2 ^ 31)
    (hHolds : c.Holds got) (hRet : c.ret < 2 ^ 31) (hLess : c.ret < c.size) :
    ∃ fifo' c' bytes, usbReceiveTurn fifo c = some (fifo', c', bytes.length) ∧
      (c'.data.drop c.ret).take bytes.length = bytes ∧ c'.Holds (got ++ bytes) ∧
      fifo'.Carries capacity sent (received ++ bytes) := by
  have hSize := h.valid.size_le
  have hSizeLt := hHolds.size_lt
  have hRoom := hHolds.size_le
  rw [h.maxSize_eq] at hSize
  have hSum : Word.add fifo.size c.ret = fifo.size + c.ret := Word.add_of_lt (by omega)
  have hNb : (if fifo.size + c.ret > c.size then Word.sub c.size c.ret else Word.sub (fifo.size + c.ret) c.ret) =
      min fifo.size (c.size - c.ret) := by
    split
    · rw [Word.sub_of_le hLess.le hSizeLt]
      omega
    · rw [Word.sub_of_le (by omega) (by omega)]
      omega
  have hTake : (c.data.take c.ret).length = c.ret := by
    rw [length_take]
    omega
  unfold usbReceiveTurn
  dsimp only
  rw [hSum, hNb]
  by_cases hSome : 0 < min fifo.size (c.size - c.ret)
  · rw [if_pos ⟨hSome, by omega⟩]
    have hData : min fifo.size (c.size - c.ret) ≤ (c.data.drop c.ret).length := by
      rw [length_drop]
      omega
    obtain ⟨fifo', bytes, hPop, hLength, hCarries⟩ := h.pop hData (Nat.min_le_left _ _)
    have hAdd : Word.add c.ret (min fifo.size (c.size - c.ret)) = c.ret + bytes.length := by
      rw [hLength]
      exact Word.add_of_lt (by omega)
    have hSplice : splice (c.data.drop c.ret) 0 bytes = bytes ++ c.data.drop (c.ret + bytes.length) := by
      rw [splice, take_zero, nil_append, Nat.zero_add, drop_drop]
    refine ⟨fifo', { c with
      data := c.data.take c.ret ++ splice (c.data.drop c.ret) 0 bytes
      ret := c.ret + bytes.length
      triedOnce := true }, bytes, ?_, ?_, ⟨?_, ?_, hSizeLt, ?_⟩, hCarries⟩
    · rw [hPop, map_some]
      rw [hAdd, hLength]
    · rw [drop_append, hTake, Nat.sub_self, drop_zero, hSplice, drop_eq_nil_of_le (by omega), nil_append, take_left]
    · dsimp only
      omega
    · dsimp only
      rw [length_append, hTake, length_splice (by omega), length_drop]
      omega
    · rw [hSplice, ← append_assoc, ← hHolds.data_eq]
      exact take_left' (by rw [length_append, hTake])
  · rw [if_neg fun hAll => hSome hAll.1]
    refine ⟨fifo, { c with triedOnce := true }, [], rfl, rfl, ?_, ?_⟩
    · rw [append_nil]
      exact ⟨hHolds.ret_le, hHolds.size_le, hHolds.size_lt, hHolds.data_eq⟩
    · rw [append_nil]
      exact h

lemma UsbReceive.Holds.result_le (h : c.Holds got) : c.result ≤ c.size := by
  have hRet := h.ret_le
  unfold UsbReceive.result
  split_ifs <;> omega

lemma usbSh3Ep1Read_fifo (ep : OutEndpoint) : (usbSh3Ep1Read ep).fifo = ep.fifo := by
  unfold usbSh3Ep1Read
  split <;> rfl

end

section

variable {s t : UsbSystem}

namespace UsbSystem

lemma Inv.beforeEp1o (h : s.Inv) : ∃ mid, s.usb.handleReset.handleSetup.handleEp0o = some mid ∧
    mid.ep1o.fifo = s.usb.ep1o.fifo ∧ mid.callback = false ∧
      ∃ sent received, mid.ep0o.fifo.Carries usbEp0oBufferSize sent received := by
  obtain ⟨hFifo0, hFifo1, hCallback⟩ := Usb.reset_setup_fifo s.usb
  obtain ⟨mid, hMid, hEp1, hMidCallback, hCarries0⟩ := Usb.handleEp0o_spec (hFifo0.symm ▸ h.carries0)
  refine ⟨mid, hMid, ?_, ?_, hCarries0⟩
  · rw [hEp1, hFifo1]
  · rw [hMidCallback, hCallback, h.callback]

lemma Inv.interrupt (h : s.Inv) : ∃ t, s.step .interrupt = some t ∧ t.Inv := by
  obtain ⟨mid, hMid, hFifo, hCallback, hCarries0⟩ := h.beforeEp1o
  obtain ⟨usb, hUsb, hEp0, hNone, hNext⟩ := Usb.handleEp1o_carries (hFifo.symm ▸ h.carries) hCallback
  have hHandler : s.usb.interruptHandler = some usb := by
    rw [Usb.interruptHandler, hMid, bind_some, hUsb]
  refine ⟨{ s with usb, accepted := s.accepted ++ mid.accepts }, ?_, hNext, ?_, hNone, h.calls, h.returned⟩
  · simp only [UsbSystem.step, hMid, hHandler, bind_eq_bind, bind_some]
    rfl
  · rw [hEp0]
    exact hCarries0

variable {id : Nat} {c : UsbReceive}

lemma holds_update {calls : Nat → Option UsbReceive} {got : Nat → Bytes}
    {bytes : Bytes} (h : ∀ id c, calls id = some c → c.Holds (got id)) (hc : c.Holds bytes) :
    ∀ id' c', update calls id (some c) id' = some c' → c'.Holds (update got id bytes id') := by
  intro id' c' hCall
  rw [update_apply] at hCall ⊢
  split_ifs at hCall with hEq
  · rw [if_pos hEq]
    exact some.inj hCall ▸ hc
  · rw [if_neg hEq]
    exact h id' c' hCall

lemma Inv.turn (h : s.Inv) (hCall : s.calls id = some c) : ∃ t, s.turn id c = some t ∧ t.Inv := by
  have hHolds := h.calls id c hCall
  unfold UsbSystem.turn
  split
  · rename_i hGoes
    obtain ⟨hKnown, hRet, hLess⟩ := UsbReceive.goesOn_spec hGoes
    cases hEndpoint : c.endpoint with
    | other => exact absurd hEndpoint hKnown
    | ep0out =>
      obtain ⟨sent, _, hCarries0⟩ := h.carries0
      obtain ⟨fifo, c', bytes, hTurn, hBytes, hNext, hCarries⟩ :=
        usbReceiveTurn_spec hCarries0 (by decide) hHolds hRet hLess
      simp only [Usb.receiveTurn, hEndpoint, hTurn, map_some, hBytes]
      exact ⟨_, rfl, h.carries, ⟨sent, _, hCarries⟩, h.callback, holds_update h.calls hNext, h.returned⟩
    | ep1out =>
      obtain ⟨fifo, c', bytes, hTurn, hBytes, hNext, hCarries⟩ :=
        usbReceiveTurn_spec h.carries (by decide) hHolds hRet hLess
      have hFifo : (if 0 < bytes.length then usbSh3Ep1Read { s.usb.ep1o with fifo } else { s.usb.ep1o with fifo }).fifo =
          fifo := by
        split
        · exact usbSh3Ep1Read_fifo _
        · rfl
      simp only [Usb.receiveTurn, hEndpoint, hTurn, map_some, hBytes]
      exact ⟨_, rfl, hFifo.symm ▸ hCarries, h.carries0, h.callback, holds_update h.calls hNext, h.returned⟩
  · refine ⟨_, rfl, h.carries, h.carries0, h.callback, fun id' c' hCall' => ?_, fun r hr => ?_⟩
    · dsimp only at hCall'
      rw [update_apply] at hCall'
      split at hCall'
      · cases hCall'
      · exact h.calls id' c' hCall'
    · rcases mem_append.mp hr with hOld | hNew
      · exact h.returned r hOld
      · exact mem_singleton.mp hNew ▸ hHolds

lemma Inv.step (h : s.Inv) {a : UsbAction} (hAllowed : s.Allowed a) (hStep : s.step a = some t) : t.Inv := by
  cases a with
  | packet0 data | packet1 data | flags ep0 ep1 brst setup =>
    cases hStep
    exact ⟨h.carries, h.carries0, h.callback, h.calls, h.returned⟩
  | interrupt =>
    obtain ⟨t', hTaken, hNext⟩ := h.interrupt
    exact some.inj (hTaken.symm.trans hStep) ▸ hNext
  | call id c =>
    obtain ⟨hStart, hSize, hLt⟩ := hAllowed
    rw [UsbSystem.step] at hStep
    split at hStep
    · cases some.inj hStep
      have hRet : c.ret = 0 := by rw [hStart]; rfl
      refine ⟨h.carries, h.carries0, h.callback, holds_update h.calls ⟨?_, hSize, hLt, ?_⟩, h.returned⟩
      · rw [hRet]
        exact Nat.zero_le _
      · rw [hRet, take_zero]
    · cases hStep
  | turn id =>
    obtain ⟨c, hCall, hTurn⟩ := bind_eq_some_iff.mp hStep
    obtain ⟨t', hTaken, hNext⟩ := h.turn hCall
    exact some.inj (hTaken.symm.trans hTurn) ▸ hNext

lemma init_inv {buffer0 buffer1 : Bytes} (h0 : buffer0.length = usbEp0oBufferSize)
    (h1 : buffer1.length = usbEp1oBufferSize) : (init buffer0 buffer1).Inv := by
  have hSize0 : usbEp0oBufferSize = 128 := rfl
  have hSize1 : usbEp1oBufferSize = 512 := rfl
  have hValid0 : CyclicFifo.Valid ⟨usbEp0oBufferSize, 0, 0, buffer0⟩ := by
    constructor <;> simp only [h0, hSize0] <;> omega
  have hValid1 : CyclicFifo.Valid ⟨usbEp1oBufferSize, 0, 0, buffer1⟩ := by
    constructor <;> simp only [h1, hSize1] <;> omega
  exact ⟨CyclicFifo.carries_of_empty hValid1 rfl, ⟨[], [], CyclicFifo.carries_of_empty hValid0 rfl⟩, rfl,
    fun _ _ hCall => (by cases hCall), fun _ hr => absurd hr not_mem_nil⟩

end UsbSystem

end

/-- What the handler makes of the packet in the data register of endpoint 1. -/
structure Usb.Handles (u u' : Usb) : Prop where
  pushed : u.ep1o.raised = true → u.ep1o.fifo.size + u.ep1o.data.length ≤ u.ep1o.fifo.maxSize →
    cfifoPush u.ep1o.fifo u.ep1o.data u.ep1o.data.length = some u'.ep1o.fifo ∧ u'.ep1o.packets = u.ep1o.packets.tail
  left : u.ep1o.raised = true → u.ep1o.fifo.maxSize < u.ep1o.fifo.size + u.ep1o.data.length →
    u'.ep1o.fifo = u.ep1o.fifo ∧ u'.ep1o.packets = u.ep1o.packets ∧ u'.ep1o.enabled = false
  idle : u.ep1o.raised = false → u'.ep1o = u.ep1o

lemma Usb.handles_of_handleEp1o {u u' : Usb} (hValid : u.ep1o.fifo.Valid) (hCallback : u.callback = false)
    (hStep : u.handleEp1o = some u') : u.Handles u' := by
  refine ⟨fun hRaised hFits => ?_, fun hRaised hFull => ?_, fun hIdle => ?_⟩
  · rw [(Usb.handleEp1o_cases hValid hCallback hRaised).1 hFits] at hStep
    obtain ⟨_, hPush, rfl⟩ := map_eq_some_iff.mp hStep
    exact ⟨hPush, rfl⟩
  · rw [(Usb.handleEp1o_cases hValid hCallback hRaised).2 hFull] at hStep
    cases hStep
    exact ⟨rfl, rfl, rfl⟩
  · rw [Usb.handleEp1o, if_neg (by rw [hIdle]; exact Bool.false_ne_true)] at hStep
    cases hStep
    rfl

/-- In every interleaving, what `usb_receive` delivered from endpoint 1 are the first of the bytes accepted; a call has
what it was given and returns at most the size asked for; the handler pushes a packet or leaves it; and nothing can
fail. -/
theorem usb_receive_in_order (buffer0 buffer1 : Bytes) (h0 : buffer0.length = usbEp0oBufferSize)
    (h1 : buffer1.length = usbEp1oBufferSize) (actions : List UsbAction) (s : UsbSystem)
    (hRun : Run UsbSystem.step UsbSystem.Allowed (UsbSystem.init buffer0 buffer1) actions s) :
    s.delivered <+: s.accepted ∧
    (∀ id c, s.calls id = some c → c.ret ≤ c.size ∧ c.data.take c.ret = s.got id) ∧
    (∀ r ∈ s.returned, r.1.result ≤ r.1.size ∧ r.1.data.take r.1.ret = r.2) ∧
    (∃ mid usb, s.usb.handleReset.handleSetup.handleEp0o = some mid ∧ mid.ep1o.fifo = s.usb.ep1o.fifo ∧
      s.usb.interruptHandler = some usb ∧ mid.Handles usb) ∧
    ∀ id, s.calls id ≠ none → ∃ t, s.step (.turn id) = some t := by
  have h : s.Inv := hRun.invariant (fun _ _ _ hAllowed hInv => hInv.step hAllowed) (UsbSystem.init_inv h0 h1)
  refine ⟨h.carries.in_order, fun id c hCall => ?_, fun r hr => ?_, ?_, fun id hCall => ?_⟩
  · have hHolds := h.calls id c hCall
    exact ⟨hHolds.ret_le, hHolds.data_eq⟩
  · have hHolds := h.returned r hr
    exact ⟨hHolds.result_le, hHolds.data_eq⟩
  · obtain ⟨mid, hMid, hFifo, hCallback, _⟩ := h.beforeEp1o
    have hCarries := hFifo.symm ▸ h.carries
    obtain ⟨usb, hUsb, _⟩ := Usb.handleEp1o_carries hCarries hCallback
    have hHandler : s.usb.interruptHandler = some usb := by
      rw [Usb.interruptHandler, hMid, bind_some, hUsb]
    exact ⟨mid, usb, hMid, hFifo, hHandler, Usb.handles_of_handleEp1o hCarries.valid hCallback hUsb⟩
  · obtain ⟨c, hSome⟩ := ne_none_iff_exists'.mp hCall
    obtain ⟨t, hTurn, _⟩ := h.turn hSome
    exact ⟨t, by rw [UsbSystem.step, hSome, bind_some, hTurn]⟩

def twoPackets : List UsbAction :=
  [.call 0 (usbReceive .ep1out [0, 0] 2 false false), .turn 0, .packet1 [1, 2, 3], .interrupt, .turn 0, .packet1 [4],
    .interrupt, .turn 0]

theorem usb_receive_in_order_twoPackets : ∃ s,
    Run UsbSystem.step UsbSystem.Allowed (UsbSystem.init (replicate usbEp0oBufferSize 0)
      (replicate usbEp1oBufferSize 0)) twoPackets s ∧
    s.accepted = [1, 2, 3, 4] ∧ s.delivered = [1, 2] ∧ s.delivered <+: s.accepted ∧
    ∀ r ∈ s.returned, r.1.result ≤ r.1.size ∧ r.1.data.take r.1.ret = r.2 := by
  have hEval : (exec (guarded UsbSystem.step UsbSystem.Allowed) (UsbSystem.init (replicate usbEp0oBufferSize 0)
      (replicate usbEp1oBufferSize 0)) twoPackets).map (fun s => (s.accepted, s.delivered)) =
        some ([1, 2, 3, 4], [1, 2]) := by decide +kernel
  obtain ⟨s, hExec, hEnd⟩ := map_eq_some_iff.mp hEval
  have hRun := run_of_exec_guarded hExec
  obtain ⟨hOrder, _, hReturned, _⟩ := usb_receive_in_order _ _ length_replicate length_replicate _ s hRun
  exact ⟨s, hRun, congrArg Prod.fst hEnd, congrArg Prod.snd hEnd, hOrder, hReturned⟩

end Fixos.Arch
