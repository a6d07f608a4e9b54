import Mathlib.Data.List.Range
import Fixos.Lib.Word

/-! # The sending side of the USB controller (`arch/sh/modules/usb.c`)

What is written to a data register are bytes of the buffer of the caller. They are given by their positions in it, which
are also those that are read.
-/

namespace Fixos.Arch

open Option List

/-- `emptyPacket` is a trigger that no data was written for. -/
structure UsbSent where
  packets : List (List Nat)
  emptyPacket : Bool
  ret : Int
deriving DecidableEq

/-- The loop of `usb_send_sync_ep2`; the inner one stops at `max_size`, whatever was sent already. -/
def ep2Loop (maxSize total : Nat) : List (List Nat) :=
  if total < maxSize then range' total (min maxSize 64) :: ep2Loop maxSize (total + 64) else []
termination_by maxSize - total

def usbSendSyncEp2 (maxSize : Int) (ep2Empty : Bool) : UsbSent := ⟨ep2Loop maxSize.toNat 0, ep2Empty, maxSize⟩

/-- The flags as the driver finds them when it looks at them. -/
structure Ep0Poll where
  ep0iTS : Bool
  brst : Bool
  vbusmn : Bool
deriving DecidableEq

/-- The wait for the end of a transmission, which takes a `BRST` of zero for an error. -/
def waitEp0 : List Ep0Poll → Option (Bool × List Ep0Poll)
  | [] => none
  | poll :: polls =>
    if poll.ep0iTS then some (false, polls)
    else if !poll.brst || poll.vbusmn then some (true, polls)
    else waitEp0 polls

def ep0Loop (maxSize nbWritten : Nat) (polls : List Ep0Poll) : Option (List (List Nat) × Nat × Bool × List Ep0Poll) :=
  if nbWritten < maxSize then
    let i := min (maxSize - nbWritten) 8
    (waitEp0 polls).bind fun (error, polls) =>
      if error then some ([range' nbWritten i], nbWritten + i, true, polls)
      else (ep0Loop maxSize (nbWritten + i) polls).map fun (packets, rest) => (range' nbWritten i :: packets, rest)
  else some ([], nbWritten, false, polls)
termination_by maxSize - nbWritten

def usbSendSyncEp0 (maxSize : Int) (polls : List Ep0Poll) : Option UsbSent :=
  (ep0Loop maxSize.toNat 0 polls).bind fun (packets, nbWritten, error, polls) =>
    if !error && maxSize % 8 = 0 then
      (waitEp0 polls).map fun (error, _) => ⟨packets, true, if error then -1 else nbWritten⟩
    else some ⟨packets, false, if error then -1 else nbWritten⟩

inductive UsbInEndpoint where
  | ep0in
  | ep2in
  | other
deriving DecidableEq

/-- The size, an unsigned word, becomes an `int`. -/
def usbSend (endpoint : UsbInEndpoint) (size : Nat) (ep2Empty : Bool) (polls : List Ep0Poll) : Option UsbSent :=
  match endpoint with
  | .ep2in => some (usbSendSyncEp2 (Word.signed size) ep2Empty)
  | .ep0in => usbSendSyncEp0 (Word.signed size) polls
  | .other => some ⟨[], false, -1⟩

/-- The first `size` bytes, in order and no others, in packets of `limit` bytes but for the last. -/
structure CutInto (limit size : Nat) (packets : List (List Nat)) : Prop where
  flatten_eq : packets.flatten = range size
  length_le : ∀ packet ∈ packets, packet.length ≤ limit
  full : ∀ packet ∈ packets.dropLast, packet.length = limit

section

variable {maxSize : Nat}

lemma ep2Loop_flatten (h : 64 ≤ maxSize) (total : Nat) :
    (ep2Loop maxSize total).flatten = range' total ((maxSize - total + 63) / 64 * 64) := by
  fun_induction ep2Loop maxSize total with
  | case1 total hMore ih =>
    rw [flatten_cons, ih, Nat.min_eq_right h, range'_append_1]
    congr 1
    omega
  | case2 total hDone =>
    rw [show (maxSize - total + 63) / 64 * 64 = 0 by omega]
    rfl

lemma ep2Loop_length (maxSize total : Nat) : ∀ packet ∈ ep2Loop maxSize total, packet.length = min maxSize 64 := by
  fun_induction ep2Loop maxSize total with
  | case1 total hMore ih => exact forall_mem_cons.mpr ⟨length_range', ih⟩
  | case2 total hDone => exact fun _ hMem => absurd hMem not_mem_nil

lemma ep2Loop_small (h : maxSize ≤ 64) : ep2Loop maxSize 0 = if 0 < maxSize then [range maxSize] else [] := by
  have hEnd : ep2Loop maxSize 64 = [] := by
    rw [ep2Loop, if_neg (Nat.not_lt.mpr h)]
  rw [ep2Loop, Nat.min_eq_left h, range_eq_range', Nat.zero_add, hEnd]

end

theorem usb_send_ep2_iff (size : BitVec 32) (ep2Empty : Bool) (polls : List Ep0Poll) :
    ∃ sent, usbSend .ep2in size.toNat ep2Empty polls = some sent ∧ (CutInto 64 size.toNat sent.packets ↔
      size.toNat ≤ 64 ∨ size.toNat % 64 = 0 ∧ size.toNat < 2 ^ 31) := by
  refine ⟨_, rfl, ?_⟩
  have hLt := size.isLt
  generalize size.toNat = size at hLt ⊢
  dsimp only [usbSendSyncEp2]
  rcases Nat.lt_or_ge size (2 ^ 31) with hInt | hNegative
  · rw [Word.signed_of_lt hInt, Int.toNat_natCast]
    rcases Nat.le_total size 64 with hSmall | hLarge
    · refine iff_of_true ⟨?_, fun packet hMem => ?_, fun packet hMem => ?_⟩ (Or.inl hSmall)
      · rw [ep2Loop_small hSmall]
        split_ifs with hZero
        · exact flatten_singleton
        · rw [Nat.eq_zero_of_not_pos hZero]
          rfl
      · rw [ep2Loop_length _ _ packet hMem]
        exact Nat.min_le_right _ _
      · rw [ep2Loop_small hSmall] at hMem
        split at hMem <;> cases hMem
    · have hFlatten := ep2Loop_flatten hLarge 0
      have hLength := ep2Loop_length size 0
      rw [Nat.min_eq_right hLarge] at hLength
      constructor
      · intro h
        have hSame := congrArg length (h.flatten_eq.symm.trans hFlatten)
        rw [length_range, length_range'] at hSame
        omega
      · intro h
        refine ⟨?_, fun packet hMem => (hLength packet hMem).le, fun packet hMem => hLength packet (dropLast_subset _ hMem)⟩
        rw [hFlatten, range_eq_range']
        congr 1
        omega
  · refine iff_of_false (fun h => ?_) (by omega)
    have hZero : (Word.signed size).toNat = 0 := by
      rw [Word.signed, if_neg (Nat.not_lt.mpr hNegative)]
      omega
    have hSame := congrArg length h.flatten_eq
    rw [hZero, ep2Loop, if_neg (Nat.lt_irrefl 0), flatten_nil, length_range] at hSame
    rw [← hSame] at hNegative
    cases hNegative

theorem usb_send_ep2_reads_beyond : ∃ sent, usbSend .ep2in 65 false [] = some sent ∧
    sent.packets = [range' 0 64, range' 64 64] ∧ ¬ CutInto 64 65 sent.packets := by
  refine ⟨_, rfl, by decide +kernel, fun h => ?_⟩
  exact absurd h.flatten_eq (by decide +kernel)

end Fixos.Arch
