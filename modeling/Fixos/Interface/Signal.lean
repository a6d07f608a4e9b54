import Mathlib.Data.BitVec

/-! # Signals and signal sets (`interface/fixos/signal.h`, `sigset.h`)

A signal set is a 32-bit word in which bit `sig` stands for signal `sig`.
-/

namespace Fixos.Interface

abbrev Sigset := BitVec 32

def SIGINT : Nat := 2
def SIGQUIT : Nat := 3
def SIGKILL : Nat := 9
def SIGALRM : Nat := 14
def SIGCONT : Nat := 18
def SIGSTOP : Nat := 19

def signalMax : Nat := 32

def sigemptyset : Sigset := 0

def sigaddset (set : Sigset) (sig : Nat) : Sigset := set ||| (1#32 <<< sig)

def sigdelset (set : Sigset) (sig : Nat) : Sigset := set &&& ~~~(1#32 <<< sig)

def sigismember (set : Sigset) (sig : Nat) : Bool := (set &&& (1#32 <<< sig)) != 0

/-- Values of `sa_handler` that are not the address of a function. -/
def SIG_DFL : BitVec 32 := 0
def SIG_IGN : BitVec 32 := -3

def SA_SIGINFO : BitVec 32 := 1#32 <<< 1

structure Sigaction where
  saHandler : BitVec 32
  saMask : Sigset
  saFlags : BitVec 32
deriving DecidableEq

def SIG_BLOCK : Int := 1
def SIG_UNBLOCK : Int := 2
def SIG_SETMASK : Int := 3

lemma getLsbD_bit (sig i : Nat) (hi : i < 32) : (1#32 <<< sig).getLsbD i = decide (i = sig) := by
  rw [← BitVec.twoPow_eq, BitVec.getLsbD_twoPow, eq_comm, Bool.eq_iff_iff]
  simp only [decide_eq_true_eq, Bool.and_eq_true]
  omega

lemma sigismember_eq_getLsbD (set : Sigset) {sig : Nat} (h : sig < 32) : sigismember set sig = set.getLsbD sig := by
  rw [sigismember, ← BitVec.twoPow_eq, BitVec.and_twoPow]
  cases set.getLsbD sig with
  | false => rfl
  | true =>
    rw [if_pos rfl, bne_iff_ne, ne_eq, BitVec.toNat_eq, BitVec.toNat_twoPow_of_lt h]
    exact (Nat.two_pow_pos _).ne'

lemma getLsbD_sigaddset (set : Sigset) (sig : Nat) {i : Nat} (hi : i < 32) :
    (sigaddset set sig).getLsbD i = (set.getLsbD i || decide (i = sig)) := by
  rw [sigaddset, BitVec.getLsbD_or, getLsbD_bit sig i hi]

lemma getLsbD_sigdelset (set : Sigset) (sig : Nat) {i : Nat} (hi : i < 32) :
    (sigdelset set sig).getLsbD i = (set.getLsbD i && !decide (i = sig)) := by
  rw [sigdelset, BitVec.getLsbD_and, BitVec.getLsbD_not, getLsbD_bit sig i hi]
  simp [hi]

end Fixos.Interface
