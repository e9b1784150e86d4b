import Interproc.Context.Basic
import Interproc.Described

namespace Interproc

variable {N D : Type} {K : Nat}

structure CallString (N : Type) (K : Nat) where
  sites : List N
  length_le : sites.length ≤ K

structure TooLong where
  bound : Nat
  given : Nat
  deriving DecidableEq, Repr

def TooLong.message (e : TooLong) : String :=
  "initial call string of length " ++ toString e.given ++ " exceeds maximal length K = " ++
    toString e.bound

def maxBound : Nat := 8

def boundMessage (k : Nat) : String :=
  "call-string bound K = " ++ toString k ++ " is not supported (expected 0..=8)"

namespace CallString

theorem eq_of_sites {c d : CallString N K} (h : c.sites = d.sites) : c = d := by
  cases c; cases d; cases h; rfl

instance : EmptyCollection (CallString N K) := ⟨⟨[], Nat.zero_le K⟩⟩

def ofHistory (K : Nat) (history : List N) : Except TooLong (CallString N K) :=
  if h : history.length ≤ K then .ok ⟨history, h⟩ else .error ⟨K, history.length⟩

def enter (c : CallString N K) (site : N) : CallString N K :=
  ⟨(c.sites ++ [site]).drop (c.sites.length + 1 - K), by
    rw [List.length_drop, List.length_append, List.length_singleton]
    omega⟩

def leave (c : CallString N K) : CallString N K :=
  ⟨c.sites.dropLast, by
    rw [List.length_dropLast]
    exact Nat.le_trans (Nat.sub_le ..) c.length_le⟩

theorem sites_enter_of_lt {c : CallString N K} {site : N} (h : c.sites.length < K) :
    (c.enter site).sites = c.sites ++ [site] := by
  have h0 : c.sites.length + 1 - K = 0 := by omega
  simp [enter, h0]

theorem leave_enter_of_lt {c : CallString N K} {site : N} (h : c.sites.length < K) :
    (c.enter site).leave = c := by
  apply eq_of_sites
  simp only [leave, sites_enter_of_lt h, List.dropLast_concat]

def unsure (c : CallString N K) : Bool := c.sites.length == K

def same [DecidableEq N] (c d : CallString N K) : Bool :=
  c.sites.isEmpty || d.sites.isEmpty || decide (c.sites = d.sites)

def before [Ord N] (c d : CallString N K) : Bool :=
  !c.sites.isEmpty && !d.sites.isEmpty && compare c.sites d.sites == .lt

def text [Described N] (c : CallString N K) : String :=
  "call string [" ++ toString c.sites.length ++ "]: " ++
    String.intercalate " * " (c.sites.map describe)

def kind [DecidableEq N] [Ord N] [Described N] : ContextKind N D (CallString N K) where
  enter c site _ _ := c.enter site
  leave := leave
  unsure := unsure
  same := same
  before := before
  text := text

end CallString

end Interproc
