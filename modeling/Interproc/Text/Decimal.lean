namespace Interproc.Decimal

def magnitude? (cs : List Char) : Option Nat :=
  if cs.isEmpty || !cs.all Char.isDigit then none
  else some (cs.foldl (fun n c => 10 * n + (c.toNat - '0'.toNat)) 0)

def natural? : List Char → Option Nat
  | '+' :: cs => magnitude? cs
  | cs => magnitude? cs

def integer? : List Char → Option Int
  | '-' :: cs => (magnitude? cs).map (fun n => -(n : Int))
  | cs => (natural? cs).map Int.ofNat

def word? (cs : List Char) : Option Nat := (natural? cs).filter (fun n => n < 0x10000000000000000)

def constant? (cs : List Char) : Option Int :=
  (integer? cs).filter (fun i => -0x8000000000000000 ≤ i ∧ i < 0x8000000000000000)

theorem word?_lt {cs : List Char} {n : Nat} (h : word? cs = some n) :
    n < 0x10000000000000000 := by
  simpa using (Option.filter_eq_some_iff.mp h).2

end Interproc.Decimal
