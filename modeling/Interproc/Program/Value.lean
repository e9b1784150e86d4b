import Interproc.Ordered.Set

namespace Interproc

inductive Value where
  | argument (function index : Nat)
  | result (instruction : Nat)
  | global (index : Nat)
  | constant (value : Int)
  deriving DecidableEq, Repr, Inhabited

namespace Value

def isConstant : Value → Bool
  | .constant _ => true
  | _ => false

def key : Value → List Int
  | .argument f i => [0, f, i]
  | .result i => [1, i]
  | .global i => [2, i]
  | .constant c => [3, c]

theorem key_injective {v w : Value} (h : v.key = w.key) : v = w := by
  cases v <;> cases w <;> grind [key]

instance : Ord Value where
  compare
    | .argument f i, .argument g j => (compare f g).then (compare i j)
    | .argument .., _ => .lt
    | .result _, .argument .. => .gt
    | .result i, .result j => compare i j
    | .result _, _ => .lt
    | .global _, .argument .. => .gt
    | .global _, .result _ => .gt
    | .global i, .global j => compare i j
    | .global _, .constant _ => .lt
    | .constant c, .constant d => compare c d
    | .constant _, _ => .gt

theorem compare_natCast (m n : Nat) : compare (m : Int) n = compare m n := by
  simp only [compare, compareOfLessAndEq, Int.ofNat_lt, Int.ofNat_inj]

theorem compare_eq_key (v w : Value) : compare v w = compare v.key w.key := by
  cases v <;> cases w <;>
    simp [key, List.compare_cons_cons, compare_natCast] <;> rfl

instance : Std.TransOrd Value where
  eq_swap := by
    intro v w
    rw [compare_eq_key, compare_eq_key]
    exact Std.OrientedCmp.eq_swap
  isLE_trans := by
    intro u v w
    rw [compare_eq_key, compare_eq_key, compare_eq_key]
    exact Std.TransCmp.isLE_trans

instance : Std.LawfulEqOrd Value where
  compare_self := by
    intro v
    rw [compare_eq_key]
    exact Std.ReflCmp.compare_self
  eq_of_compare := by
    intro v w h
    rw [compare_eq_key] at h
    exact key_injective (Std.LawfulEqCmp.eq_of_compare h)

end Value

abbrev ValueSet := OrdSet Value

end Interproc
