import Interproc.Interned
import Interproc.Partition.Forest

namespace Interproc

structure Partition (α : Type) [Ord α] where
  forest : Forest
  members : Interned α

namespace Partition

variable {α : Type} [Ord α]

instance : EmptyCollection (Partition α) := ⟨⟨∅, ∅⟩⟩

instance : Inhabited (Partition α) := ⟨∅⟩

def size (p : Partition α) : Nat := p.members.size

def representative? (p : Partition α) (x : α) : Option α × Partition α :=
  match p.members.indexOf? x with
  | none => (none, p)
  | some i =>
      let (r, f) := p.forest.representative i
      (p.members.get? r, { p with forest := f })

variable [Std.TransOrd α] [Std.LawfulEqOrd α] [DecidableEq α]

def merge (p : Partition α) (x y : α) : Partition α :=
  let members := (p.members.insert x).insert y
  ⟨p.forest.merge (members.position x) (members.position y), members⟩

def shares (r : α) : List α → Partition α → List α × Partition α
  | [], p => ([], p)
  | x :: xs, p =>
      let (s, q) := p.representative? x
      let (ys, q) := shares r xs q
      (if s = some r then x :: ys else ys, q)

def classOf (p : Partition α) (x : α) : OrdSet α × Partition α :=
  match p.representative? x with
  | (none, q) => (OrdSet.single x, q)
  | (some r, q) =>
      let (xs, q) := shares r q.members.items q
      (OrdSet.ofList xs, q)

end Partition

end Interproc
