namespace Interproc

structure Forest where
  parents : Array Nat
  deriving Inhabited

namespace Forest

instance : EmptyCollection Forest := ⟨⟨#[]⟩⟩

def size (f : Forest) : Nat := f.parents.size

def parent (f : Forest) (x : Nat) : Nat := f.parents.getD x x

def cover (f : Forest) (x : Nat) : Forest :=
  ⟨f.parents ++ (Array.range' f.size (x + 1 - f.size))⟩

def link (f : Forest) (x y : Nat) : Forest := ⟨f.parents.setIfInBounds x y⟩

def climb (f : Forest) : Nat → Nat → Nat
  | 0, x => x
  | n + 1, x => if f.parent x = x then x else f.climb n (f.parent x)

/-- A path to a root passes every index at most once, so the number of indexes bounds it. -/
def root (f : Forest) (x : Nat) : Nat := f.climb f.size x

def flatten (r : Nat) : Nat → Nat → Forest → Forest
  | 0, _, f => f
  | n + 1, x, f => if f.parent x = r then f else flatten r n (f.parent x) (f.link x r)

def representative (f : Forest) (x : Nat) : Nat × Forest :=
  let g := f.cover x
  (g.root x, flatten (g.root x) g.size x g)

def merge (f : Forest) (x y : Nat) : Forest :=
  let (ry, g) := f.representative y
  let (rx, h) := g.representative x
  h.link ry rx

end Forest

end Interproc
