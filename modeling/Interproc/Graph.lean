import Interproc.Described
import Interproc.Icfg
import Interproc.Problem

namespace Interproc

abbrev IntSet := OrdSet Int

abbrev BitMap := OrdMap Int Nat

/-- A flow that forgets, removes, copies and adds facts, in this order. Facts are copied from the
input. -/
structure Transfer (G : Type) where
  clear : Bool := false
  kill : List Int := []
  moves : List (Int × Int) := []
  gen : List G := []
  deriving Repr, Inhabited

namespace Transfer

def onSet (t : Transfer Int) (d : IntSet) : IntSet :=
  let out := t.kill.foldl OrdSet.erase (if t.clear then ∅ else d)
  let out := t.moves.foldl (fun out (a, b) => if a ∈ d then out.insert b else out) out
  out.insertAll t.gen

end Transfer

namespace BitMap

def add (m : BitMap) (k : Int) (bits : Nat) : BitMap := m.modifyD k 0 (fun b => b ||| bits)

def addAll (m : BitMap) (es : List (Int × Nat)) : BitMap := es.foldl (fun m (k, b) => add m k b) m

def join (m n : BitMap) : BitMap := addAll m n.entries

def le (m n : BitMap) : Bool :=
  m.entries.all (fun (k, b) => (n.get? k).any (fun b' => b &&& b' == b))

end BitMap

def Transfer.onBits (t : Transfer (Int × Nat)) (d : BitMap) : BitMap :=
  let out := t.kill.foldl OrdMap.erase (if t.clear then ∅ else d)
  let out := t.moves.foldl (fun out (a, b) =>
    match d.get? a with
    | some bits => BitMap.add out b bits
    | none => out) out
  BitMap.addAll out t.gen

structure Graph.Method where
  name : String
  starts : List Int
  exits : List Int
  deriving Repr, Inhabited

structure Graph.Node (G : Type) where
  method : Nat
  succs : List Int
  /-- A node that lists callees is a call, even if it lists none. -/
  callees : Option (List Nat)
  isExit : Bool
  flow : Transfer G
  call : Transfer G
  ret : Transfer G
  bypass : Transfer G
  deriving Repr, Inhabited

structure Graph (G : Type) where
  methods : Array Graph.Method
  nodes : OrdMap Int (Graph.Node G)

namespace Graph

variable {G : Type} (g : Graph G)

def node (n : Int) : Node G := g.nodes.getD n ⟨0, [], none, false, {}, {}, {}, {}⟩

def icfg : Icfg Int Nat where
  functionOf n := (g.node n).method
  succs n := (g.node n).succs
  isCall n := (g.node n).callees.isSome
  isExit n := (g.node n).isExit
  callees n := (g.node n).callees.getD []
  returnSites n := (g.node n).succs
  starts m := (g.methods[m]?.map Method.starts).getD []
  exits m := (g.methods[m]?.map Method.exits).getD []
  hasFunction m := decide (m < g.methods.size)

def problem {D : Type} [EmptyCollection D] [Described D] (join : D → D → D) (le : D → D → Bool)
    (apply : Transfer G → D → D) (seeds : OrdMap Int D) (recompute : List Nat) :
    Problem Int Nat D Unit Empty where
  bottom := ∅
  join := join
  le := le
  normal n := apply (g.node n).flow
  call n _ := apply (g.node n).call
  ret n _ _ := apply (g.node n).ret
  bypass n _ := apply (g.node n).bypass
  seeds := seeds.entries
  recompute m := recompute.contains m
  nodeText n := some (toString n)
  factsText d := some (describe d)

def setProblem (g : Graph Int) (seeds : OrdMap Int IntSet) (recompute : List Nat) :
    Problem Int Nat IntSet Unit Empty :=
  g.problem OrdSet.union OrdSet.isSubset Transfer.onSet seeds recompute

def bitProblem (g : Graph (Int × Nat)) (seeds : OrdMap Int BitMap) (recompute : List Nat) :
    Problem Int Nat BitMap Unit Empty :=
  g.problem BitMap.join BitMap.le Transfer.onBits seeds recompute

end Graph

end Interproc
