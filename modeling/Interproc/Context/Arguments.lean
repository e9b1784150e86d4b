import Interproc.Context.Basic
import Interproc.Described

namespace Interproc

variable {N D : Type}

structure Arguments (D : Type) where
  current : D
  previous : D
  deriving DecidableEq, Repr

namespace Arguments

variable [EmptyCollection D]

instance : EmptyCollection (Arguments D) := ⟨⟨∅, ∅⟩⟩

def enter (c : Arguments D) (incoming : D) : Arguments D := ⟨incoming, c.current⟩

def leave (c : Arguments D) : Arguments D := ⟨c.previous, ∅⟩

def same [DecidableEq D] (c d : Arguments D) : Bool := decide (c.current = d.current)

def before [Ord D] (c d : Arguments D) : Bool := compare c.current d.current == .lt

def text [Described D] (c : Arguments D) : String :=
  "args " ++ describe c.current ++ " (caller args " ++ describe c.previous ++ ")"

def kind [DecidableEq D] [Ord D] [Described D] : ContextKind N D (Arguments D) where
  enter c _ _ incoming := c.enter incoming
  leave := leave
  unsure _ := false
  same := same
  before := before
  text := text

variable {κ ν : Type} [Ord κ] [Std.TransOrd κ]

def select (ids : List κ) (facts : OrdMap κ ν) : OrdMap κ ν :=
  OrdMap.ofList (ids.filterMap (fun k => (facts.get? k).map (fun v => (k, v))))

def keysFor [DecidableEq N] (table : List (Option N × Option N × List κ)) (src dest : N) : List κ :=
  match table.find? (fun (s, d, _) => s.all (fun x => x == src) && d.all (fun x => x == dest)) with
  | some (_, _, ks) => ks
  | none => []

def selectingKind [DecidableEq κ] [DecidableEq ν] [Ord ν] [Described κ] [Described ν]
    (ids : N → N → List κ) : ContextKind N (OrdMap κ ν) (Arguments (OrdMap κ ν)) where
  enter c src dest incoming := c.enter (select (ids src dest) incoming)
  leave := leave
  unsure _ := false
  same := same
  before := before
  text c := "mapped " ++ c.text
  missing src dest incoming :=
    ((ids src dest).filter (fun k => !incoming.contains k)).map describe

end Arguments

end Interproc
