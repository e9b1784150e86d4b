import Interproc.Program.Render
import Interproc.Text.Quoted

namespace Interproc

open Text

structure DotEdge where
  source : Nat
  target : Nat
  label : String
  deriving DecidableEq, Repr

namespace Program

variable (p : Program)

def callEdges (n : Nat) : List DotEdge :=
  (p.calleesAt n).flatMap (fun f =>
    (p.entryOf f).map (fun s => ⟨n, s, "call"⟩) ++
      (p.exitsOf f).map (fun e => ⟨e, n + 1, "return"⟩))

def dotEdges : List DotEdge :=
  (List.range p.size).flatMap (fun n =>
    (p.succs n).map (fun s => ⟨n, s, ""⟩) ++ if p.isCall n then p.callEdges n else [])

def dotShape (n : Nat) : String :=
  match p.opAt? n with
  | some .start => "house"
  | some .ret => "invhouse"
  | _ => "box"

def dotNode? (highlight : Option Nat) (n : Nat) : Option String := do
  let s ← p.text? n
  let marker := if highlight = some n then ">> " else ""
  return "    i" ++ toString n ++ "[label=" ++ labelled (marker ++ s) ++ "][shape=\"" ++
    p.dotShape n ++ "\"];\n"

def dotEdge (e : DotEdge) : String :=
  "    i" ++ toString e.source ++ " -> i" ++ toString e.target ++ "[label=" ++ labelled e.label ++
    "]" ++ (if e.label.isEmpty then "" else "[style=\"dashed\"]") ++ ";\n"

def dot? (highlight : Option Nat) : Option String := do
  let nodes ← (List.range p.size).mapM (p.dotNode? highlight)
  return "digraph ICFG \x7b\n" ++ String.join nodes ++ String.join (p.dotEdges.map dotEdge) ++
    "\x7d\n"

end Program

end Interproc
