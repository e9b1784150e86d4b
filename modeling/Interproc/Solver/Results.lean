import Interproc.Solver.Step

namespace Interproc.Analysis

open Solver

variable {N M D C S E : Type} [Ord N] [Std.TransOrd N] [DecidableEq N] [Ord M] [Std.TransOrd M]
variable (a : Analysis N M D C S E)

def arrange (e : C × D) : List (C × D) → List (C × D)
  | [] => [e]
  | x :: xs => if a.contexts.before e.1 x.1 then e :: x :: xs else x :: arrange e xs

def ordered (es : List (C × D)) : List (C × D) := es.foldl (fun xs e => a.arrange e xs) []

def resultsAt (s : State N M D C S E) (n : N) : List (C × D) := a.ordered (s.entriesAt n)

def contextsAt (s : State N M D C S E) (n : N) : List C := (a.resultsAt s n).map Prod.fst

def factsIn (s : State N M D C S E) (n : N) (c : C) : Option D := (a.lookup s n c).map Prod.snd

def lookupRecords (s : State N M D C S E) (n : N) (c : C) : List Record :=
  let es := s.entriesAt n
  let passed := (es.takeWhile (fun e => !a.contexts.same e.1 c)).length
  (es.take (passed + 1)).flatMap (fun e => a.contexts.compared "is_equal" e.1 c)

def factsAt (s : State N M D C S E) (n : N) : D :=
  (s.entriesAt n).foldl (fun d e => a.problem.join d e.2) a.problem.bottom

def dumpEntry? (e : C × D) : Option String := do
  let facts ← a.problem.factsText e.2
  return "  Context: " ++ a.contexts.text e.1 ++ "\n  Facts:   " ++ facts ++ "\n"

def dumpNode? (n : N) (es : List (C × D)) : Option String := do
  let node ← a.problem.nodeText n
  let entries ← (a.ordered es).mapM a.dumpEntry?
  return "Node: " ++ node ++ "\n" ++ String.join entries

def dump? (s : State N M D C S E) : Option String := do
  let nodes ← s.table.entries.mapM (fun (n, es) => a.dumpNode? n es)
  return "----- Inter-procedural monotone solver results -----\n" ++ String.join nodes

def edgesAt (n : N) (d : D) : List (N × D) :=
  if a.graph.isCall n then (a.graph.returnSites n).map (fun r => (r, a.problem.bypass n r d))
  else if a.graph.isExit n then []
  else (a.graph.succs n).map (fun m => (m, a.problem.normal n d))

def includes (s : State N M D C S E) (c : C) (n : N) (d : D) : Bool :=
  match a.lookup s n c with
  | some (_, d') => a.problem.le d d'
  | none => false

def violationsAt (s : State N M D C S E) (n : N) (c : C) (d : D) : List (N × N) :=
  ((a.edgesAt n d).filter (fun (m, d') => !a.includes s c m d')).map (fun (m, _) => (n, m))

def reviewCall (n : N) (d : D) (s : State N M D C S E) : State N M D C S E × Bool :=
  if a.graph.isCall n then
    ((a.passable n d).foldl (fun s r => a.remember n r d s) s, a.passes n d)
  else (s, true)

def tracked (s : State N M D C S E) : List (N × C × D) :=
  s.table.entries.flatMap (fun (n, es) => es.map (fun (c, d) => (n, c, d)))

def review : List (N × C × D) → State N M D C S E → State N M D C S E × Option (List (N × N))
  | [], s => (s, some [])
  | (n, c, d) :: rest, s =>
      if !a.graph.hasNode n then (s, none)
      else
        match a.reviewCall n d s with
        | (s, false) => (s, none)
        | (s, true) =>
            match review rest s with
            | (s, none) => (s, none)
            | (s, some vs) => (s, some (a.violationsAt s n c d ++ vs))

/-- The edges along which facts do not flow into what is tracked at their end. The flow along the calls
is computed once more, and what it reports is kept. -/
def checkPostFixpoint (s : State N M D C S E) : State N M D C S E × Option (List (N × N)) :=
  a.review (tracked s) s

end Interproc.Analysis
