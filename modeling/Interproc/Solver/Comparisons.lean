import Interproc.Solver.Results

namespace Interproc.Analysis

open Solver

def recordsAlong {σ α : Type} (change : σ → α → σ) (records : σ → α → List Record) :
    List α → σ → List Record
  | [], _ => []
  | x :: xs, s => records s x ++ recordsAlong change records xs (change s x)

variable {N M D C S E : Type} [Ord N] [Std.TransOrd N] [DecidableEq N] [Ord M] [Std.TransOrd M]
variable (a : Analysis N M D C S E)

def sameRecords (c c' : C) : List Record := a.contexts.compared "is_equal" c c'

def knownRecords (r : CallRecord N C) : List (CallRecord N C) → List Record
  | [] => []
  | r' :: rs =>
      if r'.site = r.site ∧ r'.entry = r.entry then
        a.sameRecords r'.caller r.caller ++
          if a.contexts.same r'.caller r.caller then
            a.sameRecords r'.callee r.callee ++
              if a.contexts.same r'.callee r.callee then [] else knownRecords r rs
          else knownRecords r rs
      else knownRecords r rs

def joinRecords (c : C) (d : D) (xs : List N) (s : State N M D C S E) : List Record :=
  recordsAlong (fun s x => a.joinInto x c d s) (fun s x => a.lookupRecords s x c) xs s

def requeueRecords (callee : M) (c : C) (s : State N M D C S E) : List Record :=
  (a.graph.exits callee).flatMap (fun e => a.lookupRecords s e c)

def enterRecords (site : N) (c : C) (callee : M) (facts : D) (s : State N M D C S E) (entry : N) :
    List Record :=
  let entered := a.contexts.enter c site entry facts
  let (c', t) := a.adopt site entry entered s
  let (isNew, u) := a.recordCall ⟨site, entry, c, c'⟩ t
  a.lookupRecords s entry entered ++
    a.knownRecords ⟨site, entry, c, c'⟩ (t.callsInto (a.graph.functionOf entry)) ++
    a.lookupRecords u entry c' ++ a.lookupRecords u entry c' ++
    if isNew then a.requeueRecords callee c' (a.joinInto entry c' facts u) else []

def calleeRecords (site : N) (c : C) (d : D) (s : State N M D C S E) (callee : M) : List Record :=
  let facts := a.problem.call site callee d
  recordsAlong (a.enterAt site c callee facts) (a.enterRecords site c callee facts)
    (a.graph.starts callee) s

def callRecords (n : N) (c : C) (d : D) (s : State N M D C S E) : List Record :=
  recordsAlong (a.enterCallee n c d) (a.calleeRecords n c d)
      ((a.graph.callees n).takeWhile a.graph.hasFunction) s ++
    if (a.graph.callees n).all a.graph.hasFunction then
      recordsAlong (a.bypassTo n c d) (fun s x => a.lookupRecords s x c) (a.passable n d)
        (a.enterCallees n c d s)
    else []

def returnRecords (exit : N) (c : C) (d : D) (s : State N M D C S E) (r : CallRecord N C) :
    List Record :=
  a.sameRecords (a.contexts.leave c) r.caller ++
    a.joinRecords r.caller (a.problem.ret r.site (a.graph.functionOf exit) exit d)
      (a.graph.returnSites r.site) s

def exitRecords (n : N) (c : C) (d : D) (s : State N M D C S E) : List Record :=
  let rs := s.callsInto (a.graph.functionOf n)
  rs.flatMap (fun r => a.sameRecords r.callee c) ++
    recordsAlong (a.returnTo n c d) (a.returnRecords n c d)
      (rs.filter (fun r => a.contexts.same r.callee c)) s

def visitRecords (n : N) (c : C) (d : D) (s : State N M D C S E) : List Record :=
  if !a.graph.hasNode n then []
  else if a.graph.isCall n then a.callRecords n c d s
  else if a.graph.isExit n then a.exitRecords n c d s
  else a.joinRecords c (a.problem.normal n d) (a.graph.succs n) s

def stepRecords (n : N) (c : C) (s : State N M D C S E) : List Record :=
  a.lookupRecords s n c ++
    match a.lookup s n c with
    | some (c', d) => a.visitRecords n c' d s
    | none => []

def runRecords : Nat → State N M D C S E → List Record
  | 0, _ => []
  | fuel + 1, s =>
      match s.worklist with
      | [] => []
      | (n, c) :: rest =>
          a.stepRecords n c { s with worklist := rest } ++
            match a.step n c { s with worklist := rest } with
            | (t, true) => runRecords fuel t
            | (_, false) => []

def seedRecords (s : State N M D C S E) : List Record :=
  recordsAlong (fun s (n, d) => a.joinInto n a.initial d s)
    (fun s (n, _) => a.lookupRecords s n a.initial) a.problem.seeds s

def solveRecords (fuel : Nat) (s : State N M D C S E) : List Record :=
  let seeding := if s.seeded then [] else a.seedRecords s
  let s := if s.seeded then s else a.seed s
  seeding ++ if a.outgrows s then [] else a.runRecords (a.limits.maxIterations.getD fuel) s

def arrangeRecords (e : C × D) : List (C × D) → List Record
  | [] => []
  | x :: xs =>
      a.contexts.compared "is_less_than" e.1 x.1 ++
        if a.contexts.before e.1 x.1 then [] else arrangeRecords e xs

def resultsRecords (s : State N M D C S E) (n : N) : List Record :=
  recordsAlong (fun xs e => a.arrange e xs) (fun xs e => a.arrangeRecords e xs) (s.entriesAt n) []

end Interproc.Analysis
