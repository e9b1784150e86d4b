import Interproc.Context.Basic
import Interproc.Icfg
import Interproc.Problem
import Interproc.Solver.State

/-!
The worklist algorithm. A visit takes the first waiting state, applies the flow of its node and joins
the outcome into the states after it; whatever grew waits for a visit in turn.
-/
namespace Interproc

open Solver

structure Limits where
  /-- A further context at an entry joins the first one there; without a limit none does. -/
  maxContexts : Option Nat
  maxIterations : Option Nat
  deriving DecidableEq, Repr, Inhabited

def defaultMaxContexts : Nat := 32

inductive Solver.Fault where
  | outOfRange
  | overflow
  deriving DecidableEq, Repr

def Solver.Fault.message : Solver.Fault → String
  | outOfRange => "index out of bounds"
  | overflow => "attempt to add with overflow"

structure Analysis (N M D C S E : Type) where
  graph : Icfg N M
  problem : Problem N M D S E
  contexts : ContextKind N D C
  initial : C
  limits : Limits

namespace Analysis

variable {N M D C S E : Type} [Ord N] [Std.TransOrd N] [DecidableEq N] [Ord M] [Std.TransOrd M]
variable (a : Analysis N M D C S E)

def findIn (es : List (C × D)) (c : C) : Option (C × D) := es.find? (fun e => a.contexts.same e.1 c)

def lookup (s : State N M D C S E) (n : N) (c : C) : Option (C × D) := a.findIn (s.entriesAt n) c

def replace (c : C) (d : D) : List (C × D) → List (C × D)
  | [] => []
  | e :: es => if a.contexts.same e.1 c then (e.1, d) :: es else e :: replace c d es

def joinInto (n : N) (c : C) (d : D) (s : State N M D C S E) : State N M D C S E :=
  match a.lookup s n c with
  | some (c', d') =>
      if a.problem.le d d' then s
      else
        let d'' := a.problem.join d' d
        ({ s with table := s.table.insert n (a.replace c d'' (s.entriesAt n)) }.emit
          (.grew n c' d'')).queue n c'
  | none =>
      (({ s with table := s.table.insert n (s.entriesAt n ++ [(c, d)]) }.emit (.grew n c d)).count
        (fun t => { t with states := t.states + 1 })).queue n c

def create (site entry : N) (c : C) (s : State N M D C S E) : State N M D C S E :=
  let s := s.count (fun t => { t with contextsCreated := t.contextsCreated + 1 })
  let s :=
    if a.contexts.unsure c then
      (s.count (fun t => { t with unsureContexts := t.unsureContexts + 1 })).emit (.unsure site c)
    else s
  s.emit (.created entry c)

/-- The context under which a callee is analyzed: an equal one that is tracked at its entry, the first
one there once the limit is reached, or the new one. -/
def adopt (site entry : N) (c : C) (s : State N M D C S E) : C × State N M D C S E :=
  match a.lookup s entry c with
  | some (c', _) => (c', s)
  | none =>
      match a.limits.maxContexts, s.entriesAt entry with
      | some max, (first, d) :: es =>
          if max ≤ ((first, d) :: es).length then
            (first, (s.count (fun t => { t with widenings := t.widenings + 1 })).emit
              (.widened entry c first))
          else (c, a.create site entry c s)
      | _, _ => (c, a.create site entry c s)

def known (r : CallRecord N C) (rs : List (CallRecord N C)) : Bool :=
  rs.any (fun r' => decide (r'.site = r.site) && decide (r'.entry = r.entry) &&
    a.contexts.same r'.caller r.caller && a.contexts.same r'.callee r.callee)

def recordCall (r : CallRecord N C) (s : State N M D C S E) : Bool × State N M D C S E :=
  let m := a.graph.functionOf r.entry
  if a.known r (s.callsInto m) then (false, s)
  else (true, { s with calls := s.calls.insert m (s.callsInto m ++ [r]) })

/-- Facts that already reached the exits of a callee have yet to reach a new caller. -/
def requeueExits (callee : M) (c : C) (s : State N M D C S E) : State N M D C S E :=
  (a.graph.exits callee).foldl (fun s e =>
    match a.lookup s e c with
    | some (c', _) => s.queue e c'
    | none => s) s

def enterAt (site : N) (c : C) (callee : M) (facts : D) (s : State N M D C S E) (entry : N) :
    State N M D C S E :=
  let s := s.emitAll ((a.contexts.missing site entry facts).map (fun x => .absent x site entry))
  let (c', s) := a.adopt site entry (a.contexts.enter c site entry facts) s
  let (isNew, s) := a.recordCall ⟨site, entry, c, c'⟩ s
  let isKnown := (a.lookup s entry c').isSome
  let s := a.joinInto entry c' facts s
  let s := if isKnown && a.problem.recompute callee then s.queue entry c' else s
  if isNew then a.requeueExits callee c' s else s

def enterCallee (site : N) (c : C) (d : D) (s : State N M D C S E) (callee : M) :
    State N M D C S E :=
  (a.graph.starts callee).foldl (a.enterAt site c callee (a.problem.call site callee d)) s

def enterCallees (site : N) (c : C) (d : D) (s : State N M D C S E) : State N M D C S E :=
  ((a.graph.callees site).takeWhile a.graph.hasFunction).foldl (a.enterCallee site c d) s

def remember (site site' : N) (d : D) (s : State N M D C S E) : State N M D C S E :=
  let (client, es) := a.problem.remember site site' d s.client
  { s with client := client }.emitAll (es.map .client)

def bypassTo (site : N) (c : C) (d : D) (s : State N M D C S E) (site' : N) : State N M D C S E :=
  a.joinInto site' c (a.problem.bypass site site' d) (a.remember site site' d s)

def passable (site : N) (d : D) : List N :=
  (a.graph.returnSites site).takeWhile (fun r => a.problem.reportable site r d)

def passes (site : N) (d : D) : Bool :=
  (a.graph.returnSites site).all (fun r => a.problem.reportable site r d)

def visitCall (n : N) (c : C) (d : D) (s : State N M D C S E) : State N M D C S E × Bool :=
  let s := a.enterCallees n c d s
  if (a.graph.callees n).all a.graph.hasFunction then
    ((a.passable n d).foldl (a.bypassTo n c d) s, a.passes n d)
  else (s, false)

def returnTo (exit : N) (c : C) (d : D) (s : State N M D C S E) (r : CallRecord N C) :
    State N M D C S E :=
  let facts := a.problem.ret r.site (a.graph.functionOf exit) exit d
  let restored := a.contexts.leave c
  let s :=
    if a.contexts.same restored r.caller then s
    else (s.count (fun t => { t with truncatedReturns := t.truncatedReturns + 1 })).emit
      (.truncated r.site restored r.caller)
  (a.graph.returnSites r.site).foldl (fun s site' => a.joinInto site' r.caller facts s) s

def visitExit (n : N) (c : C) (d : D) (s : State N M D C S E) : State N M D C S E :=
  let rs := (s.callsInto (a.graph.functionOf n)).filter (fun r => a.contexts.same r.callee c)
  let s := if rs.isEmpty then s.emit (.uncalled n c) else s
  rs.foldl (a.returnTo n c d) s

def visitPlain (n : N) (c : C) (d : D) (s : State N M D C S E) : State N M D C S E :=
  (a.graph.succs n).foldl (fun s n' => a.joinInto n' c (a.problem.normal n d) s) s

/-- The answer tells whether the visit came to its end. -/
def visit (n : N) (c : C) (d : D) (s : State N M D C S E) : State N M D C S E × Bool :=
  let s := s.emit (.visited n c d)
  if !a.graph.hasNode n then (s, false)
  else if a.graph.isCall n then a.visitCall n c d s
  else if a.graph.isExit n then (a.visitExit n c d s, true)
  else (a.visitPlain n c d s, true)

def step (n : N) (c : C) (s : State N M D C S E) : State N M D C S E × Bool :=
  let s := s.count (fun t => { t with iterations := t.iterations + 1 })
  match a.lookup s n c with
  | some (c', d) => a.visit n c' d s
  | none => (s, true)

inductive Ending where
  | drained
  | paused
  | failed
  deriving DecidableEq, Repr

def run : Nat → State N M D C S E → State N M D C S E × Ending
  | 0, s => (s, if s.worklist.isEmpty then .drained else .paused)
  | fuel + 1, s =>
      match s.worklist with
      | [] => (s, .drained)
      | (n, c) :: rest =>
          match a.step n c { s with worklist := rest } with
          | (s, true) => run fuel s
          | (s, false) => (s, .failed)

def seed (s : State N M D C S E) : State N M D C S E :=
  let s := { s with seeded := true }.emit (.seeding a.problem.seeds.length)
  a.problem.seeds.foldl (fun s (n, d) => a.joinInto n a.initial d s) s

def outgrows (s : State N M D C S E) : Bool :=
  a.limits.maxIterations.any (fun max => 0x10000000000000000 ≤ s.statistics.iterations + max)

/-- Runs until nothing waits or the limit of iterations is used up; without a limit, `fuel` is the
number of iterations after which the run pauses. A later call goes on from there. -/
def solve (fuel : Nat) (s : State N M D C S E) : State N M D C S E × Option Fault :=
  let s := if s.seeded then s else a.seed s
  if a.outgrows s then (s, some .overflow)
  else
    match a.run (a.limits.maxIterations.getD fuel) s with
    | (s, .drained) => ({ s with finished := true }.emit (.drained s.statistics), none)
    | (s, .paused) =>
        (if a.limits.maxIterations.isSome then
          s.emit (.exhausted s.statistics.iterations s.worklist.length) else s, none)
    | (s, .failed) => (s, some .outOfRange)

end Analysis

end Interproc
