import Interproc.Ordered.Map

namespace Interproc.Solver

structure Statistics where
  iterations : Nat := 0
  states : Nat := 0
  contextsCreated : Nat := 0
  widenings : Nat := 0
  unsureContexts : Nat := 0
  truncatedReturns : Nat := 0
  deriving DecidableEq, Repr, Inhabited

structure CallRecord (N C : Type) where
  site : N
  entry : N
  caller : C
  callee : C

inductive Event (N D C E : Type) where
  | seeding (count : Nat)
  | visited (node : N) (context : C) (facts : D)
  | grew (node : N) (context : C) (facts : D)
  | created (entry : N) (context : C)
  | widened (entry : N) (dropped into : C)
  | unsure (site : N) (context : C)
  | absent (argument : String) (site entry : N)
  | uncalled (exit : N) (context : C)
  | truncated (site : N) (restored caller : C)
  | exhausted (iterations pending : Nat)
  | drained (statistics : Statistics)
  | client (event : E)

structure State (N M D C S E : Type) [Ord N] [Ord M] where
  table : OrdMap N (List (C × D))
  worklist : List (N × C)
  calls : OrdMap M (List (CallRecord N C))
  statistics : Statistics
  seeded : Bool
  finished : Bool
  client : S
  /-- The latest event comes first. -/
  trail : List (Event N D C E)

namespace State

variable {N M D C S E : Type} [Ord N] [Ord M]

def initial (client : S) : State N M D C S E := ⟨∅, [], ∅, {}, false, false, client, []⟩

def events (s : State N M D C S E) : List (Event N D C E) := s.trail.reverse

def entriesAt (s : State N M D C S E) (n : N) : List (C × D) := s.table.getD n []

def callsInto (s : State N M D C S E) (m : M) : List (CallRecord N C) := s.calls.getD m []

def emit (s : State N M D C S E) (e : Event N D C E) : State N M D C S E :=
  { s with trail := e :: s.trail }

def emitAll (s : State N M D C S E) (es : List (Event N D C E)) : State N M D C S E :=
  es.foldl emit s

def queue (s : State N M D C S E) (n : N) (c : C) : State N M D C S E :=
  { s with worklist := s.worklist ++ [(n, c)] }

def count (s : State N M D C S E) (f : Statistics → Statistics) : State N M D C S E :=
  { s with statistics := f s.statistics }

end State

end Interproc.Solver
