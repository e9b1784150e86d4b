import Interproc.Context.Basic
import Interproc.Program.Flow
import Interproc.Solver.Step
import Interproc.Taint.Problem

namespace Interproc.Taint

abbrev Run (C : Type) := Solver.State Nat Nat ValueSet C Leaks Event

def Setup.analysis {C : Type} (t : Setup) (k : ContextKind Nat ValueSet C) (initial : C)
    (limits : Limits) : Analysis Nat Nat ValueSet C Leaks Event :=
  ⟨t.program.icfg, t.problem, k, initial, limits⟩

def Run.start {C : Type} : Run C := Solver.State.initial ∅

end Interproc.Taint
