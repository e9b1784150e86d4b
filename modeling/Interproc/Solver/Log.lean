import Interproc.Config
import Interproc.Described
import Interproc.Log
import Interproc.Solver.Step

namespace Interproc.Solver

variable {N D C E : Type} [Described N] [Described D]

def limitField (name : String) : Option Nat → List (String × String)
  | some n => [(name, toString n)]
  | none => []

def absentRecord (argument : String) (site entry : N) : Record :=
  ⟨.debug, "Expected argument missing from incoming facts",
    [("id", argument), ("src", describe site), ("dest", describe entry)]⟩

def Event.ownRecords (k : ContextKind N D C) (limits : Limits) : Event N D C E → List Record
  | .seeding n => [⟨.debug, "Seeding solver",
      ("seeds", toString n) :: limitField "max_contexts_per_entry" limits.maxContexts ++
        limitField "max_iterations" limits.maxIterations⟩]
  | .absent x site entry => [absentRecord x site entry]
  | .uncalled exit c => [⟨.trace, "Exit reached without a recorded caller",
      [("exit", describe exit), ("context", k.text c)]⟩]
  | .truncated site restored caller => [⟨.trace, "Restored context differs from recorded caller",
      [("call_site", describe site), ("restored", k.text restored), ("caller", k.text caller)]⟩]
  | .exhausted iterations pending => [⟨.warning, "Iteration budget exhausted; results are partial",
      [("iterations", toString iterations), ("pending", toString pending)]⟩]
  | .drained t => [⟨.debug, "Solver reached fixpoint",
      [("iterations", toString t.iterations), ("states", toString t.states),
        ("contexts", toString t.contextsCreated), ("widenings", toString t.widenings),
        ("unsure_contexts", toString t.unsureContexts)]⟩]
  | _ => []

def Event.observedRecords (k : ContextKind N D C) (config : Config) : Event N D C E → List Record
  | .visited n c d =>
      if config.logEveryVisitedState then [⟨.trace, "Visiting state",
        [("node", describe n), ("context", k.text c), ("facts", describe d)]⟩]
      else []
  | .grew n c d => [⟨.trace, "Facts changed",
      [("node", describe n), ("context", k.text c), ("facts", describe d)]⟩]
  | .created entry c => [⟨.debug, "New context at procedure entry",
      [("entry", describe entry), ("context", k.text c)]⟩]
  | .widened entry dropped into =>
      [⟨.warning, "Context limit reached at procedure entry, widening",
        [("entry", describe entry), ("dropped", k.text dropped), ("into", k.text into)]⟩]
  | .unsure site c =>
      if config.reportUnsureContexts then [⟨.warning, "Context lost precision",
        [("call_site", describe site), ("context", k.text c)]⟩]
      else []
  | _ => []

end Interproc.Solver
