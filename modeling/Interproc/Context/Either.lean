import Interproc.Context.Arguments
import Interproc.Context.CallString
import Interproc.Log

namespace Interproc

inductive EitherContext (N D : Type) (K : Nat) where
  | callString (c : CallString N K)
  | arguments (c : Arguments D)

namespace EitherContext

variable {N D : Type} {K : Nat}

def kindName : EitherContext N D K → String
  | callString _ => "call-string"
  | arguments _ => "value-based"

def alike : EitherContext N D K → EitherContext N D K → Bool
  | callString _, callString _ => true
  | arguments _, arguments _ => true
  | _, _ => false

def comparisonRecords (operation : String) (c d : EitherContext N D K) : List Record :=
  if c.alike d then []
  else [⟨.error, "Contract violation: comparing contexts of different kinds",
    [("operation", operation), ("lhs", c.kindName), ("rhs", d.kindName)]⟩]

def enter : EitherContext N D K → N → D → EitherContext N D K
  | callString c, site, _ => callString (c.enter site)
  | arguments c, _, incoming => arguments (c.enter incoming)

variable [EmptyCollection D]

def leave : EitherContext N D K → EitherContext N D K
  | callString c => callString c.leave
  | arguments c => arguments c.leave

def unsure : EitherContext N D K → Bool
  | callString c => c.unsure
  | arguments _ => false

def same [DecidableEq N] [DecidableEq D] : EitherContext N D K → EitherContext N D K → Bool
  | callString c, callString d => c.same d
  | arguments c, arguments d => c.same d
  | _, _ => false

def before [Ord N] [Ord D] : EitherContext N D K → EitherContext N D K → Bool
  | callString c, callString d => c.before d
  | arguments c, arguments d => c.before d
  | _, _ => false

def text [Described N] [Described D] : EitherContext N D K → String
  | callString c => c.text
  | arguments c => c.text

def kind [DecidableEq N] [Ord N] [Described N] [DecidableEq D] [Ord D] [Described D] :
    ContextKind N D (EitherContext N D K) where
  enter c site _ incoming := c.enter site incoming
  leave := leave
  unsure := unsure
  same := same
  before := before
  text := text
  compared := comparisonRecords

end EitherContext

end Interproc
