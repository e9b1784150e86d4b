import Interproc.Log
import Interproc.Program.Source.Statement
import Interproc.Text.Row

namespace Interproc

open Text

namespace Source

structure Section where
  function : Nat
  header : Nat
  rows : List Row
  deriving DecidableEq, Repr

structure Draft where
  program : Program
  module : String
  closed : List Section
  current : Option Section

def at? {α : Type} (line : Nat) : Except Cause α → Except LiftFailure α
  | .ok a => .ok a
  | .error c => .error (.line line c)

def perform {α : Type} (p : Program) (b : Build α) : Except LiftFailure (α × Program) :=
  match b.run.run p with
  | (.ok a, q) => .ok (a, q)
  | (.error e, _) => .error (.step e)

namespace Draft

def declare (d : Draft) (r : Row) (signature : List Char) : Except LiftFailure (Nat × Draft) := do
  let (name, params) ← at? r.line (signature? signature)
  if (d.program.functionNamed? name).isSome then .error (.line r.line (.definedTwice name))
  let (f, p) ← perform d.program (Program.addFunction name d.module params)
  return (f, { d with program := p })

def outside (d : Draft) (r : Row) : Except LiftFailure Draft :=
  let (keyword, rest) := firstWord r.text
  match String.ofList keyword with
  | "module" =>
      if rest.isEmpty then .error (.line r.line .noModuleName)
      else .ok { d with module := String.ofList rest }
  | "global" =>
      match (dropFirst? '@' rest).filter isName with
      | none => .error (.line r.line (.globalName (String.ofList rest)))
      | some name => do
          let (_, p) ← perform d.program (Program.addGlobal (String.ofList name))
          return { d with program := p }
  | "declare" => do
      let (_, d) ← d.declare r rest
      return d
  | "fn" =>
      match dropLast? '\x7b' rest with
      | none => .error (.line r.line .noOpeningBrace)
      | some signature => do
          let (f, d) ← d.declare r signature
          return { d with current := some ⟨f, r.line, []⟩ }
  | _ => .error (.line r.line (.outsideFunction (String.ofList r.text)))

def inside (d : Draft) (s : Section) (r : Row) : Except LiftFailure Draft :=
  if r.text = ['\x7d'] then .ok { d with closed := d.closed ++ [s], current := none }
  else if ['f', 'n', ' '].isPrefixOf r.text then .error (.line r.line .nestedFunction)
  else .ok { d with current := some { s with rows := s.rows ++ [r] } }

def read (d : Draft) (r : Row) : Except LiftFailure Draft :=
  match d.current with
  | some s => d.inside s r
  | none => d.outside r

end Draft

structure Names where
  labels : OrdMap String Nat
  locals : OrdMap String Nat

def Names.add (params : List Parameter) (names : Names) (r : Row) (n : Nat) :
    Except LiftFailure Names :=
  match label? r.text with
  | some l =>
      let l := String.ofList l
      if names.labels.contains l then .error (.line r.line (.labelTwice l))
      else .ok { names with labels := names.labels.insert l n }
  | none => do
      let (output, _) ← at? r.line (output? r.text)
      match output with
      | none => return names
      | some x =>
          if params.any (fun q => q.name == x) || names.locals.contains x then
            .error (.line r.line (.outputTwice x))
          else return { names with locals := names.locals.insert x n }

def Names.ofRows (params : List Parameter) (base : Nat) (rs : List Row) : Except LiftFailure Names :=
  rs.zipIdx.foldlM (fun names (r, k) => names.add params r (base + k)) ⟨∅, ∅⟩

def liftRow (f : Nat) (names : Names) (p : Program) (r : Row) (n : Nat) :
    Except LiftFailure Program := do
  let i ← at? r.line (Scope.statement? ⟨p, f, names.locals, names.labels⟩ r.text)
  let (m, p) ← perform p (Program.push { i with line := some r.line })
  if m ≠ n then .error (.step .misnumbered)
  return p

def liftSection (p : Program) (s : Section) : Except LiftFailure Program := do
  let base := p.size + 1
  let params := (p.functions[s.function]?.map Function.params).getD []
  let names ← Names.ofRows params base s.rows
  let (_, p) ← perform p (Program.beginBody s.function)
  let p ← s.rows.zipIdx.foldlM (fun p (r, k) => liftRow s.function names p r (base + k)) p
  let (_, p) ← perform p Program.endBody
  return p

def liftRows (rs : List Row) (module : String) : Except LiftFailure Program := do
  let d ← rs.foldlM Draft.read ⟨∅, module, [], none⟩
  match d.current with
  | some s => .error (.line s.header (.neverClosed (d.program.nameOf s.function)))
  | none => d.closed.foldlM liftSection d.program

end Source

/-- The program that a text describes. Functions above the first `module` line belong to `module`. -/
def Program.lift (text module : String) : Except LiftFailure Program :=
  Source.liftRows (rows text.toList) module

def Program.liftedRecord (p : Program) : Record :=
  ⟨.debug, "Lifted program",
    [("functions", toString p.functions.size), ("instructions", toString p.size),
      ("globals", toString p.globals.size)]⟩

end Interproc
