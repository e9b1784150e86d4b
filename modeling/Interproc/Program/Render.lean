import Interproc.Described
import Interproc.Program.Basic

namespace Interproc

namespace Program

def valueText? (p : Program) : Value → Option String
  | .argument f i => (p.parameter? f i).map (fun x => "%" ++ x.name)
  | .result n => p.instructions[n]?.map (fun i => "%" ++ i.output.getD (toString n))
  | .global g => some ("@" ++ (p.globals.get? g).getD (toString g))
  | .constant c => some (toString c)

def valueTexts? (p : Program) (vs : List Value) : Option (List String) := vs.mapM p.valueText?

def bodyText? (p : Program) (rename : String → String) (i : Instruction) (inputs : String) :
    Option String :=
  match i.op with
  | .start => p.functions[i.function]?.map (fun f => "start " ++ rename f.name)
  | .alloca => some "alloca"
  | .const => some ("const " ++ inputs)
  | .copy => some ("copy " ++ inputs)
  | .load => some ("load " ++ inputs)
  | .store => some ("store " ++ inputs)
  | .elementPtr => some ("gep " ++ inputs)
  | .call =>
      match i.callee with
      | some c => p.functions[c]?.map (fun f => "call " ++ rename f.name ++ "(" ++ inputs ++ ")")
      | none => some ("call ?(" ++ inputs ++ ")")
  | .branch => some ("br " ++ commaList (i.targets.map toString))
  | .ret => some (if i.inputs.isEmpty then "ret" else "ret " ++ inputs)
  | .nop => some "nop"

def statementText? (p : Program) (rename : String → String) (i : Instruction) : Option String := do
  let inputs ← p.valueTexts? i.inputs
  let body ← p.bodyText? rename i (commaList inputs)
  match i.output with
  | some name => return "%" ++ name ++ " = " ++ body
  | none => return body

def textWith? (p : Program) (rename : String → String) (n : Nat) : Option String := do
  let i ← p.instructions[n]?
  let f ← p.functions[i.function]?
  let s ← p.statementText? rename i
  return rename f.name ++ "#" ++ toString n ++ ": " ++ s

def text? (p : Program) (n : Nat) : Option String := p.textWith? id n

def setText? (p : Program) (s : ValueSet) : Option String := do
  let xs ← p.valueTexts? s.elements
  return braced xs

end Program

end Interproc
