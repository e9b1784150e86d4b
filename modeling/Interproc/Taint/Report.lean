import Interproc.Taint.Problem

namespace Interproc.Taint.Setup

variable (t : Setup)

def leakText? (rename : String → String) (site : Nat) (vs : ValueSet) : Option String := do
  let i ← t.program.instructions[site]?
  let f ← t.program.functions[i.function]?
  let call ← t.program.textWith? rename site
  let values ← t.program.valueTexts? vs.elements
  return "At instruction:  '" ++ call ++ "'\nIn file:         '" ++ f.module ++ "'\n" ++
    String.join (values.map (fun v => "Leak:            '" ++ v ++ "'\n")) ++
    "-------------------\n"

def report? (rename : String → String) (leaks : Leaks) : Option String := do
  let leaks ←
    if leaks.isEmpty then pure ["No leaks found!\n"]
    else leaks.entries.mapM (fun (site, vs) => t.leakText? rename site vs)
  return "\n----- Found the following leaks -----\n" ++ String.join leaks

def normal? (n : Nat) (d : ValueSet) : Option ValueSet :=
  if t.program.hasNode n then some (t.normal n d) else none

def call? (site callee : Nat) (d : ValueSet) : Option ValueSet :=
  if t.program.hasFunction callee && (t.isSensitive callee || t.program.hasNode site) then
    some (t.call site callee d)
  else none

def ret? (site callee exit : Nat) (d : ValueSet) : Option ValueSet :=
  if t.program.hasNode exit && t.program.hasNode site && t.program.hasFunction callee then
    some (t.ret site callee exit d)
  else none

def bypass? (site : Nat) (d : ValueSet) (leaks : Leaks) : Option (ValueSet × Leaks × List Event) :=
  if t.program.hasNode site && t.reportable site d then
    some (t.bypass site d, t.remember site d leaks)
  else none

end Interproc.Taint.Setup
