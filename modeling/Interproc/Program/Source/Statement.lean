import Interproc.Program.Source.Lexicon
import Interproc.Text.Decimal

namespace Interproc.Source

open Text

structure Scope where
  program : Program
  function : Nat
  locals : OrdMap String Nat
  labels : OrdMap String Nat

namespace Scope

def params (s : Scope) : List Parameter :=
  match s.program.functions[s.function]? with
  | some f => f.params
  | none => []

def value? (s : Scope) (token : List Char) : Except Cause Value :=
  match token with
  | '%' :: name =>
      match s.params.findIdx? (fun x => x.name == String.ofList name) with
      | some i => .ok (.argument s.function i)
      | none =>
          match s.locals.get? (String.ofList name) with
          | some n => .ok (.result n)
          | none => .error (.unknownValue (String.ofList token))
  | '@' :: name =>
      match s.program.globals.indexOf? (String.ofList name) with
      | some g => .ok (.global g)
      | none => .error (.unknownGlobal (String.ofList token))
  | _ =>
      match Decimal.constant? token with
      | some c => .ok (.constant c)
      | none => .error (.notAValue (String.ofList token))

def values? (s : Scope) (mnemonic : String) (fits : Nat → Bool) (operands : List Char) :
    Except Cause (List Value) :=
  if fits (items operands).length then (items operands).mapM s.value?
  else .error (.operandCount mnemonic)

def target? (s : Scope) (name : List Char) : Except Cause Nat :=
  match s.labels.get? (String.ofList name) with
  | some n => .ok n
  | none => .error (.unknownLabel (String.ofList name))

def call? (s : Scope) (operands : List Char) : Except Cause Instruction := do
  let (name, list) ← Source.call? operands
  match s.program.functionNamed? name with
  | none => .error (.unknownFunction name)
  | some f =>
      if list.length < ((s.program.functions[f]?.map Function.params).getD []).length then
        .error (.tooFewArguments name)
      let inputs ← list.mapM s.value?
      return { op := .call, inputs := inputs, callee := some f }

def named (mnemonic : String) (output : Option String) (i : Instruction) : Except Cause Instruction :=
  match output with
  | some name => .ok { i with output := some name }
  | none => .error (.unnamedResult mnemonic)

def unnamed (mnemonic : String) (output : Option String) (i : Instruction) :
    Except Cause Instruction :=
  match output with
  | some _ => .error (.noResult mnemonic)
  | none => .ok i

def operation? (s : Scope) (output : Option String) (mnemonic : String) (operands : List Char) :
    Except Cause Instruction :=
  match mnemonic with
  | "alloca" => do
      let vs ← s.values? mnemonic (fun n => n == 0) operands
      named mnemonic output { op := .alloca, inputs := vs }
  | "const" =>
      match Decimal.constant? operands with
      | some c => named mnemonic output { op := .const, inputs := [.constant c] }
      | none => .error (.notAnInteger (String.ofList operands))
  | "copy" => do
      let vs ← s.values? mnemonic (fun n => n == 1) operands
      named mnemonic output { op := .copy, inputs := vs }
  | "load" => do
      let vs ← s.values? mnemonic (fun n => n == 1) operands
      named mnemonic output { op := .load, inputs := vs }
  | "store" => do
      let vs ← s.values? mnemonic (fun n => n == 2) operands
      unnamed mnemonic output { op := .store, inputs := vs }
  | "gep" => do
      let vs ← s.values? mnemonic (fun n => decide (1 ≤ n)) operands
      named mnemonic output { op := .elementPtr, inputs := vs }
  | "call" => do
      let i ← s.call? operands
      return { i with output := output }
  | "br" => do
      let ts ← (items operands).mapM s.target?
      if ts.isEmpty then .error .noTarget
      unnamed mnemonic output { op := .branch, targets := ts }
  | "ret" => do
      if 1 < (items operands).length then .error .manyReturned
      let vs ← s.values? mnemonic (fun _ => true) operands
      unnamed mnemonic output { op := .ret, inputs := vs }
  | "nop" => do
      let vs ← s.values? mnemonic (fun n => n == 0) operands
      unnamed mnemonic output { op := .nop, inputs := vs }
  | _ => .error (.unknownInstruction mnemonic)

def statement? (s : Scope) (cs : List Char) : Except Cause Instruction :=
  match label? cs with
  | some _ => .ok { op := .nop }
  | none => do
      let (output, rest) ← output? cs
      s.operation? output (String.ofList (firstWord rest).1) (firstWord rest).2

end Scope

end Interproc.Source
