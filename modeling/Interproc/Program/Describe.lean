import Interproc.Described
import Interproc.Program.Basic

namespace Interproc

namespace Op

def name : Op → String
  | start => "FunctionStart"
  | alloca => "Alloca"
  | const => "Const"
  | copy => "Copy"
  | load => "Load"
  | store => "Store"
  | elementPtr => "GetElementPtr"
  | call => "Call"
  | branch => "Branch"
  | ret => "Return"
  | nop => "Nop"

def all : List Op :=
  [start, alloca, const, copy, load, store, elementPtr, call, branch, ret, nop]

def named? (s : String) : Option Op := all.find? (fun o => o.name == s)

theorem named?_name (o : Op) : named? o.name = some o := by cases o <;> decide

end Op

instance : Described Value where
  describe
    | .argument f i =>
        "Argument \x7b function: " ++ describe f ++ ", index: " ++ describe i ++ " \x7d"
    | .result i => "Result(" ++ describe i ++ ")"
    | .global i => "Global(" ++ describe i ++ ")"
    | .constant c => "Constant(" ++ describe c ++ ")"

instance : Described Instruction where
  describe i :=
    "Instruction \x7b op: " ++ i.op.name ++ ", output: " ++ describe i.output ++
      ", inputs: " ++ describe i.inputs ++ ", callee: " ++ describe i.callee ++
      ", targets: " ++ describe i.targets ++ ", function: " ++ describe i.function ++
      ", line: " ++ describe i.line ++ " \x7d"

end Interproc
