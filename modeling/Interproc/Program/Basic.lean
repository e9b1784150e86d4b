import Interproc.Interned
import Interproc.Program.Value

namespace Interproc

inductive Op where
  | start
  | alloca
  | const
  | copy
  | load
  | store
  | elementPtr
  | call
  | branch
  | ret
  | nop
  deriving DecidableEq, Repr, Inhabited

structure Instruction where
  op : Op
  output : Option String := none
  inputs : List Value := []
  callee : Option Nat := none
  targets : List Nat := []
  function : Nat := 0
  line : Option Nat := none
  deriving DecidableEq, Repr, Inhabited

structure Parameter where
  name : String
  isPointer : Bool
  deriving DecidableEq, Repr, Inhabited

structure Span where
  first : Nat
  stop : Nat
  deriving DecidableEq, Repr, Inhabited

def Span.toList (b : Span) : List Nat := List.range' b.first (b.stop - b.first)

instance : Membership Nat Span := ⟨fun b i => b.first ≤ i ∧ i < b.stop⟩

instance (i : Nat) (b : Span) : Decidable (i ∈ b) :=
  inferInstanceAs (Decidable (b.first ≤ i ∧ i < b.stop))

@[simp] theorem Span.mem_toList {b : Span} {i : Nat} : i ∈ b.toList ↔ i ∈ b := by
  show i ∈ List.range' b.first (b.stop - b.first) ↔ b.first ≤ i ∧ i < b.stop
  rw [List.mem_range'_1]
  omega

structure Function where
  name : String
  module : String
  params : List Parameter
  body : Option Span
  deriving DecidableEq, Repr, Inhabited

structure Program where
  instructions : Array Instruction
  functions : Array Function
  functionIndex : OrdMap String Nat :=
    OrdMap.ofList (functions.toList.zipIdx.map (fun (f, i) => (f.name, i)))
  globals : Interned String
  openBody : Option Nat
  deriving DecidableEq, Inhabited

namespace Instruction

def takesShape (i : Instruction) : Bool :=
  match i.op with
  | .start | .nop => i.inputs.isEmpty && i.output.isNone
  | .alloca => i.inputs.isEmpty && i.output.isSome
  | .const => i.inputs.length == 1 && i.output.isSome && i.inputs.all Value.isConstant
  | .copy | .load => i.inputs.length == 1 && i.output.isSome
  | .store => i.inputs.length == 2 && i.output.isNone
  | .elementPtr => !i.inputs.isEmpty && i.output.isSome
  | .call => i.callee.isSome
  | .branch => i.inputs.isEmpty && i.output.isNone
  | .ret => decide (i.inputs.length ≤ 1) && i.output.isNone

def succs (i : Instruction) (n : Nat) : List Nat :=
  match i.op with
  | .ret => []
  | .branch => i.targets
  | _ => [n + 1]

end Instruction

namespace Program

instance : EmptyCollection Program := ⟨⟨#[], #[], ∅, ∅, none⟩⟩

def size (p : Program) : Nat := p.instructions.size

def hasNode (p : Program) (n : Nat) : Bool := decide (n < p.size)

def hasFunction (p : Program) (f : Nat) : Bool := decide (f < p.functions.size)

def functionNamed? (p : Program) (name : String) : Option Nat := p.functionIndex.get? name

def body? (p : Program) (f : Nat) : Option Span := p.functions[f]?.bind Function.body

def bodyOf (p : Program) (f : Nat) : List Nat :=
  match p.body? f with
  | some b => b.toList
  | none => []

def opAt? (p : Program) (n : Nat) : Option Op := p.instructions[n]?.map Instruction.op

def formals (p : Program) (f : Nat) : List Value :=
  match p.functions[f]? with
  | some g => (List.range g.params.length).map (Value.argument f)
  | none => []

def parameter? (p : Program) (f i : Nat) : Option Parameter :=
  p.functions[f]?.bind (fun g => g.params[i]?)

def isPointerFormal (p : Program) : Value → Bool
  | .argument f i => (p.parameter? f i).any Parameter.isPointer
  | _ => false

def entryOf (p : Program) (f : Nat) : List Nat :=
  match p.body? f with
  | some b => [b.first]
  | none => []

def exitsOf (p : Program) (f : Nat) : List Nat :=
  (p.bodyOf f).filter (fun n => p.opAt? n == some .ret)

def functionOf (p : Program) (n : Nat) : Nat := (p.instructions[n]?.map Instruction.function).getD 0

def succs (p : Program) (n : Nat) : List Nat :=
  match p.instructions[n]? with
  | some i => i.succs n
  | none => []

def preds (p : Program) (n : Nat) : List Nat :=
  (p.bodyOf (p.functionOf n)).filter (fun m => (p.succs m).contains n)

def isCall (p : Program) (n : Nat) : Bool := p.opAt? n == some .call

def isExit (p : Program) (n : Nat) : Bool := p.opAt? n == some .ret

def calleesAt (p : Program) (n : Nat) : List Nat :=
  (p.instructions[n]?.bind Instruction.callee).toList

def inputsAt (p : Program) (n : Nat) : List Value :=
  match p.instructions[n]? with
  | some i => i.inputs
  | none => []

def callsTo (p : Program) (caller callee : Nat) : List Nat :=
  (p.bodyOf caller).filter (fun n => p.isCall n && (p.calleesAt n).contains callee)

def nameOf (p : Program) (f : Nat) : String := (p.functions[f]?.map Function.name).getD ""

end Program

end Interproc
