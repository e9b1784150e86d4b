import Interproc.Log
import Interproc.Partition.Basic
import Interproc.Program.Basic

namespace Interproc

abbrev PointsTo := Value → ValueSet

def noAliases : PointsTo := fun v => OrdSet.single v

def Partition.peers (c : Partition Value) : PointsTo := fun v => (c.classOf v).1

namespace Program

variable (p : Program)

def argumentPairs (f : Nat) (inputs : List Value) : List (Value × Value) :=
  (inputs.zip (p.formals f)).filter (fun (_, formal) => p.isPointerFormal formal)

def returnPairs (f n : Nat) : List (Value × Value) :=
  (p.exitsOf f).filterMap (fun e => ((p.inputsAt e).head?).map (fun v => (v, .result n)))

def aliasPairsAt (i : Instruction) (n : Nat) : List (Value × Value) :=
  match i.op with
  | .copy | .elementPtr => (i.inputs.head?.map (fun v => (v, Value.result n))).toList
  | .call =>
      match i.callee with
      | none => []
      | some f =>
          if (p.body? f).isNone then []
          else p.argumentPairs f i.inputs ++ if i.output.isSome then p.returnPairs f n else []
  | _ => []

def aliasPairs : List (Value × Value) :=
  (p.instructions.toList.zipIdx.flatMap (fun (i, n) => p.aliasPairsAt i n)).filter
    (fun (v, w) => !v.isConstant && !w.isConstant)

def aliasClasses : Partition Value := p.aliasPairs.foldl (fun c (v, w) => c.merge v w) ∅

def calleesExist : Bool :=
  p.instructions.all (fun i => i.callee.all (fun f => decide (f < p.functions.size)))

def aliasRecord : Record :=
  ⟨.trace, "Computed alias classes", [("values", toString p.aliasClasses.size)]⟩

end Program

end Interproc
