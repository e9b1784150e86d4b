import Interproc.Program.Render

namespace Interproc

inductive Query where
  | valueNamed (function : Nat) (name : String)
  | functionNamed (name : String)
  | nameOf (function : Nat)
  | functionOf (node : Nat)
  | callsTo (caller callee : Nat)
  | formals (function : Nat)
  | isPointerFormal (value : Value)
  | valueText (value : Value)
  | text (node : Nat) (rename : String → String)
  | succs (node : Nat)
  | preds (node : Nat)
  | isCall (node : Nat)
  | isExit (node : Nat)
  | callees (node : Nat)
  | returnSites (node : Nat)
  | starts (function : Nat)
  | exits (function : Nat)

inductive Answer where
  | value (v : Option Value)
  | values (vs : List Value)
  | index (i : Option Nat)
  | indexes (is : List Nat)
  | flag (b : Bool)
  | text (s : String)
  deriving DecidableEq, Repr

namespace Program

def localNamed? (p : Program) (f : Nat) (g : Function) (name : String) : Option Value :=
  match g.params.findIdx? (fun x => x.name == name) with
  | some i => some (.argument f i)
  | none =>
      match g.body with
      | some b =>
          (b.toList.find? (fun n => p.instructions[n]?.any (fun i => i.output == some name))).map
            Value.result
      | none => none

def valueNamed? (p : Program) (f : Nat) (name : String) : Option (Option Value) :=
  match name.toList with
  | '@' :: g => some ((p.globals.indexOf? (String.ofList g)).map Value.global)
  | '%' :: x => p.functions[f]?.map (fun g => p.localNamed? f g (String.ofList x))
  | _ => some none

variable (p : Program)

def inFunction {α : Type} (f : Nat) (a : α) : Option α := if p.hasFunction f then some a else none

def inProgram {α : Type} (n : Nat) (a : α) : Option α := if p.hasNode n then some a else none

def answer? : Query → Option Answer
  | .valueNamed f name => (p.valueNamed? f name).map .value
  | .functionNamed name => some (.index (p.functionNamed? name))
  | .nameOf f => p.inFunction f (.text (p.nameOf f))
  | .functionOf n => p.inProgram n (.index (some (p.functionOf n)))
  | .callsTo f g => p.inFunction f (.indexes (p.callsTo f g))
  | .formals f => p.inFunction f (.values (p.formals f))
  | .isPointerFormal (.argument f i) => (p.parameter? f i).map (fun x => .flag x.isPointer)
  | .isPointerFormal _ => some (.flag false)
  | .valueText v => (p.valueText? v).map .text
  | .text n rename => (p.textWith? rename n).map .text
  | .succs n => p.inProgram n (.indexes (p.succs n))
  | .preds n => p.inProgram n (.indexes (p.preds n))
  | .isCall n => p.inProgram n (.flag (p.isCall n))
  | .isExit n => p.inProgram n (.flag (p.isExit n))
  | .callees n => p.inProgram n (.indexes (p.calleesAt n))
  | .returnSites n => p.inProgram n (.indexes (p.succs n))
  | .starts f => p.inFunction f (.indexes (p.entryOf f))
  | .exits f => p.inFunction f (.indexes (p.exitsOf f))

end Program

end Interproc
