import Interproc.Program.Describe

/-!
Programs built step by step. A step that fails keeps what it changed before the fault, so the
program after it is part of the answer.
-/
namespace Interproc

inductive BuildFault where
  | addedTwice (name : String)
  | bodyOpen
  | bodyPresent
  | noOpenBody
  | nothingToEnd
  | outOfRange
  | notABranch
  | misnumbered
  | malformed (i : Instruction)
  | calleeElsewhere (i : Instruction)
  | targetsElsewhere (i : Instruction)
  | leaves (branch : Nat) (name : String)
  deriving DecidableEq, Repr

def BuildFault.message : BuildFault → String
  | addedTwice name => "Function " ++ name ++ " added twice"
  | bodyOpen => "Should have called `end_body` before calling `begin_body` again"
  | bodyPresent => "assertion"
  | noOpenBody => "Instructions must be added inside a body"
  | nothingToEnd => "No body is being built"
  | outOfRange => "index out of bounds"
  | notABranch => "assertion"
  | misnumbered => "assertion"
  | malformed i => "Malformed instruction " ++ describe i
  | calleeElsewhere i => "Only calls have callees: " ++ describe i
  | targetsElsewhere i => "Only branches have targets: " ++ describe i
  | leaves n name => "Branch at " ++ toString n ++ " leaves function " ++ name

def Instruction.fault? (i : Instruction) : Option BuildFault :=
  if !i.takesShape then some (.malformed i)
  else if i.op ≠ .call ∧ i.callee.isSome then some (.calleeElsewhere i)
  else if i.op ≠ .branch ∧ !i.targets.isEmpty then some (.targetsElsewhere i)
  else none

abbrev Build := ExceptT BuildFault (StateM Program)

namespace Program

def addGlobal (name : String) : Build Value := do
  modify (fun p => { p with globals := p.globals.insert name })
  return .global ((← get).globals.position name)

def withFunction (p : Program) (f : Function) : Program :=
  { p with
    functions := p.functions.push f
    functionIndex := p.functionIndex.insert f.name p.functions.size }

@[simp] theorem functions_withFunction (p : Program) (f : Function) :
    (p.withFunction f).functions = p.functions.push f := rfl

@[simp] theorem functionIndex_withFunction (p : Program) (f : Function) :
    (p.withFunction f).functionIndex = p.functionIndex.insert f.name p.functions.size := rfl

def addFunction (name module : String) (params : List Parameter) : Build Nat := do
  let p ← get
  if (p.functionNamed? name).isSome then throw (.addedTwice name)
  set (p.withFunction ⟨name, module, params, none⟩)
  return p.functions.size

def push (i : Instruction) : Build Nat := do
  let p ← get
  match p.openBody with
  | none => throw .noOpenBody
  | some f =>
      let i := { i with function := f }
      match i.fault? with
      | some e => throw e
      | none =>
          set { p with instructions := p.instructions.push i }
          return p.size

def setBody (p : Program) (f : Nat) (b : Span) : Program :=
  { p with functions := p.functions.modify f (fun g => { g with body := some b }) }

def beginBody (f : Nat) : Build Unit := do
  let p ← get
  if p.openBody.isSome then throw .bodyOpen
  match p.functions[f]? with
  | none => throw .outOfRange
  | some g =>
      if g.body.isSome then throw .bodyPresent
      set { p.setBody f ⟨p.size, p.size⟩ with openBody := some f }
      discard (push ⟨.start, none, [], none, [], f, none⟩)

def setTargets (n : Nat) (targets : List Nat) : Build Unit := do
  let p ← get
  match p.instructions[n]? with
  | none => throw .outOfRange
  | some i =>
      if i.op ≠ .branch then throw .notABranch
      set { p with instructions := p.instructions.setIfInBounds n { i with targets := targets } }

def strays (p : Program) (b : Span) : List Nat :=
  b.toList.filter (fun n => (p.instructions[n]?).any (fun i => i.targets.any (fun t => t ∉ b)))

def fallsThrough (p : Program) : Bool :=
  match p.instructions.back? with
  | some i => i.op ≠ .ret ∧ i.op ≠ .branch
  | none => true

def endBody : Build Unit := do
  let p ← get
  match p.openBody with
  | none => throw .nothingToEnd
  | some f =>
      let p := { p with openBody := none }
      let p := if p.fallsThrough then
          { p with instructions := p.instructions.push ⟨.ret, none, [], none, [], f, none⟩ }
        else p
      match p.body? f with
      | none => throw .outOfRange
      | some b =>
          let b := ⟨b.first, p.size⟩
          let p := p.setBody f b
          set p
          match p.strays b with
          | [] => return ()
          | n :: _ => throw (.leaves n (p.nameOf f))

end Program

end Interproc
