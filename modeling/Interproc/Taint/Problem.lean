import Interproc.Alias
import Interproc.Config
import Interproc.Problem
import Interproc.Program.Describe
import Interproc.Program.Render
import Interproc.Taint.Registry

namespace Interproc.Taint

abbrev Leaks := OrdMap Nat ValueSet

inductive Event where
  | leak (site : Nat) (value : Value)
  | sourceCall (call facts : String)
  deriving DecidableEq, Repr

def Event.ownRecords : Event → List Record
  | .sourceCall call facts => [⟨.trace, "Source call", [("call_site", call), ("facts", facts)]⟩]
  | .leak .. => []

def Event.observedRecords : Event → List Record
  | .leak site v =>
      [⟨.info, "Found a leak", [("sink_call", describe site), ("value", describe v)]⟩]
  | .sourceCall .. => []

structure UnknownEntry where
  name : String
  deriving DecidableEq, Repr

def UnknownEntry.message (e : UnknownEntry) : String :=
  "entry point `" ++ e.name ++ "` does not name a function with a body"

structure Setup where
  program : Program
  registry : Registry
  aliases : PointsTo
  entries : List Nat
  config : Config

def entryPoint? (p : Program) (name : String) : Except UnknownEntry Nat :=
  match (p.functionNamed? name).filter (fun f => (p.body? f).isSome) with
  | some f => .ok f
  | none => .error ⟨name⟩

def Setup.ofNames (p : Program) (r : Registry) (aliases : PointsTo) (names : List String)
    (config : Config) : Except UnknownEntry Setup := do
  let entries ← names.mapM (entryPoint? p)
  return ⟨p, r, aliases, entries, config⟩

namespace Setup

variable (t : Setup)

def normal (n : Nat) (d : ValueSet) : ValueSet :=
  match t.program.instructions[n]? with
  | none => d
  | some i =>
      match i.op, i.inputs with
      | .store, v :: pointer :: _ =>
          if v ∈ d then d.insert pointer else if pointer ∈ d then d.erase pointer else d
      | .load, v :: _ => if v ∈ d then d.insert (.result n) else d
      | .elementPtr, v :: _ => if v ∈ d then d.insert (.result n) else d
      | .copy, v :: _ => if v ∈ d then d.insert (.result n) else d
      | _, _ => d

def bindings (site callee : Nat) : List (Value × Value) :=
  (t.program.inputsAt site).zip (t.program.formals callee)

def isSensitive (callee : Nat) : Bool :=
  let name := t.program.nameOf callee
  t.registry.isSource name || t.registry.isSink name

def call (site callee : Nat) (d : ValueSet) : ValueSet :=
  if t.isSensitive callee then ∅
  else OrdSet.ofList (((t.bindings site callee).filter (fun (v, _) => d.contains v)).map Prod.snd)

def returned (site exit : Nat) (d : ValueSet) : List Value :=
  match t.program.inputsAt exit with
  | v :: _ => if v ∈ d then [.result site] else []
  | [] => []

def writtenBack (site callee : Nat) (d : ValueSet) : List Value :=
  ((t.bindings site callee).filter (fun (v, formal) =>
    t.program.isPointerFormal formal && d.contains formal && !v.isConstant)).map Prod.fst

def ret (site callee exit : Nat) (d : ValueSet) : ValueSet :=
  OrdSet.ofList (t.returned site exit d ++ t.writtenBack site callee d)

def calleeName? (site : Nat) : Option String := (t.program.calleesAt site).head?.map t.program.nameOf

def sourceAt? (site : Nat) : Option SourceFunction := (t.calleeName? site).bind t.registry.source?

def sinkAt? (site : Nat) : Option SinkFunction := (t.calleeName? site).bind t.registry.sink?

def pollute (f : SourceFunction) (d : ValueSet) (v : Value) (i : Nat) : ValueSet :=
  if !f.tainted.contains i || v.isConstant then d
  else
    let d := d.insert v
    if t.config.taintAliasesOfSourceArguments then d.union (t.aliases v) else d

def afterSource (f : SourceFunction) (site : Nat) (d : ValueSet) : ValueSet :=
  let d := (t.program.inputsAt site).zipIdx.foldl (fun d (v, i) => t.pollute f d v i) d
  if f.taintsReturn then d.insert (.result site) else d

def bypass (site : Nat) (d : ValueSet) : ValueSet :=
  match t.sourceAt? site with
  | some f => t.afterSource f site d
  | none => d

def leaked (f : SinkFunction) (site : Nat) (d : ValueSet) : List Value :=
  ((t.program.inputsAt site).zipIdx.filter (fun (v, i) => d.contains v && f.leaked.contains i)).map
    Prod.fst

def recordLeak (site : Nat) (leaks : Leaks) (v : Value) : Leaks × List Event :=
  let vs := leaks.getD site ∅
  if v ∈ vs then (leaks, []) else (leaks.insert site (vs.insert v), [.leak site v])

def recordLeaks (site : Nat) : List Value → Leaks → Leaks × List Event
  | [], leaks => (leaks, [])
  | v :: vs, leaks =>
      let (leaks, es) := recordLeak site leaks v
      let (leaks, fs) := recordLeaks site vs leaks
      (leaks, es ++ fs)

/-- A function that is a source is not treated as a sink besides. -/
def remember (site : Nat) (d : ValueSet) (leaks : Leaks) : Leaks × List Event :=
  match t.sourceAt? site with
  | some f =>
      (leaks, [.sourceCall ((t.program.text? site).getD "")
        ((t.program.setText? (t.afterSource f site d)).getD "")])
  | none =>
      match t.sinkAt? site with
      | some f => recordLeaks site (t.leaked f site d) leaks
      | none => (leaks, [])

def reportable (site : Nat) (d : ValueSet) : Bool :=
  (t.program.calleesAt site).all t.program.hasFunction &&
  match t.sourceAt? site with
  | some f =>
      (t.program.text? site).isSome && (t.program.setText? (t.afterSource f site d)).isSome
  | none => true

def seedFacts (f : Nat) : ValueSet :=
  if t.program.nameOf f == "main" && t.config.taintMainArgumentsAtEntry then
    OrdSet.ofList (t.program.formals f)
  else ∅

def seeds : OrdMap Nat ValueSet :=
  t.entries.foldl (fun m f => m.insertAll ((t.program.entryOf f).map (fun n => (n, t.seedFacts f)))) ∅

def problem : Problem Nat Nat ValueSet Leaks Event where
  bottom := ∅
  join := OrdSet.union
  le := OrdSet.isSubset
  normal := t.normal
  call := t.call
  ret := t.ret
  bypass site _ := t.bypass site
  seeds := t.seeds.entries
  remember site _ := t.remember site
  reportable site _ := t.reportable site
  nodeText := t.program.text?
  factsText := t.program.setText?

end Setup

end Interproc.Taint
