import Interproc.Log
import Interproc.Ordered.Map

namespace Interproc.Taint

inductive Positions where
  | all
  | only (list : List Nat)
  deriving DecidableEq, Repr, Inhabited

namespace Positions

def contains : Positions → Nat → Bool
  | all, _ => true
  | only is, i => is.contains i

def isEmpty : Positions → Bool
  | all => false
  | only is => is.isEmpty

def text : Positions → String
  | all => "*"
  | only is => String.intercalate "," (is.map toString)

def ofList (is : List Nat) : Positions := only (OrdSet.ofList is).elements

theorem contains_ofList {is : List Nat} {i : Nat} : (ofList is).contains i = true ↔ i ∈ is := by
  have h : i ∈ (OrdSet.ofList is).elements ↔ i ∈ is := OrdSet.mem_ofList
  simpa [ofList, contains] using h

end Positions

structure SourceFunction where
  name : String
  tainted : Positions
  taintsReturn : Bool
  deriving DecidableEq, Repr, Inhabited

structure SinkFunction where
  name : String
  leaked : Positions
  deriving DecidableEq, Repr, Inhabited

structure Registry where
  sources : OrdMap String SourceFunction
  sinks : OrdMap String SinkFunction
  deriving Inhabited

namespace Registry

instance : EmptyCollection Registry := ⟨⟨∅, ∅⟩⟩

def addSource (r : Registry) (f : SourceFunction) : Registry :=
  { r with sources := r.sources.insert f.name f }

def addSink (r : Registry) (f : SinkFunction) : Registry :=
  { r with sinks := r.sinks.insert f.name f }

def source? (r : Registry) (name : String) : Option SourceFunction := r.sources.get? name

def sink? (r : Registry) (name : String) : Option SinkFunction := r.sinks.get? name

def isSource (r : Registry) (name : String) : Bool := (r.source? name).isSome

def isSink (r : Registry) (name : String) : Bool := (r.sink? name).isSome

theorem source?_addSource {r : Registry} {f : SourceFunction} {name : String} :
    (r.addSource f).source? name = if name = f.name then some f else r.source? name :=
  OrdMap.get?_insert

theorem sink?_addSink {r : Registry} {f : SinkFunction} {name : String} :
    (r.addSink f).sink? name = if name = f.name then some f else r.sink? name :=
  OrdMap.get?_insert

def defaults : Registry :=
  let sources : List SourceFunction := [
    ⟨"source", .only [], true⟩, ⟨"getenv", .only [], true⟩, ⟨"gets", .only [0], true⟩,
    ⟨"fgets", .only [0], true⟩, ⟨"fread", .only [0], false⟩, ⟨"read", .only [1], false⟩,
    ⟨"recv", .only [1], false⟩, ⟨"scanf", .all, false⟩]
  let sinks : List SinkFunction := [
    ⟨"sink", .all⟩, ⟨"printf", .all⟩, ⟨"puts", .only [0]⟩, ⟨"system", .only [0]⟩,
    ⟨"execv", .only [0, 1]⟩, ⟨"fwrite", .only [0]⟩, ⟨"write", .only [1]⟩, ⟨"send", .only [1]⟩]
  sinks.foldl addSink (sources.foldl addSource ∅)

def replacesSource (r : Registry) (f : SourceFunction) : List Record :=
  if r.isSource f.name then [⟨.debug, "Replacing source", [("name", f.name)]⟩] else []

def replacesSink (r : Registry) (f : SinkFunction) : List Record :=
  if r.isSink f.name then [⟨.debug, "Replacing sink", [("name", f.name)]⟩] else []

end Registry

end Interproc.Taint
