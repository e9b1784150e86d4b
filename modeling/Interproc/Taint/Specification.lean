import Interproc.Taint.Registry
import Interproc.Text.Decimal
import Interproc.Text.Quoted
import Interproc.Text.Row

namespace Interproc.Taint

open Text

inductive SpecCause where
  | noName (kind : String)
  | badPosition (text : String)
  | unexpected (word : String)
  | taintsNothing (name : String)
  | sinkTaintsReturn
  | badKind (kind : String)
  deriving DecidableEq, Repr

def SpecCause.message : SpecCause → String
  | noName kind => "Expected a function name after `" ++ kind ++ "`"
  | badPosition s => "Invalid argument position " ++ quoted s
  | unexpected w => "Unexpected " ++ quoted w
  | taintsNothing name => "Source `" ++ name ++ "` taints nothing"
  | sinkTaintsReturn => "Sinks cannot taint their return value"
  | badKind kind => "Expected `source` or `sink`, got " ++ quoted kind

structure SpecFailure where
  line : Nat
  cause : SpecCause
  deriving DecidableEq, Repr

def SpecFailure.message (f : SpecFailure) : String :=
  "taint specification, line " ++ toString f.line ++ ": " ++ f.cause.message

def position? (cs : List Char) : Except SpecCause Nat :=
  match Decimal.word? (trim cs) with
  | some n => .ok n
  | none => .error (.badPosition (String.ofList cs))

def positions? (cs : List Char) : Except SpecCause Positions :=
  if cs = ['*'] then .ok .all
  else ((split (fun c => c == ',') cs).mapM position?).map Positions.ofList

structure Options where
  args : Option Positions
  ret : Bool
  deriving DecidableEq, Repr

def argsOption? : List Char → Option (List Char)
  | 'a' :: 'r' :: 'g' :: 's' :: '=' :: cs => some cs
  | _ => none

def Options.read (o : Options) (word : List Char) : Except SpecCause Options :=
  if word = ['r', 'e', 't'] then .ok { o with ret := true }
  else
    match argsOption? word with
    | some list => (positions? list).map (fun ps => { o with args := some ps })
    | none => .error (.unexpected (String.ofList word))

inductive Entry where
  | source (f : SourceFunction)
  | sink (f : SinkFunction)
  deriving DecidableEq, Repr

def Options.source? (o : Options) (name : String) : Except SpecCause Entry :=
  let tainted := o.args.getD (.only [])
  if tainted.isEmpty && !o.ret then .error (.taintsNothing name)
  else .ok (.source ⟨name, tainted, o.ret⟩)

def Options.sink? (o : Options) (name : String) : Except SpecCause Entry :=
  if o.ret then .error .sinkTaintsReturn else .ok (.sink ⟨name, o.args.getD .all⟩)

def entry? (cs : List Char) : Except SpecCause Entry :=
  match words cs with
  | [] => .error (.noName "")
  | [kind] => .error (.noName (String.ofList kind))
  | kind :: name :: rest => do
      let o ← rest.foldlM Options.read ⟨none, false⟩
      match String.ofList kind with
      | "source" => o.source? (String.ofList name)
      | "sink" => o.sink? (String.ofList name)
      | kind => .error (.badKind kind)

namespace Registry

def add (r : Registry) : Entry → Registry
  | .source f => r.addSource f
  | .sink f => r.addSink f

def replaces (r : Registry) : Entry → List Record
  | .source f => r.replacesSource f
  | .sink f => r.replacesSink f

def loadedRecord (r : Registry) : Record :=
  ⟨.debug, "Loaded taint specification",
    [("sources", toString r.sources.size), ("sinks", toString r.sinks.size)]⟩

structure Extension where
  registry : Registry
  records : List Record
  failure : Option SpecFailure

def extendRows (r : Registry) : List Row → Extension
  | [] => ⟨r, [r.loadedRecord], none⟩
  | row :: rows =>
      match entry? row.text with
      | .error c => ⟨r, [], some ⟨row.line, c⟩⟩
      | .ok e =>
          let x := (r.add e).extendRows rows
          { x with records := r.replaces e ++ x.records }

def extend (r : Registry) (text : String) : Extension := r.extendRows (rows text.toList)

end Registry

end Interproc.Taint
