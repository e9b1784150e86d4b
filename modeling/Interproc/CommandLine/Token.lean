import Interproc.Text.Split

namespace Interproc.CommandLine

inductive Setting where
  | specification
  | entry
  | context
  | bound
  | maxContexts
  | maxIterations
  | report
  | graph
  | log
  | flag
  deriving DecidableEq, Repr

inductive Switch where
  | quiet
  | blocking
  | debug
  deriving DecidableEq, Repr

inductive Key where
  | setting (s : Setting)
  | switch (s : Switch)
  | help
  deriving DecidableEq, Repr

inductive Token where
  | given (s : Setting) (value : String)
  | bare (s : Setting)
  | switch (s : Switch)
  | plain (word : String)
  deriving DecidableEq, Repr

inductive Stop where
  | misuse
  | help
  | version
  deriving DecidableEq, Repr

def Setting.all : List Setting :=
  [.specification, .entry, .context, .bound, .maxContexts, .maxIterations, .report, .graph, .log,
    .flag]

theorem Setting.mem_all (s : Setting) : s ∈ Setting.all := by cases s <;> decide

def Switch.all : List Switch := [.quiet, .blocking, .debug]

theorem Switch.mem_all (s : Switch) : s ∈ Switch.all := by cases s <;> decide

def Setting.name : Setting → String
  | specification => "taint-spec"
  | entry => "entry"
  | context => "context"
  | bound => "call-string-bound"
  | maxContexts => "max-contexts"
  | maxIterations => "max-iterations"
  | report => "report"
  | graph => "debug-output-graphviz"
  | log => "log"
  | flag => "advanced-config"

def Switch.name : Switch → String
  | quiet => "debug-disable-terminal-logging"
  | blocking => "debug-forced-blocking-terminal-logging"
  | debug => "debug"

def Key.named? (name : String) : Option Key :=
  match Setting.all.find? (fun s => s.name == name), Switch.all.find? (fun s => s.name == name) with
  | some s, _ => some (.setting s)
  | none, some s => some (.switch s)
  | none, none => if name = "help" then some .help else none

def Key.lettered? : Char → Option Key
  | 'k' => some (.setting .bound)
  | 'Z' => some (.setting .flag)
  | 'd' => some (.switch .debug)
  | 'h' => some .help
  | _ => none

namespace Token

def long (cs : List Char) : Except Stop (List Token × Option Setting) :=
  match Text.cut? (fun c => c == '=') cs with
  | some (name, value) =>
      match Key.named? (String.ofList name) with
      | some (.setting s) => .ok ([given s (String.ofList value)], none)
      | _ => .error .misuse
  | none =>
      match Key.named? (String.ofList cs) with
      | some (.setting s) => .ok ([], some s)
      | some (.switch s) => .ok ([switch s], none)
      | some .help => .error .help
      | none => .error .misuse

def attached : List Char → List Char
  | '=' :: cs => cs
  | cs => cs

def short : List Char → Except Stop (List Token × Option Setting)
  | [] => .ok ([], none)
  | c :: cs =>
      match Key.lettered? c with
      | some (.setting s) =>
          if cs.isEmpty then .ok ([], some s)
          else .ok ([given s (String.ofList (attached cs))], none)
      | some (.switch s) => (short cs).map (fun (ts, s') => (switch s :: ts, s'))
      | some .help => .error .help
      | none => .error .misuse

def unfilled (s : Option Setting) : List Token := s.toList.map bare

/-- The tokens of the words. `waiting` is the setting that still waits for its value, and `named` tells
whether a plain word has come up; a second one is refused at once. -/
def scan (waiting : Option Setting) (named : Bool) : List String → Except Stop (List Token)
  | [] => .ok (unfilled waiting)
  | w :: ws =>
      match w.toList with
      | ['-', '-'] => .ok (unfilled waiting ++ ws.map plain)
      | '-' :: '-' :: cs => do
          let (ts, next) ← long cs
          return unfilled waiting ++ ts ++ (← scan next named ws)
      | '-' :: c :: cs => do
          let (ts, next) ← short (c :: cs)
          return unfilled waiting ++ ts ++ (← scan next named ws)
      | _ =>
          match waiting with
          | some s => return given s w :: (← scan none named ws)
          | none => if named then .error .misuse else return plain w :: (← scan none true ws)

end Token

end Interproc.CommandLine
