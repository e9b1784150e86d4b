import Interproc.CommandLine.Token
import Interproc.Config
import Interproc.Solver.Step
import Interproc.Text.Decimal

namespace Interproc.CommandLine

inductive ContextChoice where
  | callString
  | arguments
  deriving DecidableEq, Repr

def ContextChoice.named? : String → Option ContextChoice
  | "call-string" => some callString
  | "value-based" => some arguments
  | _ => none

structure Request where
  program : String
  specification : Option String
  entries : List String
  context : ContextChoice
  bound : Nat
  maxContexts : Option Nat
  maxIterations : Option Nat
  report : Option String
  graph : Option String
  flags : List Flag
  deriving DecidableEq, Repr

def Setting.repeatable (s : Setting) : Bool := s == .entry || s == .flag

def Switch.repeatable (s : Switch) : Bool := s == .debug

namespace Token

def value? (s : Setting) : Token → Option String
  | given s' v => if s' = s then some v else none
  | _ => none

def mentions (s : Setting) : Token → Bool
  | given s' _ => s' == s
  | bare s' => s' == s
  | _ => false

def plain? : Token → Option String
  | plain w => some w
  | _ => none

end Token

abbrev Tokens := List Token

namespace Tokens

variable (ts : Tokens)

def values (s : Setting) : List String := ts.filterMap (Token.value? s)

def allowsSetting (s : Setting) : Bool :=
  let n := ts.countP (Token.mentions s)
  (n == 0 || !(values ts s).isEmpty) && (s.repeatable || n ≤ 1)

def allowsSwitch (s : Switch) : Bool := s.repeatable || ts.count (.switch s) ≤ 1

def allowed : Bool := Setting.all.all (allowsSetting ts) && Switch.all.all (allowsSwitch ts)

def read? {α : Type} (f : String → Option α) (s : Setting) : Except Stop (Option α) :=
  match values ts s with
  | [] => .ok none
  | v :: _ =>
      match f v with
      | some a => .ok (some a)
      | none => .error .misuse

def number? (s : Setting) : Except Stop (Option Nat) :=
  read? ts (fun v => Decimal.word? v.toList) s

def flag? (v : String) : Except Stop Flag :=
  match Flag.ofName? false v with
  | some f => .ok f
  | none => .error .misuse

def program? : Except Stop String :=
  match ts.filterMap Token.plain? with
  | [w] => .ok w
  | _ => .error .misuse

def entries : List String :=
  match values ts .entry with
  | [] => ["main"]
  | names => names

def request? : Except Stop Request := do
  if !allowed ts then throw .misuse
  return {
    program := ← program? ts
    specification := (values ts .specification).head?
    entries := entries ts
    context := (← read? ts ContextChoice.named? .context).getD .callString
    bound := (← number? ts .bound).getD 2
    maxContexts := ← number? ts .maxContexts
    maxIterations := ← number? ts .maxIterations
    report := (values ts .report).head?
    graph := (values ts .graph).head?
    flags := ← (values ts .flag).mapM flag? }

end Tokens

namespace Request

def parse : List String → Except Stop Request
  | "analyze" :: words => do
      let ts ← Token.scan none false words
      Tokens.request? ts
  | ["help"] => .error .help
  | ["help", "analyze"] => .error .help
  | word :: _ =>
      match word.toList with
      | '-' :: 'h' :: _ => .error .help
      | '-' :: 'V' :: _ => .error .version
      | _ =>
          if word = "--help" then .error .help
          else if word = "--version" then .error .version
          else .error .misuse
  | [] => .error .misuse

def config (r : Request) : Config := Config.ofFlags r.flags

def limits (r : Request) : Limits where
  maxContexts :=
    match r.maxContexts with
    | some n => some n
    | none => if r.config.enableContextWidening then some defaultMaxContexts else none
  maxIterations := r.maxIterations

end Request

end Interproc.CommandLine
