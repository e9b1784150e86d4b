import Interproc.CommandLine.Request
import Interproc.Context.Either
import Interproc.Files.Basic
import Interproc.Program.Dot
import Interproc.Program.Source.Lift
import Interproc.Solver.Results
import Interproc.Taint.Analysis
import Interproc.Taint.Report
import Interproc.Taint.Specification

namespace Interproc.CommandLine

open Taint

inductive Failure where
  | file (e : FileError)
  | program (e : LiftFailure)
  | specification (e : SpecFailure)
  | entry (e : UnknownEntry)
  | bound (k : Nat)

def Failure.message : Failure → String
  | file e => e.message
  | program e => e.message
  | specification e => e.message
  | entry e => e.message
  | bound k => boundMessage k

structure Findings where
  dump : String
  report : String
  deriving DecidableEq, Repr

structure Outcome where
  exit : Nat
  error : Option String
  deriving DecidableEq, Repr

def Outcome.done : Outcome := ⟨0, none⟩

def Outcome.failed (e : Failure) : Outcome := ⟨1, some ("Error: " ++ e.message)⟩

def Outcome.ofStop : Stop → Outcome
  | .misuse => ⟨2, none⟩
  | _ => done

def Stop.text : Stop → String
  | .version => "intermono 0.1.0\n"
  | _ => ""

namespace Request

variable (r : Request)

def findingsFrom (fuel : Nat) (t : Setup) {K : Nat} (c : EitherContext Nat ValueSet K) : Findings :=
  let a := t.analysis EitherContext.kind c r.limits
  let (s, _) := a.solve fuel Run.start
  { dump := if r.config.dumpResultsAfterSolving then (a.dump? s).getD "" ++ "\n" else ""
    report := (t.report? id s.client).getD "" }

def findings (fuel : Nat) (t : Setup) : Except Failure Findings :=
  match r.context with
  | .callString =>
      if maxBound < r.bound then .error (.bound r.bound)
      else .ok (r.findingsFrom fuel t (EitherContext.callString (K := r.bound) ∅))
  | .arguments => .ok (r.findingsFrom fuel t (EitherContext.arguments (K := 0) ∅))

def registry (text : Option String) : Except Failure Registry :=
  match text with
  | none => .ok .defaults
  | some text =>
      let x := Registry.defaults.extend text
      match x.failure with
      | none => .ok x.registry
      | some e => .error (.specification e)

def setup (p : Program) (registry : Registry) : Except Failure Setup :=
  (Setup.ofNames p registry p.aliasClasses.peers r.entries r.config).mapError .entry

variable {m : Type → Type} [Monad m] (host : Host m)

def analyze (fuel : Nat) : ExceptT Failure m Findings := do
  let text ← (host.readText r.program).adapt .file
  let p : Program ← (Program.lift text (fileName r.program)).mapError Failure.program
  match r.graph with
  | some path => (host.writeText path ((p.dot? none).getD "")).adapt .file
  | none => pure ()
  let spec ←
    match r.specification with
    | some path => some <$> (host.readText path).adapt .file
    | none => pure none
  let t ← r.setup p (← registry spec)
  r.findings fuel t

def deliver (f : Findings) : ExceptT Failure m Unit := do
  host.print f.dump
  match r.report with
  | none => host.print f.report
  | some path => (host.writeText path f.report).adapt .file

def perform (fuel : Nat) : m Outcome := do
  match ← (r.analyze host fuel >>= r.deliver host).run with
  | .ok () => return .done
  | .error e => return .failed e

end Request

/-- The outcome of a command line; `fuel` bounds the iterations when no other limit does. -/
def run {m : Type → Type} [Monad m] (host : Host m) (fuel : Nat) (words : List String) :
    m Outcome := do
  match Request.parse words with
  | .error s =>
      host.print s.text
      return .ofStop s
  | .ok r => r.perform host fuel

end Interproc.CommandLine
