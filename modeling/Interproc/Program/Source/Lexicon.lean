import Interproc.Program.Source.Cause
import Interproc.Text.Split

namespace Interproc.Source

open Text

def isNameChar (c : Char) : Bool := c.isAlphanum || c == '_' || c == '.' || c == '$'

def isName (cs : List Char) : Bool := !cs.isEmpty && cs.all isNameChar

def label? (cs : List Char) : Option (List Char) := (dropLast? ':' cs).filter isName

def output? (cs : List Char) : Except Cause (Option String × List Char) :=
  match cut? (fun c => c == '=') cs with
  | some (lhs, rhs) =>
      match trim lhs with
      | '%' :: name =>
          if isName name then .ok (some (String.ofList name), trim rhs)
          else .error (.outputName (String.ofList (trim lhs)))
      | _ => .ok (none, cs)
  | none => .ok (none, cs)

def call? (cs : List Char) : Except Cause (String × List (List Char)) :=
  match (dropLast? ')' (trim cs)).bind (cut? (fun c => c == '(')) with
  | none => .error (.callForm (String.ofList cs))
  | some (name, list) =>
      if isName (trim name) then .ok (String.ofList (trim name), items list)
      else .error (.invalidName (String.ofList (trim name)))

def parameterName? (cs : List Char) : Except Cause String :=
  match (dropFirst? '%' cs).filter isName with
  | some name => .ok (String.ofList name)
  | none => .error (.invalidParameter (String.ofList cs))

def parameter? (cs : List Char) : Except Cause Parameter :=
  match dropFirst? '*' cs with
  | some rest => (parameterName? rest).map (fun name => ⟨name, true⟩)
  | none => (parameterName? cs).map (fun name => ⟨name, false⟩)

def repeated? (names : List String) : Option String :=
  (OrdSet.ofList (names.filter (fun x => decide (2 ≤ names.count x)))).elements.head?

def signature? (cs : List Char) : Except Cause (String × List Parameter) := do
  let (name, list) ← call? cs
  let params ← list.mapM parameter?
  match repeated? (params.map Parameter.name) with
  | some x => .error (.repeatedParameter x)
  | none => .ok (name, params)

end Interproc.Source
