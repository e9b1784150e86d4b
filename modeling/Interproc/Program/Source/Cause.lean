import Interproc.Program.Builder

namespace Interproc

inductive Cause where
  | nestedFunction
  | noModuleName
  | globalName (text : String)
  | definedTwice (name : String)
  | noOpeningBrace
  | outsideFunction (text : String)
  | neverClosed (name : String)
  | callForm (text : String)
  | invalidName (text : String)
  | invalidParameter (text : String)
  | repeatedParameter (name : String)
  | outputName (text : String)
  | labelTwice (name : String)
  | outputTwice (name : String)
  | unknownValue (token : String)
  | unknownGlobal (token : String)
  | notAValue (token : String)
  | operandCount (mnemonic : String)
  | notAnInteger (text : String)
  | unknownFunction (name : String)
  | tooFewArguments (name : String)
  | unknownLabel (name : String)
  | noTarget
  | manyReturned
  | unknownInstruction (mnemonic : String)
  | noResult (mnemonic : String)
  | unnamedResult (mnemonic : String)
  deriving DecidableEq, Repr

open Text in
def Cause.message : Cause → String
  | nestedFunction => "Functions cannot be nested"
  | noModuleName => "Expected a module name"
  | globalName s => "Expected `@name`, got " ++ quoted s
  | definedTwice s => "`" ++ s ++ "` is defined twice"
  | noOpeningBrace => "Expected `\x7b` after the function signature"
  | outsideFunction s => "Unexpected " ++ quoted s ++ " outside of a function"
  | neverClosed s => "Body of `" ++ s ++ "` is never closed"
  | callForm s => "Expected `name(...)`, got " ++ quoted s
  | invalidName s => "Invalid name " ++ quoted s
  | invalidParameter s => "Invalid parameter " ++ quoted s
  | repeatedParameter s => "Parameter `%" ++ s ++ "` is repeated"
  | outputName s => "Invalid value name " ++ quoted s
  | labelTwice s => "Label `" ++ s ++ "` is defined twice"
  | outputTwice s => "`%" ++ s ++ "` is defined twice"
  | unknownValue s => "Unknown value `" ++ s ++ "`"
  | unknownGlobal s => "Unknown global `" ++ s ++ "`"
  | notAValue s => "Expected a value, got " ++ quoted s
  | operandCount s => "Wrong number of operands for `" ++ s ++ "`"
  | notAnInteger s => "Expected an integer, got " ++ quoted s
  | unknownFunction s => "Unknown function `" ++ s ++ "`"
  | tooFewArguments s => "Too few arguments in call to `" ++ s ++ "`"
  | unknownLabel s => "Unknown label `" ++ s ++ "`"
  | noTarget => "`br` needs at least one target"
  | manyReturned => "`ret` returns at most one value"
  | unknownInstruction s => "Unknown instruction " ++ quoted s
  | noResult s => "`" ++ s ++ "` does not produce a value"
  | unnamedResult s => "The result of `" ++ s ++ "` must be named"

inductive LiftFailure where
  | line (number : Nat) (cause : Cause)
  | step (fault : BuildFault)
  deriving DecidableEq, Repr

def LiftFailure.message : LiftFailure → String
  | line n c => "program text, line " ++ toString n ++ ": " ++ c.message
  | step f => f.message

end Interproc
