namespace Interproc

structure Config where
  taintMainArgumentsAtEntry : Bool := true
  taintAliasesOfSourceArguments : Bool := true
  enableContextWidening : Bool := true
  reportUnsureContexts : Bool := true
  dumpResultsAfterSolving : Bool := false
  logEveryVisitedState : Bool := false
  deriving DecidableEq, Repr, Inhabited

inductive Flag where
  | disableMainArgumentTainting
  | disableSourceArgumentAliasTainting
  | disableContextWidening
  | disableUnsureContextReports
  | enableResultsDump
  | enableDebugLogEveryVisitedState
  deriving DecidableEq, Repr

namespace Flag

def all : List Flag :=
  [disableMainArgumentTainting, disableSourceArgumentAliasTainting, disableContextWidening,
    disableUnsureContextReports, enableResultsDump, enableDebugLogEveryVisitedState]

theorem mem_all (f : Flag) : f ∈ all := by cases f <;> decide

def name : Flag → String
  | disableMainArgumentTainting => "disable-main-argument-tainting"
  | disableSourceArgumentAliasTainting => "disable-source-argument-alias-tainting"
  | disableContextWidening => "disable-context-widening"
  | disableUnsureContextReports => "disable-unsure-context-reports"
  | enableResultsDump => "enable-results-dump"
  | enableDebugLogEveryVisitedState => "enable-debug-log-every-visited-state"

def label : Flag → String
  | disableMainArgumentTainting => "DisableMainArgumentTainting"
  | disableSourceArgumentAliasTainting => "DisableSourceArgumentAliasTainting"
  | disableContextWidening => "DisableContextWidening"
  | disableUnsureContextReports => "DisableUnsureContextReports"
  | enableResultsDump => "EnableResultsDump"
  | enableDebugLogEveryVisitedState => "EnableDebugLogEveryVisitedState"

def lower (s : String) : String := String.ofList (s.toList.map Char.toLower)

def ofName? (ignoreCase : Bool) (s : String) : Option Flag :=
  all.find? (fun f => if ignoreCase then lower f.name == lower s else f.name == s)

def set (c : Config) : Flag → Config
  | disableMainArgumentTainting => { c with taintMainArgumentsAtEntry := false }
  | disableSourceArgumentAliasTainting => { c with taintAliasesOfSourceArguments := false }
  | disableContextWidening => { c with enableContextWidening := false }
  | disableUnsureContextReports => { c with reportUnsureContexts := false }
  | enableResultsDump => { c with dumpResultsAfterSolving := true }
  | enableDebugLogEveryVisitedState => { c with logEveryVisitedState := true }

end Flag

def Config.ofFlags (flags : List Flag) : Config := flags.foldl Flag.set {}

end Interproc
