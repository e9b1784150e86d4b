namespace Interproc

inductive Level where
  | error
  | warning
  | info
  | debug
  | trace
  deriving DecidableEq, Repr

namespace Level

def rank : Level → Nat
  | error => 0
  | warning => 1
  | info => 2
  | debug => 3
  | trace => 4

def name : Level → String
  | error => "ERROR"
  | warning => "WARNING"
  | info => "INFO"
  | debug => "DEBUG"
  | trace => "TRACE"

def all : List Level := [error, warning, info, debug, trace]

def named? (s : String) : Option Level := all.find? (fun l => l.name.map Char.toLower == s)

end Level

structure Record where
  level : Level
  message : String
  fields : List (String × String)
  deriving DecidableEq, Repr

def Record.reaches (r : Record) (threshold : Level) : Bool := decide (r.level.rank ≤ threshold.rank)

end Interproc
