import Interproc.CommandLine.Run

namespace Interproc

def FileError.ofSystem : IO.Error → FileError
  | .noFileOrDirectory .. => .missing
  | .noSuchThing .. => .missing
  | .inappropriateType (some _) 20 _ => .notDirectory
  | .inappropriateType .. => .isDirectory
  | .permissionDenied _ code text => .system text code.toNat
  | .resourceExhausted _ code text => .system text code.toNat
  | .otherError code text => .system text code.toNat
  | e => .system (toString e) 5

def systemHost : Host IO where
  read path := do
    try
      return .ok (← IO.FS.readBinFile path)
    catch e => return .error (.ofSystem e)
  write path text := do
    try
      IO.FS.writeFile path text
      return .ok ()
    catch e => return .error (.ofSystem e)
  print := IO.print

end Interproc

open Interproc

def main (words : List String) : IO UInt32 := do
  let outcome ← CommandLine.run systemHost 0x4000000000000000 words
  if let some e := outcome.error then IO.eprintln e
  return outcome.exit.toUInt32
