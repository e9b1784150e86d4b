import Interproc.Text.Split

namespace Interproc

inductive FileError where
  | system (text : String) (code : Nat)
  | notText
  deriving DecidableEq, Repr

namespace FileError

def message : FileError → String
  | system text code => text ++ " (os error " ++ toString code ++ ")"
  | notText => "stream did not contain valid UTF-8"

def missing : FileError := system "No such file or directory" 2

def notDirectory : FileError := system "Not a directory" 20

def isDirectory : FileError := system "Is a directory" 21

def noSpace : FileError := system "No space left on device" 28

def nameTooLong : FileError := system "File name too long" 36

end FileError

structure Host (m : Type → Type) where
  read : String → m (Except FileError ByteArray)
  write : String → String → m (Except FileError Unit)
  print : String → m Unit

namespace Host

def text? (bytes : ByteArray) : Except FileError String :=
  match String.fromUTF8? bytes with
  | some s => .ok s
  | none => .error .notText

variable {m : Type → Type} [Monad m] (host : Host m)

def readText (path : String) : ExceptT FileError m String := do
  let bytes ← ExceptT.mk (host.read path)
  text? bytes

def writeText (path text : String) : ExceptT FileError m Unit := ExceptT.mk (host.write path text)

end Host

def fileName (path : String) : String :=
  let parts := Text.split (fun c => c == '/') path.toList
  match (parts.filter (fun p => !p.isEmpty && p != ['.'])).getLast? with
  | none => ""
  | some ['.', '.'] => ""
  | some p => String.ofList p

end Interproc
