import Interproc.Text.Split

namespace Interproc.Text

structure Row where
  line : Nat
  text : List Char
  deriving DecidableEq, Repr

def rows (text : List Char) : List Row :=
  ((lines text).zipIdx.map (fun (l, i) => ⟨i + 1, trim (beforeHash l)⟩)).filter
    (fun r => !r.text.isEmpty)

end Interproc.Text
