import Interproc.Ordered.Map
import Interproc.Text.Quoted

namespace Interproc

class Described (α : Type) where
  describe : α → String

export Described (describe)

def commaList (xs : List String) : String := String.intercalate ", " xs

def braced (xs : List String) : String := "\x7b" ++ commaList xs ++ "\x7d"

instance : Described Nat := ⟨toString⟩

instance : Described Int := ⟨toString⟩

instance : Described String := ⟨Text.quoted⟩

instance {α : Type} [Described α] : Described (List α) :=
  ⟨fun xs => "[" ++ commaList (xs.map describe) ++ "]"⟩

instance {α : Type} [Described α] : Described (Option α) :=
  ⟨fun
    | some a => "Some(" ++ describe a ++ ")"
    | none => "None"⟩

instance {α : Type} [Ord α] [Described α] : Described (OrdSet α) :=
  ⟨fun s => braced (s.elements.map describe)⟩

instance {κ ν : Type} [Ord κ] [Described κ] [Described ν] : Described (OrdMap κ ν) :=
  ⟨fun m => braced (m.entries.map (fun (k, v) => describe k ++ ": " ++ describe v))⟩

end Interproc
