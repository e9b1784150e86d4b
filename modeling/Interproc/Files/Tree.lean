import Interproc.Files.Basic

namespace Interproc

inductive Device where
  | null
  | full
  | output
  deriving DecidableEq, Repr

inductive Tree where
  | file (bytes : ByteArray)
  | device (d : Device)
  | directory (entries : List (String × Tree))

namespace Tree

instance : Inhabited Tree := ⟨directory []⟩

instance : EmptyCollection Tree := ⟨directory []⟩

def child? (name : String) : Tree → Option Tree
  | directory es => es.lookup name
  | _ => none

def at? (t : Tree) : List String → Option Tree
  | [] => some t
  | n :: ns => (t.child? n).bind (fun c => c.at? ns)

def isDirectory : Tree → Bool
  | directory _ => true
  | _ => false

def entries : Tree → List (String × Tree)
  | directory es => es
  | _ => []

def set (name : String) (c : Tree) : List (String × Tree) → List (String × Tree)
  | [] => [(name, c)]
  | e :: es => if e.1 = name then (name, c) :: es else e :: set name c es

def put (t : Tree) (c : Tree) : List String → Tree
  | [] => c
  | n :: ns => directory (set n (put ((t.child? n).getD ∅) c ns) t.entries)

theorem lookup_set_self (name : String) (c : Tree) (es : List (String × Tree)) :
    (set name c es).lookup name = some c := by
  induction es with
  | nil => simp [set]
  | cons e es ih =>
      rw [set]
      split
      · simp
      · rename_i h
        have hne : (name == e.1) = false := by simpa using Ne.symm h
        obtain ⟨k, d⟩ := e
        simp only [List.lookup_cons, hne]
        exact ih

theorem at?_put (t c : Tree) (path : List String) : (t.put c path).at? path = some c := by
  induction path generalizing t with
  | nil => rfl
  | cons n ns ih => simp [put, at?, child?, lookup_set_self, ih]

end Tree

structure Place where
  root : Tree
  here : List String
  printed : String

namespace Place

variable (p : Place)

def split (path : String) : List String :=
  (Text.split (fun c => c == '/') path.toList).map String.ofList

def start (path : String) : List String := if path.toList.head? = some '/' then [] else p.here

def checkPath (path : String) : Except FileError Unit :=
  if path.isEmpty then .error .missing
  else if 4096 ≤ path.utf8ByteSize then .error .nameTooLong
  else .ok ()

def enter (dir : List String) : Except FileError (List String) :=
  match p.root.at? dir with
  | none => .error .missing
  | some t => if t.isDirectory then .ok dir else .error .notDirectory

def move (dir : List String) (name : String) : Except FileError (List String) :=
  if name = "" || name = "." then .ok dir
  else if name = ".." then .ok dir.dropLast
  else if 255 < name.utf8ByteSize then .error .nameTooLong
  else .ok (dir ++ [name])

def walk (dir : List String) (names : List String) : Except FileError (List String) :=
  names.foldlM (fun dir n => do move (← p.enter dir) n) dir

def read (path : String) : Except FileError ByteArray := do
  checkPath path
  match p.root.at? (← p.walk (p.start path) (split path)) with
  | none => .error .missing
  | some (.directory _) => .error .isDirectory
  | some (.device _) => .ok ByteArray.empty
  | some (.file bytes) => .ok bytes

def isName (n : String) : Bool := n != "" && n != "." && n != ".."

def writeTo (d : Device) (text : String) : Except FileError Place :=
  match d with
  | .null => .ok p
  | .full => if text.isEmpty then .ok p else .error .noSpace
  | .output => .ok { p with printed := p.printed ++ text }

def write (path text : String) : Except FileError Place := do
  checkPath path
  let names := split path
  let above := (names.reverse.dropWhile (fun n => n == "")).drop 1
  let parent ← p.enter (← p.walk (p.start path) above.reverse)
  let name := names.getLast?.getD ""
  if !isName name then throw .isDirectory
  let target ← move parent name
  match p.root.at? target with
  | some (.directory _) => .error .isDirectory
  | some (.device d) => p.writeTo d text
  | _ => return { p with root := p.root.put (.file text.toUTF8) target }

def devices : List (String × Tree) :=
  [("null", .device .null), ("full", .device .full), ("stdin", .device .null),
    ("stdout", .device .output), ("stderr", .device .null)]

def system : Tree :=
  let folders := ["bin", "etc", "home", "proc", "root", "sys", "tmp", "usr", "var"]
  .directory (("dev", .directory devices) :: folders.map (fun n => (n, ∅)))

def fresh (files : List (String × ByteArray)) : Place :=
  let here := ["tmp", "run"]
  let put (t : Tree) (e : String × ByteArray) : Tree :=
    t.put (.file e.2) (here ++ (split e.1).filter isName)
  ⟨files.foldl put (system.put ∅ here), here, ""⟩

def host : Host (StateM Place) where
  read path := fun p => (p.read path, p)
  write path text := fun p =>
    match p.write path text with
    | .ok p' => (.ok (), p')
    | .error e => (.error e, p)
  print text := fun p => ((), { p with printed := p.printed ++ text })

end Place

end Interproc
