import Interproc.Text.Blank

namespace Interproc.Text

def split (p : Char → Bool) : List Char → List (List Char)
  | [] => [[]]
  | c :: cs =>
      if p c then [] :: split p cs
      else
        match split p cs with
        | [] => [[c]]
        | x :: xs => (c :: x) :: xs

def cut? (p : Char → Bool) : List Char → Option (List Char × List Char)
  | [] => none
  | c :: cs => if p c then some ([], cs) else (cut? p cs).map (fun (a, b) => (c :: a, b))

theorem cut?_eq_some {p : Char → Bool} {cs a b : List Char} (h : cut? p cs = some (a, b)) :
    ∃ c, p c = true ∧ cs = a ++ c :: b ∧ ∀ x ∈ a, p x = false := by
  induction cs generalizing a with
  | nil => simp [cut?] at h
  | cons c cs ih =>
      rw [cut?] at h
      split at h
      · rename_i hc
        simp only [Option.some.injEq, Prod.mk.injEq] at h
        exact ⟨c, hc, by simp [← h.1, ← h.2], by simp [← h.1]⟩
      · rename_i hc
        obtain ⟨⟨a', b'⟩, hcut, hab⟩ := Option.map_eq_some_iff.mp h
        simp only [Prod.mk.injEq] at hab
        obtain ⟨d, hd, hcs, hall⟩ := ih (hab.2 ▸ hcut)
        refine ⟨d, hd, by simp [← hab.1, hcs], ?_⟩
        intro x hx
        rw [← hab.1] at hx
        cases hx with
        | head => simpa using hc
        | tail _ hx => exact hall x hx

def lines : List Char → List (List Char)
  | [] => []
  | '\n' :: cs => [] :: lines cs
  | '\r' :: '\n' :: cs => [] :: lines cs
  | c :: cs =>
      match lines cs with
      | [] => [[c]]
      | x :: xs => (c :: x) :: xs

def words (cs : List Char) : List (List Char) := (split isBlank cs).filter (fun w => !w.isEmpty)

def items (cs : List Char) : List (List Char) :=
  ((split (fun c => c == ',') cs).map trim).filter (fun w => !w.isEmpty)

def firstWord (cs : List Char) : List Char × List Char :=
  match cut? isBlank cs with
  | some (a, b) => (a, trim b)
  | none => (cs, [])

def beforeHash (cs : List Char) : List Char := cs.takeWhile (fun c => c != '#')

def dropFirst? (c : Char) : List Char → Option (List Char)
  | [] => none
  | d :: cs => if d = c then some cs else none

def dropLast? (c : Char) (cs : List Char) : Option (List Char) :=
  if cs.getLast? = some c then some cs.dropLast else none

theorem dropFirst?_eq_some_iff {c : Char} {cs ds : List Char} :
    dropFirst? c cs = some ds ↔ cs = c :: ds := by
  cases cs with
  | nil => simp [dropFirst?]
  | cons d cs => by_cases h : d = c <;> simp [dropFirst?, h]

theorem dropLast?_eq_some_iff {c : Char} {cs ds : List Char} :
    dropLast? c cs = some ds ↔ cs = ds ++ [c] := by
  unfold dropLast?
  split
  · rename_i h
    obtain ⟨ys, hys⟩ := List.getLast?_eq_some_iff.mp h
    subst hys
    simp
  · rename_i h
    constructor
    · simp
    · intro e
      exact absurd (by simp [e]) h

end Interproc.Text
