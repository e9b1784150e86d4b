import Interproc.Described

namespace Interproc

theorem getElem?_concat_eq_some_iff {α : Type} {xs : List α} {x y : α} {i : Nat} :
    (xs ++ [x])[i]? = some y ↔ xs[i]? = some y ∨ i = xs.length ∧ x = y := by
  rcases Nat.lt_trichotomy i xs.length with hlt | rfl | hlt
  · rw [List.getElem?_append_left hlt]
    simp only [Nat.ne_of_lt hlt, false_and, or_false]
  · simp
  · have hend : (xs ++ [x])[i]? = none := by
      apply List.getElem?_eq_none
      rw [List.length_append]
      exact Nat.succ_le_of_lt hlt
    simp only [hend, List.getElem?_eq_none (Nat.le_of_lt hlt), Nat.ne_of_gt hlt, reduceCtorEq,
      false_and, or_self]

def Inverts {α : Type} [Ord α] (index : OrdMap α Nat) (items : List α) : Prop :=
  ∀ x i, index.get? x = some i ↔ items[i]? = some x

namespace Inverts

variable {α : Type} [Ord α] {index : OrdMap α Nat} {items : List α} {x : α}

theorem empty : Inverts (∅ : OrdMap α Nat) [] := fun x i => by simp

theorem nodup (h : Inverts index items) : items.Nodup := by
  refine List.pairwise_iff_getElem.mpr (fun i j hi hj hij heq => ?_)
  have hfirst := (h _ i).mpr (List.getElem?_eq_getElem hi)
  have hsecond := (h _ j).mpr (List.getElem?_eq_getElem hj)
  rw [heq, hsecond] at hfirst
  exact Nat.ne_of_gt hij (Option.some.inj hfirst)

theorem concat [Std.TransOrd α] [Std.LawfulEqOrd α] [DecidableEq α] (h : Inverts index items)
    (hx : index.get? x = none) : Inverts (index.insert x items.length) (items ++ [x]) := by
  intro y i
  have hnew : items[i]? ≠ some x := fun hi => nomatch hx.symm.trans ((h x i).mpr hi)
  rw [OrdMap.get?_insert, getElem?_concat_eq_some_iff]
  split
  · rename_i hy
    subst hy
    rw [or_iff_right hnew, and_iff_left rfl, Option.some.injEq, eq_comm]
  · rename_i hy
    rw [h y i, or_iff_left (fun hlast => hy hlast.2.symm)]

end Inverts

structure Interned (α : Type) [Ord α] where
  items : List α
  index : OrdMap α Nat
  indexed : Inverts index items
  deriving DecidableEq

namespace Interned

variable {α : Type} [Ord α]

instance : EmptyCollection (Interned α) := ⟨⟨[], ∅, .empty⟩⟩

instance : Inhabited (Interned α) := ⟨∅⟩

instance : Membership α (Interned α) := ⟨fun s x => x ∈ s.items⟩

instance [DecidableEq α] (x : α) (s : Interned α) : Decidable (x ∈ s) :=
  inferInstanceAs (Decidable (x ∈ s.items))

def size (s : Interned α) : Nat := s.items.length

def get? (s : Interned α) (i : Nat) : Option α := s.items[i]?

def indexOf? (s : Interned α) (x : α) : Option Nat := s.index.get? x

variable {s : Interned α} {x z : α} {i : Nat}

theorem indexOf?_eq_some_iff : s.indexOf? x = some i ↔ s.get? i = some x := s.indexed x i

theorem indexOf?_eq_none_iff : s.indexOf? x = none ↔ x ∉ s := by
  constructor
  · intro h hx
    obtain ⟨i, hi⟩ := List.mem_iff_getElem?.mp hx
    exact nomatch h.symm.trans (indexOf?_eq_some_iff.mpr hi)
  · intro h
    cases hi : s.indexOf? x with
    | none => rfl
    | some i => exact absurd (List.mem_of_getElem? (indexOf?_eq_some_iff.mp hi)) h

variable [Std.TransOrd α] [Std.LawfulEqOrd α] [DecidableEq α]

def insert (s : Interned α) (x : α) : Interned α :=
  if h : s.indexOf? x = none then ⟨s.items ++ [x], s.index.insert x s.size, s.indexed.concat h⟩ else s

def position (s : Interned α) (x : α) : Nat := (s.indexOf? x).getD s.size

omit [Std.TransOrd α] [Std.LawfulEqOrd α] [DecidableEq α] in
theorem indexOf?_of_mem (h : x ∈ s) : s.indexOf? x = some (s.position x) := by
  cases hi : s.indexOf? x with
  | none => exact absurd h (indexOf?_eq_none_iff.mp hi)
  | some i => rw [position, hi, Option.getD_some]

omit [Std.TransOrd α] [Std.LawfulEqOrd α] [DecidableEq α] in
theorem get?_position (h : x ∈ s) : s.get? (s.position x) = some x :=
  indexOf?_eq_some_iff.mp (indexOf?_of_mem h)

theorem insert_of_mem (h : x ∈ s) : s.insert x = s :=
  dif_neg (fun hnone => indexOf?_eq_none_iff.mp hnone h)

theorem items_insert_of_not_mem (h : x ∉ s) : (s.insert x).items = s.items ++ [x] := by
  rw [insert, dif_pos (indexOf?_eq_none_iff.mpr h)]

@[simp] theorem mem_insert : z ∈ s.insert x ↔ z ∈ s ∨ z = x := by
  by_cases h : x ∈ s
  · rw [insert_of_mem h]
    exact ⟨Or.inl, fun hz => hz.elim id (fun e => e ▸ h)⟩
  · have hitems : z ∈ s.insert x ↔ z ∈ s.items ++ [x] := by rw [← items_insert_of_not_mem h]; rfl
    rw [hitems]
    exact List.mem_append.trans (or_congr_right List.mem_singleton)

instance [Described α] : Described (Interned α) where
  describe s :=
    "InsertionOrderedSet \x7b data: " ++ describe s.items ++ ", revmap: " ++ describe s.index ++ " \x7d"

end Interned

end Interproc
