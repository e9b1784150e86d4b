import Interproc.Proofs.Partition.Forest
import Mathlib.Data.List.Induction

namespace Interproc.Forest

variable {f g : Forest} {r x y : Nat}

section Loops

inductive Grows (x : Nat) : Forest → Forest → Prop
  | done {f : Forest} (h : x < f.size) : Grows x f f
  | push {f g : Forest} (h : f.size ≤ x) (rest : Grows x ⟨f.parents.push f.size⟩ g) : Grows x f g

inductive Finds (f : Forest) : Nat → Nat → Prop
  | root {r : Nat} (h : f.parents[r]? = some r) : f.Finds r r
  | up {x y r : Nat} (h : f.parents[x]? = some y) (hne : y ≠ x) (rest : f.Finds y r) : f.Finds x r

inductive Shortens (r : Nat) : Nat → Forest → Forest → Prop
  | done {x : Nat} {f : Forest} (h : f.parents[x]? = some r) : Shortens r x f f
  | next {x y : Nat} {f g : Forest} (h : f.parents[x]? = some y) (hne : y ≠ r)
      (rest : Shortens r y (f.link x r) g) : Shortens r x f g

theorem getElem?_parents (hx : x < f.size) : f.parents[x]? = some (f.parent x) := by
  have hx : x < f.parents.size := hx
  simp [parent, Array.getD_eq_getD_getElem?, hx]

theorem grows_cover (f : Forest) (x : Nat) : Grows x f (f.cover x) := by
  generalize hmissing : x + 1 - f.size = n
  induction n generalizing f with
  | zero =>
      have hcover : f.cover x = f := by simp [cover, hmissing]
      rw [hcover]
      exact .done (by omega)
  | succ n ih =>
      have hsize : (Forest.mk (f.parents.push f.size)).size = f.size + 1 := Array.size_push ..
      have hcover : (Forest.mk (f.parents.push f.size)).cover x = f.cover x := by
        have hmissing' : x + 1 - (f.size + 1) = n := by omega
        simp only [cover, hsize, hmissing, hmissing', Forest.mk.injEq]
        rw [Array.push_eq_append, Array.append_assoc, Array.range'_succ]
      refine .push (by omega) ?_
      rw [← hcover]
      exact ih _ (by omega)

theorem Climbs.finds (h : f.Climbs x r) (hf : f.Acyclic) (hx : x < f.size) : f.Finds x r := by
  induction h with
  | root h => exact .root (by rw [getElem?_parents hx, h])
  | up h _ ih => exact .up (getElem?_parents hx) h (ih (hf.parent_lt hx))

theorem climb_root (hr : f.parent r = r) (n : Nat) : f.climb n r = r := by
  rw [climb_eq_iterate, Function.iterate_fixed hr]

theorem climb_link {n : Nat} (hx : x < f.size) (hr : f.parent r = r) (hy : f.climb n y = r) :
    (f.link x r).climb n y = r := by
  have hroot : (f.link x r).parent r = r := by
    rw [parent_link hx, hr, ite_self]
  induction n generalizing y with
  | zero => exact hy
  | succ n ih =>
      rw [climb] at hy ⊢
      by_cases heq : y = x
      · rw [parent_link hx, if_pos heq]
        split
        · rename_i hry
          exact hry.symm
        · exact climb_root hroot n
      · rw [parent_link hx, if_neg heq]
        split at hy
        · rename_i hself
          rwa [if_pos hself]
        · rename_i hup
          rw [if_neg hup]
          exact ih hy

theorem shortens_flatten {n : Nat} (h : f.Acyclic) (hx : f.Climbs x r) (hlt : x < f.size)
    (hpath : f.climb n x = r) : Shortens r x f (flatten r n x f) := by
  have hread := getElem?_parents hlt
  induction n generalizing f x with
  | zero =>
      obtain rfl : x = r := hpath
      exact .done (by rw [hread, hx.parent_eq])
  | succ n ih =>
      rw [flatten]
      split
      · rename_i heq
        exact .done (by rw [hread, heq])
      · rename_i hne
        -- the shortcut keeps every root and makes no path longer
        have hlink := preserves_link h hx hlt
        cases hx with
        | root hroot => exact absurd hroot hne
        | up hup rest =>
            rw [climb, if_neg hup] at hpath
            have hnext : f.parent x < (f.link x r).size := by
              rw [size_link]
              exact h.parent_lt hlt
            exact .next hread hne (ih hlink.acyclic (hlink.climbs rest) hnext
              (climb_link hlt rest.parent_eq hpath) (getElem?_parents hnext))

end Loops

section Histories

inductive Operation where
  | look (x : Nat)
  | merge (x y : Nat)
  deriving DecidableEq, Repr

def perform (f : Forest) : Operation → Forest
  | .look x => (f.representative x).2
  | .merge x y => f.merge x y

def after (ops : List Operation) : Forest := ops.foldl perform ∅

structure Looks (f : Forest) (x : Nat) : Prop where
  grows : Grows x f (f.cover x)
  finds : (f.cover x).Finds x (f.representative x).1
  shortens : Shortens (f.representative x).1 x (f.cover x) (f.representative x).2
  fixed : (f.representative x).2.parents[(f.representative x).1]? = some (f.representative x).1
  kept : ∀ z, ((f.representative x).2.representative z).1 = (f.representative z).1

structure Merges (f : Forest) (x y : Nat) : Prop where
  first : f.Looks y
  second : (f.representative y).2.Looks x
  stored : (f.representative y).1 < ((f.representative y).2.representative x).2.size
  joined : ∀ z, ((f.merge x y).representative z).1 =
    if (f.representative z).1 = (f.representative x).1 ∨
        (f.representative z).1 = (f.representative y).1 then
      (f.representative x).1
    else (f.representative z).1

theorem Acyclic.looks (h : f.Acyclic) (x : Nat) : f.Looks x := by
  have hcover := preserves_cover h x
  have hlt : x < (f.cover x).size := by
    rw [size_cover]
    omega
  have hroot := hcover.acyclic.climbs_root x
  obtain ⟨hlook, hsize⟩ := preserves_representative h x
  have hrootlt := hcover.acyclic.root_lt hlt
  rw [size_cover] at hrootlt
  refine ⟨grows_cover f x, hroot.finds hcover.acyclic hlt,
    shortens_flatten hcover.acyclic hroot hlt rfl, ?_, fun z => ?_⟩
  · rw [getElem?_parents (by rwa [hsize]), representative_fst h,
      (hlook.climbs (h.climbs_root x)).parent_eq]
  · rw [representative_fst hlook.acyclic, representative_fst h, hlook.root_eq h]

theorem Acyclic.merges (h : f.Acyclic) (x y : Nat) : f.Merges x y := by
  obtain ⟨hmerge, _, hroots⟩ := merge_spec h x y
  obtain ⟨hy, hysize⟩ := preserves_representative h y
  obtain ⟨hx, hxsize⟩ := preserves_representative hy.acyclic x
  refine ⟨h.looks y, hy.acyclic.looks x, ?_, fun z => ?_⟩
  · have hlt : y < ((f.representative y).2.representative x).2.size := by omega
    have hrootlt := hx.acyclic.root_lt hlt
    rwa [(hy.trans hx).root_eq h, ← representative_fst h] at hrootlt
  · simp only [representative_fst hmerge, representative_fst h, hroots]
    split
    · rename_i heq
      rw [if_pos (Or.inr heq)]
    · rename_i hne
      by_cases heq : f.root z = f.root x
      · rw [if_pos (Or.inl heq), heq]
      · rw [if_neg (not_or.mpr ⟨heq, hne⟩)]

theorem acyclic_after (ops : List Operation) : (after ops).Acyclic := by
  induction ops using List.reverseRecOn with
  | nil => exact acyclic_empty
  | append_singleton ops op ih =>
      rw [after, List.foldl_concat]
      cases op with
      | look x => exact (preserves_representative ih x).1.acyclic
      | merge x y => exact (merge_spec ih x y).1

theorem lookups_after (ops : List Operation) : (after ops).Acyclic ∧ (∀ x, (after ops).Looks x) ∧
    ∀ x y, (after ops).Merges x y :=
  ⟨acyclic_after ops, (acyclic_after ops).looks, (acyclic_after ops).merges⟩

example : let f := after [.merge 0 1, .merge 2 0, .merge 1 2, .merge 1 1, .look 5]
    (f.representative 0).1 = 2 ∧ (f.representative 7).1 = 7 ∧ f.parents = #[2, 2, 2, 3, 4, 5] := by
  decide

end Histories

end Interproc.Forest
