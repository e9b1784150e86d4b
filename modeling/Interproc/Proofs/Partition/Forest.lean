import Interproc.Partition.Forest
import Mathlib.Data.Finset.Card
import Mathlib.Logic.Function.Iterate

namespace Interproc.Forest

variable {f g : Forest} {r s x y z : Nat}

inductive Climbs (f : Forest) : Nat → Nat → Prop
  | root {r : Nat} (h : f.parent r = r) : f.Climbs r r
  | up {x r : Nat} (h : f.parent x ≠ x) (rest : f.Climbs (f.parent x) r) : f.Climbs x r

structure Acyclic (f : Forest) : Prop where
  climbs : ∀ x, ∃ r, f.Climbs x r
  parent_lt : ∀ {x}, x < f.size → f.parent x < f.size

theorem parent_of_size_le (h : f.size ≤ x) : f.parent x = x := by
  simp only [parent, Array.getD_eq_getD_getElem?, Array.getElem?_eq_none h, Option.getD_none]

theorem acyclic_empty : (∅ : Forest).Acyclic where
  climbs x := ⟨x, .root (parent_of_size_le (Nat.zero_le x))⟩
  parent_lt hx := absurd hx (Nat.not_lt_zero _)

namespace Climbs

theorem parent_eq (h : f.Climbs x r) : f.parent r = r := by
  induction h with
  | root h => exact h
  | up _ _ ih => exact ih

theorem unique (hr : f.Climbs x r) (hs : f.Climbs x s) : r = s := by
  induction hr with
  | root hroot =>
      cases hs with
      | root _ => rfl
      | up h _ => exact absurd hroot h
  | up h _ ih =>
      cases hs with
      | root hroot => exact absurd hroot h
      | up _ rest => exact ih rest

theorem congr (h : f.Climbs x r) (hparent : ∀ y, g.parent y = f.parent y) : g.Climbs x r := by
  induction h with
  | root h => exact .root ((hparent _).trans h)
  | up h _ ih => exact .up (by rwa [hparent]) (by rwa [hparent])

theorem lt_of_lt (h : f.Climbs x r) (hlt : ∀ {y}, y < f.size → f.parent y < f.size)
    (hx : x < f.size) : r < f.size := by
  induction h with
  | root _ => exact hx
  | up _ _ ih => exact ih (hlt hx)

theorem exists_iterate (h : f.Climbs x r) : ∃ n, f.parent^[n] x = r ∧
    ∀ i < n, f.parent (f.parent^[i] x) ≠ f.parent^[i] x := by
  induction h with
  | root h => exact ⟨0, rfl, fun i hi => absurd hi (Nat.not_lt_zero i)⟩
  | up h _ ih =>
      obtain ⟨n, hn, hbefore⟩ := ih
      refine ⟨n + 1, hn, fun i hi => ?_⟩
      cases i with
      | zero => exact h
      | succ i => exact hbefore i (Nat.lt_of_succ_lt_succ hi)

end Climbs

section Roots

theorem climb_eq_iterate (n x : Nat) : f.climb n x = f.parent^[n] x := by
  induction n generalizing x with
  | zero => rfl
  | succ n ih =>
      rw [climb, Function.iterate_succ_apply]
      split
      · rename_i h
        rw [h, Function.iterate_fixed h]
      · exact ih (f.parent x)

theorem Climbs.length_le (h : f.Climbs x r) : ∃ n ≤ f.size, f.parent^[n] x = r := by
  -- the indexes before the root are stored and differ from each other
  obtain ⟨n, hn, hbefore⟩ := h.exists_iterate
  have hstored : ∀ i ∈ Finset.range n, f.parent^[i] x ∈ Finset.range f.size := by
    intro i hi
    refine Finset.mem_range.mpr (Nat.lt_of_not_le (fun hle => ?_))
    exact hbefore i (Finset.mem_range.mp hi) (parent_of_size_le hle)
  have hback : ∀ i j, i < j → j < n → f.parent^[i] x ≠ f.parent^[j] x := by
    intro i j hij hj heq
    -- a repeated index would bring the root forward
    have hroot : f.parent^[n - j + i] x = r := by
      rw [Function.iterate_add_apply, heq, ← Function.iterate_add_apply, Nat.sub_add_cancel hj.le,
        hn]
    exact hbefore (n - j + i) (by omega) (by rw [hroot]; exact h.parent_eq)
  have hinj : Set.InjOn (fun i => f.parent^[i] x) (Finset.range n) := by
    intro i hi j hj heq
    have hi := Finset.mem_range.mp hi
    have hj := Finset.mem_range.mp hj
    rcases Nat.lt_trichotomy i j with hlt | rfl | hlt
    · exact absurd heq (hback i j hlt hj)
    · rfl
    · exact absurd heq.symm (hback j i hlt hi)
  have hcard := Finset.card_le_card_of_injOn _ hstored hinj
  rw [Finset.card_range, Finset.card_range] at hcard
  exact ⟨n, hcard, hn⟩

theorem Climbs.root_eq (h : f.Climbs x r) : f.root x = r := by
  obtain ⟨n, hle, hn⟩ := h.length_le
  rw [Forest.root, climb_eq_iterate, ← Nat.sub_add_cancel hle, Function.iterate_add_apply, hn,
    Function.iterate_fixed h.parent_eq]

namespace Acyclic

theorem climbs_root (h : f.Acyclic) (x : Nat) : f.Climbs x (f.root x) := by
  obtain ⟨r, hr⟩ := h.climbs x
  rwa [hr.root_eq]

theorem parent_root (h : f.Acyclic) (x : Nat) : f.parent (f.root x) = f.root x :=
  (h.climbs_root x).parent_eq

theorem root_lt (h : f.Acyclic) (hx : x < f.size) : f.root x < f.size :=
  (h.climbs_root x).lt_of_lt h.parent_lt hx

end Acyclic

theorem root_of_size_le (h : f.size ≤ x) : f.root x = x :=
  (Climbs.root (parent_of_size_le h)).root_eq

end Roots

structure Preserves (f g : Forest) : Prop where
  acyclic : g.Acyclic
  size_le : f.size ≤ g.size
  climbs : ∀ {x r}, f.Climbs x r → g.Climbs x r

namespace Preserves

theorem refl (h : f.Acyclic) : f.Preserves f := ⟨h, Nat.le_refl _, id⟩

theorem trans {k : Forest} (h : f.Preserves g) (h' : g.Preserves k) : f.Preserves k :=
  ⟨h'.acyclic, Nat.le_trans h.size_le h'.size_le, fun hx => h'.climbs (h.climbs hx)⟩

theorem root_eq (h : f.Preserves g) (hf : f.Acyclic) (x : Nat) : g.root x = f.root x :=
  (h.climbs (hf.climbs_root x)).root_eq

end Preserves

section Lookups

theorem size_cover : (f.cover x).size = max f.size (x + 1) := by
  simp only [size, cover, Array.size_append, Array.size_range']
  omega

theorem parent_cover : (f.cover x).parent y = f.parent y := by
  rcases Nat.lt_or_ge y f.size with hy | hy
  · simp only [parent, cover, Array.getD_eq_getD_getElem?, Array.getElem?_append_left hy]
  · rw [parent_of_size_le hy, parent, cover, Array.getD_eq_getD_getElem?,
      Array.getElem?_append_right hy, Array.getElem?_range']
    split
    · simp only [Option.getD_some]
      have hsize : f.size + 1 * (y - f.size) = y := by omega
      exact hsize
    · rfl

theorem preserves_cover (h : f.Acyclic) (x : Nat) : f.Preserves (f.cover x) where
  acyclic :=
    { climbs := fun y => (h.climbs y).imp (fun _ hr => hr.congr (fun _ => parent_cover))
      parent_lt := by
        intro y hy
        rw [parent_cover]
        rcases Nat.lt_or_ge y f.size with hlt | hle
        · have := h.parent_lt hlt
          rw [size_cover]
          omega
        · rwa [parent_of_size_le hle] }
  size_le := by
    rw [size_cover]
    exact Nat.le_max_left ..
  climbs hy := hy.congr (fun _ => parent_cover)

@[simp] theorem size_link : (f.link x y).size = f.size := Array.size_setIfInBounds

theorem parent_link (hx : x < f.size) : (f.link x r).parent y = if y = x then r else f.parent y := by
  by_cases hy : y = x
  · subst hy
    have hx : y < f.parents.size := hx
    simp [parent, link, Array.getD_eq_getD_getElem?, hx]
  · have hne : x ≠ y := fun h => hy h.symm
    simp [parent, link, Array.getD_eq_getD_getElem?, hne, hy]

theorem Acyclic.link (h : f.Acyclic) (hx : x < f.size) (hr : r < f.size)
    (hclimbs : ∀ y, ∃ s, (f.link x r).Climbs y s) : (f.link x r).Acyclic where
  climbs := hclimbs
  parent_lt {y} hy := by
    rw [size_link] at hy ⊢
    rw [parent_link hx]
    split
    · exact hr
    · exact h.parent_lt hy

theorem Climbs.link_root (hx : f.Climbs x r) (hlt : x < f.size) (hy : f.Climbs y s) :
    (f.link x r).Climbs y s := by
  have hroot : (f.link x r).Climbs r r := by
    refine .root ?_
    rw [parent_link hlt, hx.parent_eq, ite_self]
  induction hy with
  | @root y h =>
      by_cases hyx : y = x
      · rw [hyx] at h ⊢
        rwa [hx.unique (.root h)] at hroot ⊢
      · refine .root ?_
        rw [parent_link hlt, if_neg hyx, h]
  | @up y s h rest ih =>
      by_cases hyx : y = x
      · obtain rfl : r = s := hx.unique (hyx ▸ .up h rest)
        by_cases hry : r = y
        · rwa [hry] at hroot ⊢
        · have hparent : (f.link x r).parent y = r := by rw [parent_link hlt, if_pos hyx]
          exact .up (by rwa [hparent]) (by rwa [hparent])
      · have hparent : (f.link x r).parent y = f.parent y := by rw [parent_link hlt, if_neg hyx]
        exact .up (by rwa [hparent]) (by rwa [hparent])

theorem preserves_link (h : f.Acyclic) (hx : f.Climbs x r) (hlt : x < f.size) :
    f.Preserves (f.link x r) where
  acyclic := h.link hlt (hx.lt_of_lt h.parent_lt hlt)
    (fun y => (h.climbs y).imp (fun _ hy => hx.link_root hlt hy))
  size_le := by rw [size_link]
  climbs hy := hx.link_root hlt hy

theorem preserves_flatten (n : Nat) (h : f.Acyclic) (hx : f.Climbs x r) (hlt : x < f.size) :
    f.Preserves (flatten r n x f) ∧ (flatten r n x f).size = f.size := by
  induction n generalizing f x with
  | zero => exact ⟨.refl h, rfl⟩
  | succ n ih =>
      rw [flatten]
      split
      · exact ⟨.refl h, rfl⟩
      · rename_i hne
        have hlink := preserves_link h hx hlt
        have hnext : f.Climbs (f.parent x) r := by
          cases hx with
          | root hroot => exact absurd hroot hne
          | up _ rest => exact rest
        obtain ⟨hflat, hsize⟩ := ih hlink.acyclic (hlink.climbs hnext)
          (by rw [size_link]; exact h.parent_lt hlt)
        exact ⟨hlink.trans hflat, by rw [hsize, size_link]⟩

theorem representative_fst (h : f.Acyclic) (x : Nat) : (f.representative x).1 = f.root x :=
  (preserves_cover h x).root_eq h x

theorem preserves_representative (h : f.Acyclic) (x : Nat) :
    f.Preserves (f.representative x).2 ∧ (f.representative x).2.size = max f.size (x + 1) := by
  have hcover := preserves_cover h x
  have hlt : x < (f.cover x).size := by
    rw [size_cover]
    omega
  obtain ⟨hflat, hsize⟩ := preserves_flatten (f.cover x).size hcover.acyclic
    (hcover.acyclic.climbs_root x) hlt
  exact ⟨hcover.trans hflat, by rw [representative, hsize, size_cover]⟩

end Lookups

section Merges

theorem Climbs.link_roots (hlt : x < f.size) (hx : f.parent x = x) (hy : f.parent y = y)
    (hz : f.Climbs z s) : (f.link x y).Climbs z (if s = x then y else s) := by
  have hroot : (f.link x y).Climbs y y := by
    refine .root ?_
    rw [parent_link hlt, hy, ite_self]
  induction hz with
  | @root z h =>
      by_cases hzx : z = x
      · rw [if_pos hzx]
        have hparent : (f.link x y).parent z = y := by rw [parent_link hlt, if_pos hzx]
        by_cases hyz : y = z
        · rwa [hyz] at hroot ⊢
        · exact .up (by rwa [hparent]) (by rwa [hparent])
      · rw [if_neg hzx]
        exact .root (by rw [parent_link hlt, if_neg hzx, h])
  | @up z s h _ ih =>
      have hzx : z ≠ x := fun heq => h (heq ▸ hx)
      have hparent : (f.link x y).parent z = f.parent z := by rw [parent_link hlt, if_neg hzx]
      exact .up (by rwa [hparent]) (by rwa [hparent])

variable (h : f.Acyclic) (x y : Nat)
include h

theorem merge_eq_link : f.merge x y =
    ((f.representative y).2.representative x).2.link (f.root y) (f.root x) := by
  have hg := (preserves_representative h y).1
  rw [← hg.root_eq h x, ← representative_fst h y, ← representative_fst hg.acyclic x]
  simp only [merge]

theorem merge_spec : (f.merge x y).Acyclic ∧
    (f.merge x y).size = max f.size (max (x + 1) (y + 1)) ∧
    ∀ z, (f.merge x y).root z = if f.root z = f.root y then f.root x else f.root z := by
  obtain ⟨hg, hgsize⟩ := preserves_representative h y
  obtain ⟨hk, hksize⟩ := preserves_representative hg.acyclic x
  rw [merge_eq_link h x y]
  generalize ((f.representative y).2.representative x).2 = k at hk hksize
  have hpreserves : f.Preserves k := hg.trans hk
  have hroot : ∀ z, k.root z = f.root z := hpreserves.root_eq h
  have hlt : ∀ z, z < k.size → f.root z < k.size := fun z hz =>
    hroot z ▸ hpreserves.acyclic.root_lt hz
  have hself : ∀ z, k.parent (f.root z) = f.root z := fun z =>
    hroot z ▸ hpreserves.acyclic.parent_root z
  have hclimbs : ∀ z, (k.link (f.root y) (f.root x)).Climbs z
      (if f.root z = f.root y then f.root x else f.root z) := fun z =>
    .link_roots (hlt y (by omega)) (hself y) (hself x) (hpreserves.climbs (h.climbs_root z))
  refine ⟨hpreserves.acyclic.link (hlt y (by omega)) (hlt x (by omega))
    (fun z => ⟨_, hclimbs z⟩), ?_, fun z => (hclimbs z).root_eq⟩
  rw [size_link]
  omega

end Merges

end Interproc.Forest
