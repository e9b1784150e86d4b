import Interproc.Partition.Basic
import Interproc.Proofs.Partition.Forest
import Mathlib.Data.List.Induction
import Mathlib.Logic.Relation

namespace Interproc

namespace Interned

variable {α : Type} [Ord α] {s : Interned α} {x z : α} {i : Nat}

theorem get?_eq_some_iff : s.get? i = some x ↔ x ∈ s ∧ s.position x = i := by
  constructor
  · intro h
    have hi := indexOf?_eq_some_iff.mpr h
    exact ⟨List.mem_of_getElem? h, by rw [position, hi, Option.getD_some]⟩
  · rintro ⟨hx, rfl⟩
    exact get?_position hx

theorem position_lt (h : x ∈ s) : s.position x < s.size :=
  (List.getElem?_eq_some_iff.mp (get?_position h)).1

variable [Std.TransOrd α] [Std.LawfulEqOrd α] [DecidableEq α]

theorem get?_insert_of_lt (hi : i < s.size) : (s.insert z).get? i = s.get? i := by
  by_cases hz : z ∈ s
  · rw [insert_of_mem hz]
  · rw [get?, items_insert_of_not_mem hz, List.getElem?_append_left hi, get?]

theorem position_insert (h : x ∈ s) : (s.insert z).position x = s.position x := by
  have hget := get?_insert_of_lt (z := z) (position_lt h)
  rw [get?_position h] at hget
  exact (get?_eq_some_iff.mp hget).2

theorem size_insert_of_not_mem (h : z ∉ s) : (s.insert z).size = s.size + 1 := by
  rw [size, items_insert_of_not_mem h, List.length_append, List.length_singleton, size]

theorem position_insert_self (h : z ∉ s) : (s.insert z).position z = s.size := by
  refine (get?_eq_some_iff.mp ?_).2
  rw [get?, items_insert_of_not_mem h, size, List.getElem?_concat_length]

end Interned

namespace Partition

variable {α : Type}

inductive Step (α : Type) where
  | merge (x y : α)
  | ask (x : α)
  deriving DecidableEq

def Merged (steps : List (Step α)) (x y : α) : Prop := .merge x y ∈ steps

variable [Ord α]

def Same (p : Partition α) (x y : α) : Prop :=
  x = y ∨ x ∈ p.members ∧ y ∈ p.members ∧
    p.forest.root (p.members.position x) = p.forest.root (p.members.position y)

structure Sorts (p : Partition α) (r : α → α → Prop) : Prop where
  acyclic : p.forest.Acyclic
  size_le : p.forest.size ≤ p.members.size
  same_iff : ∀ {x y}, p.Same x y ↔ Relation.EqvGen r x y

variable {p q : Partition α} {r r' : α → α → Prop} {v w x y z : α}

theorem Same.symm (h : p.Same x y) : p.Same y x := by
  rcases h with rfl | ⟨hx, hy, hroot⟩
  · exact Or.inl rfl
  · exact Or.inr ⟨hy, hx, hroot.symm⟩

theorem Same.trans (h : p.Same x y) (h' : p.Same y z) : p.Same x z := by
  rcases h with rfl | ⟨hx, hy, hroot⟩
  · exact h'
  · rcases h' with rfl | ⟨_, hz, hroot'⟩
    · exact Or.inr ⟨hx, hy, hroot⟩
    · exact Or.inr ⟨hx, hz, hroot.trans hroot'⟩

theorem same_iff_of_mem (hx : x ∈ p.members) (hy : y ∈ p.members) : p.Same x y ↔
    p.forest.root (p.members.position x) = p.forest.root (p.members.position y) := by
  constructor
  · rintro (rfl | ⟨_, _, hroot⟩)
    · rfl
    · exact hroot
  · exact fun hroot => Or.inr ⟨hx, hy, hroot⟩

theorem Same.eq_or_mem (h : p.Same x y) : x = y ∨ x ∈ p.members ∧ y ∈ p.members :=
  h.imp_right (fun h => ⟨h.1, h.2.1⟩)

theorem Sorts.congr (h : p.Sorts r) (hr : ∀ x y, r' x y ↔ r x y) : p.Sorts r' := by
  have heq : r' = r := funext (fun x => funext (fun y => propext (hr x y)))
  rwa [heq]

theorem sorts_empty : (∅ : Partition α).Sorts (fun _ _ => False) where
  acyclic := Forest.acyclic_empty
  size_le := Nat.le_refl 0
  same_iff {x y} := by
    constructor
    · rintro (rfl | ⟨hx, _⟩)
      · exact .refl x
      · exact absurd hx List.not_mem_nil
    · intro h
      induction h with
      | rel x y h => exact h.elim
      | refl x => exact Or.inl rfl
      | symm x y _ ih => exact ih.symm
      | trans x y z _ _ ih ih' => exact ih.trans ih'

theorem Sorts.of_roots (h : p.Sorts r) (hmembers : q.members = p.members) (hq : q.forest.Acyclic)
    (hsize : q.forest.size ≤ q.members.size) (hroot : ∀ i, q.forest.root i = p.forest.root i) :
    q.Sorts r where
  acyclic := hq
  size_le := hsize
  same_iff := by
    intro x y
    rw [← h.same_iff, Same, Same, hmembers, hroot, hroot]

theorem Sorts.root_lt (h : p.Sorts r) (hx : x ∈ p.members) :
    p.forest.root (p.members.position x) < p.members.size := by
  have hlt := Interned.position_lt hx
  rcases Nat.lt_or_ge (p.members.position x) p.forest.size with hi | hi
  · exact Nat.lt_of_lt_of_le (h.acyclic.root_lt hi) h.size_le
  · rwa [Forest.root_of_size_le hi]

/-- `q` is `p` with the tree of `w` moved below the root of `v`. -/
structure Joined (p q : Partition α) (v w : α) : Prop where
  left : v ∈ p.members
  right : w ∈ p.members
  members : q.members = p.members
  acyclic : q.forest.Acyclic
  size_le : q.forest.size ≤ q.members.size
  root_eq : ∀ i, q.forest.root i =
    if p.forest.root i = p.forest.root (p.members.position w) then
      p.forest.root (p.members.position v)
    else p.forest.root i

theorem Joined.same (h : Joined p q v w) : q.Same v w := by
  refine Or.inr ⟨h.members ▸ h.left, h.members ▸ h.right, ?_⟩
  rw [h.members, h.root_eq, h.root_eq, if_pos rfl, ite_self]

theorem Joined.same_of_same (h : Joined p q v w) (hxy : p.Same x y) : q.Same x y := by
  rcases hxy with rfl | ⟨hx, hy, heq⟩
  · exact Or.inl rfl
  · refine Or.inr ⟨h.members ▸ hx, h.members ▸ hy, ?_⟩
    rw [h.members, h.root_eq, h.root_eq, heq]

theorem Joined.cases (h : Joined p q v w) (hxy : q.Same x y) :
    p.Same x y ∨ p.Same x w ∧ p.Same v y ∨ p.Same x v ∧ p.Same w y := by
  rcases hxy with rfl | ⟨hx, hy, heq⟩
  · exact Or.inl (Or.inl rfl)
  · rw [h.members] at hx hy heq
    rw [h.root_eq, h.root_eq] at heq
    split at heq <;> rename_i hxw <;> split at heq <;> rename_i hyw
    · exact Or.inl ((same_iff_of_mem hx hy).mpr (hxw.trans hyw.symm))
    · exact Or.inr (Or.inl ⟨(same_iff_of_mem hx h.right).mpr hxw, (same_iff_of_mem h.left hy).mpr heq⟩)
    · exact Or.inr (Or.inr ⟨(same_iff_of_mem hx h.left).mpr heq,
        (same_iff_of_mem h.right hy).mpr hyw.symm⟩)
    · exact Or.inl ((same_iff_of_mem hx hy).mpr heq)

theorem Sorts.join (h : p.Sorts r) (hjoin : Joined p q v w) :
    q.Sorts (fun x y => r x y ∨ x = v ∧ y = w) where
  acyclic := hjoin.acyclic
  size_le := hjoin.size_le
  same_iff {x y} := by
    have hold : ∀ {x y}, p.Same x y → Relation.EqvGen (fun x y => r x y ∨ x = v ∧ y = w) x y :=
      fun hxy => (h.same_iff.mp hxy).mono (fun _ _ => Or.inl)
    have hjoined := Relation.EqvGen.rel (r := fun x y => r x y ∨ x = v ∧ y = w) v w
      (Or.inr ⟨rfl, rfl⟩)
    constructor
    · intro hxy
      rcases hjoin.cases hxy with hxy | ⟨hxw, hvy⟩ | ⟨hxv, hwy⟩
      · exact hold hxy
      · exact (hold hxw).trans _ _ _ ((hjoined.symm _ _).trans _ _ _ (hold hvy))
      · exact (hold hxv).trans _ _ _ (hjoined.trans _ _ _ (hold hwy))
    · intro hxy
      induction hxy with
      | rel x y hxy =>
          rcases hxy with hxy | ⟨rfl, rfl⟩
          · exact hjoin.same_of_same (h.same_iff.mpr (.rel x y hxy))
          · exact hjoin.same
      | refl x => exact Or.inl rfl
      | symm x y _ ih => exact ih.symm
      | trans x y z _ _ ih ih' => exact ih.trans ih'

section Merges

variable [Std.TransOrd α] [Std.LawfulEqOrd α] [DecidableEq α]

def enroll (p : Partition α) (z : α) : Partition α := ⟨p.forest, p.members.insert z⟩

theorem Sorts.enroll (h : p.Sorts r) (z : α) : (p.enroll z).Sorts r := by
  by_cases hz : z ∈ p.members
  · rwa [Partition.enroll, Interned.insert_of_mem hz]
  · -- the new member is a root beyond the trees of all others
    have hsize : (p.enroll z).members.size = p.members.size + 1 :=
      Interned.size_insert_of_not_mem hz
    have hself : p.forest.root ((p.enroll z).members.position z) = p.members.size := by
      rw [Partition.enroll, Interned.position_insert_self hz]
      exact Forest.root_of_size_le h.size_le
    have hold : ∀ {x}, x ∈ p.members →
        p.forest.root ((p.enroll z).members.position x) < p.members.size := by
      intro x hx
      rw [Partition.enroll, Interned.position_insert hx]
      exact h.root_lt hx
    refine ⟨h.acyclic, by rw [hsize]; exact Nat.le_succ_of_le h.size_le, fun {x y} => ?_⟩
    rw [← h.same_iff]
    constructor
    · rintro (rfl | ⟨hx, hy, hroot⟩)
      · exact Or.inl rfl
      · rcases Interned.mem_insert.mp hx with hx' | rfl
        · rcases Interned.mem_insert.mp hy with hy' | rfl
          · refine Or.inr ⟨hx', hy', ?_⟩
            rwa [Partition.enroll, Interned.position_insert hx', Interned.position_insert hy']
              at hroot
          · exact absurd (hroot.trans hself) (Nat.ne_of_lt (hold hx'))
        · rcases Interned.mem_insert.mp hy with hy' | rfl
          · exact absurd (hroot.symm.trans hself) (Nat.ne_of_lt (hold hy'))
          · exact Or.inl rfl
    · rintro (rfl | ⟨hx, hy, hroot⟩)
      · exact Or.inl rfl
      · refine Or.inr ⟨Interned.mem_insert.mpr (Or.inl hx), Interned.mem_insert.mpr (Or.inl hy), ?_⟩
        rwa [Partition.enroll, Interned.position_insert hx, Interned.position_insert hy]

theorem Sorts.merge (h : p.Sorts r) (v w : α) :
    (p.merge v w).Sorts (fun x y => r x y ∨ x = v ∧ y = w) := by
  have hboth : ((p.enroll v).enroll w).Sorts r := (h.enroll v).enroll w
  let s := (p.members.insert v).insert w
  have hv : v ∈ s := by simp [s]
  have hw : w ∈ s := by simp [s]
  obtain ⟨hacyclic, hsize, hroot⟩ := Forest.merge_spec h.acyclic (s.position v) (s.position w)
  refine hboth.join ⟨hv, hw, rfl, hacyclic, ?_, hroot⟩
  have hle : p.forest.size ≤ s.size := hboth.size_le
  have hv := Interned.position_lt hv
  have hw := Interned.position_lt hw
  have hgoal : (p.forest.merge (s.position v) (s.position w)).size ≤ s.size := by omega
  exact hgoal

end Merges

section Questions

structure Rearranges (p q : Partition α) : Prop where
  members : q.members = p.members
  acyclic : q.forest.Acyclic
  size_le : q.forest.size ≤ q.members.size
  root_eq : ∀ i, q.forest.root i = p.forest.root i

theorem Rearranges.trans {q' : Partition α} (h : p.Rearranges q) (h' : q.Rearranges q') :
    p.Rearranges q' :=
  ⟨h'.members.trans h.members, h'.acyclic, h'.size_le, fun i => (h'.root_eq i).trans (h.root_eq i)⟩

theorem Rearranges.sorts (h : p.Rearranges q) (hp : p.Sorts r) : q.Sorts r :=
  hp.of_roots h.members h.acyclic h.size_le h.root_eq

theorem Sorts.rearranges (h : p.Sorts r) (x : α) : p.Rearranges (p.representative? x).2 := by
  unfold representative?
  split
  · exact ⟨rfl, h.acyclic, h.size_le, fun _ => rfl⟩
  · rename_i i hi
    obtain ⟨hlook, hgrown⟩ := Forest.preserves_representative h.acyclic i
    obtain ⟨hx, rfl⟩ := Interned.get?_eq_some_iff.mp (Interned.indexOf?_eq_some_iff.mp hi)
    have hlt := Interned.position_lt hx
    have hsize := h.size_le
    have hgoal : (p.forest.representative (p.members.position x)).2.size ≤ p.members.size := by omega
    exact ⟨rfl, hlook.acyclic, hgoal, hlook.root_eq h.acyclic⟩

theorem Sorts.representative?_eq_some_iff (h : p.Sorts r) : (p.representative? x).1 = some y ↔
    x ∈ p.members ∧ y ∈ p.members ∧
      p.members.position y = p.forest.root (p.members.position x) := by
  unfold representative?
  split
  · rename_i hnone
    exact iff_of_false (fun hsome => nomatch hsome)
      (fun hmem => Interned.indexOf?_eq_none_iff.mp hnone hmem.1)
  · rename_i i hi
    obtain ⟨hx, rfl⟩ := Interned.get?_eq_some_iff.mp (Interned.indexOf?_eq_some_iff.mp hi)
    simp only [Forest.representative_fst h.acyclic, Interned.get?_eq_some_iff, hx, true_and]

theorem Sorts.exists_representative (h : p.Sorts r) (hx : x ∈ p.members) :
    ∃ y, (p.representative? x).1 = some y := by
  have hget := List.getElem?_eq_getElem (h.root_lt hx)
  exact ⟨_, h.representative?_eq_some_iff.mpr ⟨hx, Interned.get?_eq_some_iff.mp hget⟩⟩

theorem Sorts.shares_representative_iff (h : p.Sorts r) (hx : (p.representative? x).1 = some z) :
    (p.representative? y).1 = some z ↔ Relation.EqvGen r x y := by
  obtain ⟨hmem, hz, hroot⟩ := h.representative?_eq_some_iff.mp hx
  rw [h.representative?_eq_some_iff, ← h.same_iff]
  constructor
  · rintro ⟨hy, _, hroot'⟩
    exact Or.inr ⟨hmem, hy, hroot.symm.trans hroot'⟩
  · intro hxy
    have hy : y ∈ p.members := by
      rcases hxy.eq_or_mem with rfl | ⟨_, hy⟩
      · exact hmem
      · exact hy
    exact ⟨hy, hz, hroot.trans ((same_iff_of_mem hmem hy).mp hxy)⟩

theorem Rearranges.representative?_eq (h : p.Rearranges q) (hp : p.Sorts r) (x : α) :
    (q.representative? x).1 = (p.representative? x).1 := by
  refine Option.ext (fun y => ?_)
  rw [(h.sorts hp).representative?_eq_some_iff, hp.representative?_eq_some_iff, h.members, h.root_eq]

variable [DecidableEq α]

theorem Sorts.shares_spec (h : p.Sorts r) (z : α) (xs : List α) :
    (∀ y, y ∈ (shares z xs p).1 ↔ y ∈ xs ∧ (p.representative? y).1 = some z) ∧
      p.Rearranges (shares z xs p).2 := by
  induction xs generalizing p with
  | nil => exact ⟨by simp [shares], rfl, h.acyclic, h.size_le, fun _ => rfl⟩
  | cons x xs ih =>
      have hlook := h.rearranges x
      -- the items that follow are looked up in the forest that this lookup leaves
      obtain ⟨hmem, hrest⟩ := ih (hlook.sorts h)
      refine ⟨fun y => ?_, hlook.trans hrest⟩
      have hlater : y ∈ (shares z xs (p.representative? x).2).1 ↔
          y ∈ xs ∧ (p.representative? y).1 = some z := by
        rw [hmem, hlook.representative?_eq h]
      simp only [shares, List.mem_cons]
      split
      · rename_i hx
        rw [List.mem_cons, hlater]
        constructor
        · rintro (rfl | hy)
          · exact ⟨Or.inl rfl, hx⟩
          · exact ⟨Or.inr hy.1, hy.2⟩
        · rintro ⟨rfl | hy, hroot⟩
          · exact Or.inl rfl
          · exact Or.inr ⟨hy, hroot⟩
      · rename_i hx
        rw [hlater]
        refine and_congr_left (fun hroot => ⟨Or.inr, ?_⟩)
        rintro (rfl | hy)
        · exact absurd hroot hx
        · exact hy

variable [Std.TransOrd α] [Std.LawfulEqOrd α]

theorem Sorts.classOf (h : p.Sorts r) (x : α) :
    (∀ y, y ∈ (p.classOf x).1 ↔ Relation.EqvGen r x y) ∧ (p.classOf x).2.Sorts r := by
  have hlook := h.rearranges x
  unfold Partition.classOf
  split
  · rename_i q heq
    rw [heq] at hlook
    refine ⟨fun y => ?_, hlook.sorts h⟩
    have hx : x ∉ p.members := fun hx => by
      obtain ⟨y, hy⟩ := h.exists_representative hx
      rw [heq] at hy
      exact nomatch hy
    rw [OrdSet.mem_single, ← h.same_iff]
    constructor
    · rintro rfl
      exact Or.inl rfl
    · intro hxy
      rcases hxy.eq_or_mem with rfl | ⟨hmem, _⟩
      · rfl
      · exact absurd hmem hx
  · rename_i z q heq
    rw [heq] at hlook
    obtain ⟨hshares, hrest⟩ := (hlook.sorts h).shares_spec z q.members.items
    refine ⟨fun y => ?_, (hlook.trans hrest).sorts h⟩
    have hx : (p.representative? x).1 = some z := by rw [heq]
    rw [OrdSet.mem_ofList, hshares, hlook.representative?_eq h, h.shares_representative_iff hx]
    refine and_iff_right_of_imp (fun hxy => ?_)
    have hy := (h.representative?_eq_some_iff.mp ((h.shares_representative_iff hx).mpr hxy)).1
    exact hlook.members ▸ hy

def perform (p : Partition α) : Step α → Partition α
  | .merge x y => p.merge x y
  | .ask x => (p.classOf x).2

def after (steps : List (Step α)) : Partition α := steps.foldl perform ∅

theorem Sorts.perform (h : p.Sorts r) (step : Step α) :
    (p.perform step).Sorts (fun x y => r x y ∨ step = .merge x y) := by
  cases step with
  | merge v w => exact (h.merge v w).congr (fun x y => by simp [eq_comm])
  | ask x => exact (h.classOf x).2.congr (fun x y => by simp)

theorem sorts_after (steps : List (Step α)) : (after steps).Sorts (Merged steps) := by
  induction steps using List.reverseRecOn with
  | nil => exact sorts_empty.congr (fun x y => by simp [Merged])
  | append_singleton steps step ih =>
      rw [after, List.foldl_concat]
      exact (ih.perform step).congr (fun x y => by simp [Merged, eq_comm])

omit [Ord α] [Std.TransOrd α] [Std.LawfulEqOrd α] [DecidableEq α] in
theorem eq_of_connected (hx : ∀ z, ¬ r x z ∧ ¬ r z x) (h : Relation.EqvGen r x y) : y = x := by
  have hboth : ∀ {v w}, Relation.EqvGen r v w → (v = x ↔ w = x) := by
    intro v w h
    induction h with
    | rel v w h =>
        have hv : v ≠ x := fun heq => (hx w).1 (heq ▸ h)
        have hw : w ≠ x := fun heq => (hx v).2 (heq ▸ h)
        exact iff_of_false hv hw
    | refl v => exact Iff.rfl
    | symm v w _ ih => exact ih.symm
    | trans u v w _ _ ih ih' => exact ih.trans ih'
  exact (hboth h).mp rfl

theorem classOf_after (steps : List (Step α)) (x : α) :
    (after steps).forest.Acyclic ∧
    (∀ y, y ∈ ((after steps).classOf x).1 ↔ Relation.EqvGen (Merged steps) x y) ∧
    ((∀ z, ¬ Merged steps x z ∧ ¬ Merged steps z x) →
      ((after steps).classOf x).1 = OrdSet.single x) ∧
    ∀ before later asked, steps = before ++ .ask asked :: later →
      ((after steps).classOf x).1 = ((after (before ++ later)).classOf x).1 := by
  have hclass : ∀ steps y, y ∈ ((after steps).classOf x).1 ↔ Relation.EqvGen (Merged steps) x y :=
    fun steps => ((sorts_after steps).classOf x).1
  refine ⟨(sorts_after steps).acyclic, hclass steps, fun halone => OrdSet.ext (fun y => ?_), ?_⟩
  · rw [hclass, OrdSet.mem_single]
    constructor
    · exact eq_of_connected halone
    · rintro rfl
      exact .refl y
  · rintro before later asked rfl
    have hmerged : Merged (before ++ .ask asked :: later) = Merged (before ++ later) := by
      funext v w
      simp [Merged]
    refine OrdSet.ext (fun y => ?_)
    rw [hclass, hclass, hmerged]

def threeMerges : List (Step Int) := [.merge 1 2, .ask 5, .merge 3 4, .ask 4, .merge 4 2]

theorem threeMerges_classOf :
    Relation.EqvGen (Merged threeMerges) 1 3 ∧ ¬ Relation.EqvGen (Merged threeMerges) 1 5 ∧
    ((after threeMerges).classOf 5).1 = OrdSet.single 5 ∧
    ((after threeMerges).classOf 1).1 =
      ((after [.merge 1 2, .ask 5, .merge 3 4, .merge 4 2]).classOf 1).1 := by
  obtain ⟨_, hclass, _, hask⟩ := classOf_after threeMerges 1
  refine ⟨(hclass 3).mp (by decide +kernel),
    fun h => absurd ((hclass 5).mpr h) (by decide +kernel), ?_, ?_⟩
  · exact (classOf_after threeMerges 5).2.2.1 (by simp [Merged, threeMerges])
  · exact hask [.merge 1 2, .ask 5, .merge 3 4] [.merge 4 2] 4 rfl

end Questions

end Partition

end Interproc
