import Interproc.Ordered.Map

namespace Interproc

namespace OrdSet

variable {α : Type} [Ord α]

instance [Std.TransOrd α] : Std.TransOrd (OrdSet α) :=
  inferInstanceAs (Std.TransCmp (compareLex (compareOn size) (compareOn elements)))

instance [Std.TransOrd α] [Std.LawfulEqOrd α] : Std.LawfulEqOrd (OrdSet α) where
  eq_of_compare {s t} h := by
    have helements := Std.LawfulEqCmp.eq_of_compare (Ordering.then_eq_eq.mp h).2
    cases s
    cases t
    cases helements
    rfl

end OrdSet

namespace OrdMap

variable {κ ν : Type} [Ord κ] [Ord ν]

abbrev compareEntries : κ × ν → κ × ν → Ordering :=
  compareLex (compareOn Prod.fst) (compareOn Prod.snd)

instance [Std.LawfulEqOrd κ] [Std.LawfulEqOrd ν] :
    Std.LawfulEqCmp (compareEntries : κ × ν → κ × ν → Ordering) where
  compare_self {a} := by simp [compareEntries, compareLex, compareOn]
  eq_of_compare {a b} h := by
    have hboth := Ordering.then_eq_eq.mp h
    exact Prod.ext (Std.LawfulEqCmp.eq_of_compare hboth.1) (Std.LawfulEqCmp.eq_of_compare hboth.2)

variable [Std.TransOrd κ] [Std.TransOrd ν]

instance : Std.TransCmp (fun m n : OrdMap κ ν =>
    List.compareLex compareEntries m.entries n.entries) where
  eq_swap {m n} := Std.OrientedCmp.eq_swap (a := m.entries) (b := n.entries)
  isLE_trans h h' := Std.TransCmp.isLE_trans h h'

instance : Std.TransOrd (OrdMap κ ν) :=
  inferInstanceAs (Std.TransCmp (compareLex (compareOn size)
    (fun m n => List.compareLex compareEntries m.entries n.entries)))

instance [Std.LawfulEqOrd κ] [Std.LawfulEqOrd ν] : Std.LawfulEqOrd (OrdMap κ ν) where
  eq_of_compare {m n} h := by
    have hentries : List.compareLex compareEntries m.entries n.entries = .eq :=
      (Ordering.then_eq_eq.mp h).2
    exact eq_of_entries (Std.LawfulEqCmp.eq_of_compare hentries)

end OrdMap

section Snapshots

structure Orders {α : Type} (cmp : α → α → Ordering) (alike : α → α → Prop) : Prop where
  swap : ∀ a b, cmp a b = (cmp b a).swap
  antisymm : ∀ a b, (cmp a b).isLE = true → (cmp b a).isLE = true → alike a b
  trans : ∀ a b c, (cmp a b).isLE = true → (cmp b c).isLE = true → (cmp a c).isLE = true
  eq_iff : ∀ a b, cmp a b = .eq ↔ alike a b

variable {α κ ν : Type} [Ord α] [Ord κ] [Ord ν]

structure OrdSet.Lists (s : OrdSet α) (xs : List α) : Prop where
  ascending : Ascending xs
  mem_iff : ∀ x, x ∈ xs ↔ x ∈ s

structure OrdMap.Lists (m : OrdMap κ ν) (es : List (κ × ν)) : Prop where
  ascending : es.Pairwise (fun e e' => OrdMap.compareEntries e e' = .lt)
  mem_iff : ∀ k v, (k, v) ∈ es ↔ m.get? k = some v

theorem orders_of_lawful {α : Type} {cmp : α → α → Ordering} {alike : α → α → Prop}
    [Std.TransCmp cmp] [Std.LawfulEqCmp cmp] (h : ∀ a b, a = b ↔ alike a b) :
    Orders cmp alike where
  swap _ _ := Std.OrientedCmp.eq_swap
  antisymm a b hab hba :=
    (h a b).mp (Std.LawfulEqCmp.eq_of_compare (Std.OrientedCmp.isLE_antisymm hab hba))
  trans _ _ _ := Std.TransCmp.isLE_trans
  eq_iff a b := Std.LawfulEqCmp.compare_eq_iff_eq.trans (h a b)

variable [Std.TransOrd α] [Std.LawfulEqOrd α] [Std.TransOrd κ] [Std.LawfulEqOrd κ]
  [Std.TransOrd ν] [Std.LawfulEqOrd ν]

theorem OrdSet.Lists.eq {s : OrdSet α} {xs : List α} (h : s.Lists xs) : xs = s.elements :=
  ascending_ext h.ascending s.ascending h.mem_iff

theorem OrdMap.Lists.eq {m : OrdMap κ ν} {es : List (κ × ν)} (h : m.Lists es) :
    es = m.entries := by
  let _ : Ord (κ × ν) := ⟨OrdMap.compareEntries⟩
  have : Std.TransOrd (κ × ν) := inferInstanceAs (Std.TransCmp OrdMap.compareEntries)
  have : Std.LawfulEqOrd (κ × ν) := inferInstanceAs (Std.LawfulEqCmp OrdMap.compareEntries)
  have hentries : Ascending m.entries := m.ascending.imp (fun {e e'} hlt => by
    show OrdMap.compareEntries e e' = .lt
    simp [OrdMap.compareEntries, compareLex, compareOn, hlt])
  exact ascending_ext h.ascending hentries (fun e =>
    (h.mem_iff e.1 e.2).trans OrdMap.get?_eq_some_iff)

theorem snapshots_ordered :
    (Orders (fun s t : OrdSet α => compare s t) (fun s t => ∀ x, x ∈ s ↔ x ∈ t) ∧
      (∀ s t : OrdSet α, s = t ↔ ∀ x, x ∈ s ↔ x ∈ t) ∧
      ∀ (s t : OrdSet α) xs ys, s.Lists xs → t.Lists ys →
        compare s t = (compare xs.length ys.length).then (compare xs ys)) ∧
    Orders (fun m n : OrdMap κ ν => compare m n) (fun m n => ∀ k, m.get? k = n.get? k) ∧
      (∀ m n : OrdMap κ ν, m = n ↔ ∀ k, m.get? k = n.get? k) ∧
      ∀ (m n : OrdMap κ ν) es fs, m.Lists es → n.Lists fs →
        compare m n = (compare es.length fs.length).then
          (List.compareLex OrdMap.compareEntries es fs) := by
  have hset : ∀ s t : OrdSet α, s = t ↔ ∀ x, x ∈ s ↔ x ∈ t :=
    fun s t => ⟨fun h x => h ▸ Iff.rfl, OrdSet.ext⟩
  have hmap : ∀ m n : OrdMap κ ν, m = n ↔ ∀ k, m.get? k = n.get? k :=
    fun m n => ⟨fun h k => h ▸ rfl, OrdMap.ext⟩
  refine ⟨⟨orders_of_lawful hset, hset, fun s t xs ys hs ht => ?_⟩,
    orders_of_lawful hmap, hmap, fun m n es fs hm hn => ?_⟩
  · rw [hs.eq, ht.eq]
    rfl
  · rw [hm.eq, hn.eq]
    rfl

theorem threeSnapshots_ordered :
    Std.TransOrd Nat ∧ Std.LawfulEqOrd Nat ∧ Std.TransOrd String ∧ Std.LawfulEqOrd String ∧
    (∀ x, x ∈ OrdSet.ofList [3, 1, 3] ↔ x ∈ OrdSet.ofList [1, 3]) ∧
    (compare (OrdSet.ofList [9]) (OrdSet.ofList [1, 4])).isLE = true ∧
    ∀ k, (OrdMap.ofList [("b", 2), ("a", 1)]).get? k =
      (OrdMap.ofList [("a", 5), ("b", 2), ("a", 1)]).get? k := by
  have hordered := @snapshots_ordered Nat String Nat _ _ _ _ _ _ _ _ _
  refine ⟨inferInstance, inferInstance, inferInstance, inferInstance,
    (hordered.1.1.eq_iff _ _).mp (by decide), ?_, (hordered.2.1.eq_iff _ _).mp (by decide)⟩
  exact hordered.1.1.trans _ (OrdSet.ofList [1, 3]) _ (by decide) (by decide)

end Snapshots

end Interproc
