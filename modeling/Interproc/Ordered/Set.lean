namespace Interproc

variable {α β : Type}

def Ascending [Ord α] (xs : List α) : Prop :=
  xs.Pairwise (fun x y => compare x y = .lt)

def place [Ord α] (x : α) : List α → List α
  | [] => [x]
  | y :: ys =>
      match compare x y with
      | .lt => x :: y :: ys
      | .eq => y :: ys
      | .gt => y :: place x ys

theorem mem_place [Ord α] [Std.LawfulEqOrd α] {x z : α} {xs : List α} :
    z ∈ place x xs ↔ z = x ∨ z ∈ xs := by
  induction xs with
  | nil => simp [place]
  | cons y ys ih =>
      simp only [place]
      cases hxy : compare x y with
      | lt => simp
      | eq =>
          have heq : x = y := Std.LawfulEqCmp.eq_of_compare hxy
          simp [heq]
      | gt => simp [ih, or_left_comm]

theorem ascending_place [Ord α] [Std.TransOrd α] [Std.LawfulEqOrd α] {x : α} {xs : List α}
    (h : Ascending xs) : Ascending (place x xs) := by
  induction xs with
  | nil => simp [place, Ascending]
  | cons y ys ih =>
      have hy := List.pairwise_cons.mp h
      simp only [place]
      cases hxy : compare x y with
      | lt =>
          refine List.pairwise_cons.mpr ⟨?_, h⟩
          intro z hz
          cases hz with
          | head => exact hxy
          | tail _ hz => exact Std.TransCmp.lt_trans hxy (hy.1 z hz)
      | eq => exact h
      | gt =>
          refine List.pairwise_cons.mpr ⟨?_, ih hy.2⟩
          intro z hz
          cases mem_place.mp hz with
          | inl hzx => exact hzx ▸ Std.OrientedCmp.lt_of_gt hxy
          | inr hz => exact hy.1 z hz

theorem ascending_ext [Ord α] [Std.TransOrd α] [Std.LawfulEqOrd α] :
    ∀ {xs ys : List α}, Ascending xs → Ascending ys → (∀ z, z ∈ xs ↔ z ∈ ys) → xs = ys := by
  intro xs
  induction xs with
  | nil =>
      intro ys _ _ h
      cases ys with
      | nil => rfl
      | cons y ys => exact absurd ((h y).mpr (List.mem_cons_self ..)) (by simp)
  | cons x xs ih =>
      intro ys hx hy h
      cases ys with
      | nil => exact absurd ((h x).mp (List.mem_cons_self ..)) (by simp)
      | cons y ys =>
          have hx := List.pairwise_cons.mp hx
          have hy := List.pairwise_cons.mp hy
          have irrefl : ∀ {a : α}, compare a a ≠ .lt := by simp [Std.ReflCmp.compare_self]
          have hxy : x = y := by
            cases (List.mem_cons.mp ((h x).mp (List.mem_cons_self ..))) with
            | inl e => exact e
            | inr hxm =>
                cases (List.mem_cons.mp ((h y).mpr (List.mem_cons_self ..))) with
                | inl e => exact e.symm
                | inr hym => exact absurd (Std.TransCmp.lt_trans (hx.1 y hym) (hy.1 x hxm)) irrefl
          subst hxy
          rw [ih hx.2 hy.2]
          intro z
          constructor
          · intro hz
            cases List.mem_cons.mp ((h z).mp (List.mem_cons_of_mem _ hz)) with
            | inl e => exact absurd (e ▸ hx.1 z hz) irrefl
            | inr hz => exact hz
          · intro hz
            cases List.mem_cons.mp ((h z).mpr (List.mem_cons_of_mem _ hz)) with
            | inl e => exact absurd (e ▸ hy.1 z hz) irrefl
            | inr hz => exact hz

structure OrdSet (α : Type) [Ord α] where
  elements : List α
  ascending : Ascending elements

namespace OrdSet

variable [Ord α]

instance [DecidableEq α] : DecidableEq (OrdSet α) := fun s t =>
  decidable_of_iff (s.elements = t.elements)
    ⟨fun h => by cases s; cases t; cases h; rfl, fun h => h ▸ rfl⟩

instance : EmptyCollection (OrdSet α) := ⟨⟨[], .nil⟩⟩

instance : Inhabited (OrdSet α) := ⟨∅⟩

instance : Membership α (OrdSet α) := ⟨fun s x => x ∈ s.elements⟩

instance [DecidableEq α] (x : α) (s : OrdSet α) : Decidable (x ∈ s) :=
  inferInstanceAs (Decidable (x ∈ s.elements))

@[simp] theorem not_mem_empty {x : α} : x ∉ (∅ : OrdSet α) := List.not_mem_nil

def size (s : OrdSet α) : Nat := s.elements.length

def isEmpty (s : OrdSet α) : Bool := s.elements.isEmpty

def contains [DecidableEq α] (s : OrdSet α) (x : α) : Bool := decide (x ∈ s)

def erase [DecidableEq α] (s : OrdSet α) (x : α) : OrdSet α :=
  ⟨s.elements.filter (fun y => y ≠ x), s.ascending.filter _⟩

@[simp] theorem mem_erase [DecidableEq α] {s : OrdSet α} {x z : α} :
    z ∈ s.erase x ↔ z ∈ s ∧ z ≠ x :=
  List.mem_filter.trans (and_congr_right (fun _ => decide_eq_true_iff))

def keep (s : OrdSet α) (p : α → Bool) : OrdSet α :=
  ⟨s.elements.filter p, s.ascending.filter _⟩

@[simp] theorem mem_keep {s : OrdSet α} {p : α → Bool} {z : α} :
    z ∈ s.keep p ↔ z ∈ s ∧ p z = true :=
  List.mem_filter

def isSubset [DecidableEq α] (s t : OrdSet α) : Bool := s.elements.all t.contains

theorem isSubset_iff [DecidableEq α] {s t : OrdSet α} :
    s.isSubset t = true ↔ ∀ x ∈ s, x ∈ t := by
  simp [isSubset, contains, Membership.mem]

variable [Std.TransOrd α] [Std.LawfulEqOrd α]

theorem ext {s t : OrdSet α} (h : ∀ x, x ∈ s ↔ x ∈ t) : s = t := by
  cases s with
  | mk xs hx =>
      cases t with
      | mk ys hy =>
          cases ascending_ext hx hy h
          rfl

def insert (s : OrdSet α) (x : α) : OrdSet α := ⟨place x s.elements, ascending_place s.ascending⟩

@[simp] theorem mem_insert {s : OrdSet α} {x z : α} : z ∈ s.insert x ↔ z = x ∨ z ∈ s := mem_place

def insertAll (s : OrdSet α) (xs : List α) : OrdSet α := xs.foldl insert s

@[simp] theorem mem_insertAll {s : OrdSet α} {xs : List α} {z : α} :
    z ∈ s.insertAll xs ↔ z ∈ s ∨ z ∈ xs := by
  induction xs generalizing s with
  | nil => simp [insertAll]
  | cons x xs ih =>
      have hx : z ∈ s.insertAll (x :: xs) ↔ z ∈ (s.insert x).insertAll xs := Iff.rfl
      rw [hx, ih, mem_insert, List.mem_cons, or_assoc, or_left_comm]

def ofList (xs : List α) : OrdSet α := insertAll ∅ xs

@[simp] theorem mem_ofList {xs : List α} {z : α} : z ∈ ofList xs ↔ z ∈ xs := by simp [ofList]

def single (x : α) : OrdSet α := insert ∅ x

@[simp] theorem mem_single {x z : α} : z ∈ single x ↔ z = x := by simp [single]

def union (s t : OrdSet α) : OrdSet α := s.insertAll t.elements

@[simp] theorem mem_union {s t : OrdSet α} {z : α} : z ∈ s.union t ↔ z ∈ s ∨ z ∈ t :=
  mem_insertAll

theorem union_comm (s t : OrdSet α) : s.union t = t.union s :=
  ext (fun x => by simp [or_comm])

theorem union_assoc (s t u : OrdSet α) : (s.union t).union u = s.union (t.union u) :=
  ext (fun x => by simp [or_assoc])

theorem union_self (s : OrdSet α) : s.union s = s := ext (fun x => by simp)

end OrdSet

instance [Ord α] : Ord (OrdSet α) :=
  ⟨fun s t => (compare s.size t.size).then (compare s.elements t.elements)⟩

end Interproc
