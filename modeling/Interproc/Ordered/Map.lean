import Interproc.Ordered.Set

namespace Interproc

variable {κ ν : Type}

def AscendingKeys [Ord κ] (es : List (κ × ν)) : Prop :=
  es.Pairwise (fun x y => compare x.1 y.1 = .lt)

def seek [Ord κ] (k : κ) : List (κ × ν) → Option ν
  | [] => none
  | (k', v) :: es => if compare k k' = .eq then some v else seek k es

def store [Ord κ] (k : κ) (v : ν) : List (κ × ν) → List (κ × ν)
  | [] => [(k, v)]
  | (k', v') :: es =>
      match compare k k' with
      | .lt => (k, v) :: (k', v') :: es
      | .eq => (k', v) :: es
      | .gt => (k', v') :: store k v es

theorem mem_keys_of_mem_store [Ord κ] {k : κ} {v : ν} {e : κ × ν} {es : List (κ × ν)} :
    e ∈ store k v es → e.1 = k ∨ ∃ e' ∈ es, e.1 = e'.1 := by
  induction es with
  | nil => intro h; simp [store] at h; simp [h]
  | cons y ys ih =>
      intro h
      simp only [store] at h
      cases hxy : compare k y.1 with
      | lt =>
          simp only [hxy, List.mem_cons] at h
          cases h with
          | inl h => exact Or.inl (by simp [h])
          | inr h => exact Or.inr ⟨e, by simpa using h, rfl⟩
      | eq =>
          simp only [hxy, List.mem_cons] at h
          cases h with
          | inl h => exact Or.inr ⟨y, List.mem_cons_self .., by simp [h]⟩
          | inr h => exact Or.inr ⟨e, List.mem_cons_of_mem _ h, rfl⟩
      | gt =>
          simp only [hxy, List.mem_cons] at h
          cases h with
          | inl h => exact Or.inr ⟨y, List.mem_cons_self .., by simp [h]⟩
          | inr h =>
              cases ih h with
              | inl h => exact Or.inl h
              | inr h =>
                  obtain ⟨e', he', heq⟩ := h
                  exact Or.inr ⟨e', List.mem_cons_of_mem _ he', heq⟩

theorem ascendingKeys_store [Ord κ] [Std.TransOrd κ] {k : κ} {v : ν} {es : List (κ × ν)}
    (h : AscendingKeys es) : AscendingKeys (store k v es) := by
  induction es with
  | nil => simp [store, AscendingKeys]
  | cons y ys ih =>
      have hy := List.pairwise_cons.mp h
      simp only [store]
      cases hxy : compare k y.1 with
      | lt =>
          refine List.pairwise_cons.mpr ⟨?_, h⟩
          intro z hz
          cases hz with
          | head => exact hxy
          | tail _ hz => exact Std.TransCmp.lt_trans hxy (hy.1 z hz)
      | eq => exact List.pairwise_cons.mpr hy
      | gt =>
          refine List.pairwise_cons.mpr ⟨?_, ih hy.2⟩
          intro z hz
          cases mem_keys_of_mem_store hz with
          | inl hzk => exact hzk ▸ Std.OrientedCmp.lt_of_gt hxy
          | inr hz =>
              obtain ⟨e, he, heq⟩ := hz
              exact heq ▸ hy.1 e he

theorem seek_store [Ord κ] [Std.TransOrd κ] [Std.LawfulEqOrd κ] [DecidableEq κ] {k k' : κ} {v : ν}
    {es : List (κ × ν)} :
    seek k' (store k v es) = if k' = k then some v else seek k' es := by
  induction es with
  | nil => simp [store, seek]
  | cons y ys ih =>
      obtain ⟨a, b⟩ := y
      simp only [store]
      cases hxy : compare k a with
      | lt => simp [seek]
      | eq =>
          have hka : k = a := Std.LawfulEqCmp.eq_of_compare hxy
          subst hka
          by_cases hk : k' = k <;> simp [seek, hk]
      | gt =>
          simp only [seek, ih]
          by_cases hk : k' = k
          · subst hk; simp [hxy]
          · simp [hk]

theorem seek_eq_none [Ord κ] [Std.LawfulEqOrd κ] {k : κ} {es : List (κ × ν)}
    (h : ∀ e ∈ es, e.1 ≠ k) : seek k es = none := by
  induction es with
  | nil => rfl
  | cons y ys ih =>
      have hne : ¬ compare k y.1 = .eq := fun e =>
        h y (List.mem_cons_self ..) (Std.LawfulEqCmp.eq_of_compare e).symm
      simp [seek, hne, ih (fun e he => h e (List.mem_cons_of_mem _ he))]

theorem mem_of_seek [Ord κ] [Std.LawfulEqOrd κ] {k : κ} {v : ν} {es : List (κ × ν)} :
    seek k es = some v → (k, v) ∈ es := by
  induction es with
  | nil => simp [seek]
  | cons y ys ih =>
      intro h
      simp only [seek] at h
      split at h
      · rename_i he
        have hk : k = y.1 := Std.LawfulEqCmp.eq_of_compare he
        simp only [Option.some.injEq] at h
        simp [hk, ← h]
      · exact List.mem_cons_of_mem _ (ih h)

theorem seek_of_mem [Ord κ] [Std.TransOrd κ] [Std.LawfulEqOrd κ] {k : κ} {v : ν}
    {es : List (κ × ν)} (h : AscendingKeys es) : (k, v) ∈ es → seek k es = some v := by
  induction es with
  | nil => simp
  | cons y ys ih =>
      have hy := List.pairwise_cons.mp h
      intro hm
      cases hm with
      | head => simp [seek]
      | tail _ hm =>
          have hlt : compare y.1 k = .lt := hy.1 _ hm
          have hgt : compare k y.1 = .gt := Std.OrientedCmp.gt_of_lt hlt
          simp [seek, hgt, ih hy.2 hm]

theorem seek_map [Ord κ] {μ : Type} (f : ν → μ) (k : κ) (es : List (κ × ν)) :
    seek k (es.map (fun e => (e.1, f e.2))) = (seek k es).map f := by
  induction es with
  | nil => rfl
  | cons e es ih =>
      simp only [List.map_cons, seek, ih]
      split <;> rfl

theorem store_map [Ord κ] {μ : Type} (f : ν → μ) (k : κ) (v : ν) (es : List (κ × ν)) :
    store k (f v) (es.map (fun e => (e.1, f e.2))) =
      (store k v es).map (fun e => (e.1, f e.2)) := by
  induction es with
  | nil => rfl
  | cons e es ih =>
      simp only [List.map_cons, store, ih]
      cases compare k e.1 <;> rfl

theorem length_flatMap_store [Ord κ] [Std.TransOrd κ] [Std.LawfulEqOrd κ] {β : Type}
    (f : κ × ν → List β) (k : κ) (v : ν) {es : List (κ × ν)} (h : AscendingKeys es) :
    ((store k v es).flatMap f).length + ((seek k es).map (fun v => (f (k, v)).length)).getD 0 =
      (es.flatMap f).length + (f (k, v)).length := by
  induction es with
  | nil => simp [store, seek]
  | cons y ys ih =>
      obtain ⟨hy, hys⟩ := List.pairwise_cons.mp h
      obtain ⟨k', v'⟩ := y
      cases hxy : compare k k' with
      | lt =>
          have hnone : seek k ys = none := by
            refine seek_eq_none (fun e he heq => ?_)
            have hlt := Std.TransCmp.lt_trans hxy (hy e he)
            simp [heq, Std.ReflCmp.compare_self] at hlt
          simp only [store, seek, hxy, hnone, List.flatMap_cons, List.length_append, reduceCtorEq,
            if_false, Option.map_none, Option.getD_none]
          omega
      | eq =>
          obtain rfl : k = k' := Std.LawfulEqCmp.eq_of_compare hxy
          simp only [store, seek, hxy, List.flatMap_cons, List.length_append, if_true,
            Option.map_some, Option.getD_some]
          omega
      | gt =>
          have hrest := ih hys
          simp only [store, seek, hxy, List.flatMap_cons, List.length_append, reduceCtorEq,
            if_false]
          omega

structure OrdMap (κ ν : Type) [Ord κ] where
  entries : List (κ × ν)
  ascending : AscendingKeys entries

namespace OrdMap

variable [Ord κ]

theorem eq_of_entries {m n : OrdMap κ ν} (h : m.entries = n.entries) : m = n := by
  cases m; cases n; cases h; rfl

instance [DecidableEq κ] [DecidableEq ν] : DecidableEq (OrdMap κ ν) := fun m n =>
  decidable_of_iff (m.entries = n.entries) ⟨eq_of_entries, fun h => h ▸ rfl⟩

instance : EmptyCollection (OrdMap κ ν) := ⟨⟨[], .nil⟩⟩

instance : Inhabited (OrdMap κ ν) := ⟨∅⟩

def size (m : OrdMap κ ν) : Nat := m.entries.length

def isEmpty (m : OrdMap κ ν) : Bool := m.entries.isEmpty

def keys (m : OrdMap κ ν) : List κ := m.entries.map Prod.fst

def values (m : OrdMap κ ν) : List ν := m.entries.map Prod.snd

def get? (m : OrdMap κ ν) (k : κ) : Option ν := seek k m.entries

def getD (m : OrdMap κ ν) (k : κ) (v : ν) : ν := (m.get? k).getD v

def contains (m : OrdMap κ ν) (k : κ) : Bool := (m.get? k).isSome

@[simp] theorem get?_empty {k : κ} : (∅ : OrdMap κ ν).get? k = none := rfl

def mapValues {μ : Type} (m : OrdMap κ ν) (f : ν → μ) : OrdMap κ μ :=
  ⟨m.entries.map (fun e => (e.1, f e.2)), by
    simpa [AscendingKeys, List.pairwise_map] using m.ascending⟩

@[simp] theorem get?_mapValues {μ : Type} (m : OrdMap κ ν) (f : ν → μ) (k : κ) :
    (m.mapValues f).get? k = (m.get? k).map f :=
  seek_map f k m.entries

def erase (m : OrdMap κ ν) (k : κ) : OrdMap κ ν :=
  ⟨m.entries.filter (fun e => compare k e.1 ≠ .eq), m.ascending.filter _⟩

variable [Std.TransOrd κ]

def insert (m : OrdMap κ ν) (k : κ) (v : ν) : OrdMap κ ν :=
  ⟨store k v m.entries, ascendingKeys_store m.ascending⟩

theorem insert_mapValues {μ : Type} (m : OrdMap κ ν) (f : ν → μ) (k : κ) (v : ν) :
    (m.mapValues f).insert k (f v) = (m.insert k v).mapValues f :=
  eq_of_entries (store_map f k v m.entries)

def insertAll (m : OrdMap κ ν) (es : List (κ × ν)) : OrdMap κ ν :=
  es.foldl (fun m e => m.insert e.1 e.2) m

def ofList (es : List (κ × ν)) : OrdMap κ ν := insertAll ∅ es

def modifyD (m : OrdMap κ ν) (k : κ) (v : ν) (f : ν → ν) : OrdMap κ ν := m.insert k (f (m.getD k v))

variable [Std.LawfulEqOrd κ]

theorem get?_eq_some_iff {m : OrdMap κ ν} {k : κ} {v : ν} :
    m.get? k = some v ↔ (k, v) ∈ m.entries :=
  ⟨mem_of_seek, seek_of_mem m.ascending⟩

@[simp] theorem get?_insert [DecidableEq κ] {m : OrdMap κ ν} {k k' : κ} {v : ν} :
    (m.insert k v).get? k' = if k' = k then some v else m.get? k' :=
  seek_store

@[simp] theorem get?_erase [DecidableEq κ] {m : OrdMap κ ν} {k k' : κ} :
    (m.erase k).get? k' = if k' = k then none else m.get? k' := by
  by_cases h : k' = k
  · subst h
    simp only [if_true]
    exact seek_eq_none (fun e he heq => by
      have := (List.mem_filter.mp he).2
      simp [heq] at this)
  · simp only [h, if_false]
    refine Option.ext (fun v => ?_)
    rw [get?_eq_some_iff, get?_eq_some_iff]
    refine ⟨fun hv => (List.mem_filter.mp hv).1, fun hv => List.mem_filter.mpr ⟨hv, ?_⟩⟩
    exact decide_eq_true (fun e => h (Std.LawfulEqCmp.eq_of_compare e).symm)

@[simp] theorem get?_modifyD [DecidableEq κ] {m : OrdMap κ ν} {k k' : κ} {v : ν} {f : ν → ν} :
    (m.modifyD k v f).get? k' = if k' = k then some (f (m.getD k v)) else m.get? k' :=
  get?_insert

theorem ext {m n : OrdMap κ ν} (h : ∀ k, m.get? k = n.get? k) : m = n := by
  apply eq_of_entries
  have hm : ∀ k v, (k, v) ∈ m.entries ↔ (k, v) ∈ n.entries := fun k v => by
    rw [← get?_eq_some_iff, ← get?_eq_some_iff, h]
  have irrefl : ∀ {e e' : κ × ν}, compare e.1 e'.1 = .lt → compare e'.1 e.1 = .lt → False := by
    intro e e' h1 h2
    have h3 := Std.TransCmp.lt_trans h1 h2
    simp [Std.ReflCmp.compare_self] at h3
  have nodup : ∀ {x : OrdMap κ ν}, x.entries.Nodup := by
    intro x
    refine x.ascending.imp ?_
    intro a b hab heq
    subst heq
    simp [Std.ReflCmp.compare_self] at hab
  exact List.Perm.eq_of_pairwise (fun _ _ _ _ h1 h2 => (irrefl h1 h2).elim) m.ascending n.ascending
    ((List.perm_ext_iff_of_nodup nodup nodup).mpr (fun e => hm e.1 e.2))

end OrdMap

instance [Ord κ] [Ord ν] : Ord (OrdMap κ ν) :=
  ⟨fun m n => (compare m.size n.size).then
    (List.compareLex (fun a b => (compare a.1 b.1).then (compare a.2 b.2)) m.entries n.entries)⟩

end Interproc
