import Interproc.Proofs.Program.Lifted
import Interproc.Proofs.Solver.Exact
import Interproc.Taint.Analysis

namespace Interproc

section Pointwise

variable {α : Type} [Ord α] {f g : OrdSet α → OrdSet α}

theorem pointwise_of_rel (rel : α → α → Prop) (h : ∀ d x, x ∈ f d ↔ ∃ y ∈ d, rel y x) :
    Pointwise f :=
  ⟨fun _ => False, rel, fun d x => (h d x).trans (false_or _).symm.to_iff⟩

theorem pointwise_id : Pointwise (fun d : OrdSet α => d) :=
  pointwise_of_rel (fun y x => y = x) (by simp)

theorem pointwise_empty : Pointwise (fun _ : OrdSet α => ∅) :=
  pointwise_of_rel (fun _ _ => False) (by simp)

variable [Std.TransOrd α] [Std.LawfulEqOrd α] [DecidableEq α]

theorem pointwise_copy (v w : α) :
    Pointwise (fun d : OrdSet α => if v ∈ d then d.insert w else d) := by
  refine pointwise_of_rel (fun y x => y = x ∨ y = v ∧ x = w) (fun d x => ?_)
  have hrel : (∃ y ∈ d, y = x ∨ y = v ∧ x = w) ↔ x ∈ d ∨ v ∈ d ∧ x = w := by
    constructor
    · rintro ⟨y, hy, rfl | ⟨rfl, heq⟩⟩
      · exact Or.inl hy
      · exact Or.inr ⟨hy, heq⟩
    · rintro (hx | ⟨hv, heq⟩)
      · exact ⟨x, hx, Or.inl rfl⟩
      · exact ⟨v, hv, Or.inr ⟨rfl, heq⟩⟩
  rw [hrel]
  by_cases hv : v ∈ d
  · simp [hv, or_comm]
  · simp [hv]

theorem pointwise_store (v w : α) : Pointwise (fun d : OrdSet α =>
    if v ∈ d then d.insert w else if w ∈ d then d.erase w else d) := by
  refine pointwise_of_rel (fun y x => y = x ∧ x ≠ w ∨ y = v ∧ x = w) (fun d x => ?_)
  have hrel : (∃ y ∈ d, y = x ∧ x ≠ w ∨ y = v ∧ x = w) ↔ x ∈ d ∧ x ≠ w ∨ v ∈ d ∧ x = w := by
    constructor
    · rintro ⟨y, hy, ⟨rfl, hne⟩ | ⟨rfl, heq⟩⟩
      · exact Or.inl ⟨hy, hne⟩
      · exact Or.inr ⟨hy, heq⟩
    · rintro (⟨hx, hne⟩ | ⟨hv, heq⟩)
      · exact ⟨x, hx, Or.inl ⟨rfl, hne⟩⟩
      · exact ⟨v, hv, Or.inr ⟨rfl, heq⟩⟩
  rw [hrel]
  by_cases hv : v ∈ d
  · by_cases hx : x = w <;> simp [hv, hx]
  · by_cases hw : w ∈ d
    · simp [hv, hw, and_comm]
    · simp only [hv, hw, if_false, false_and, or_false]
      exact ⟨fun hx => ⟨hx, fun heq => hw (heq ▸ hx)⟩, And.left⟩

end Pointwise

namespace Taint.Setup

variable (t : Setup)

theorem pointwise_normal (n : Nat) : Pointwise (t.normal n) := by
  unfold normal
  cases t.program.instructions[n]? with
  | none => exact pointwise_id
  | some i =>
      dsimp only
      split
      · exact pointwise_store _ _
      · exact pointwise_copy _ _
      · exact pointwise_copy _ _
      · exact pointwise_copy _ _
      · exact pointwise_id

theorem pointwise_call (site callee : Nat) : Pointwise (t.call site callee) := by
  cases hs : t.isSensitive callee with
  | true =>
      have heq : t.call site callee = fun _ => ∅ := by
        funext d
        simp [call, hs]
      rw [heq]
      exact pointwise_empty
  | false =>
      refine pointwise_of_rel (fun y x => (y, x) ∈ t.bindings site callee) (fun d x => ?_)
      simp [call, hs, OrdSet.contains, and_comm]

theorem mem_returned {site exit : Nat} {d : ValueSet} {x : Value} : x ∈ t.returned site exit d ↔
    ∃ y ∈ d, (t.program.inputsAt exit).head? = some y ∧ x = .result site := by
  unfold returned
  cases t.program.inputsAt exit with
  | nil => simp
  | cons v vs =>
      by_cases hv : v ∈ d
      · simp only [hv, if_true, List.mem_singleton, List.head?_cons, Option.some.injEq]
        exact ⟨fun hx => ⟨v, hv, rfl, hx⟩, fun ⟨_, _, _, hx⟩ => hx⟩
      · simp only [hv, if_false, List.not_mem_nil, List.head?_cons, Option.some.injEq, false_iff]
        rintro ⟨_, hy, rfl, _⟩
        exact hv hy

theorem mem_writtenBack {site callee : Nat} {d : ValueSet} {x : Value} :
    x ∈ t.writtenBack site callee d ↔ ∃ y ∈ d, (x, y) ∈ t.bindings site callee ∧
      t.program.isPointerFormal y = true ∧ x.isConstant = false := by
  simp only [writtenBack, List.mem_map, List.mem_filter, Prod.exists]
  constructor
  · rintro ⟨v, y, ⟨hmem, hfits⟩, rfl⟩
    simp only [OrdSet.contains, Bool.and_eq_true, decide_eq_true_eq, Bool.not_eq_true'] at hfits
    exact ⟨y, hfits.1.2, hmem, hfits.1.1, hfits.2⟩
  · rintro ⟨y, hy, hmem, hpointer, hconstant⟩
    exact ⟨x, y, ⟨hmem, by simp [OrdSet.contains, hy, hpointer, hconstant]⟩, rfl⟩

theorem pointwise_ret (site callee exit : Nat) : Pointwise (t.ret site callee exit) := by
  refine pointwise_of_rel (fun y x =>
    (t.program.inputsAt exit).head? = some y ∧ x = .result site ∨
      (x, y) ∈ t.bindings site callee ∧ t.program.isPointerFormal y = true ∧
        x.isConstant = false) (fun d x => ?_)
  simp only [ret, OrdSet.mem_ofList, List.mem_append, mem_returned, mem_writtenBack]
  constructor
  · rintro (⟨y, hy, h⟩ | ⟨y, hy, h⟩)
    · exact ⟨y, hy, Or.inl h⟩
    · exact ⟨y, hy, Or.inr h⟩
  · rintro ⟨y, hy, h | h⟩
    · exact Or.inl ⟨y, hy, h⟩
    · exact Or.inr ⟨y, hy, h⟩

def TaintsThrough (f : SourceFunction) (v : Value) (i : Nat) (x : Value) : Prop :=
  f.tainted.contains i = true ∧ v.isConstant = false ∧
    (x = v ∨ t.config.taintAliasesOfSourceArguments = true ∧ x ∈ t.aliases v)

theorem mem_pollute {f : SourceFunction} {d : ValueSet} {v x : Value} {i : Nat} :
    x ∈ t.pollute f d v i ↔ x ∈ d ∨ t.TaintsThrough f v i x := by
  unfold pollute TaintsThrough
  cases f.tainted.contains i with
  | false => simp
  | true =>
      cases v.isConstant with
      | true => simp
      | false =>
          cases t.config.taintAliasesOfSourceArguments with
          | false => simp [or_comm]
          | true => simp [or_assoc, or_left_comm]

def TaintedBy (f : SourceFunction) (site : Nat) (x : Value) : Prop :=
  (∃ v i, (t.program.inputsAt site)[i]? = some v ∧ t.TaintsThrough f v i x) ∨
    f.taintsReturn = true ∧ x = .result site

theorem mem_afterSource {f : SourceFunction} {site : Nat} {d : ValueSet} {x : Value} :
    x ∈ t.afterSource f site d ↔ x ∈ d ∨ t.TaintedBy f site x := by
  have hfold : ∀ (vs : List (Value × Nat)) (d : ValueSet),
      x ∈ vs.foldl (fun d y => t.pollute f d y.1 y.2) d ↔
        x ∈ d ∨ ∃ y ∈ vs, t.TaintsThrough f y.1 y.2 x := by
    intro vs
    induction vs with
    | nil => simp
    | cons y vs ih => simp [ih, mem_pollute, or_assoc]
  have hargs : (∃ y ∈ (t.program.inputsAt site).zipIdx, t.TaintsThrough f y.1 y.2 x) ↔
      ∃ v i, (t.program.inputsAt site)[i]? = some v ∧ t.TaintsThrough f v i x := by
    simp only [Prod.exists, List.mem_zipIdx_iff_getElem?]
  rw [afterSource, TaintedBy, ← hargs]
  cases f.taintsReturn with
  | false => simp [hfold]
  | true => simp [hfold, or_comm, or_left_comm]

theorem mem_bypass {site : Nat} {d : ValueSet} {x : Value} : x ∈ t.bypass site d ↔
    x ∈ d ∨ ∃ f, t.sourceAt? site = some f ∧ t.TaintedBy f site x := by
  unfold bypass
  split
  · rename_i f hf
    simp [hf, mem_afterSource]
  · rename_i hnone
    simp [hnone]

theorem pointwise_bypass (site : Nat) : Pointwise (t.bypass site) :=
  ⟨fun x => ∃ f, t.sourceAt? site = some f ∧ t.TaintedBy f site x, fun y x => y = x,
    fun d x => by simp [mem_bypass, or_comm]⟩

section Brought

variable {n site callee exit f : Nat} {d : ValueSet} {x : Value}

theorem mem_normal_cases (h : x ∈ t.normal n d) : x ∈ d ∨ x = .result n ∨
    ∃ i v rest, t.program.instructions[n]? = some i ∧ i.op = .store ∧
      i.inputs = v :: x :: rest ∧ v ∈ d := by
  have hcopy : ∀ v, x ∈ (if v ∈ d then d.insert (.result n) else d) → x ∈ d ∨ x = .result n := by
    intro v h
    split at h
    · exact (OrdSet.mem_insert.mp h).symm
    · exact Or.inl h
  unfold normal at h
  split at h
  · exact Or.inl h
  · rename_i i hi
    split at h
    · rename_i v pointer rest hop hinputs
      split at h
      · rename_i hv
        rcases OrdSet.mem_insert.mp h with rfl | h
        · exact Or.inr (Or.inr ⟨i, v, rest, hi, hop, hinputs, hv⟩)
        · exact Or.inl h
      · split at h
        · exact Or.inl (OrdSet.mem_erase.mp h).1
        · exact Or.inl h
    · exact (hcopy _ h).imp_right Or.inl
    · exact (hcopy _ h).imp_right Or.inl
    · exact (hcopy _ h).imp_right Or.inl
    · exact Or.inl h

theorem mem_formals_of_call (h : x ∈ t.call site callee d) : x ∈ t.program.formals callee := by
  unfold call at h
  split at h
  · exact absurd h OrdSet.not_mem_empty
  · obtain ⟨⟨v, formal⟩, hmem, rfl⟩ := List.mem_map.mp (OrdSet.mem_ofList.mp h)
    exact (List.of_mem_zip (List.mem_filter.mp hmem).1).2

theorem mem_ret_cases (h : x ∈ t.ret site callee exit d) :
    x = .result site ∨ x ∈ t.program.inputsAt site ∧ x.isConstant = false := by
  rcases List.mem_append.mp (OrdSet.mem_ofList.mp h) with h | h
  · obtain ⟨_, _, _, rfl⟩ := t.mem_returned.mp h
    exact Or.inl rfl
  · obtain ⟨_, _, hbinding, _, hconstant⟩ := t.mem_writtenBack.mp h
    exact Or.inr ⟨(List.of_mem_zip hbinding).1, hconstant⟩

theorem mem_formals_of_seedFacts (h : x ∈ t.seedFacts f) : x ∈ t.program.formals f := by
  unfold seedFacts at h
  split at h
  · exact OrdSet.mem_ofList.mp h
  · exact absurd h OrdSet.not_mem_empty

end Brought

instance {C : Type} {k : ContextKind Nat ValueSet C} [h : k.Lawful] {initial : C}
    {limits : Limits} : (t.analysis k initial limits).contexts.Lawful := h

theorem pointwise : t.problem.Pointwise where
  bottom_eq := rfl
  join_eq := rfl
  le_eq := rfl
  normal := t.pointwise_normal
  call := t.pointwise_call
  ret := t.pointwise_ret
  bypass site _ := t.pointwise_bypass site

theorem mem_seeds (hp : t.program.Coherent) {n : Nat} {d : ValueSet} :
    (n, d) ∈ t.problem.seeds ↔ ∃ f ∈ t.entries, n ∈ t.program.entryOf f ∧ d = t.seedFacts f := by
  have hadd : ∀ (m : OrdMap Nat ValueSet) (f : Nat) (n : Nat),
      (m.insertAll ((t.program.entryOf f).map (fun n => (n, t.seedFacts f)))).get? n =
        if n ∈ t.program.entryOf f then some (t.seedFacts f) else m.get? n := by
    intro m f n
    unfold Program.entryOf
    cases t.program.body? f with
    | none => simp [OrdMap.insertAll]
    | some b => simp [OrdMap.insertAll]
  have hall := Analysis.foldl_establishes
    (I := fun m : OrdMap Nat ValueSet => ∀ n d, m.get? n = some d →
      ∃ f ∈ t.entries, n ∈ t.program.entryOf f ∧ d = t.seedFacts f)
    (P := fun f m => ∀ n ∈ t.program.entryOf f, m.get? n = some (t.seedFacts f))
    (fun m f => m.insertAll ((t.program.entryOf f).map (fun n => (n, t.seedFacts f)))) t.entries
    ?_ ?_ ?_ (b := ∅) (by simp)
  · show (n, d) ∈ t.seeds.entries ↔ _
    rw [← OrdMap.get?_eq_some_iff]
    constructor
    · exact hall.1 n d
    · rintro ⟨f, hf, hn, rfl⟩
      exact hall.2.2 f hf n hn
  · intro m f hf hm n d hd
    rw [hadd] at hd
    split at hd
    · rename_i hn
      exact ⟨f, hf, hn, (Option.some.inj hd).symm⟩
    · exact hm n d hd
  · intro m f _ _ n hn
    rw [hadd, if_pos hn]
  · -- a start belongs to one function, so a later entry point seeds it with the same facts
    intro m g f _ _ hg n hn
    rw [hadd]
    split
    · rename_i hn'
      have hfun := hp.procedural.functionOf_start (m := f) hn'
      rw [← hp.procedural.functionOf_start (m := g) hn, ← hfun]
    · exact hg n hn

theorem entersAt (hp : t.program.Coherent)
    (huncalled : ∀ n, t.program.isCall n = true → ∀ m ∈ t.program.calleesAt n, m ∉ t.entries) :
    t.problem.EntersAt t.program.icfg t.entries where
  seeds hd := by
    obtain ⟨f, hf, hn, _⟩ := (t.mem_seeds hp).mp hd
    exact ⟨f, hf, hn⟩
  uncalled {n m} hcall hm := huncalled n hcall m hm

theorem seedsEntries (hp : t.program.Coherent) : t.problem.SeedsEntries t.program.icfg := by
  intro n d hd
  obtain ⟨f, _, hn, _⟩ := (t.mem_seeds hp).mp hd
  exact ⟨f, hn⟩

def Brings (n : Nat) (v : Value) : Prop :=
  ∃ f ∈ t.entries, ∃ n₀ ∈ t.program.entryOf f, ∃ stack d,
    Walk t.program.icfg t.problem n₀ (t.seedFacts f) stack n d ∧ v ∈ d

theorem brings_iff (hp : t.program.Coherent) {n : Nat} {v : Value} :
    t.Brings n v ↔ ∃ d, t.problem.Carried t.program.icfg n d ∧ v ∈ d := by
  constructor
  · rintro ⟨f, hf, n₀, hn₀, stack, d, hwalk, hv⟩
    exact ⟨d, ⟨n₀, t.seedFacts f, stack, (t.mem_seeds hp).mpr ⟨f, hf, hn₀, rfl⟩, hwalk⟩, hv⟩
  · rintro ⟨d, ⟨n₀, d₀, stack, hseed, hwalk⟩, hv⟩
    obtain ⟨f, hf, hn₀, rfl⟩ := (t.mem_seeds hp).mp hseed
    exact ⟨f, hf, n₀, hn₀, stack, d, hwalk, hv⟩

end Taint.Setup

end Interproc
