import Interproc.Proofs.Taint.Monotone
import Interproc.Taint.Report
import Mathlib.Data.Option.NAry

namespace Interproc

section Distributive

variable {α : Type} [Ord α] [Std.TransOrd α] [Std.LawfulEqOrd α]
variable {f : OrdSet α → Option (OrdSet α)} {g : OrdSet α → OrdSet α}

theorem Pointwise.union (hg : Pointwise g) (d e : OrdSet α) :
    g (d.union e) = (g d).union (g e) := by
  obtain ⟨gen, rel, hflow⟩ := hg
  refine OrdSet.ext (fun x => ?_)
  simp only [OrdSet.mem_union, hflow, or_and_right, exists_or]
  rw [or_or_distrib_left]

variable [DecidableEq α]

/-- There is an outcome for a join exactly if there is one for each side, and then it is their join;
so it grows with the facts. -/
structure Distributive (f : OrdSet α → Option (OrdSet α)) : Prop where
  union : ∀ d e, f (d.union e) = Option.map₂ OrdSet.union (f d) (f e)
  monotone : ∀ {d e y}, d.isSubset e = true → f e = some y →
    ∃ x, f d = some x ∧ x.isSubset y = true

theorem Distributive.of_union (h : ∀ d e, f (d.union e) = Option.map₂ OrdSet.union (f d) (f e)) :
    Distributive f where
  union := h
  monotone {d e y} hle hy := by
    have hjoin : d.union e = e := OrdSet.ext (fun x => by
      rw [OrdSet.mem_union]
      exact or_iff_right_of_imp (OrdSet.isSubset_iff.mp hle x))
    have hboth : Option.map₂ OrdSet.union (f d) (some y) = some y := by rw [← hy, ← h, hjoin]
    obtain ⟨x, y', hx, hy', heq⟩ := Option.map₂_eq_some_iff.mp hboth
    obtain rfl := Option.mem_some_iff.mp hy'
    exact ⟨x, hx, OrdSet.isSubset_iff.mpr (fun z hz => heq ▸ OrdSet.mem_union.mpr (Or.inl hz))⟩

theorem distributive_guard {c : OrdSet α → Bool} (hc : ∀ d e, c (d.union e) = (c d && c e))
    (hg : ∀ d e, g (d.union e) = (g d).union (g e)) :
    Distributive (fun d => if c d then some (g d) else none) := by
  refine .of_union (fun d e => ?_)
  rw [hc, hg]
  cases c d <;> cases c e <;> rfl

end Distributive

namespace Taint.Setup

variable (t : Setup) {site : Nat} {d e : ValueSet} {leaks : Leaks} {v : Value}

section Union

theorem isSome_setText? {p : Program} {s : ValueSet} :
    (p.setText? s).isSome = true ↔ ∀ v ∈ s, (p.valueText? v).isSome = true := by
  have hmapM : (s.elements.mapM p.valueText?).isSome = true ↔
      ∀ v ∈ s, (p.valueText? v).isSome = true := isSome_mapM
  rw [← hmapM]
  unfold Program.setText? Program.valueTexts?
  cases s.elements.mapM p.valueText? <;> simp

theorem reportable_union (site : Nat) (d e : ValueSet) :
    t.reportable site (d.union e) = (t.reportable site d && t.reportable site e) := by
  unfold reportable
  split
  · rename_i f hf
    have htexts : (t.program.setText? (t.afterSource f site (d.union e))).isSome =
        ((t.program.setText? (t.afterSource f site d)).isSome &&
          (t.program.setText? (t.afterSource f site e)).isSome) := by
      rw [Bool.eq_iff_iff, Bool.and_eq_true, isSome_setText?, isSome_setText?, isSome_setText?]
      simp only [mem_afterSource, OrdSet.mem_union]
      constructor
      · exact fun h => ⟨fun v hv => h v (hv.imp_left Or.inl), fun v hv => h v (hv.imp_left Or.inr)⟩
      · rintro ⟨hd, he⟩ v ((hv | hv) | hv)
        · exact hd v (Or.inl hv)
        · exact he v (Or.inl hv)
        · exact hd v (Or.inr hv)
    rw [htexts]
    grind
  · exact (Bool.and_self _).symm

theorem mem_handed_union : v ∈ t.handed site (d.union e) ↔
    v ∈ t.handed site d ∨ v ∈ t.handed site e := by
  unfold handed
  split
  · simp only [mem_leaked, OrdSet.mem_union, or_and_right]
  · simp

theorem getD_remember_union (site site' : Nat) (leaks : Leaks) (d e : ValueSet) :
    (t.remember site (d.union e) leaks).1.getD site' ∅ =
      ((t.remember site d leaks).1.getD site' ∅).union
        ((t.remember site e leaks).1.getD site' ∅) := by
  have hmem : ∀ {d : ValueSet} {v : Value}, v ∈ (t.remember site d leaks).1.getD site' ∅ ↔
      v ∈ leaks.getD site' ∅ ∨ site' = site ∧ v ∈ t.handed site d := by
    intro d v
    show v ∈ (t.problem.remember site site d leaks).1.getD site' ∅ ↔ _
    rw [remember_fst, mem_recordLeaks]
  refine OrdSet.ext (fun v => ?_)
  rw [OrdSet.mem_union, hmem, hmem, hmem, mem_handed_union, and_or_left, or_or_distrib_left]

end Union

theorem distributive_bypass? {g : ValueSet → ValueSet}
    {h : ValueSet × Leaks × List Event → ValueSet}
    (hh : ∀ d, h (t.bypass site d, t.remember site d leaks) = g d)
    (hg : ∀ d e, g (d.union e) = (g d).union (g e)) :
    Distributive (fun d => (t.bypass? site d leaks).map h) := by
  have heq : (fun d => (t.bypass? site d leaks).map h) = fun d =>
      if t.program.hasNode site && t.reportable site d then some (g d) else none := by
    funext d
    unfold bypass?
    split
    · exact congrArg some (hh d)
    · rfl
  rw [heq]
  refine distributive_guard (fun d e => ?_) hg
  rw [reportable_union]
  grind

theorem flows_distribute :
    (∀ n, Distributive (t.normal? n)) ∧
    (∀ site callee, Distributive (t.call? site callee)) ∧
    (∀ site callee exit, Distributive (t.ret? site callee exit)) ∧
    (∀ site leaks, Distributive (fun d => (t.bypass? site d leaks).map Prod.fst)) ∧
    ∀ site leaks site', Distributive (fun d =>
      (t.bypass? site d leaks).map (fun (_, leaks, _) => leaks.getD site' ∅)) := by
  have hconst : ∀ (c : Bool) (_ _ : ValueSet), c = (c && c) := fun c _ _ => (Bool.and_self c).symm
  refine ⟨fun n => ?_, fun site callee => ?_, fun site callee exit => ?_, fun site leaks => ?_,
    fun site leaks site' => ?_⟩
  · exact distributive_guard (hconst _) (t.pointwise_normal n).union
  · exact distributive_guard (hconst _) (t.pointwise_call site callee).union
  · exact distributive_guard (hconst _) (t.pointwise_ret site callee exit).union
  · exact t.distributive_bypass? (fun _ => rfl) (t.pointwise_bypass site).union
  · exact t.distributive_bypass? (fun _ => rfl) (t.getD_remember_union site site' leaks)

section Checked

def PassesToSink (site : Nat) (v : Value) : Prop :=
  ∃ g ∈ t.program.calleesAt site, ∃ f, t.registry.sink? (t.program.nameOf g) = some f ∧
    ∃ i, (t.program.inputsAt site)[i]? = some v ∧ f.leaked.contains i = true

theorem sourceAt?_of_callee {g : Nat} (hg : g ∈ t.program.calleesAt site) :
    t.sourceAt? site = t.registry.source? (t.program.nameOf g) := by
  rw [Program.calleesAt, Option.mem_toList] at hg
  simp [sourceAt?, calleeName?, Program.calleesAt, hg]

theorem handsToSink_iff : t.HandsToSink site v ↔
    t.program.isCall site = true ∧ t.PassesToSink site v ∧ t.sourceAt? site = none := by
  refine and_congr_right (fun _ => ⟨?_, ?_⟩)
  · rintro ⟨g, hg, hsource, hsink⟩
    rw [t.sourceAt?_of_callee hg]
    exact ⟨⟨g, hg, hsink⟩, Option.isSome_eq_false_iff.mp hsource |> Option.isNone_iff_eq_none.mp⟩
  · rintro ⟨⟨g, hg, hsink⟩, hsource⟩
    rw [t.sourceAt?_of_callee hg] at hsource
    exact ⟨g, hg, by simp [Registry.isSource, hsource], hsink⟩

theorem reportable_iff (hresolved : t.program.Resolved) (hn : site < t.program.size) :
    t.reportable site d = true ↔ ∀ f, t.sourceAt? site = some f →
      ∀ v ∈ t.afterSource f site d, (t.program.valueText? v).isSome = true := by
  have hcallees : (t.program.calleesAt site).all t.program.hasFunction = true :=
    List.all_eq_true.mpr (fun g hg => hresolved.hasFunction hg)
  rw [reportable, hcallees, Bool.true_and]
  cases t.sourceAt? site with
  | none => simp
  | some f => simp [hresolved.isSome_text? hn, isSome_setText?]

theorem leaks_after_call {text module : String}
    (hlift : Program.lift text module = .ok t.program) (hcall : t.program.isCall site = true)
    (d : ValueSet) (leaks : Leaks) :
    (t.bypass? site d leaks = none ↔ ∃ f, t.sourceAt? site = some f ∧
      ∃ v ∈ t.afterSource f site d, t.program.valueText? v = none) ∧
    ∀ d' leaks' es, t.bypass? site d leaks = some (d', leaks', es) →
      ∀ site' v, v ∈ leaks'.getD site' ∅ ↔ v ∈ leaks.getD site' ∅ ∨
        site' = site ∧ v ∈ d ∧ t.PassesToSink site v ∧ t.sourceAt? site = none := by
  have hn := Program.lt_size_of_isCall hcall
  have hnode : t.program.hasNode site = true := decide_eq_true hn
  constructor
  · have hguard : t.bypass? site d leaks = none ↔ ¬ t.reportable site d = true := by
      simp [bypass?, hnode]
    rw [hguard, t.reportable_iff (Program.resolved_of_lift hlift) hn]
    simp
  · intro d' leaks' es h site' v
    unfold bypass? at h
    split at h
    · have hleaks : (t.problem.remember site site d leaks).1 = leaks' :=
        congrArg (fun r : ValueSet × Leaks × List Event => r.2.1) (Option.some.inj h)
      rw [← hleaks, remember_fst, mem_recordLeaks, t.mem_handed hcall, handsToSink_iff]
      simp only [hcall, true_and]
      tauto
    · exact nomatch h

theorem relay_checked :
    ∃ d' leaks' es, relay.bypass? 10 (OrdSet.single (.result 8)) ∅ = some (d', leaks', es) ∧
      .result 8 ∈ leaks'.getD 10 ∅ := by
  have hsome : (relay.bypass? 10 (OrdSet.single (.result 8)) ∅).isSome = true := by
    decide +kernel
  have hsink : relay.PassesToSink 10 (.result 8) :=
    ⟨1, by decide +kernel, ⟨"sink", .all⟩, by decide +kernel, 0, by decide +kernel, rfl⟩
  have hcall : relay.program.isCall 10 = true := by decide +kernel
  have hleaks := (leaks_after_call relay relay_lift hcall (OrdSet.single (.result 8)) ∅).2
  refine ⟨_, _, _, (Option.some_get hsome).symm, ?_⟩
  rw [hleaks _ _ _ (Option.some_get hsome).symm]
  exact Or.inr ⟨rfl, by decide +kernel, hsink, by decide +kernel⟩

def dualLines : List String := [
  "declare both(%d)",
  "fn main(%x) \x7b",
  "  call both(%x)",
  "  ret",
  "\x7d"]

def dual : Setup where
  program := {
    instructions := #[
      { op := .start, function := 1 },
      { op := .call, inputs := [.argument 1 0], callee := some 0, function := 1, line := some 3 },
      { op := .ret, function := 1, line := some 4 }]
    functions := #[
      ⟨"both", "dual.c", [⟨"d", false⟩], none⟩,
      ⟨"main", "dual.c", [⟨"x", false⟩], some ⟨0, 3⟩⟩]
    globals := ∅
    openBody := none }
  registry := ((∅ : Registry).addSource ⟨"both", .only [], true⟩).addSink ⟨"both", .all⟩
  aliases := noAliases
  entries := [1]
  config := {}

theorem dual_lift :
    Program.lift (String.intercalate "\n" dualLines) "dual.c" = .ok dual.program := by
  rw [Program.lift_lines]
  decide +kernel

theorem dual_unchecked :
    Program.lift (String.intercalate "\n" dualLines) "dual.c" = .ok dual.program ∧
    dual.program.isCall 1 = true ∧ dual.PassesToSink 1 (.argument 1 0) ∧
    ∃ d' leaks' es, dual.bypass? 1 (OrdSet.single (.argument 1 0)) ∅ = some (d', leaks', es) ∧
      .argument 1 0 ∉ leaks'.getD 1 ∅ := by
  refine ⟨dual_lift, by decide +kernel, ⟨0, by decide +kernel, ⟨"both", .all⟩, by decide +kernel,
    0, by decide +kernel, rfl⟩, ?_⟩
  have hsome : (dual.bypass? 1 (OrdSet.single (.argument 1 0)) ∅).isSome = true := by
    decide +kernel
  refine ⟨_, _, _, (Option.some_get hsome).symm, ?_⟩
  decide +kernel

end Checked

end Taint.Setup

end Interproc
