import Interproc.Proofs.Solver.Termination
import Interproc.Proofs.Taint.Constants
import Interproc.Proofs.Taint.Edges
import Mathlib.Data.Set.Card

namespace Interproc

open Solver

section Finite

variable {α : Type} [Ord α] [Std.TransOrd α] [Std.LawfulEqOrd α] {u : Set α}

theorem OrdSet.finite_subsets (hu : u.Finite) : {d : OrdSet α | ∀ x ∈ d, x ∈ u}.Finite := by
  have hinjective : Function.Injective (fun d : OrdSet α => {x | x ∈ d}) := by
    intro d e heq
    exact OrdSet.ext (fun x => Set.ext_iff.mp heq x)
  exact hu.finite_subsets.preimage hinjective.injOn

variable {N M S E : Type} [DecidableEq α] {p : Problem N M (OrdSet α) S E}

theorem Problem.Pointwise.finiteHeightIn (hp : p.Pointwise) (hu : u.Finite) :
    p.FiniteHeightIn (fun d => ∀ x ∈ d, x ∈ u) := by
  -- each join takes one of the elements that are missing from the facts
  refine Subrelation.wf (fun {e d} h => ?_)
    (measure (fun d : OrdSet α => {x ∈ u | x ∉ d}.ncard)).wf
  obtain ⟨he, hd, y, hy, rfl⟩ := h
  rw [hp.le_eq, ← Bool.not_eq_true, OrdSet.isSubset_iff] at hy
  push Not at hy
  obtain ⟨x, hx, hxd⟩ := hy
  rw [hp.join_eq] at he ⊢
  refine Set.ncard_lt_ncard ?_ (hu.subset (Set.sep_subset _ _))
  refine Set.ssubset_iff_exists.mpr ⟨fun z hz => ⟨hz.1, fun hzd => hz.2 ?_⟩, x, ?_, ?_⟩
  · exact OrdSet.mem_union.mpr (Or.inl hzd)
  · exact ⟨he x (OrdSet.mem_union.mpr (Or.inr hx)), hxd⟩
  · exact fun hz => hz.2 (OrdSet.mem_union.mpr (Or.inr hx))

end Finite

namespace Taint.Setup

variable (t : Setup)

def Pollutes (w : Value) : Prop :=
  t.config.taintAliasesOfSourceArguments = true ∧ w.isConstant = false ∧
    ∃ n f i, t.sourceAt? n = some f ∧ (t.program.inputsAt n)[i]? = some w ∧
      f.tainted.contains i = true

def Foreign : Prop :=
  ∃ w, t.Pollutes w ∧ ∃ v ∈ t.aliases w, t.program.valueText? v = none

inductive Flows : Value → Prop
  | formal {f v} : v ∈ t.program.formals f → Flows v
  | result {n} : n < t.program.size → Flows (.result n)
  | operand {n v} : v ∈ t.program.inputsAt n → Flows v
  | peer {w v} : t.Pollutes w → v ∈ t.aliases w → Flows v

abbrev AllFlow (d : ValueSet) : Prop := ∀ v ∈ d, t.Flows v

variable {t} {d : ValueSet} {n : Nat} {v w : Value}

theorem mem_inputsAt : v ∈ t.program.inputsAt n ↔
    ∃ i, t.program.instructions[n]? = some i ∧ v ∈ i.inputs := by
  unfold Program.inputsAt
  split <;> simp_all

theorem lt_size_of_mem_inputsAt (h : v ∈ t.program.inputsAt n) : n < t.program.size := by
  obtain ⟨i, hi, _⟩ := mem_inputsAt.mp h
  exact (Array.getElem?_eq_some_iff.mp hi).1

section Finite

theorem finite_flows : {v | t.Flows v}.Finite := by
  have hoperands : ∀ n, {v | v ∈ t.program.inputsAt n}.Finite := fun n => List.finite_toSet _
  have hformals : (⋃ f ∈ Set.Iio t.program.functions.size, {v | v ∈ t.program.formals f}).Finite :=
    (Set.finite_Iio _).biUnion (fun f _ => List.finite_toSet _)
  have hresults : (Value.result '' Set.Iio t.program.size).Finite := (Set.finite_Iio _).image _
  have hinputs : (⋃ n ∈ Set.Iio t.program.size, {v | v ∈ t.program.inputsAt n}).Finite :=
    (Set.finite_Iio _).biUnion (fun n _ => hoperands n)
  have haliases : (⋃ n ∈ Set.Iio t.program.size, ⋃ w ∈ {w | w ∈ t.program.inputsAt n},
      {v | v ∈ t.aliases w}).Finite :=
    (Set.finite_Iio _).biUnion (fun n _ => (hoperands n).biUnion (fun w _ => List.finite_toSet _))
  -- formals, results, operands, and aliases of operands are all that can flow
  refine (((hformals.union hresults).union hinputs).union haliases).subset (fun v hv => ?_)
  cases hv with
  | @formal f _ hv =>
      refine Or.inl (Or.inl (Or.inl (Set.mem_biUnion (x := f) ?_ hv)))
      refine Nat.lt_of_not_le (fun hle => ?_)
      simp [Program.formals, Array.getElem?_eq_none hle] at hv
  | result hn => exact Or.inl (Or.inl (Or.inr ⟨_, hn, rfl⟩))
  | operand hv => exact Or.inl (Or.inr (Set.mem_biUnion (lt_size_of_mem_inputsAt hv) hv))
  | peer hw hv =>
      obtain ⟨_, _, n, _, _, _, hinput, _⟩ := hw
      have hw := List.mem_of_getElem? hinput
      exact Or.inr (Set.mem_biUnion (lt_size_of_mem_inputsAt hw) (Set.mem_biUnion hw hv))

end Finite

section Flow

theorem flows_of_normal (hd : t.AllFlow d) (hn : n < t.program.size) :
    t.AllFlow (t.normal n d) := by
  intro w hw
  rcases t.mem_normal_cases hw with hw | rfl | ⟨i, v, rest, hi, _, hinputs, _⟩
  · exact hd w hw
  · exact .result hn
  · exact .operand (mem_inputsAt.mpr ⟨i, hi, by simp [hinputs]⟩)

theorem flows_of_call {site callee : Nat} : t.AllFlow (t.call site callee d) :=
  fun _ hw => .formal (t.mem_formals_of_call hw)

theorem flows_of_ret {site callee exit : Nat} (hsite : site < t.program.size) :
    t.AllFlow (t.ret site callee exit d) := by
  intro w hw
  rcases t.mem_ret_cases hw with rfl | ⟨hw, _⟩
  · exact .result hsite
  · exact .operand hw

theorem flows_of_afterSource {f : SourceFunction} (hd : t.AllFlow d) (hn : n < t.program.size)
    (hsource : t.sourceAt? n = some f) : t.AllFlow (t.afterSource f n d) := by
  intro w hw
  rcases t.mem_afterSource.mp hw with hw | ⟨v, i, hv, htainted, hconstant, rfl | ⟨hflag, hw⟩⟩ |
    ⟨_, rfl⟩
  · exact hd w hw
  · exact .operand (List.mem_of_getElem? hv)
  · exact .peer ⟨hflag, hconstant, n, f, i, hsource, hv, htainted⟩ hw
  · exact .result hn

theorem flows_of_bypass (hd : t.AllFlow d) (hn : n < t.program.size) :
    t.AllFlow (t.bypass n d) := by
  unfold bypass
  split
  · exact flows_of_afterSource hd hn ‹_›
  · exact hd

theorem flows_of_seedFacts {f : Nat} : t.AllFlow (t.seedFacts f) :=
  fun _ hw => .formal (t.mem_formals_of_seedFacts hw)

end Flow

section Texts

theorem knows_of_operand (hresolved : t.program.Resolved) (h : v ∈ t.program.inputsAt n) :
    t.program.Knows v := by
  obtain ⟨i, hi, hv⟩ := mem_inputsAt.mp h
  exact (hresolved.resolves hi).inputs v hv

variable (hresolved : t.program.Resolved) (hforeign : ¬ t.Foreign)
include hresolved hforeign

theorem Flows.isSome_valueText? (h : t.Flows v) : (t.program.valueText? v).isSome = true := by
  cases h with
  | formal hv =>
      obtain ⟨j, rfl, hj⟩ := Program.parameter?_of_mem_formals hv
      exact Program.isSome_valueText?.mpr hj
  | result hn => exact Program.isSome_valueText?.mpr hn
  | operand hv =>
      exact Program.isSome_valueText?.mpr (knows_of_operand hresolved hv)
  | peer hw hv =>
      refine Option.isSome_iff_ne_none.mpr (fun hnone => hforeign ⟨_, hw, v, hv, hnone⟩)

theorem reportable_of_flows (hd : t.AllFlow d) (hn : n < t.program.size) :
    t.reportable n d = true :=
  (t.reportable_iff hresolved hn).mpr (fun _ hf v hv =>
    Flows.isSome_valueText? hresolved hforeign (flows_of_afterSource hd hn hf v hv))

end Texts

theorem not_foreign (hresolved : t.program.Resolved)
    (h : t.aliases = noAliases ∨ t.aliases = t.program.aliasClasses.peers) : ¬ t.Foreign := by
  rintro ⟨w, ⟨_, _, n, f, i, _, hw, _⟩, v, hv, hnone⟩
  have hoperand : t.program.Knows w := knows_of_operand hresolved (List.mem_of_getElem? hw)
  have hpeer : t.program.Knows v := by
    rcases h with heq | heq
    · rw [heq] at hv
      rwa [OrdSet.mem_single.mp hv]
    · rw [heq] at hv
      exact hresolved.knows_of_aliasClasses hoperand hv
  rw [← Program.isSome_valueText?, hnone] at hpeer
  exact Bool.noConfusion hpeer

section Runs

variable {C : Type} {k : ContextKind Nat ValueSet C} {initial : C} {limits : Limits} {cs : Set C}

theorem flows_of_arises (hp : t.program.Coherent)
    (h : Analysis.Arises t.program.icfg t.problem n d) : n < t.program.size ∧ t.AllFlow d := by
  induction h with
  | seed h =>
      obtain ⟨f, _, hn, rfl⟩ := (t.mem_seeds hp).mp h
      exact ⟨hp.lt_size_of_mem_entryOf hn, flows_of_seedFacts⟩
  | join _ _ ih ih' =>
      exact ⟨ih.1, fun v hv => (OrdSet.mem_union.mp hv).elim (ih.2 v) (ih'.2 v)⟩
  | pass _ _ _ hn' ih => exact ⟨hp.lt_size_of_succ hn', flows_of_normal ih.2 ih.1⟩
  | bypass _ _ hn' ih => exact ⟨hp.lt_size_of_succ hn', flows_of_bypass ih.2 ih.1⟩
  | enter _ _ _ hentry _ => exact ⟨hp.lt_size_of_mem_entryOf hentry, flows_of_call⟩
  | leave _ _ _ _ _ _ _ _ hn' _ ih => exact ⟨hp.lt_size_of_succ hn', flows_of_ret ih.1⟩

theorem total_of_lift {text module : String}
    (hlift : Program.lift text module = .ok t.program) (hforeign : ¬ t.Foreign) :
    Analysis.Total t.program.icfg t.problem := by
  have hflows := fun {n d} => flows_of_arises (t := t) (n := n) (d := d)
    (Program.coherent_of_lift hlift)
  have hresolved := Program.resolved_of_lift hlift
  refine ⟨fun hd => decide_eq_true (hflows hd).1, fun hd _ hm => hresolved.hasFunction hm,
    fun hd _ _ => reportable_of_flows hresolved hforeign (hflows hd).2 (hflows hd).1⟩

theorem endsUnless_foreign {text module : String} {limit : Option Nat} [k.Lawful]
    (hlift : Program.lift text module = .ok t.program) (hcs : cs.Finite) (hinitial : initial ∈ cs)
    (henter : ∀ {c n entry d}, c ∈ cs → t.AllFlow d → k.enter c n entry d ∈ cs) (x : Leaks) :
    (t.analysis k initial ⟨limit, none⟩).EndsUnless x t.Foreign := by
  have hp := Program.coherent_of_lift hlift
  have hordered := t.pointwise.ordered
  let a := t.analysis k initial ⟨limit, none⟩
  have hsupports : a.Supports (fun n c d => Analysis.Arises a.graph a.problem n d ∧ c ∈ cs) _ :=
    Analysis.supports_arises hinitial (fun hc _ _ => henter hc flows_of_call)
  have hheight : a.problem.FiniteHeightIn (fun d => ∃ n, Analysis.Arises a.graph a.problem n d) :=
    (t.pointwise.finiteHeightIn finite_flows).mono (fun _ ⟨_, hd⟩ => (flows_of_arises hp hd).2)
  have hbound : ∀ s, a.Paced x s →
      s.Bounded (Finset.range t.program.size) hcs.toFinset.card := fun s hs =>
    hs.bounded_of_supports hordered hsupports hcs
      (fun h => ⟨Finset.mem_range.mpr (flows_of_arises hp h.1).1, h.2⟩)
  have hends := Analysis.terminates_of_bounded (a := a) rfl hordered hheight
    (Analysis.wellFounded_of_recompute (fun _ => rfl)) hbound
  exact hends.mono (fun hnot => by_contra (fun hforeign => hnot (total_of_lift hlift hforeign)))

/-- Every run under contexts made of arguments comes to a fixpoint, whichever of them it starts with.
Only the report of a source call fails, on an alias that names nothing in the program; the aliases of
this library do not. -/
theorem valueContexts_end {text module : String} (hlift : Program.lift text module = .ok t.program)
    (initial : Arguments ValueSet) (x : Leaks) :
    (t.analysis Arguments.kind initial ⟨none, none⟩).EndsUnless x t.Foreign ∧
    (∀ K, (t.analysis (EitherContext.kind (K := K)) (.arguments initial) ⟨none, none⟩).EndsUnless x
      t.Foreign) ∧
    (t.aliases = noAliases ∨ t.aliases = t.program.aliasClasses.peers → ¬ t.Foreign) := by
  -- facts that flow become contexts, besides those that the first context is made of
  let ds : Set ValueSet := insert initial.current (insert initial.previous {d | t.AllFlow d})
  let cs : Set (Arguments ValueSet) := {c | c.current ∈ ds ∧ c.previous ∈ ds}
  have hds : ds.Finite := ((OrdSet.finite_subsets finite_flows).insert _).insert _
  have hcs : cs.Finite := by
    refine ((hds.prod hds).image (fun e => Arguments.mk e.1 e.2)).subset (fun c hc => ?_)
    exact ⟨(c.current, c.previous), hc, rfl⟩
  have hinitial : initial ∈ cs := ⟨Or.inl rfl, Or.inr (Or.inl rfl)⟩
  have henter : ∀ {c : Arguments ValueSet} {d}, c ∈ cs → t.AllFlow d → c.enter d ∈ cs :=
    fun hc hd => ⟨Or.inr (Or.inr hd), hc.1⟩
  refine ⟨endsUnless_foreign hlift hcs hinitial henter x, fun K => ?_,
    not_foreign (Program.resolved_of_lift hlift)⟩
  refine endsUnless_foreign hlift (hcs.image EitherContext.arguments) ⟨initial, hinitial, rfl⟩ ?_ x
  rintro _ n entry d ⟨c, hc, rfl⟩ hd
  exact ⟨c.enter d, henter hc hd, rfl⟩

end Runs

def fillingLines : List String := [
  "declare gets(*%s)",
  "fn fill(*%p) \x7b",
  "  %r = call gets(%p)",
  "  %q = call fill(%r)",
  "  ret %q",
  "\x7d",
  "fn main() \x7b",
  "  %x = alloca",
  "  %y = call fill(%x)",
  "\x7d"]

def fillingProgram : Program where
  instructions := #[
    { op := .start, function := 1 },
    { op := .call, output := "r", inputs := [.argument 1 0], callee := some 0, function := 1,
      line := some 3 },
    { op := .call, output := "q", inputs := [.result 1], callee := some 1, function := 1,
      line := some 4 },
    { op := .ret, inputs := [.result 2], function := 1, line := some 5 },
    { op := .start, function := 2 },
    { op := .alloca, output := "x", function := 2, line := some 8 },
    { op := .call, output := "y", inputs := [.result 5], callee := some 1, function := 2,
      line := some 9 },
    { op := .ret, function := 2 }]
  functions := #[
    ⟨"gets", "fill.c", [⟨"s", true⟩], none⟩,
    ⟨"fill", "fill.c", [⟨"p", true⟩], some ⟨0, 4⟩⟩,
    ⟨"main", "fill.c", [], some ⟨4, 8⟩⟩]
  globals := ∅
  openBody := none

def filling : Setup := ⟨fillingProgram, .defaults, fillingProgram.aliasClasses.peers, [2], {}⟩

theorem filling_lift : Program.lift (String.intercalate "\n" fillingLines) "fill.c" =
    .ok filling.program := by
  rw [Program.lift_lines]
  decide +kernel

theorem filling_ends : ¬ filling.Foreign ∧
    (filling.analysis Arguments.kind ⟨OrdSet.single (.result 5), ∅⟩ ⟨none, none⟩).EndsUnless ∅
      filling.Foreign :=
  have hends := valueContexts_end filling_lift ⟨OrdSet.single (.result 5), ∅⟩ ∅
  ⟨hends.2.2 (Or.inr rfl), hends.1⟩

end Taint.Setup

end Interproc
