import Interproc.Proofs.Program.Resolved
import Interproc.Proofs.Taint.Precision

namespace Interproc

theorem Program.Resolved.hasFunction {p : Program} (h : p.Resolved) {n g : Nat}
    (hg : g ∈ p.calleesAt n) : p.hasFunction g = true := by
  rw [Program.calleesAt, Option.mem_toList, Option.bind_eq_some_iff] at hg
  obtain ⟨i, hi, hcallee⟩ := hg
  exact decide_eq_true (Program.params_size ▸ (h.resolves hi).callee hcallee)

theorem Program.hasFunction_of_body {p : Program} {g : Nat} {b : Span} (h : p.body? g = some b) :
    p.hasFunction g = true := by
  obtain ⟨f, hf, _⟩ := Option.bind_eq_some_iff.mp h
  exact decide_eq_true (Array.getElem?_eq_some_iff.mp hf).1

theorem Partition.mem_peers_self {c : Partition Value} (h : ∀ v ∈ c.members, v ∈ c.peers v)
    (v : Value) : v ∈ c.peers v := by
  by_cases hv : v ∈ c.members
  · exact h v hv
  · have hnone := Interned.indexOf?_eq_none_iff.mpr hv
    simp [peers, classOf, representative?, hnone]

namespace Taint.Setup

open Solver

variable {t : Setup} {r : Registry} {aliases : PointsTo}

def under (t : Setup) (r : Registry) (aliases : PointsTo) : Setup :=
  { t with registry := r, aliases := aliases }

/-- `t` has the sinks of `r` and taints all that `r` and `aliases` taint. A function that is a source
of `t` only has no body and is no sink. -/
structure Covers (t : Setup) (r : Registry) (aliases : PointsTo) : Prop where
  sinks : ∀ g, t.program.hasFunction g = true →
    r.sink? (t.program.nameOf g) = t.registry.sink? (t.program.nameOf g)
  sources : ∀ g f, t.program.hasFunction g = true → r.source? (t.program.nameOf g) = some f →
    ∃ f', t.registry.source? (t.program.nameOf g) = some f' ∧
      (∀ i, f.tainted.contains i = true → f'.tainted.contains i = true) ∧
      (f.taintsReturn = true → f'.taintsReturn = true)
  added : ∀ g, t.program.hasFunction g = true → t.registry.isSource (t.program.nameOf g) = true →
    r.isSource (t.program.nameOf g) = false →
    t.program.body? g = none ∧ t.registry.isSink (t.program.nameOf g) = false
  aliases : ∀ v, (aliases v).isSubset (t.aliases v) = true

namespace Covers

theorem taintedBy (h : t.Covers r aliases) {f f' : SourceFunction}
    (hpositions : ∀ i, f.tainted.contains i = true → f'.tainted.contains i = true)
    (hreturn : f.taintsReturn = true → f'.taintsReturn = true) {site : Nat} {x : Value}
    (hx : (t.under r aliases).TaintedBy f site x) : t.TaintedBy f' site x := by
  rcases hx with ⟨v, i, hv, htainted, hconstant, heq | ⟨hflag, hx⟩⟩ | ⟨hf, hx⟩
  · exact Or.inl ⟨v, i, hv, hpositions i htainted, hconstant, Or.inl heq⟩
  · have hx := OrdSet.isSubset_iff.mp (h.aliases v) x hx
    exact Or.inl ⟨v, i, hv, hpositions i htainted, hconstant, Or.inr ⟨hflag, hx⟩⟩
  · exact Or.inr ⟨hreturn hf, hx⟩

theorem isSensitive (h : t.Covers r aliases) {g : Nat} {b : Span} (hb : t.program.body? g = some b)
    (hg : (t.under r aliases).isSensitive g = false) : t.isSensitive g = false := by
  have hfun := Program.hasFunction_of_body hb
  obtain ⟨hsource, hsink⟩ := Bool.or_eq_false_iff.mp hg
  have hsource' : t.registry.isSource (t.program.nameOf g) = false := by
    by_contra hadded
    have hnone := (h.added g hfun (Bool.of_not_eq_false hadded) hsource).1
    simp [hnone] at hb
  have hsink' : t.registry.isSink (t.program.nameOf g) = false :=
    (congrArg Option.isSome (h.sinks g hfun)).symm.trans hsink
  exact Bool.or_eq_false_iff.mpr ⟨hsource', hsink'⟩

variable (hr : t.program.Resolved)
include hr

theorem sourceAt (h : t.Covers r aliases) {site : Nat} {f : SourceFunction}
    (hf : (t.under r aliases).sourceAt? site = some f) : ∃ f', t.sourceAt? site = some f' ∧
      (∀ i, f.tainted.contains i = true → f'.tainted.contains i = true) ∧
      (f.taintsReturn = true → f'.taintsReturn = true) := by
  obtain ⟨name, hname, hsource⟩ := Option.bind_eq_some_iff.mp hf
  obtain ⟨g, hg, rfl⟩ := Option.map_eq_some_iff.mp hname
  have hfun := hr.hasFunction (List.mem_of_mem_head? hg)
  obtain ⟨f', hf', hmore⟩ := h.sources g f hfun hsource
  refine ⟨f', ?_, hmore⟩
  have hname' : t.calleeName? site = some (t.program.nameOf g) := hname
  rw [sourceAt?, hname']
  exact hf'

theorem handsToSink (h : t.Covers r aliases) {site : Nat} {v : Value}
    (hv : (t.under r aliases).HandsToSink site v) : t.HandsToSink site v := by
  obtain ⟨hcall, g, hg, hsource, f, hsink, i, hi, hleaks⟩ := hv
  have hfun := hr.hasFunction hg
  have hsink' : t.registry.sink? (t.program.nameOf g) = some f := (h.sinks g hfun).symm.trans hsink
  refine ⟨hcall, g, hg, ?_, f, hsink', i, hi, hleaks⟩
  by_contra hadded
  have hnone := (h.added g hfun (Bool.of_not_eq_false hadded) hsource).2
  simp [Registry.isSink, hsink'] at hnone

variable {C C' : Type} {k : ContextKind Nat ValueSet C} {k' : ContextKind Nat ValueSet C'}
variable {initial : C} {initial' : C'} {limits limits' : Limits}

theorem flowsBelow (h : t.Covers r aliases) :
    ((t.under r aliases).analysis k' initial' limits').FlowsBelow (t.analysis k initial limits) := by
  have hle : ∀ d : ValueSet, d.isSubset d = true := t.pointwise.ordered.le_refl
  constructor
  case graph => rfl
  case seed => exact fun {n d} hd => ⟨d, hd, hle d⟩
  case join => exact fun d e => hle (d.union e)
  case normal => exact fun n d => hle (t.normal n d)
  case ret => exact fun n m x d => hle (t.ret n m x d)
  case call =>
    intro n m entry hentry d
    obtain ⟨b, hb, _⟩ := Program.mem_entryOf.mp hentry
    show ((t.under r aliases).call n m d).isSubset (t.call n m d) = true
    unfold Setup.call
    cases hg : (t.under r aliases).isSensitive m with
    | true => exact OrdSet.isSubset_iff.mpr (fun x hx => absurd hx OrdSet.not_mem_empty)
    | false =>
        rw [h.isSensitive hb hg]
        exact hle _
  case bypass =>
    intro n n' d
    show ((t.under r aliases).bypass n d).isSubset (t.bypass n d) = true
    refine OrdSet.isSubset_iff.mpr (fun x hx => t.mem_bypass.mpr ?_)
    refine ((mem_bypass _).mp hx).imp_right ?_
    rintro ⟨f, hf, htainted⟩
    obtain ⟨f', hf', hpositions, hreturn⟩ := h.sourceAt hr hf
    exact ⟨f', hf', h.taintedBy hpositions hreturn htainted⟩

end Covers

variable (t)

theorem subset_of_covers {text module : String}
    (hlift : Program.lift text module = .ok t.program) (hcovers : t.Covers r aliases) {K : Nat}
    (initial : CallString Nat K) (maxIterations maxIterations' : Option Nat)
    {s s' : Run (CallString Nat K)}
    (h : (t.analysis CallString.kind initial ⟨none, maxIterations⟩).SolvedFrom ∅ s)
    (hs : s.finished = true) (h' : ((t.under r aliases).analysis CallString.kind initial
      ⟨none, maxIterations'⟩).SolvedFrom ∅ s') :
    (∀ n, (((t.under r aliases).analysis CallString.kind initial ⟨none, maxIterations'⟩).factsAt
      s' n).isSubset
        ((t.analysis CallString.kind initial ⟨none, maxIterations⟩).factsAt s n) = true) ∧
    ∀ site v, v ∈ s'.client.getD site ∅ → v ∈ s.client.getD site ∅ := by
  have hp := Program.coherent_of_lift hlift
  have hresolved := Program.resolved_of_lift hlift
  let a := t.analysis CallString.kind initial ⟨none, maxIterations⟩
  let b := (t.under r aliases).analysis CallString.kind initial ⟨none, maxIterations'⟩
  have hflows : b.FlowsBelow a := hcovers.flowsBelow hresolved
  obtain ⟨rel, hrel⟩ : ∃ rel, a.Relates s b rel := by
    rcases Nat.eq_zero_or_pos K with rfl | hK
    · exact ⟨_, Analysis.relates_of_same CallString.same_of_bound_zero⟩
    · -- both runs seed the same functions, so strings stand for themselves
      have hcuts : b.Cuts a (fun _ c => c) :=
        ⟨fun hblank hc => hc.mpr hblank, fun hblank => hblank, fun _ => rfl, fun _ _ _ => rfl⟩
      exact ⟨_, h.solved.relates_cut hK hK rfl rfl rfl rfl hflows hcuts t.pointwise.ordered
        hp.procedural (t.seedsEntries hp) hs⟩
  exact t.subset_of_flowsBelow hp hflows (fun _ _ => hcovers.handsToSink hresolved) h hs hrel h'

def intakeLines : List String := [
  "declare source()",
  "declare gets(*%s)",
  "declare sink(%d)",
  "fn fill(*%p) \x7b",
  "  %q = copy %p",
  "  call gets(%q)",
  "  ret %q",
  "\x7d",
  "fn main() \x7b",
  "  %a = call source()",
  "  %x = alloca",
  "  call fill(%x)",
  "  call sink(%a)",
  "  call sink(%x)",
  "\x7d"]

def intakeProgram : Program where
  instructions := #[
    { op := .start, function := 3 },
    { op := .copy, output := "q", inputs := [.argument 3 0], function := 3, line := some 5 },
    { op := .call, inputs := [.result 1], callee := some 1, function := 3, line := some 6 },
    { op := .ret, inputs := [.result 1], function := 3, line := some 7 },
    { op := .start, function := 4 },
    { op := .call, output := "a", callee := some 0, function := 4, line := some 10 },
    { op := .alloca, output := "x", function := 4, line := some 11 },
    { op := .call, inputs := [.result 6], callee := some 3, function := 4, line := some 12 },
    { op := .call, inputs := [.result 5], callee := some 2, function := 4, line := some 13 },
    { op := .call, inputs := [.result 6], callee := some 2, function := 4, line := some 14 },
    { op := .ret, function := 4 }]
  functions := #[
    ⟨"source", "intake.c", [], none⟩,
    ⟨"gets", "intake.c", [⟨"s", true⟩], none⟩,
    ⟨"sink", "intake.c", [⟨"d", false⟩], none⟩,
    ⟨"fill", "intake.c", [⟨"p", true⟩], some ⟨0, 4⟩⟩,
    ⟨"main", "intake.c", [], some ⟨4, 11⟩⟩]
  globals := ∅
  openBody := none

def intake : Setup := ⟨intakeProgram, .defaults, intakeProgram.aliasClasses.peers, [4], {}⟩

theorem intake_lift : Program.lift (String.intercalate "\n" intakeLines) "intake.c" =
    .ok intake.program := by
  rw [Program.lift_lines]
  decide +kernel

def sourceOnly : Registry :=
  { Registry.addSource ∅ ⟨"source", .only [], true⟩ with sinks := Registry.defaults.sinks }

theorem intake_covers : intake.Covers sourceOnly noAliases where
  sinks _ _ := rfl
  sources g f _ hf := by
    have hf : ((∅ : Registry).addSource ⟨"source", .only [], true⟩).source?
      (intake.program.nameOf g) = some f := hf
    rw [Registry.source?_addSource] at hf
    split at hf
    · rename_i hname
      refine ⟨f, ?_, fun _ hi => hi, fun hreturn => hreturn⟩
      rw [hname, ← hf]
      decide +kernel
    · cases (show (none : Option SourceFunction) = some f from hf)
  added g hg := by
    have hbelow : g < 5 := of_decide_eq_true hg
    have hall : ∀ g < 5, intake.registry.isSource (intake.program.nameOf g) = true →
      sourceOnly.isSource (intake.program.nameOf g) = false → intake.program.body? g = none ∧
        intake.registry.isSink (intake.program.nameOf g) = false := by decide +kernel
    exact hall g hbelow
  aliases v := by
    have hown : ∀ v ∈ intakeProgram.aliasClasses.members,
        v ∈ intakeProgram.aliasClasses.peers v := by decide +kernel
    refine OrdSet.isSubset_iff.mpr (fun x hx => ?_)
    rw [show x = v from OrdSet.mem_single.mp hx]
    exact Partition.mem_peers_self hown v

def intakeByOne :
    (intake.analysis CallString.kind (∅ : CallString Nat 1) ⟨none, none⟩).Fixpoint ∅ :=
  .ofSolve 60 (by decide +kernel)

def intakeCoveredByOne : ((intake.under sourceOnly noAliases).analysis CallString.kind
    (∅ : CallString Nat 1) ⟨none, none⟩).Fixpoint ∅ :=
  .ofSolve 60 (by decide +kernel)

theorem intake_subset :
    .result 5 ∈ intakeCoveredByOne.state.client.getD 8 ∅ ∧
    .result 6 ∉ intakeCoveredByOne.state.client.getD 9 ∅ ∧
    .result 6 ∈ intakeByOne.state.client.getD 9 ∅ ∧
    (∀ n, (((intake.under sourceOnly noAliases).analysis CallString.kind (∅ : CallString Nat 1)
      ⟨none, none⟩).factsAt intakeCoveredByOne.state n).isSubset
        ((intake.analysis CallString.kind (∅ : CallString Nat 1) ⟨none, none⟩).factsAt
          intakeByOne.state n) = true) ∧
    ∀ site v, v ∈ intakeCoveredByOne.state.client.getD site ∅ →
      v ∈ intakeByOne.state.client.getD site ∅ :=
  ⟨by decide +kernel, by decide +kernel, by decide +kernel,
    subset_of_covers intake intake_lift intake_covers ∅ none none intakeByOne.solved
      intakeByOne.finished intakeCoveredByOne.solved⟩

section Entries

def startedAt (t : Setup) (entries : List Nat) : Setup := { t with entries := entries }

variable {C C' : Type} {k : ContextKind Nat ValueSet C} {k' : ContextKind Nat ValueSet C'}
variable {initial : C} {initial' : C'} {limits limits' : Limits} {entries : List Nat}

theorem flowsBelow_startedAt (hp : t.program.Coherent) (hentries : ∀ f ∈ entries, f ∈ t.entries) :
    ((t.startedAt entries).analysis k' initial' limits').FlowsBelow (t.analysis k initial limits) := by
  have hle : ∀ d : ValueSet, d.isSubset d = true := t.pointwise.ordered.le_refl
  constructor
  case graph => rfl
  case seed =>
    intro n d hd
    obtain ⟨f, hf, hn, rfl⟩ := ((t.startedAt entries).mem_seeds hp).mp hd
    exact ⟨t.seedFacts f, (t.mem_seeds hp).mpr ⟨f, hentries f hf, hn, rfl⟩, hle _⟩
  case join => exact fun d e => hle (d.union e)
  case normal => exact fun n d => hle (t.normal n d)
  case call => exact fun {n m _} _ d => hle (t.call n m d)
  case ret => exact fun n m x d => hle (t.ret n m x d)
  case bypass => exact fun n _ d => hle (t.bypass n d)

theorem subset_of_entries {text module : String}
    (hlift : Program.lift text module = .ok t.program) (hentries : ∀ f ∈ entries, f ∈ t.entries)
    (K : Nat) (maxIterations maxIterations' : Option Nat) {s s' : Run (CallString Nat K)}
    (h : (t.analysis CallString.kind ∅ ⟨none, maxIterations⟩).SolvedFrom ∅ s)
    (hs : s.finished = true) (h' : ((t.startedAt entries).analysis CallString.kind ∅
      ⟨none, maxIterations'⟩).SolvedFrom ∅ s') :
    (∀ n, (((t.startedAt entries).analysis CallString.kind (∅ : CallString Nat K)
      ⟨none, maxIterations'⟩).factsAt s' n).isSubset ((t.analysis CallString.kind
        (∅ : CallString Nat K) ⟨none, maxIterations⟩).factsAt s n) = true) ∧
    ∀ site v, v ∈ s'.client.getD site ∅ → v ∈ s.client.getD site ∅ := by
  have hp := Program.coherent_of_lift hlift
  let a := t.analysis CallString.kind (∅ : CallString Nat K) ⟨none, maxIterations⟩
  let b := (t.startedAt entries).analysis CallString.kind (∅ : CallString Nat K)
    ⟨none, maxIterations'⟩
  have hflows : b.FlowsBelow a := t.flowsBelow_startedAt hp hentries
  obtain ⟨rel, hrel⟩ : ∃ rel, a.Relates s b rel := by
    -- strings are cut at the last call of a function that the larger analysis seeds
    rcases Nat.eq_zero_or_pos K with rfl | hK
    · exact ⟨_, Analysis.relates_of_same CallString.same_of_bound_zero⟩
    · exact h.solved.relates_trim hK rfl rfl rfl rfl rfl rfl hflows t.pointwise.ordered
        hp.procedural (t.seedsEntries hp) hs
  exact t.subset_of_flowsBelow hp hflows (fun _ _ hsink => hsink) h hs hrel h'

def relayEntered : Setup := relay.startedAt [4, 3, 4]

def relayEnteredByTwo :
    (relayEntered.analysis CallString.kind (∅ : CallString Nat 2) ⟨none, none⟩).Fixpoint ∅ :=
  .ofSolve 60 (by decide +kernel)

theorem relay_subset_entered :
    .result 9 ∉ relayByTwo.state.client.getD 11 ∅ ∧
    .result 9 ∈ relayEnteredByTwo.state.client.getD 11 ∅ ∧
    (∀ n, ((relay.analysis CallString.kind (∅ : CallString Nat 2) ⟨none, none⟩).factsAt
      relayByTwo.state n).isSubset ((relayEntered.analysis CallString.kind (∅ : CallString Nat 2)
        ⟨none, none⟩).factsAt relayEnteredByTwo.state n) = true) ∧
    ∀ site v, v ∈ relayByTwo.state.client.getD site ∅ →
      v ∈ relayEnteredByTwo.state.client.getD site ∅ :=
  ⟨by decide +kernel, by decide +kernel, subset_of_entries relayEntered relay_lift (by decide) 2
    none none relayEnteredByTwo.solved relayEnteredByTwo.finished relayByTwo.solved⟩

end Entries

end Taint.Setup

end Interproc
