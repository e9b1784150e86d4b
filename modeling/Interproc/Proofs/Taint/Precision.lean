import Interproc.Proofs.Solver.Recent
import Interproc.Proofs.Taint.Leaks

namespace Interproc.Taint.Setup

open Solver

variable {C C' : Type} (t : Setup)

theorem flowsBelow_self {k : ContextKind Nat ValueSet C} {k' : ContextKind Nat ValueSet C'}
    {initial : C} {initial' : C'} {limits limits' : Limits} :
    (t.analysis k' initial' limits').FlowsBelow (t.analysis k initial limits) :=
  Analysis.flowsBelow_of_problem t.pointwise.ordered rfl rfl

section Relates

variable {k : ContextKind Nat ValueSet C} [k.Lawful] {initial : C} {limits : Limits}
variable {k' : ContextKind Nat ValueSet C'} [k'.Lawful] {initial' : C'} {limits' : Limits}
variable {s : Run C} {s' : Run C'} {rel : Nat → C' → C → Prop}

section FlowsBelow

variable {t' : Setup}

theorem subset_factsAt_of_flowsBelow (hp : t.program.Coherent)
    (hflows : (t'.analysis k' initial' limits').FlowsBelow (t.analysis k initial limits))
    (h : (t.analysis k initial limits).Solved s) (hs : s.finished = true)
    (hrel : (t.analysis k initial limits).Relates s (t'.analysis k' initial' limits') rel)
    (h' : (t'.analysis k' initial' limits').Moment ∅ s') {n : Nat} {c' : C'} {d : ValueSet}
    (hd : (c', d) ∈ s'.entriesAt n) :
    d.isSubset ((t.analysis k initial limits).factsAt s n) = true := by
  obtain ⟨c, e, he, _, hle⟩ := h'.bounded_of_relates t.pointwise.ordered t.pointwise.joinsLeast
    t.pointwise.monotone hp.procedural h hs hflows hrel t'.pointwise.ordered hd
  refine OrdSet.isSubset_iff.mpr (fun v hv => (Analysis.mem_factsAt t.pointwise).mpr ?_)
  exact ⟨c, e, he, OrdSet.isSubset_iff.mp hle v hv⟩

theorem mem_leaks_of_flowsBelow (hp : t.program.Coherent)
    (hflows : (t'.analysis k' initial' limits').FlowsBelow (t.analysis k initial limits))
    (hsinks : ∀ site v, t'.HandsToSink site v → t.HandsToSink site v)
    (h : (t.analysis k initial limits).Solved s) (hs : s.finished = true)
    (hrel : (t.analysis k initial limits).Relates s (t'.analysis k' initial' limits') rel)
    (h' : (t'.analysis k' initial' limits').Moment ∅ s') {site : Nat} {v : Value}
    (hv : v ∈ s'.client.getD site ∅) : v ∈ s.client.getD site ∅ := by
  have hremembered := h'.remembered_of_relates t.pointwise.ordered t.pointwise.joinsLeast
    t.pointwise.monotone hp.procedural h hs hflows hrel t'.pointwise.ordered (fun hle => hle)
  obtain ⟨hsink, d, hd, hvd⟩ := t'.handsToSink_of_remembered hremembered hv
  obtain ⟨c, e, he, hve⟩ := t.exists_mem_of_below hd hvd
  exact t.mem_of_noted (h.noted t.pointwise.ordered t.retains hs he) (hsinks site v hsink) hve

theorem subset_of_flowsBelow (hp : t.program.Coherent)
    (hflows : (t'.analysis k' initial' limits').FlowsBelow (t.analysis k initial limits))
    (hsinks : ∀ site v, t'.HandsToSink site v → t.HandsToSink site v)
    (h : (t.analysis k initial limits).SolvedFrom ∅ s) (hs : s.finished = true)
    (hrel : (t.analysis k initial limits).Relates s (t'.analysis k' initial' limits') rel)
    (h' : (t'.analysis k' initial' limits').SolvedFrom ∅ s') :
    (∀ n, ((t'.analysis k' initial' limits').factsAt s' n).isSubset
      ((t.analysis k initial limits).factsAt s n) = true) ∧
    ∀ site v, v ∈ s'.client.getD site ∅ → v ∈ s.client.getD site ∅ := by
  have hmoment := h'.moment t'.pointwise.ordered
  refine ⟨fun n => OrdSet.isSubset_iff.mpr (fun v hv => ?_),
    fun site v => t.mem_leaks_of_flowsBelow hp hflows hsinks h.solved hs hrel hmoment⟩
  obtain ⟨c', d, hd, hvd⟩ := (Analysis.mem_factsAt t'.pointwise).mp hv
  exact OrdSet.isSubset_iff.mp
    (t.subset_factsAt_of_flowsBelow hp hflows h.solved hs hrel hmoment hd) v hvd

end FlowsBelow

theorem subset_factsAt_of_relates (hp : t.program.Coherent)
    (h : (t.analysis k initial limits).Solved s) (hs : s.finished = true)
    (hrel : (t.analysis k initial limits).Relates s (t.analysis k' initial' limits') rel)
    (h' : (t.analysis k' initial' limits').Moment ∅ s') {n : Nat} {c' : C'} {d : ValueSet}
    (hd : (c', d) ∈ s'.entriesAt n) :
    d.isSubset ((t.analysis k initial limits).factsAt s n) = true :=
  t.subset_factsAt_of_flowsBelow hp t.flowsBelow_self h hs hrel h' hd

theorem mem_leaks_of_relates (hp : t.program.Coherent)
    (h : (t.analysis k initial limits).Solved s) (hs : s.finished = true)
    (hrel : (t.analysis k initial limits).Relates s (t.analysis k' initial' limits') rel)
    (h' : (t.analysis k' initial' limits').Moment ∅ s') {site : Nat} {v : Value}
    (hv : v ∈ s'.client.getD site ∅) : v ∈ s.client.getD site ∅ :=
  t.mem_leaks_of_flowsBelow hp t.flowsBelow_self (fun _ _ hsink => hsink) h hs hrel h' hv

end Relates

theorem subset_of_bound_zero {text module : String}
    (hlift : Program.lift text module = .ok t.program) (initial : CallString Nat 0)
    (limits : Limits) {s : Run (CallString Nat 0)}
    (h : (t.analysis CallString.kind initial limits).SolvedFrom ∅ s) (hs : s.finished = true)
    (k' : ContextKind Nat ValueSet C') [k'.Lawful] (initial' : C') (limits' : Limits)
    {s' : Run C'} (h' : (t.analysis k' initial' limits').Moment ∅ s') :
    (∀ n c d, (c, d) ∈ s'.entriesAt n →
      d.isSubset ((t.analysis CallString.kind initial limits).factsAt s n) = true) ∧
    ∀ site v, v ∈ s'.client.getD site ∅ → v ∈ s.client.getD site ∅ := by
  have hp := Program.coherent_of_lift hlift
  have hrel := Analysis.relates_of_same (a := t.analysis CallString.kind initial limits) (s := s)
    (b := t.analysis k' initial' limits') CallString.same_of_bound_zero
  exact ⟨fun n c d => t.subset_factsAt_of_relates hp h.solved hs hrel h',
    fun site v => t.mem_leaks_of_relates hp h.solved hs hrel h'⟩

def relayLines : List String := [
  "declare source()",
  "declare sink(%d)",
  "fn id(%p) \x7b",
  "  ret %p",
  "\x7d",
  "fn outer(%p) \x7b",
  "  %q = call id(%p)",
  "  ret %q",
  "\x7d",
  "fn main() \x7b",
  "  %a = call source()",
  "  %b = const 3",
  "  %r = call outer(%a)",
  "  %s = call outer(%b)",
  "  call sink(%r)",
  "  call sink(%s)",
  "\x7d"]

theorem relay_lift : Program.lift (String.intercalate "\n" relayLines) "relay.c" =
    .ok relay.program := by
  rw [Program.lift_lines]
  decide +kernel

def relayByNone :
    (relay.analysis CallString.kind (∅ : CallString Nat 0) ⟨none, none⟩).Fixpoint ∅ :=
  .ofSolve 60 (by decide +kernel)

def relayPaused : Run (Arguments ValueSet) :=
  ((relay.analysis Arguments.kind ∅ ⟨some 1, some 16⟩).solve 0 Run.start).1

theorem relayPaused_found :
    relayPaused.finished = false ∧ .result 8 ∈ relayPaused.client.getD 10 ∅ ∧
    (∀ n c d, (c, d) ∈ relayPaused.entriesAt n →
      d.isSubset ((relay.analysis CallString.kind (∅ : CallString Nat 0) ⟨none, none⟩).factsAt
        relayByNone.state n) = true) ∧
    ∀ site v, v ∈ relayPaused.client.getD site ∅ → v ∈ relayByNone.state.client.getD site ∅ := by
  have hmoment : (relay.analysis Arguments.kind ∅ ⟨some 1, some 16⟩).Moment ∅ relayPaused :=
    Analysis.SolvedFrom.initial.moment_solve relay.pointwise.ordered 0
  exact ⟨by decide +kernel, by decide +kernel, subset_of_bound_zero relay relay_lift ∅ ⟨none, none⟩
    relayByNone.solved relayByNone.finished _ _ _ hmoment⟩

theorem subset_of_bound_le {text module : String}
    (hlift : Program.lift text module = .ok t.program) {K K' : Nat} (hle : K ≤ K')
    {initial : CallString Nat K} {initial' : CallString Nat K'}
    (hinitial : initial'.sites = initial.sites) (maxIterations maxIterations' : Option Nat)
    {s : Run (CallString Nat K)} {s' : Run (CallString Nat K')}
    (h : (t.analysis CallString.kind initial ⟨none, maxIterations⟩).SolvedFrom ∅ s)
    (hs : s.finished = true)
    (h' : (t.analysis CallString.kind initial' ⟨none, maxIterations'⟩).SolvedFrom ∅ s') :
    (∀ n, ((t.analysis CallString.kind initial' ⟨none, maxIterations'⟩).factsAt s' n).isSubset
      ((t.analysis CallString.kind initial ⟨none, maxIterations⟩).factsAt s n) = true) ∧
    ∀ site v, v ∈ s'.client.getD site ∅ → v ∈ s.client.getD site ∅ := by
  have hp := Program.coherent_of_lift hlift
  let a := t.analysis CallString.kind initial ⟨none, maxIterations⟩
  let b := t.analysis CallString.kind initial' ⟨none, maxIterations'⟩
  obtain ⟨rel, hrel⟩ : ∃ rel, a.Relates s b rel := by
    -- without history all strings are equal; otherwise long strings are cut to their end
    rcases Nat.eq_zero_or_pos K with rfl | hK
    · exact ⟨_, Analysis.relates_of_same CallString.same_of_bound_zero⟩
    · exact ⟨_, h.solved.relates_recent (a := a) hK hle rfl rfl rfl hinitial t.pointwise.ordered
        hp.procedural (t.seedsEntries hp) hs⟩
  have hmoment := h'.moment t.pointwise.ordered
  refine ⟨fun n => OrdSet.isSubset_iff.mpr (fun v hv => ?_),
    fun site v => t.mem_leaks_of_relates hp h.solved hs hrel hmoment⟩
  obtain ⟨c', d, hd, hvd⟩ := (Analysis.mem_factsAt t.pointwise).mp hv
  exact OrdSet.isSubset_iff.mp
    (t.subset_factsAt_of_relates hp h.solved hs hrel hmoment hd) v hvd

def relayByOne :
    (relay.analysis CallString.kind (∅ : CallString Nat 1) ⟨none, none⟩).Fixpoint ∅ :=
  .ofSolve 60 (by decide +kernel)

theorem relayByTwo_subset :
    .result 9 ∈ relayByOne.state.client.getD 11 ∅ ∧
    .result 9 ∉ relayByTwo.state.client.getD 11 ∅ ∧
    (∀ n, ((relay.analysis CallString.kind (∅ : CallString Nat 2) ⟨none, none⟩).factsAt
      relayByTwo.state n).isSubset ((relay.analysis CallString.kind (∅ : CallString Nat 1)
        ⟨none, none⟩).factsAt relayByOne.state n) = true) ∧
    ∀ site v, v ∈ relayByTwo.state.client.getD site ∅ →
      v ∈ relayByOne.state.client.getD site ∅ :=
  ⟨by decide +kernel, by decide +kernel, subset_of_bound_le relay relay_lift (Nat.le_succ 1) rfl
    none none relayByOne.solved relayByOne.finished relayByTwo.solved⟩

end Interproc.Taint.Setup
