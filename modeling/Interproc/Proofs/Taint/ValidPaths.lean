import Interproc.Context.Either
import Interproc.Proofs.Taint.Flows

namespace Interproc.Taint.Setup

open Solver

variable {C : Type} (t : Setup)

theorem walk_subset_factsAt {text module : String}
    (hlift : Program.lift text module = .ok t.program) (k : ContextKind Nat ValueSet C) [k.Lawful]
    (initial : C) (limits : Limits) {s : Run C} (h : (t.analysis k initial limits).Solved s)
    (hs : s.finished = true) {f n₀ : Nat} (hf : f ∈ t.entries) (hn₀ : n₀ ∈ t.program.entryOf f)
    {stack : List Nat} {n : Nat} {d : ValueSet}
    (hwalk : Walk t.program.icfg t.problem n₀ (t.seedFacts f) stack n d) :
    d.isSubset ((t.analysis k initial limits).factsAt s n) = true := by
  have hp := Program.coherent_of_lift hlift
  exact h.carried_subset (a := t.analysis k initial limits) t.pointwise hp.procedural
    (t.seedsEntries hp) hs ⟨n₀, t.seedFacts f, stack, (t.mem_seeds hp).mpr ⟨f, hf, hn₀, rfl⟩, hwalk⟩

def twoCalls : Setup where
  program := {
    instructions := #[
      { op := .start, function := 1 },
      { op := .copy, output := "q", inputs := [.argument 1 0], function := 1, line := some 4 },
      { op := .ret, inputs := [.result 1], function := 1, line := some 5 },
      { op := .start, function := 2 },
      { op := .call, output := "a", callee := some 0, function := 2, line := some 8 },
      { op := .call, output := "b", callee := some 0, function := 2, line := some 9 },
      { op := .call, output := "ra", inputs := [.result 4], callee := some 1, function := 2,
        line := some 10 },
      { op := .call, output := "rb", inputs := [.result 5], callee := some 1, function := 2,
        line := some 11 },
      { op := .ret, function := 2 }]
    functions := #[
      ⟨"source", "origins.c", [], none⟩,
      ⟨"id", "origins.c", [⟨"p", false⟩], some ⟨0, 3⟩⟩,
      ⟨"main", "origins.c", [], some ⟨3, 9⟩⟩]
    globals := ∅
    openBody := none }
  registry := .defaults
  aliases := noAliases
  entries := [2]
  config := {}

def twoCallsLines : List String := ["",
  "declare source()",
  "fn id(%p) \x7b",
  "  %q = copy %p",
  "  ret %q",
  "\x7d",
  "fn main() \x7b",
  "  %a = call source()",
  "  %b = call source()",
  "  %ra = call id(%a)",
  "  %rb = call id(%b)",
  "\x7d"]

theorem twoCalls_lift :
    Program.lift (String.intercalate "\n" twoCallsLines) "origins.c" = .ok twoCalls.program := by
  rw [Program.lift_lines]
  decide +kernel

theorem twoCalls_uncalled (n : Nat) (hcall : twoCalls.program.isCall n = true) :
    ∀ m ∈ twoCalls.program.calleesAt n, m ∉ twoCalls.entries := by
  have hall : ∀ n < twoCalls.program.size, ∀ m ∈ twoCalls.program.calleesAt n,
      m ∉ twoCalls.entries := by decide
  exact hall n (Program.lt_size_of_isCall hcall)

def twoCallsJoined : Run (CallString Nat 1) :=
  ((twoCalls.analysis CallString.kind ⟨[7], by decide⟩ ⟨some 1, none⟩).solve 60 Run.start).1

theorem twoCalls_walk_subset : twoCallsJoined.finished = true ∧ ∃ d,
    Walk twoCalls.program.icfg twoCalls.problem 3 (twoCalls.seedFacts 2) [6] 1 d ∧
      .argument 1 0 ∈ d ∧ d.isSubset ((twoCalls.analysis CallString.kind
        (⟨[7], by decide⟩ : CallString Nat 1) ⟨some 1, none⟩).factsAt twoCallsJoined 1) = true := by
  have hfinished : twoCallsJoined.finished = true := by decide +kernel
  have hfirst : Walk twoCalls.program.icfg twoCalls.problem 3 (twoCalls.seedFacts 2) [] 4 _ :=
    Walk.start.pass (by decide) (by decide) (by decide)
  have hsecond : Walk twoCalls.program.icfg twoCalls.problem 3 (twoCalls.seedFacts 2) [] 5 _ :=
    hfirst.bypass (by decide) (by decide)
  have hsite : Walk twoCalls.program.icfg twoCalls.problem 3 (twoCalls.seedFacts 2) [] 6 _ :=
    hsecond.bypass (by decide) (by decide)
  have hcallee : Walk twoCalls.program.icfg twoCalls.problem 3 (twoCalls.seedFacts 2) [6] 0 _ :=
    hsite.enter (m := 1) (by decide) (by decide) (by decide)
  have hwalk : Walk twoCalls.program.icfg twoCalls.problem 3 (twoCalls.seedFacts 2) [6] 1 _ :=
    hcallee.pass (by decide) (by decide) (by decide)
  exact ⟨hfinished, _, hwalk, by decide +kernel, walk_subset_factsAt twoCalls twoCalls_lift _ _ _
    (Analysis.solved_of_solve (by decide +kernel)) hfinished (by decide) (by decide) hwalk⟩

theorem mem_factsAt_iff_of_arguments {text module : String}
    (hlift : Program.lift text module = .ok t.program)
    (huncalled : ∀ n, t.program.isCall n = true → ∀ m ∈ t.program.calleesAt n, m ∉ t.entries)
    (maxIterations : Option Nat) {s : Run (Arguments ValueSet)}
    (h : (t.analysis Arguments.kind ∅ ⟨none, maxIterations⟩).Solved s) (hs : s.finished = true)
    (n : Nat) (v : Value) :
    v ∈ (t.analysis Arguments.kind ∅ ⟨none, maxIterations⟩).factsAt s n ↔ t.Brings n v := by
  have hp := Program.coherent_of_lift hlift
  let a := t.analysis Arguments.kind ∅ ⟨none, maxIterations⟩
  have hsupports := Analysis.supports_arguments (a := a) t.pointwise hp.procedural
    (t.entersAt hp huncalled) rfl rfl
  have hsupported := h.supported (a := a) t.pointwise.ordered hsupports hs
  rw [brings_iff t hp]
  exact h.mem_factsAt_iff (a := a) t.pointwise hp.procedural (t.seedsEntries hp) hs
    (fun hd => (hsupported.entries hd).carried t.pointwise)

def twoCallsByArguments : Run (Arguments ValueSet) :=
  ((twoCalls.analysis Arguments.kind ∅ ⟨none, none⟩).solve 60 Run.start).1

theorem twoCalls_arguments_exact : twoCallsByArguments.finished = true ∧
    .result 7 ∈ (twoCalls.analysis Arguments.kind ∅ ⟨none, none⟩).factsAt twoCallsByArguments 8 ∧
    ∀ n v, v ∈ (twoCalls.analysis Arguments.kind ∅ ⟨none, none⟩).factsAt twoCallsByArguments n ↔
      twoCalls.Brings n v := by
  have hfinished : twoCallsByArguments.finished = true := by decide +kernel
  exact ⟨hfinished, by decide +kernel, mem_factsAt_iff_of_arguments twoCalls twoCalls_lift
    twoCalls_uncalled none (Analysis.solved_of_solve (by decide +kernel)) hfinished⟩

theorem mem_factsAt_iff_of_callStrings {text module : String}
    (hlift : Program.lift text module = .ok t.program)
    (huncalled : ∀ n, t.program.isCall n = true → ∀ m ∈ t.program.calleesAt n, m ∉ t.entries)
    (K : Nat) (hbound : ∀ {stack m}, CallChain t.program.icfg t.entries stack m → stack.length ≤ K)
    (maxIterations : Option Nat) {s : Run (CallString Nat K)}
    (h : (t.analysis CallString.kind ∅ ⟨none, maxIterations⟩).Solved s) (hs : s.finished = true)
    (n : Nat) (v : Value) :
    v ∈ (t.analysis CallString.kind ∅ ⟨none, maxIterations⟩).factsAt s n ↔ t.Brings n v := by
  have hp := Program.coherent_of_lift hlift
  let a := t.analysis (CallString.kind (K := K)) ∅ ⟨none, maxIterations⟩
  have hsupports := Analysis.supports_callStrings (a := a) t.pointwise hp.procedural
    (t.entersAt hp huncalled) rfl rfl rfl hbound
  have hsupported := h.supported (a := a) t.pointwise.ordered hsupports hs
  rw [brings_iff t hp]
  refine h.mem_factsAt_iff (a := a) t.pointwise hp.procedural (t.seedsEntries hp) hs (fun hd => ?_)
  exact (hsupported.entries hd).covered.imp
    (fun e ⟨n₀, d₀, hseed, hwalk⟩ => ⟨n₀, d₀, _, hseed, hwalk⟩)

theorem twoCalls_chain_length {stack : List Nat} {m : Nat}
    (h : CallChain twoCalls.program.icfg twoCalls.entries stack m) : stack.length ≤ 1 := by
  -- only `main` contains calls
  have hmain : ∀ n, twoCalls.program.isCall n = true → twoCalls.program.functionOf n = 2 := by
    intro n hcall
    have hall : ∀ n < twoCalls.program.size, twoCalls.program.isCall n = true →
        twoCalls.program.functionOf n = 2 := by decide
    exact hall n (Program.lt_size_of_isCall hcall) hcall
  have hlength : ∀ {stack m}, CallChain twoCalls.program.icfg twoCalls.entries stack m →
      m = 2 → stack = [] := by
    intro stack m h hm
    cases h with
    | entry => rfl
    | call _ hcall hm' _ => exact absurd (by rw [hm]; decide) (twoCalls_uncalled _ hcall _ hm')
  cases h with
  | entry => exact Nat.zero_le 1
  | call hchain hcall _ _ =>
      rw [hlength hchain (hmain _ hcall)]
      exact Nat.le_refl 1

def twoCallsByString : Run (CallString Nat 1) :=
  ((twoCalls.analysis CallString.kind ∅ ⟨none, none⟩).solve 60 Run.start).1

theorem twoCalls_callStrings_exact : twoCallsByString.finished = true ∧
    .result 7 ∈ (twoCalls.analysis CallString.kind (∅ : CallString Nat 1) ⟨none, none⟩).factsAt
      twoCallsByString 8 ∧
    ∀ n v, v ∈ (twoCalls.analysis CallString.kind (∅ : CallString Nat 1) ⟨none, none⟩).factsAt
      twoCallsByString n ↔ twoCalls.Brings n v := by
  have hfinished : twoCallsByString.finished = true := by decide +kernel
  exact ⟨hfinished, by decide +kernel, mem_factsAt_iff_of_callStrings twoCalls twoCalls_lift
    twoCalls_uncalled 1 twoCalls_chain_length none (Analysis.solved_of_solve (by decide +kernel))
    hfinished⟩

end Interproc.Taint.Setup
