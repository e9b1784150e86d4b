import Interproc.Proofs.Program.Aliases
import Interproc.Proofs.Taint.Leaks

namespace Interproc

namespace Taint

open Solver

def Holds {C : Type} (s : Run C) (n : Nat) (d : ValueSet) : Prop := ∃ c, (c, d) ∈ s.entriesAt n

namespace Setup

variable (t : Setup)

def StoredThrough (V : Nat → ValueSet → Prop) (w : Value) : Prop :=
  ∃ m i v rest, t.program.instructions[m]? = some i ∧ i.op = .store ∧ i.inputs = v :: w :: rest ∧
    ∃ d, V m d ∧ v ∈ d

variable {t} {w : Value} {d : ValueSet} {n : Nat}

theorem constant_of_normal (hw : w.isConstant = true) (h : w ∈ t.normal n d) :
    w ∈ d ∨ ∃ i v rest, t.program.instructions[n]? = some i ∧ i.op = .store ∧
      i.inputs = v :: w :: rest ∧ v ∈ d := by
  rcases t.mem_normal_cases h with h | rfl | h
  · exact Or.inl h
  · exact absurd hw Bool.false_ne_true
  · exact Or.inr h

theorem not_constant_of_formal {f : Nat} (h : w ∈ t.program.formals f) : w.isConstant = false := by
  unfold Program.formals at h
  split at h
  · obtain ⟨i, _, rfl⟩ := List.mem_map.mp h
    rfl
  · exact absurd h List.not_mem_nil

theorem not_constant_of_call {site callee : Nat} (h : w ∈ t.call site callee d) :
    w.isConstant = false :=
  not_constant_of_formal (t.mem_formals_of_call h)

theorem not_constant_of_ret {site callee exit : Nat} (h : w ∈ t.ret site callee exit d) :
    w.isConstant = false := by
  rcases t.mem_ret_cases h with rfl | ⟨_, hw⟩
  · rfl
  · exact hw

section Aliases

variable (haliases : t.aliases = noAliases ∨ t.aliases = t.program.aliasClasses.peers)
include haliases

theorem not_constant_of_aliases {v : Value} (hv : v.isConstant = false) (h : w ∈ t.aliases v) :
    w.isConstant = false := by
  rcases haliases with heq | heq
  · rw [heq] at h
    rwa [OrdSet.mem_single.mp h]
  · rw [heq] at h
    exact Program.not_constant_of_aliasClasses hv h

theorem constant_of_bypass {site : Nat} (hw : w.isConstant = true) (h : w ∈ t.bypass site d) :
    w ∈ d := by
  have hnot : ¬ w.isConstant = false := by simp [hw]
  rcases t.mem_bypass.mp h with h | ⟨f, _, ⟨v, i, _, _, hv, rfl | ⟨_, h⟩⟩ | ⟨_, rfl⟩⟩
  · exact h
  · exact absurd hv hnot
  · exact absurd (not_constant_of_aliases haliases hv h) hnot
  · exact absurd rfl hnot

theorem explains_constants (hp : t.program.Coherent) :
    t.problem.Explains (fun V w => w.isConstant = true → t.StoredThrough V w) where
  mono hVW h hw := by
    obtain ⟨m, i, v, rest, hi, hop, hinputs, d, hd, hv⟩ := h hw
    exact ⟨m, i, v, rest, hi, hop, hinputs, d, hVW _ _ hd, hv⟩
  seed {V n d} hd w hmem hw := by
    obtain ⟨f, _, _, rfl⟩ := (t.mem_seeds hp).mp hd
    have hformal := not_constant_of_formal (t.mem_formals_of_seedFacts hmem)
    exact absurd (hw.symm.trans hformal) (by simp)
  pass {V n d} hV hd w hmem hw := by
    rcases constant_of_normal hw hmem with hmem | ⟨i, v, rest, hi, hop, hinputs, hv⟩
    · exact hd w hmem hw
    · exact ⟨n, i, v, rest, hi, hop, hinputs, d, hV, hv⟩
  bypass _ hd w hmem hw := hd w (constant_of_bypass haliases hw hmem) hw
  enter _ _ _ hmem hw := absurd (hw.symm.trans (not_constant_of_call hmem)) (by simp)
  leave _ _ _ hmem hw := absurd (hw.symm.trans (not_constant_of_ret hmem)) (by simp)

end Aliases

variable {C : Type}

theorem constant_stored {text module : String}
    (hlift : Program.lift text module = .ok t.program)
    (haliases : t.aliases = noAliases ∨ t.aliases = t.program.aliasClasses.peers)
    (k : ContextKind Nat ValueSet C) [k.Lawful] (initial : C) (limits : Limits) {s : Run C}
    (h : (t.analysis k initial limits).Moment ∅ s) {w : Value} (hw : w.isConstant = true) :
    (∀ n c d, (c, d) ∈ s.entriesAt n → w ∈ d → t.StoredThrough (Holds s) w) ∧
    ∀ site, w ∈ s.client.getD site ∅ → t.StoredThrough (Holds s) w := by
  have hexplains := explains_constants haliases (Program.coherent_of_lift hlift)
  have hfacts : ∀ {n c d}, (c, d) ∈ s.entriesAt n → w ∈ d → t.StoredThrough (Holds s) w := by
    intro n c d hd hmem
    obtain ⟨m, i, v, rest, hi, hop, hinputs, e, he, hv⟩ :=
      h.explained (a := t.analysis k initial limits) t.pointwise hexplains hd w hmem hw
    obtain ⟨c', e', he', hv'⟩ := t.exists_mem_of_below he hv
    exact ⟨m, i, v, rest, hi, hop, hinputs, e', ⟨c', he'⟩, hv'⟩
  refine ⟨fun _ _ _ => hfacts, fun site hmem => ?_⟩
  have hremembered := h.remembered (a := t.analysis k initial limits) t.pointwise.ordered
  obtain ⟨_, d, hd, hmem⟩ := t.handsToSink_of_remembered hremembered hmem
  obtain ⟨c, e, he, hmem⟩ := t.exists_mem_of_below hd hmem
  exact hfacts he hmem

theorem mem_factsAt_of_storedThrough {k : ContextKind Nat ValueSet C} [k.Lawful] {initial : C}
    {limits : Limits} {s : Run C} (hp : t.program.Coherent)
    (h : (t.analysis k initial limits).Solved s) (hs : s.finished = true) {w : Value}
    (hw : t.StoredThrough (Holds s) w) :
    ∃ n, w ∈ (t.analysis k initial limits).factsAt s n := by
  obtain ⟨m, i, v, rest, hi, hop, hinputs, d, ⟨c, hd⟩, hv⟩ := hw
  let a := t.analysis k initial limits
  have hcall : a.graph.isCall m = false := by
    show t.program.isCall m = false
    simp [Program.isCall, Program.opAt?, hi, hop]
  have hexit : a.graph.isExit m = false := by
    show t.program.isExit m = false
    simp [Program.isExit, Program.opAt?, hi, hop]
  have hnext : m + 1 ∈ a.graph.succs m := by
    show m + 1 ∈ t.program.succs m
    simp [Program.succs, Instruction.succs, hi, hop]
  have hmem : w ∈ t.normal m d := by simp [normal, hi, hop, hinputs, hv]
  have hsettled := h.settled (a := a) t.pointwise.ordered hp.procedural.toAgrees hs hd
  obtain ⟨e, he, hle⟩ := Analysis.includes_iff.mp (hsettled.pass hcall hexit (m + 1) hnext)
  refine ⟨m + 1, (Analysis.mem_factsAt t.pointwise).mpr ⟨e.1, e.2, ?_, ?_⟩⟩
  · exact (Analysis.mem_of_findIn he).1
  · exact OrdSet.isSubset_iff.mp hle w hmem

def constantPointerLines : List String := [
  "declare source()",
  "declare sink(%d)",
  "fn main() \x7b",
  "  %t = call source()",
  "  store %t, 7",
  "  call sink(7)",
  "  ret",
  "\x7d"]

def constantPointer : Setup where
  program := {
    instructions := #[
      { op := .start, function := 2 },
      { op := .call, output := "t", callee := some 0, function := 2, line := some 4 },
      { op := .store, inputs := [.result 1, .constant 7], function := 2, line := some 5 },
      { op := .call, inputs := [.constant 7], callee := some 1, function := 2, line := some 6 },
      { op := .ret, function := 2, line := some 7 }]
    functions := #[
      ⟨"source", "t.c", [], none⟩,
      ⟨"sink", "t.c", [⟨"d", false⟩], none⟩,
      ⟨"main", "t.c", [], some ⟨0, 5⟩⟩]
    globals := ∅
    openBody := none }
  registry := .defaults
  aliases := noAliases
  entries := [2]
  config := {}

theorem constantPointer_lift : Program.lift (String.intercalate "\n" constantPointerLines) "t.c" =
    .ok constantPointer.program := by
  rw [Program.lift_lines]
  decide +kernel

def constantPointerSolved :
    (constantPointer.analysis CallString.kind (∅ : CallString Nat 0) ⟨none, none⟩).Fixpoint ∅ :=
  .ofSolve 60 (by decide +kernel)

theorem constantPointer_leaks :
    .constant 7 ∈ constantPointerSolved.state.client.getD 3 ∅ := by
  decide +kernel

theorem constantPointer_stored :
    constantPointer.StoredThrough (Holds constantPointerSolved.state) (.constant 7) :=
  (constant_stored constantPointer_lift (Or.inl rfl) CallString.kind ∅ ⟨none, none⟩
    (constantPointerSolved.solved.moment constantPointer.pointwise.ordered) rfl).2 3
      constantPointer_leaks

theorem constantPointer_tainted :
    (∃ c d, (c, d) ∈ constantPointerSolved.state.entriesAt 3 ∧ .constant 7 ∈ d) ∧
    .constant 7 ∈ constantPointerSolved.state.client.getD 3 ∅ := by
  have hfact : .constant 7 ∈ (constantPointer.analysis CallString.kind (∅ : CallString Nat 0)
      ⟨none, none⟩).factsAt constantPointerSolved.state 3 := by decide +kernel
  exact ⟨(Analysis.mem_factsAt constantPointer.pointwise).mp hfact, constantPointer_leaks⟩

end Setup

end Taint

end Interproc
