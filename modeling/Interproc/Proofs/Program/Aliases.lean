import Interproc.Alias
import Interproc.Proofs.Partition.Classes
import Interproc.Proofs.Program.Resolved

namespace Interproc

namespace Program

open Source

variable {p : Program} {f n : Nat} {v w : Value} {i : Instruction}

inductive Aliases (p : Program) : Value → Value → Prop
  | derived {n : Nat} {i : Instruction} {v : Value} (hi : p.instructions[n]? = some i)
      (hop : i.op = .copy ∨ i.op = .elementPtr) (hv : i.inputs.head? = some v)
      (hvaries : v.isConstant = false) : p.Aliases v (.result n)
  | passed {n f k : Nat} {i : Instruction} {b : Span} {x : Parameter} {v : Value}
      (hi : p.instructions[n]? = some i) (hop : i.op = .call) (hf : i.callee = some f)
      (hb : p.body? f = some b) (hv : i.inputs[k]? = some v) (hx : p.parameter? f k = some x)
      (hpointer : x.isPointer = true) (hvaries : v.isConstant = false) :
      p.Aliases v (.argument f k)
  | returned {n f e : Nat} {i j : Instruction} {b : Span} {v : Value}
      (hi : p.instructions[n]? = some i) (hop : i.op = .call) (hf : i.callee = some f)
      (hb : p.body? f = some b) (houtput : i.output.isSome = true) (he : e ∈ b)
      (hj : p.instructions[e]? = some j) (hret : j.op = .ret) (hv : j.inputs.head? = some v)
      (hvaries : v.isConstant = false) : p.Aliases v (.result n)

section Pairs

theorem getElem?_formals {k : Nat} :
    (p.formals f)[k]? = some w ↔ w = .argument f k ∧ (p.parameter? f k).isSome = true := by
  unfold formals parameter?
  cases p.functions[f]? with
  | none => simp
  | some g =>
      simp only [List.getElem?_map, Option.map_eq_some_iff, List.getElem?_eq_some_iff,
        List.length_range, List.getElem_range, Option.bind_some, isSome_getElem?]
      constructor
      · rintro ⟨_, ⟨hk, rfl⟩, rfl⟩
        exact ⟨rfl, hk⟩
      · rintro ⟨rfl, hk⟩
        exact ⟨k, ⟨hk, rfl⟩, rfl⟩

theorem mem_argumentPairs {inputs : List Value} : (v, w) ∈ p.argumentPairs f inputs ↔
    ∃ k x, inputs[k]? = some v ∧ w = .argument f k ∧ p.parameter? f k = some x ∧
      x.isPointer = true := by
  rw [argumentPairs, List.mem_filter, List.mem_iff_getElem?]
  simp only [List.getElem?_zip_eq_some, getElem?_formals]
  constructor
  · rintro ⟨⟨k, hv, rfl, _⟩, hpointer⟩
    obtain ⟨x, hx, hpointer⟩ := (Option.any_eq_true _ _).mp hpointer
    exact ⟨k, x, hv, rfl, hx, hpointer⟩
  · rintro ⟨k, x, hv, rfl, hx, hpointer⟩
    exact ⟨⟨k, hv, rfl, hx ▸ rfl⟩, (Option.any_eq_true _ _).mpr ⟨x, hx, hpointer⟩⟩

theorem mem_returnPairs : (v, w) ∈ p.returnPairs f n ↔ w = .result n ∧
    ∃ b e j, p.body? f = some b ∧ e ∈ b ∧ p.instructions[e]? = some j ∧ j.op = .ret ∧
      j.inputs.head? = some v := by
  simp only [returnPairs, List.mem_filterMap, exitsOf, List.mem_filter, mem_bodyOf, opAt?,
    beq_iff_eq, Option.map_eq_some_iff, Prod.mk.injEq]
  constructor
  · rintro ⟨e, ⟨⟨b, hb, he⟩, j, hj, hret⟩, _, hv, rfl, rfl⟩
    exact ⟨rfl, b, e, j, hb, he, hj, hret, by simpa [inputsAt, hj] using hv⟩
  · rintro ⟨rfl, b, e, j, hb, he, hj, hret, hv⟩
    exact ⟨e, ⟨⟨b, hb, he⟩, j, hj, hret⟩, v, by simpa [inputsAt, hj] using hv, rfl, rfl⟩

theorem aliases_of_mem_aliasPairsAt (hi : p.instructions[n]? = some i)
    (hvaries : v.isConstant = false) (h : (v, w) ∈ p.aliasPairsAt i n) : p.Aliases v w := by
  have hderived : (i.op = .copy ∨ i.op = .elementPtr) →
      (v, w) ∈ (i.inputs.head?.map (fun v => (v, Value.result n))).toList → p.Aliases v w := by
    intro hop h
    obtain ⟨_, hv, heq⟩ := Option.map_eq_some_iff.mp (Option.mem_toList.mp h)
    obtain ⟨rfl, rfl⟩ := Prod.mk.inj heq
    exact .derived hi hop hv hvaries
  unfold aliasPairsAt at h
  split at h
  · rename_i hop
    exact hderived (Or.inl hop) h
  · rename_i hop
    exact hderived (Or.inr hop) h
  · rename_i hop
    split at h
    · exact absurd h List.not_mem_nil
    · rename_i f hf
      cases hb : p.body? f with
      | none => simp [hb] at h
      | some b =>
          simp only [hb, Option.isNone_some, Bool.false_eq_true, if_false] at h
          rcases List.mem_append.mp h with h | h
          · obtain ⟨k, x, hv, rfl, hx, hpointer⟩ := mem_argumentPairs.mp h
            exact .passed hi hop hf hb hv hx hpointer hvaries
          · split at h
            · rename_i houtput
              obtain ⟨rfl, b', e, j, hb', he, hj, hret, hv⟩ := mem_returnPairs.mp h
              exact .returned hi hop hf hb' houtput he hj hret hv hvaries
            · exact absurd h List.not_mem_nil
  · exact absurd h List.not_mem_nil

theorem mem_aliasPairs : (v, w) ∈ p.aliasPairs ↔ p.Aliases v w := by
  simp only [aliasPairs, List.mem_filter, List.mem_flatMap, Prod.exists, Bool.and_eq_true,
    Bool.not_eq_true', List.mem_zipIdx_iff_getElem?, Array.getElem?_toList]
  constructor
  · rintro ⟨⟨i, n, hi, h⟩, hvaries, _⟩
    exact aliases_of_mem_aliasPairsAt hi hvaries h
  · rintro (@⟨n, i, v, hi, hop, hv, hvaries⟩ | @⟨n, f, k, i, b, x, v, hi, hop, hf, hb, hv, hx,
      hpointer, hvaries⟩ | @⟨n, f, e, i, j, b, v, hi, hop, hf, hb, houtput, he, hj, hret, hv,
      hvaries⟩)
    · refine ⟨⟨i, n, hi, ?_⟩, hvaries, rfl⟩
      rcases hop with hop | hop <;> simp [aliasPairsAt, hop, hv]
    · refine ⟨⟨i, n, hi, ?_⟩, hvaries, rfl⟩
      have hpair := mem_argumentPairs.mpr ⟨k, x, hv, rfl, hx, hpointer⟩
      simp [aliasPairsAt, hop, hf, hb, hpair]
    · refine ⟨⟨i, n, hi, ?_⟩, hvaries, rfl⟩
      have hpair := (mem_returnPairs (n := n)).mpr ⟨rfl, b, e, j, hb, he, hj, hret, hv⟩
      simp [aliasPairsAt, hop, hf, hb, houtput, hpair]

end Pairs

section Classes

theorem aliasClasses_eq_after :
    p.aliasClasses = Partition.after (p.aliasPairs.map (fun (v, w) => .merge v w)) := by
  rw [Partition.after, List.foldl_map]
  rfl

theorem merged_eq_aliases (asked : List Value) :
    Partition.Merged (p.aliasPairs.map (fun (v, w) => .merge v w) ++ asked.map .ask) =
      p.Aliases := by
  funext v w
  rw [← propext mem_aliasPairs]
  simp [Partition.Merged]

def classesAfter (p : Program) (asked : List Value) : Partition Value :=
  asked.foldl (fun c v => (c.classOf v).2) p.aliasClasses

theorem mem_peers_classesAfter (asked : List Value) :
    w ∈ (p.classesAfter asked).peers v ↔ Relation.EqvGen p.Aliases v w := by
  have hafter : p.classesAfter asked =
      Partition.after (p.aliasPairs.map (fun (v, w) => .merge v w) ++ asked.map .ask) := by
    simp only [classesAfter, aliasClasses_eq_after, Partition.after, List.foldl_append,
      List.foldl_map]
    rfl
  rw [hafter, ← merged_eq_aliases asked]
  exact ((Partition.sorts_after _).classOf v).1 w

theorem mem_peers_aliasClasses :
    w ∈ p.aliasClasses.peers v ↔ Relation.EqvGen p.Aliases v w :=
  mem_peers_classesAfter []

theorem iff_of_aliased {P : Value → Prop} (hP : ∀ {v w}, p.Aliases v w → (P v ↔ P w))
    (h : Relation.EqvGen p.Aliases v w) : P v ↔ P w := by
  induction h with
  | rel v w h => exact hP h
  | refl v => exact Iff.rfl
  | symm v w _ ih => exact ih.symm
  | trans u v w _ _ ih ih' => exact ih.trans ih'

theorem Aliases.not_constant (h : p.Aliases v w) : v.isConstant = false ∧ w.isConstant = false := by
  cases h with
  | derived _ _ _ hvaries => exact ⟨hvaries, rfl⟩
  | passed _ _ _ _ _ _ _ hvaries => exact ⟨hvaries, rfl⟩
  | returned _ _ _ _ _ _ _ _ _ hvaries => exact ⟨hvaries, rfl⟩

theorem not_constant_of_aliasClasses (hv : v.isConstant = false)
    (hw : w ∈ p.aliasClasses.peers v) : w.isConstant = false :=
  (iff_of_aliased (P := fun v => v.isConstant = false)
    (fun h => iff_of_true h.not_constant.1 h.not_constant.2) (mem_peers_aliasClasses.mp hw)).mp hv

theorem Resolved.knows_of_aliases (hp : p.Resolved) (h : p.Aliases v w) : p.Knows v ∧ p.Knows w := by
  have hresult : ∀ {n : Nat} {i}, p.instructions[n]? = some i → p.Knows (.result n) :=
    fun hi => (Array.getElem?_eq_some_iff.mp hi).1
  cases h with
  | derived hi _ hv => exact ⟨(hp.resolves hi).inputs _ (List.mem_of_head? hv), hresult hi⟩
  | passed hi _ _ _ hv hx =>
      exact ⟨(hp.resolves hi).inputs _ (List.mem_of_getElem? hv), Option.isSome_of_eq_some hx⟩
  | returned hi _ _ _ _ _ hj _ hv =>
      exact ⟨(hp.resolves hj).inputs _ (List.mem_of_head? hv), hresult hi⟩

theorem Resolved.knows_of_aliasClasses (hp : p.Resolved) (hv : p.Knows v)
    (hw : w ∈ p.aliasClasses.peers v) : p.Knows w :=
  (iff_of_aliased (fun h => iff_of_true (hp.knows_of_aliases h).1 (hp.knows_of_aliases h).2)
    (mem_peers_aliasClasses.mp hw)).mp hv

end Classes

section Lifted

variable {text module : String}

theorem calleesExist_of_resolved (hp : p.Resolved) : p.calleesExist = true := by
  refine Array.all_eq_true_iff_forall_mem.mpr (fun i hi => ?_)
  obtain ⟨n, hn⟩ := Array.mem_iff_getElem?.mp hi
  cases hf : i.callee with
  | none => rfl
  | some f => simpa using params_size ▸ (hp.resolves hn).callee hf

theorem head?_isSome_of_takesShape (h : i.takesShape = true)
    (hop : i.op = .copy ∨ i.op = .elementPtr) : i.inputs.head?.isSome = true := by
  rw [List.isSome_head?]
  rintro hnil
  rcases hop with hop | hop <;> simp [Instruction.takesShape, hop, hnil] at h

theorem mem_peers_iff_of_lift (h : lift text module = .ok p) :
    p.calleesExist = true ∧
    (∀ {n : Nat} {i}, p.instructions[n]? = some i → i.op = .copy ∨ i.op = .elementPtr →
      i.inputs.head?.isSome = true) ∧
    ∀ asked v, (∀ w, w ∈ (p.classesAfter asked).peers v ↔ Relation.EqvGen p.Aliases v w) ∧
      v ∈ (p.classesAfter asked).peers v ∧
      ∀ w, w ∈ (p.classesAfter asked).peers v ↔ v ∈ (p.classesAfter asked).peers w := by
  have hp := answers_liftRows.of_ok h
  refine ⟨calleesExist_of_resolved hp.resolved,
    fun hi hop => head?_isSome_of_takesShape (hp.fits hi).proper.shape hop, fun asked v =>
      ⟨fun w => mem_peers_classesAfter asked, (mem_peers_classesAfter asked).mpr (.refl v), fun w => ?_⟩⟩
  rw [mem_peers_classesAfter, mem_peers_classesAfter]
  exact ⟨fun hvw => .symm v w hvw, fun hwv => .symm w v hwv⟩

def handlesLines : List String :=
  ["declare outside(*%q)",
    "fn main() \x7b",
    "  %x = alloca",
    "  %y = copy %x",
    "  %z = gep %y, 1",
    "  %k = copy 3",
    "  %r = call pass(%z, %w)",
    "  %w = alloca",
    "  call outside(%w)",
    "\x7d",
    "fn pass(*%p, %n) \x7b",
    "  ret %p",
    "\x7d"]

def handles : Program where
  instructions := #[
    ⟨.start, none, [], none, [], 1, none⟩,
    ⟨.alloca, some "x", [], none, [], 1, some 3⟩,
    ⟨.copy, some "y", [.result 1], none, [], 1, some 4⟩,
    ⟨.elementPtr, some "z", [.result 2, .constant 1], none, [], 1, some 5⟩,
    ⟨.copy, some "k", [.constant 3], none, [], 1, some 6⟩,
    ⟨.call, some "r", [.result 3, .result 6], some 2, [], 1, some 7⟩,
    ⟨.alloca, some "w", [], none, [], 1, some 8⟩,
    ⟨.call, none, [.result 6], some 0, [], 1, some 9⟩,
    ⟨.ret, none, [], none, [], 1, none⟩,
    ⟨.start, none, [], none, [], 2, none⟩,
    ⟨.ret, none, [.argument 2 0], none, [], 2, some 12⟩]
  functions := #[
    ⟨"outside", "t.c", [⟨"q", true⟩], none⟩,
    ⟨"main", "t.c", [], some ⟨0, 9⟩⟩,
    ⟨"pass", "t.c", [⟨"p", true⟩, ⟨"n", false⟩], some ⟨9, 11⟩⟩]
  globals := ∅
  openBody := none

theorem handles_lift : lift (String.intercalate "\n" handlesLines) "t.c" = .ok handles := by
  rw [lift_lines]
  decide +kernel

theorem handles_peers : lift (String.intercalate "\n" handlesLines) "t.c" = .ok handles ∧
    Relation.EqvGen handles.Aliases (.result 1) (.result 5) ∧
    ¬ Relation.EqvGen handles.Aliases (.result 6) (.argument 0 0) ∧
    .result 1 ∈ (handles.classesAfter [.result 6]).peers (.result 5) := by
  obtain ⟨_, _, hclasses⟩ := mem_peers_iff_of_lift handles_lift
  exact ⟨handles_lift, ((hclasses [] (.result 1)).1 _).mp (by decide +kernel),
    fun h => absurd (((hclasses [] (.result 6)).1 _).mpr h) (by decide +kernel), by decide +kernel⟩

end Lifted

end Program

end Interproc
