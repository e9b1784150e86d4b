import Interproc.Program.Render
import Interproc.Proofs.Program.Lifted

namespace Interproc

theorem isSome_mapM {α β : Type} {f : α → Option β} {xs : List α} :
    (xs.mapM f).isSome = true ↔ ∀ x ∈ xs, (f x).isSome = true := by
  induction xs with
  | nil => simp
  | cons x xs ih =>
      cases hx : f x with
      | none => simp [hx]
      | some y => cases hxs : xs.mapM f <;> simp [hx, hxs, ← ih]

theorem mapM_eq_some_iff {α β : Type} {f : α → Option β} {xs : List α} {ys : List β} :
    xs.mapM f = some ys ↔ List.Forall₂ (fun x y => f x = some y) xs ys := by
  induction xs generalizing ys with
  | nil => cases ys <;> simp
  | cons x xs ih =>
      simp only [List.mapM_cons, Option.bind_eq_bind, Option.bind_eq_some_iff, Option.pure_def,
        Option.some.injEq]
      constructor
      · rintro ⟨y, hy, zs, hzs, rfl⟩
        exact .cons hy (ih.mp hzs)
      · rintro (_ | ⟨hy, hzs⟩)
        exact ⟨_, hy, _, ih.mpr hzs, rfl⟩

namespace Program

open Source

variable {p : Program} {f n : Nat} {v : Value} {i : Instruction}

def Knows (p : Program) : Value → Prop
  | .argument f i => (p.parameter? f i).isSome = true
  | .result n => n < p.size
  | .global _ => True
  | .constant _ => True

structure Resolves (p : Program) (i : Instruction) : Prop where
  inputs : ∀ v ∈ i.inputs, p.Knows v
  callee : ∀ {f}, i.callee = some f → f < p.params.size

structure Resolved (p : Program) : Prop where
  resolves : ∀ {n : Nat} {i}, p.instructions[n]? = some i → p.Resolves i
  function : ∀ {n : Nat} {i}, p.instructions[n]? = some i → i.function < p.params.size

theorem parameter?_of_mem_formals (h : v ∈ p.formals f) :
    ∃ j, v = .argument f j ∧ (p.parameter? f j).isSome = true := by
  unfold formals at h
  split at h
  · rename_i g hg
    obtain ⟨j, hj, rfl⟩ := List.mem_map.mp h
    exact ⟨j, rfl, by simpa [parameter?, hg] using hj⟩
  · exact absurd h List.not_mem_nil

section Texts

theorem isSome_valueText? : (p.valueText? v).isSome = true ↔ p.Knows v := by
  cases v <;> simp [valueText?, Knows, size]

theorem Resolved.isSome_textWith? (h : p.Resolved) (rename : String → String) (hn : n < p.size) :
    (p.textWith? rename n).isSome = true := by
  obtain ⟨i, hi⟩ : ∃ i, p.instructions[n]? = some i := ⟨_, Array.getElem?_eq_getElem hn⟩
  obtain ⟨g, hg⟩ : ∃ g, p.functions[i.function]? = some g :=
    ⟨_, Array.getElem?_eq_getElem (params_size ▸ h.function hi)⟩
  obtain ⟨inputs, hinputs⟩ : ∃ inputs, p.valueTexts? i.inputs = some inputs := by
    refine Option.isSome_iff_exists.mp (isSome_mapM.mpr (fun v hv => ?_))
    exact isSome_valueText?.mpr ((h.resolves hi).inputs v hv)
  obtain ⟨body, hbody⟩ : ∃ body, p.bodyText? rename i (commaList inputs) = some body := by
    refine Option.isSome_iff_exists.mp ?_
    unfold bodyText?
    split <;> try rfl
    · simp [hg]
    · split
      · rename_i m hm
        have hlt : m < p.functions.size := params_size ▸ (h.resolves hi).callee hm
        simp [hlt]
      · rfl
  cases hout : i.output <;>
    simp [textWith?, statementText?, hi, hg, hinputs, hbody, hout]

theorem Resolved.isSome_text? (h : p.Resolved) (hn : n < p.size) : (p.text? n).isSome = true :=
  h.isSome_textWith? id hn

end Texts

theorem Provides.knows (h : p.Provides f v) : p.Knows v := by
  cases v with
  | argument g j =>
      obtain ⟨rfl, hj⟩ := h
      exact hj
  | result n =>
      obtain ⟨i, hi, _⟩ := h
      exact (Array.getElem?_eq_some_iff.mp hi).1
  | global g => trivial
  | constant c => trivial

theorem WellFormed.resolved (h : p.WellFormed) : p.Resolved where
  resolves hi := ⟨fun v hv => ((h.fits hi).operand v hv).knows, fun hf => by
    obtain ⟨g, hg, _⟩ := (h.fits hi).callee hf
    exact params_size ▸ (Array.getElem?_eq_some_iff.mp hg).1⟩
  function {n i} hi := by
    obtain ⟨b, hb, _⟩ := h.mem_body (Array.getElem?_eq_some_iff.mp hi).1
    obtain ⟨g, hg, _⟩ := Option.bind_eq_some_iff.mp hb
    rw [functionOf_eq hi] at hg
    exact params_size ▸ (Array.getElem?_eq_some_iff.mp hg).1

theorem resolved_of_lift {text module : String} (h : Program.lift text module = .ok p) :
    p.Resolved :=
  (answers_liftRows.of_ok h).resolved

end Program

end Interproc
