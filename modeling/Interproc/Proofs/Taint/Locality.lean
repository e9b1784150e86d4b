import Interproc.Proofs.Taint.Termination

namespace Interproc

open Solver

namespace Program

variable {p : Program} {f g n : Nat} {v : Value}

def Local (p : Program) (f : Nat) : Value → Prop
  | .argument g k => g = f ∧ (p.parameter? f k).isSome = true
  | .result n => n ∈ p.bodyOf f
  | .global _ => False
  | .constant _ => False

def Shared (p : Program) : Value → Prop
  | .argument .. => False
  | .result _ => False
  | .global k => k < p.globals.size
  | .constant _ => True

theorem Coherent.eq_of_local (hp : p.Coherent) (hf : p.Local f v) (hg : p.Local g v) : g = f := by
  cases v with
  | argument m k => exact hg.1.symm.trans hf.1
  | result n =>
      exact (hp.functionOf_of_mem_bodyOf hg).symm.trans (hp.functionOf_of_mem_bodyOf hf)
  | global k => exact hf.elim
  | constant c => exact hf.elim

theorem not_local_of_shared (h : p.Shared v) : ¬ p.Local g v := by
  cases v with
  | argument m k => exact h.elim
  | result n => exact h.elim
  | global k => exact id
  | constant c => exact id

theorem local_of_mem_formals (h : v ∈ p.formals f) : p.Local f v := by
  obtain ⟨j, rfl, hj⟩ := parameter?_of_mem_formals h
  exact ⟨rfl, hj⟩

theorem Coherent.local_result (hp : p.Coherent) (hn : n < p.size) :
    p.Local (p.functionOf n) (.result n) := hp.mem_bodyOf_functionOf hn

theorem Provides.local_or_shared (hp : p.Coherent) (h : p.Provides f v) :
    p.Local f v ∨ p.Shared v := by
  cases v with
  | argument g k => exact Or.inl h
  | result n =>
      obtain ⟨i, hi, rfl, _⟩ := h
      have hn := hp.mem_bodyOf_functionOf (Array.getElem?_eq_some_iff.mp hi).1
      rw [functionOf_eq hi] at hn
      exact Or.inl hn
  | global k => exact Or.inr h
  | constant c => exact Or.inr trivial

end Program

namespace Taint.Setup

variable {t : Setup} {f n site callee exit : Nat} {v : Value} {d : ValueSet}

variable (t) in
def Confined (f : Nat) (d : ValueSet) : Prop := ∀ v ∈ d, t.program.Local f v ∨ t.program.Shared v

section Flow

theorem confined_of_formals (h : ∀ v ∈ d, v ∈ t.program.formals f) : t.Confined f d :=
  fun v hv => Or.inl (Program.local_of_mem_formals (h v hv))

variable (hp : t.program.WellFormed)
include hp

theorem local_or_shared_of_operand (h : v ∈ t.program.inputsAt n) :
    t.program.Local (t.program.functionOf n) v ∨ t.program.Shared v := by
  obtain ⟨i, hi, hv⟩ := mem_inputsAt.mp h
  rw [Program.functionOf_eq hi]
  exact ((hp.fits hi).operand v hv).local_or_shared hp.toCoherent

theorem confined_normal (hd : t.Confined (t.program.functionOf n) d) (hn : n < t.program.size) :
    t.Confined (t.program.functionOf n) (t.normal n d) := by
  intro v hv
  rcases t.mem_normal_cases hv with hv | rfl | ⟨i, w, rest, hi, _, hinputs, _⟩
  · exact hd v hv
  · exact Or.inl (hp.local_result hn)
  · exact local_or_shared_of_operand hp (mem_inputsAt.mpr ⟨i, hi, by simp [hinputs]⟩)

theorem confined_ret (hn : site < t.program.size) :
    t.Confined (t.program.functionOf site) (t.ret site callee exit d) := by
  intro v hv
  rcases t.mem_ret_cases hv with rfl | ⟨hv, _⟩
  · exact Or.inl (hp.local_result hn)
  · exact local_or_shared_of_operand hp hv

theorem confined_bypass (haliases : t.aliases = noAliases)
    (hd : t.Confined (t.program.functionOf n) d) (hn : n < t.program.size) :
    t.Confined (t.program.functionOf n) (t.bypass n d) := by
  intro v hv
  rcases t.mem_bypass.mp hv with hv | ⟨f, _, ⟨w, i, hw, _, _, hpolluted⟩ | ⟨_, rfl⟩⟩
  · exact hd v hv
  · have hoperand := local_or_shared_of_operand hp (List.mem_of_getElem? hw)
    rcases hpolluted with rfl | ⟨_, halias⟩
    · exact hoperand
    · rw [haliases] at halias
      rwa [OrdSet.mem_single.mp halias]
  · exact Or.inl (hp.local_result hn)

end Flow

section Runs

variable {C : Type} {k : ContextKind Nat ValueSet C} {initial : C} {limits : Limits}

theorem supports_confined (hp : t.program.WellFormed) (haliases : t.aliases = noAliases) :
    (t.analysis k initial limits).Supports
      (fun n _ d => n < t.program.size ∧ t.Confined (t.program.functionOf n) d)
      (fun r => r.site < t.program.size) where
  seed {n d} hd := by
    obtain ⟨f, _, hn, rfl⟩ := (t.mem_seeds hp.toCoherent).mp hd
    obtain rfl : t.program.functionOf n = f := hp.procedural.functionOf_start hn
    exact ⟨hp.lt_size_of_mem_entryOf hn, confined_of_formals (fun _ => t.mem_formals_of_seedFacts)⟩
  join h' h _ := ⟨h.1, fun v hv => (OrdSet.mem_union.mp hv).elim (h'.2 v) (h.2 v)⟩
  pass {n c d n'} h _ _ hn' := by
    have hn : t.program.functionOf n' = t.program.functionOf n := hp.procedural.functionOf_succ hn'
    exact ⟨hp.lt_size_of_succ hn', hn ▸ confined_normal hp h.2 h.1⟩
  bypass {n c d n'} h _ hn' := by
    have hn : t.program.functionOf n' = t.program.functionOf n :=
      hp.procedural.functionOf_returnSite hn'
    exact ⟨hp.lt_size_of_succ hn', hn ▸ confined_bypass hp haliases h.2 h.1⟩
  enter {n c d m entry c'} h _ _ hentry _ := by
    obtain rfl : t.program.functionOf entry = m := hp.procedural.functionOf_start hentry
    exact ⟨⟨hp.lt_size_of_mem_entryOf hentry, confined_of_formals (fun _ => t.mem_formals_of_call)⟩,
      h.1⟩
  leave {n c d r n'} _ _ _ hr _ _ hn' := by
    have hn : t.program.functionOf n' = t.program.functionOf r.site :=
      hp.procedural.functionOf_returnSite hn'
    exact ⟨hp.lt_size_of_succ hn', hn ▸ confined_ret hp hr⟩

theorem facts_confined {text module : String} (hlift : Program.lift text module = .ok t.program)
    (haliases : t.aliases = noAliases) (k : ContextKind Nat ValueSet C) [k.Lawful] (initial : C)
    (limits : Limits) {x : Leaks} {s : Run C} (h : (t.analysis k initial limits).Moment x s)
    {n : Nat} {c : C} {d : ValueSet} (hd : (c, d) ∈ s.entriesAt n) :
    n ∈ t.program.bodyOf (t.program.functionOf n) ∧ ∀ f, n ∈ t.program.bodyOf f →
      ∀ v ∈ d, (t.program.Local f v ∨ t.program.Shared v) ∧
        ∀ g, t.program.Local g v → g = f := by
  have hp : t.program.WellFormed := Source.answers_liftRows.of_ok hlift
  have hsupported := h.supported (a := t.analysis k initial limits) t.pointwise.ordered
    (supports_confined hp haliases)
  obtain ⟨hn, hconfined⟩ := hsupported.entries hd
  refine ⟨hp.mem_bodyOf_functionOf hn, fun f hf v hv => ?_⟩
  rw [hp.functionOf_of_mem_bodyOf hf] at hconfined
  refine ⟨hconfined v hv, fun g hg => ?_⟩
  rcases hconfined v hv with hlocal | hshared
  · exact hp.eq_of_local hlocal hg
  · exact absurd hg (Program.not_local_of_shared hshared)

end Runs

def fillingApart : Setup := { filling with aliases := noAliases }

def fillingMerged : Run (CallString Nat 1) :=
  ((fillingApart.analysis CallString.kind (∅ : CallString Nat 1) ⟨some 1, none⟩).solve 60
    Run.start).1

theorem filling_confined :
    fillingMerged.finished = true ∧ 0 < fillingMerged.statistics.widenings ∧
    ∃ e ∈ fillingMerged.entriesAt 7, .result 5 ∈ e.2 ∧
      ∀ v ∈ e.2, (fillingProgram.Local 2 v ∨ fillingProgram.Shared v) ∧
        ∀ g, fillingProgram.Local g v → g = 2 := by
  have hmoment : (fillingApart.analysis CallString.kind (∅ : CallString Nat 1)
      ⟨some 1, none⟩).Moment ∅ fillingMerged :=
    Analysis.SolvedFrom.initial.moment_solve fillingApart.pointwise.ordered 60
  obtain ⟨e, he, htainted⟩ : ∃ e ∈ fillingMerged.entriesAt 7, .result 5 ∈ e.2 := by
    decide +kernel
  have hconfined := facts_confined (t := fillingApart) filling_lift rfl CallString.kind ∅
    ⟨some 1, none⟩ hmoment he
  exact ⟨by decide +kernel, by decide +kernel, e, he, htainted,
    hconfined.2 2 (by decide +kernel)⟩

end Taint.Setup

end Interproc
