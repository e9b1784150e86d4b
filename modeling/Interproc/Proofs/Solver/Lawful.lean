import Interproc.Context.Either
import Interproc.Graph
import Interproc.Solver.Step

namespace Interproc

variable {N M D C S E : Type}

structure Problem.Ordered (p : Problem N M D S E) : Prop where
  le_refl : ∀ d, p.le d d = true
  le_trans : ∀ {d e f}, p.le d e = true → p.le e f = true → p.le d f = true
  le_join_left : ∀ d e, p.le d (p.join d e) = true
  le_join_right : ∀ d e, p.le e (p.join d e) = true

class ContextKind.Lawful (k : ContextKind N D C) : Prop where
  same_refl : ∀ c, k.same c c = true
  same_symm : ∀ {c c'}, k.same c c' = true → k.same c' c = true

namespace ContextKind

def Unambiguous (k : ContextKind N D C) (c : C) : Prop :=
  ∀ c₁ c₂, k.same c₁ c = true → k.same c₂ c = true → k.same c₁ c₂ = true

theorem same_comm (k : ContextKind N D C) [k.Lawful] {c c' : C} : k.same c c' = k.same c' c :=
  Bool.eq_iff_iff.mpr ⟨Lawful.same_symm, Lawful.same_symm⟩

end ContextKind

namespace CallString

variable {K : Nat}

theorem same_iff [DecidableEq N] {c d : CallString N K} :
    c.same d = true ↔ c.sites = [] ∨ d.sites = [] ∨ c = d := by
  have he : c.sites = d.sites ↔ c = d := ⟨eq_of_sites, fun h => h ▸ rfl⟩
  simp [same, he, or_assoc]

theorem same_of_ne_nil [DecidableEq N] {c d : CallString N K} (h : c.same d = true)
    (hc : c.sites ≠ []) (hd : d.sites ≠ []) : c = d := by
  rcases same_iff.mp h with h | h | h
  · exact absurd h hc
  · exact absurd h hd
  · exact h

theorem same_of_bound_zero [DecidableEq N] (c d : CallString N 0) : c.same d = true :=
  same_iff.mpr (Or.inl (List.eq_nil_of_length_eq_zero (Nat.le_zero.mp c.length_le)))

instance lawful [DecidableEq N] [Ord N] [Described N] :
    (kind : ContextKind N D (CallString N K)).Lawful where
  same_refl _ := same_iff.mpr (Or.inr (Or.inr rfl))
  same_symm h := by
    rcases same_iff.mp h with h | h | h
    · exact same_iff.mpr (Or.inr (Or.inl h))
    · exact same_iff.mpr (Or.inl h)
    · exact same_iff.mpr (Or.inr (Or.inr h.symm))

theorem unambiguous [DecidableEq N] [Ord N] [Described N] {c : CallString N K}
    (h : c.sites ≠ [] ∨ K = 0) : (kind : ContextKind N D (CallString N K)).Unambiguous c := by
  intro c₁ c₂ h₁ h₂
  rcases h with h | h
  · rcases same_iff.mp h₁ with h₁ | h₁ | rfl
    · exact same_iff.mpr (Or.inl h₁)
    · exact absurd h₁ h
    · exact lawful.same_symm h₂
  · subst h
    exact same_of_bound_zero c₁ c₂

end CallString

namespace Arguments

theorem same_iff [DecidableEq D] {c d : Arguments D} :
    c.same d = true ↔ c.current = d.current := decide_eq_true_iff

instance lawful [DecidableEq D] [EmptyCollection D] [Ord D] [Described D] :
    (kind : ContextKind N D (Arguments D)).Lawful where
  same_refl _ := same_iff.mpr rfl
  same_symm h := same_iff.mpr (same_iff.mp h).symm

variable {κ ν : Type} [Ord κ] [Std.TransOrd κ] [DecidableEq κ] [DecidableEq ν] [Ord ν]
variable [Described κ] [Described ν]

instance lawful_selecting {ids : N → N → List κ} :
    (selectingKind ids : ContextKind N (OrdMap κ ν) (Arguments (OrdMap κ ν))).Lawful where
  same_refl _ := same_iff.mpr rfl
  same_symm h := same_iff.mpr (same_iff.mp h).symm

end Arguments

namespace EitherContext

instance lawful {K : Nat} [DecidableEq N] [Ord N] [Described N] [DecidableEq D] [EmptyCollection D]
    [Ord D] [Described D] : (kind : ContextKind N D (EitherContext N D K)).Lawful where
  same_refl c := by
    cases c with
    | callString c => exact CallString.same_iff.mpr (Or.inr (Or.inr rfl))
    | arguments c => exact Arguments.same_iff.mpr rfl
  same_symm {c d} h := by
    cases c with
    | callString c =>
        cases d with
        | callString d => exact CallString.lawful (D := D).same_symm h
        | arguments d => exact absurd h Bool.false_ne_true
    | arguments c =>
        cases d with
        | callString d => exact absurd h Bool.false_ne_true
        | arguments d => exact Arguments.lawful (N := N).same_symm h

end EitherContext

structure Icfg.Agrees (g : Icfg N M) : Prop where
  functionOf_start : ∀ {m n}, n ∈ g.starts m → g.functionOf n = m
  functionOf_exit : ∀ {m n}, n ∈ g.exits m → g.functionOf n = m

structure Icfg.Procedural (g : Icfg N M) : Prop extends g.Agrees where
  start_unique : ∀ {m n n'}, n ∈ g.starts m → n' ∈ g.starts m → n = n'
  functionOf_succ : ∀ {n n'}, n' ∈ g.succs n → g.functionOf n' = g.functionOf n
  functionOf_returnSite : ∀ {n n'}, n' ∈ g.returnSites n → g.functionOf n' = g.functionOf n
  mem_exits : ∀ {n}, g.isExit n = true → n ∈ g.exits (g.functionOf n)
  isCall_of_isExit : ∀ {n}, g.isExit n = true → g.isCall n = false

end Interproc
