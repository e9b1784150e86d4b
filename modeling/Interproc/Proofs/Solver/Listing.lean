import Interproc.Proofs.Ordered.Comparison
import Interproc.Proofs.Solver.Orderly
import Mathlib.Data.List.Induction

namespace Interproc

open Solver

variable {N M D C S E : Type}

namespace ContextKind

inductive Stems (k : ContextKind N D C) (c₀ : C) : C → Prop
  | start : Stems k c₀ c₀
  | enter {c} (src dest : N) (incoming : D) : Stems k c₀ c → Stems k c₀ (k.enter c src dest incoming)

structure Orders (k : ContextKind N D C) : Prop where
  asymm : ∀ {c c'}, k.before c c' = true → k.before c' c = false
  trans : ∀ {c c' c''}, k.before c c' = true → k.before c' c'' = true → k.before c c'' = true
  total : ∀ {c₀ c c'}, k.Stems c₀ c → k.Stems c₀ c' → k.same c c' = false →
    k.before c c' = true ∨ k.before c' c = true

end ContextKind

section Kinds

section Compare

variable {α : Type} [Ord α] [Std.TransOrd α]

theorem compare_lt_asymm {x y : α} (h : compare x y = .lt) : ¬ compare y x = .lt := by
  rw [Std.OrientedCmp.gt_of_lt h]
  exact Ordering.noConfusion

theorem compare_lt_total [Std.LawfulEqOrd α] {x y : α} (h : x ≠ y) :
    compare x y = .lt ∨ compare y x = .lt := by
  cases hxy : compare x y with
  | lt => exact Or.inl rfl
  | eq => exact absurd (Std.LawfulEqCmp.eq_of_compare hxy) h
  | gt => exact Or.inr (Std.OrientedCmp.lt_of_gt hxy)

end Compare

namespace CallString

variable {K : Nat} [Ord N]

theorem before_iff {c d : CallString N K} :
    c.before d = true ↔ c.sites ≠ [] ∧ d.sites ≠ [] ∧ compare c.sites d.sites = .lt := by
  simp [before, and_assoc]

variable [DecidableEq N] [Std.TransOrd N] [Std.LawfulEqOrd N]

theorem before_total {c d : CallString N K} (hdiffer : c.same d = false) :
    c.before d = true ∨ d.before c = true := by
  have hsame : ¬ (c.sites = [] ∨ d.sites = [] ∨ c = d) := fun h =>
    Bool.eq_false_iff.mp hdiffer (same_iff.mpr h)
  simp only [not_or] at hsame
  obtain ⟨hc, hd, hne⟩ := hsame
  refine (compare_lt_total (fun heq => hne (eq_of_sites heq))).imp ?_ ?_
  · exact fun h => before_iff.mpr ⟨hc, hd, h⟩
  · exact fun h => before_iff.mpr ⟨hd, hc, h⟩

variable [Described N]

theorem orders : (kind : ContextKind N D (CallString N K)).Orders where
  asymm {c d} h := by
    obtain ⟨_, _, hlt⟩ := before_iff.mp h
    exact Bool.eq_false_iff.mpr (fun h' => compare_lt_asymm hlt (before_iff.mp h').2.2)
  trans h h' := by
    obtain ⟨hc, _, hlt⟩ := before_iff.mp h
    obtain ⟨_, hd, hlt'⟩ := before_iff.mp h'
    exact before_iff.mpr ⟨hc, hd, Std.TransCmp.lt_trans hlt hlt'⟩
  total _ _ := before_total

end CallString

namespace Arguments

variable [Ord D]

theorem before_iff {c d : Arguments D} :
    c.before d = true ↔ compare c.current d.current = .lt := by
  simp [before]

variable [DecidableEq D] [Std.TransOrd D] [Std.LawfulEqOrd D]

theorem before_total {c d : Arguments D} (hdiffer : c.same d = false) :
    c.before d = true ∨ d.before c = true := by
  rw [before_iff, before_iff]
  exact compare_lt_total (fun heq => Bool.eq_false_iff.mp hdiffer (same_iff.mpr heq))

theorem orders_of_compare {k : ContextKind N D (Arguments D)} (hbefore : k.before = before)
    (hsame : k.same = same) : k.Orders where
  asymm {c d} h := by
    rw [hbefore] at h ⊢
    exact Bool.eq_false_iff.mpr (fun h' => compare_lt_asymm (before_iff.mp h) (before_iff.mp h'))
  trans h h' := by
    rw [hbefore] at h h' ⊢
    exact before_iff.mpr (Std.TransCmp.lt_trans (before_iff.mp h) (before_iff.mp h'))
  total _ _ hdiffer := by
    rw [hbefore]
    exact before_total (hsame ▸ hdiffer)

end Arguments

namespace EitherContext

variable {K : Nat} {c c' : EitherContext N D K}

theorem alike_cases (h : c.alike c' = true) :
    (∃ d d', c = callString d ∧ c' = callString d') ∨
      ∃ d d', c = arguments d ∧ c' = arguments d' := by
  cases c with
  | callString d =>
      cases c' with
      | callString d' => exact Or.inl ⟨d, d', rfl, rfl⟩
      | arguments d' => exact absurd h Bool.false_ne_true
  | arguments d =>
      cases c' with
      | callString d' => exact absurd h Bool.false_ne_true
      | arguments d' => exact Or.inr ⟨d, d', rfl, rfl⟩

theorem alike_of_before [Ord N] [Ord D] (h : c.before c' = true) : c.alike c' = true := by
  cases c <;> cases c' <;> first | rfl | exact absurd h Bool.false_ne_true

variable [Ord N] [DecidableEq N] [Described N]
variable [Ord D] [DecidableEq D] [Described D] [EmptyCollection D]

theorem alike_of_stems {c₀ : EitherContext N D K} (h : kind.Stems c₀ c) : c₀.alike c = true := by
  induction h with
  | start => cases c₀ <;> rfl
  | @enter c src dest incoming _ ih =>
      rcases alike_cases ih with ⟨_, _, rfl, rfl⟩ | ⟨_, _, rfl, rfl⟩ <;> rfl

variable [Std.TransOrd N] [Std.LawfulEqOrd N] [Std.TransOrd D] [Std.LawfulEqOrd D]

theorem orders : (kind : ContextKind N D (EitherContext N D K)).Orders where
  asymm h := by
    rcases alike_cases (alike_of_before h) with ⟨c, c', rfl, rfl⟩ | ⟨c, c', rfl, rfl⟩
    · exact (CallString.orders (D := D)).asymm h
    · exact (Arguments.orders_of_compare (k := Arguments.kind (N := N)) rfl rfl).asymm h
  trans h h' := by
    rcases alike_cases (alike_of_before h) with ⟨c, c', rfl, rfl⟩ | ⟨c, c', rfl, rfl⟩
    · rcases alike_cases (alike_of_before h') with ⟨_, c'', heq, rfl⟩ | ⟨_, _, heq, _⟩
      · exact (CallString.orders (D := D)).trans h h'
      · exact nomatch heq
    · rcases alike_cases (alike_of_before h') with ⟨_, _, heq, _⟩ | ⟨_, c'', heq, rfl⟩
      · exact nomatch heq
      · exact (Arguments.orders_of_compare (k := Arguments.kind (N := N)) rfl rfl).trans h h'
  total {c₀ c c'} h h' hdiffer := by
    rcases alike_cases (alike_of_stems h) with ⟨c₀, c, rfl, rfl⟩ | ⟨c₀, c, rfl, rfl⟩
    · rcases alike_cases (alike_of_stems h') with ⟨_, c', _, rfl⟩ | ⟨_, _, heq, _⟩
      · exact CallString.before_total hdiffer
      · exact nomatch heq
    · rcases alike_cases (alike_of_stems h') with ⟨_, _, heq, _⟩ | ⟨_, c', _, rfl⟩
      · exact nomatch heq
      · exact Arguments.before_total hdiffer

end EitherContext

end Kinds

namespace Analysis

section Sorting

variable (a : Analysis N M D C S E)

def Ascends (es : List (C × D)) : Prop :=
  es.Pairwise (fun e e' => a.contexts.before e.1 e'.1 = true)

def Comparable (e e' : C × D) : Prop :=
  a.contexts.before e.1 e'.1 = true ∨ a.contexts.before e'.1 e.1 = true

variable {a}

theorem arrange_ascends (hk : a.contexts.Orders) {e : C × D} {es : List (C × D)}
    (hes : ∀ e' ∈ es, a.Comparable e' e) (h : a.Ascends es) : a.Ascends (a.arrange e es) := by
  induction es with
  | nil => exact List.pairwise_singleton ..
  | cons x xs ih =>
      obtain ⟨hx, hxs⟩ := List.pairwise_cons.mp h
      simp only [arrange]
      split
      · rename_i hbefore
        refine List.pairwise_cons.mpr ⟨fun y hy => ?_, h⟩
        rcases List.mem_cons.mp hy with rfl | hy
        · exact hbefore
        · exact hk.trans hbefore (hx y hy)
      · rename_i hbefore
        have hafter := (hes x (List.mem_cons_self ..)).resolve_right hbefore
        refine List.pairwise_cons.mpr ⟨fun y hy => ?_,
          ih (fun e' he' => hes e' (List.mem_cons_of_mem _ he')) hxs⟩
        rcases List.mem_cons.mp ((arrange_perm e xs).mem_iff.mp hy) with rfl | hy
        · exact hafter
        · exact hx y hy

theorem ordered_ascends (hk : a.contexts.Orders) {es : List (C × D)}
    (h : es.Pairwise a.Comparable) : a.Ascends (a.ordered es) := by
  induction es using List.reverseRecOn with
  | nil => exact List.Pairwise.nil
  | append_singleton es e ih =>
      obtain ⟨hes, _, he⟩ := List.pairwise_append.mp h
      have hstep : a.ordered (es ++ [e]) = a.arrange e (a.ordered es) := by
        simp [ordered]
      rw [hstep]
      refine arrange_ascends hk (fun e' he' => ?_) (ih hes)
      exact he e' ((ordered_perm es).mem_iff.mp he') e (List.mem_singleton_self e)

end Sorting

section Stemmed

variable [Ord N] [Ord M] (a : Analysis N M D C S E)

def Stemmed (s : State N M D C S E) : Prop :=
  ∀ n c, s.Tracks n c → a.contexts.Stems a.initial c

variable {a} {s t : State N M D C S E} {n : N} {c : C} {d : D}

theorem Stemmed.congr (h : a.Stemmed s) (htable : t.table = s.table) : a.Stemmed t :=
  fun n c hc => h n c ((State.tracks_congr htable).mp hc)

variable [Std.TransOrd N] [Std.LawfulEqOrd N] [DecidableEq N]

theorem Stemmed.joinInto (h : a.Stemmed s) (hc : a.contexts.Stems a.initial c) :
    a.Stemmed (a.joinInto n c d s) := by
  rintro m c' ⟨d', hd'⟩
  rcases mem_entriesAt_joinInto hd' with hold | ⟨_, _, ⟨e, he, _⟩ | ⟨_, heq⟩⟩
  · exact h m c' ⟨d', hold⟩
  · exact h n c' ⟨e, he⟩
  · obtain ⟨rfl, _⟩ := Prod.mk.inj heq
    exact hc

variable [Std.TransOrd M]

theorem Move.stemmed (h : a.Stemmed s) (hc : s.Tracks n c)
    (hcallers : ∀ {m r}, r ∈ s.callsInto m → s.Tracks r.site r.caller)
    (hmove : a.Move n c d s t) : a.Stemmed t := by
  cases hmove with
  | quiet hquiet => exact h.congr hquiet.table
  | requeue => exact h.congr rfl
  | remember => exact h.congr rfl
  | pass => exact h.joinInto (h n c hc)
  | bypass => exact h.joinInto (h n c hc)
  | @enter m entry c' _ _ _ hadopts =>
      refine (h.congr (recordCall_table _)).joinInto ?_
      rcases hadopts with ⟨_, rfl⟩ | ⟨htracks, _⟩
      · exact (h n c hc).enter n entry _
      · exact h entry c' htracks
  | leave _ _ hr => exact h.joinInto (h _ _ (hcallers hr))

variable [Std.LawfulEqOrd M] [DecidableEq M] [a.contexts.Lawful]

theorem Varied.stemmed (hp : a.problem.Ordered) (h : a.Varied s) : a.Stemmed s := by
  induction h with
  | fresh x =>
      rintro n c ⟨d, hd⟩
      simp at hd
  | seed _ ih => exact ih.joinInto .start
  | quiet _ htable _ _ ih => exact ih.congr htable
  | dequeue _ _ ih => exact ih.congr rfl
  | @move s t n c d p hvaried hc _ _ hmove ih =>
      have htabled := (hvaried.tabled hp).1
      -- how contexts come about does not depend on the flows
      exact Move.stemmed (a := { a with problem := p }) ih hc
        (fun hr => (htabled.recorded hr).2.1) hmove

end Stemmed

section Listed

variable [Ord N] [Std.TransOrd N] [DecidableEq N] [Ord M] [Std.TransOrd M]
variable (a : Analysis N M D C S E)

structure Lists (s : State N M D C S E) (n : N) : Prop where
  complete : (a.resultsAt s n).Perm (s.entriesAt n)
  once : (a.contextsAt s n).Nodup
  ascending : (a.resultsAt s n).Pairwise (fun e e' =>
    a.contexts.before e.1 e'.1 = true ∧ a.contexts.before e'.1 e.1 = false)

structure Listed : Prop where
  solved : ∀ {x s}, a.SolvedFrom x s → ∀ n, a.Lists s n ∧ ∀ fuel, a.Lists (a.solve fuel s).1 n
  moment : ∀ {x s}, a.Moment x s → ∀ n, a.Lists s n
  varied : ∀ {s}, a.Varied s → ∀ n, a.Lists s n

variable {a} [Std.LawfulEqOrd N] [Std.LawfulEqOrd M] [DecidableEq M] [a.contexts.Lawful]

theorem Varied.lists (hk : a.contexts.Orders) (hp : a.problem.Ordered) {s : State N M D C S E}
    (hs : a.Varied s) (n : N) : a.Lists s n := by
  have hcomparable : (s.entriesAt n).Pairwise a.Comparable := by
    refine ((hs.tabled hp).1.distinct n).imp_of_mem (fun {e e'} he he' hdiffer => ?_)
    exact hk.total (hs.stemmed hp n e.1 ⟨e.2, he⟩) (hs.stemmed hp n e'.1 ⟨e'.2, he'⟩) hdiffer
  have hascends : a.Ascends (a.resultsAt s n) := ordered_ascends hk hcomparable
  refine ⟨ordered_perm _, ?_, hascends.imp (fun h => ⟨h, hk.asymm h⟩)⟩
  refine List.pairwise_map.mpr (hascends.imp (fun {e e'} h heq => ?_))
  have hirrefl := hk.asymm h
  rw [heq] at h hirrefl
  exact absurd (h.symm.trans hirrefl) (by decide)

theorem listed_of_orders (hk : a.contexts.Orders) (hp : a.problem.Ordered) : a.Listed where
  solved h n := ⟨((h.moment hp).varied hp).lists hk hp n,
    fun fuel => ((h.moment_solve hp fuel).varied hp).lists hk hp n⟩
  moment h := (h.varied hp).lists hk hp
  varied h := h.lists hk hp

end Listed

section Kinds

variable [Ord N] [Std.TransOrd N] [Std.LawfulEqOrd N] [DecidableEq N] [Described N]
variable [Ord M] [Std.TransOrd M] [Std.LawfulEqOrd M] [DecidableEq M]

theorem entries_listed (g : Icfg N M) (limits : Limits) :
    (∀ {D} (p : Problem N M D S E), p.Ordered → ∀ {K} (c : CallString N K),
      (⟨g, p, CallString.kind, c, limits⟩ : Analysis N M D _ S E).Listed) ∧
    (∀ {D} [Ord D] [Std.TransOrd D] [Std.LawfulEqOrd D] [DecidableEq D] [EmptyCollection D]
        [Described D] (p : Problem N M D S E), p.Ordered →
      (∀ c : Arguments D,
        (⟨g, p, Arguments.kind, c, limits⟩ : Analysis N M D _ S E).Listed) ∧
      ∀ {K} (c : EitherContext N D K),
        (⟨g, p, EitherContext.kind, c, limits⟩ : Analysis N M D _ S E).Listed) ∧
    ∀ {κ ν} [Ord κ] [Std.TransOrd κ] [Std.LawfulEqOrd κ] [DecidableEq κ] [Described κ]
        [Ord ν] [Std.TransOrd ν] [Std.LawfulEqOrd ν] [DecidableEq ν] [Described ν]
        (p : Problem N M (OrdMap κ ν) S E), p.Ordered →
      ∀ (ids : N → N → List κ) (c : Arguments (OrdMap κ ν)),
        (⟨g, p, Arguments.selectingKind ids, c, limits⟩ : Analysis N M _ _ S E).Listed := by
  refine ⟨fun p hp K c => ?_, fun p hp => ⟨fun c => ?_, fun c => ?_⟩, fun p hp ids c => ?_⟩
  · exact listed_of_orders CallString.orders hp
  · exact listed_of_orders (Arguments.orders_of_compare rfl rfl) hp
  · exact listed_of_orders EitherContext.orders hp
  · exact listed_of_orders (Arguments.orders_of_compare rfl rfl) hp

end Kinds

end Analysis

namespace Graph

def descending : Graph Int where
  methods := #[⟨"main", [9], [1]⟩, ⟨"f", [20], [20]⟩]
  nodes := OrdMap.ofList [
    (9, ⟨0, [3], some [1], false, {}, { clear := true, gen := [8] }, {}, {}⟩),
    (3, ⟨0, [1], some [1], false, {}, { clear := true, gen := [7] }, {}, {}⟩),
    (1, ⟨0, [], none, true, {}, {}, {}, {}⟩),
    (20, ⟨1, [], none, true, {}, {}, {}, {}⟩)]

def descendingIn {C : Type} (k : ContextKind Int IntSet C) (c : C) :
    Analysis Int Nat IntSet C Unit Empty :=
  ⟨descending.icfg, descending.setProblem (OrdMap.ofList [(9, ∅)]) [], k, c, ⟨none, none⟩⟩

theorem descending_listed : (descendingIn (CallString.kind (K := 1)) ∅).problem.Ordered ∧
    (let a := descendingIn (CallString.kind (K := 1)) ∅
    let s := (a.solve 30 (.initial ())).1
    (s.entriesAt 20).map (fun e => e.1.sites) = [[9], [3]] ∧
      (a.contextsAt s 20).map CallString.sites = [[3], [9]] ∧ a.Lists s 20) ∧
    let a := descendingIn Arguments.kind ∅
    let s := (a.solve 30 (.initial ())).1
    (s.entriesAt 20).map (fun e => e.1.current.elements) = [[8], [7]] ∧
      (a.contextsAt s 20).map (fun c => c.current.elements) = [[7], [8]] ∧ a.Lists s 20 :=
  have hp : (descending.setProblem (OrdMap.ofList [(9, ∅)]) []).Ordered := setProblem_ordered ..
  have hlisted := Analysis.entries_listed (S := Unit) (E := Empty) descending.icfg ⟨none, none⟩
  ⟨hp,
    ⟨by decide +kernel, by decide +kernel,
      (((hlisted.1 _ hp (∅ : CallString Int 1)).solved .initial 20).2 30)⟩,
    by decide +kernel, by decide +kernel, ((hlisted.2.1 _ hp).1 ∅ |>.solved .initial 20).2 30⟩

end Graph

end Interproc
