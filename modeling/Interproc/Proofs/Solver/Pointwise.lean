import Interproc.Ordered.Set
import Interproc.Proofs.Solver.Bound
import Interproc.Solver.Results

namespace Interproc

open Solver

variable {N M α S E : Type} [Ord α]

def Pointwise (f : OrdSet α → OrdSet α) : Prop :=
  ∃ (gen : α → Prop) (rel : α → α → Prop), ∀ d x, x ∈ f d ↔ gen x ∨ ∃ y ∈ d, rel y x

def Problem.Carried (p : Problem N M (OrdSet α) S E) (g : Icfg N M) (n : N) (d : OrdSet α) : Prop :=
  ∃ n₀ d₀ stack, (n₀, d₀) ∈ p.seeds ∧ Walk g p n₀ d₀ stack n d

theorem Walk.carried {g : Icfg N M} {p : Problem N M (OrdSet α) S E} {n₀ n : N}
    {d₀ d : OrdSet α} {stack : List N} (hd₀ : p.Carried g n₀ d₀)
    (h : Walk g p n₀ d₀ stack n d) : p.Carried g n d := by
  obtain ⟨n₁, d₁, stack', hseed, hwalk⟩ := hd₀
  exact ⟨n₁, d₁, stack ++ stack', hseed, hwalk.append h⟩

def Covered (P : OrdSet α → Prop) (d : OrdSet α) : Prop := (∃ e, P e) ∧ ∀ x ∈ d, ∃ e, P e ∧ x ∈ e

namespace Covered

variable {P Q : OrdSet α → Prop} {d : OrdSet α}

theorem of_mem (h : P d) : Covered P d := ⟨⟨d, h⟩, fun _ hx => ⟨d, h, hx⟩⟩

theorem bind (h : Covered P d) (hPQ : ∀ e, P e → Covered Q e) : Covered Q d := by
  obtain ⟨⟨e, he⟩, hall⟩ := h
  refine ⟨(hPQ e he).1, fun x hx => ?_⟩
  obtain ⟨e, he, hxe⟩ := hall x hx
  exact (hPQ e he).2 x hxe

theorem imp (h : Covered P d) (hPQ : ∀ e, P e → Q e) : Covered Q d :=
  h.bind (fun e he => of_mem (hPQ e he))

theorem map {f : OrdSet α → OrdSet α} (hf : Pointwise f) (h : Covered P d)
    (hPQ : ∀ e, P e → Q (f e)) : Covered Q (f d) := by
  obtain ⟨gen, rel, hflow⟩ := hf
  obtain ⟨⟨e, he⟩, hall⟩ := h
  refine ⟨⟨f e, hPQ e he⟩, fun x hx => ?_⟩
  rcases (hflow d x).mp hx with hgen | ⟨y, hy, hrel⟩
  · exact ⟨f e, hPQ e he, (hflow e x).mpr (Or.inl hgen)⟩
  · obtain ⟨e', he', hye'⟩ := hall y hy
    exact ⟨f e', hPQ e' he', (hflow e' x).mpr (Or.inr ⟨y, hye', hrel⟩)⟩

end Covered

theorem Pointwise.isSubset [DecidableEq α] {f : OrdSet α → OrdSet α} (hf : Pointwise f)
    {d d' : OrdSet α} (h : d.isSubset d' = true) : (f d).isSubset (f d') = true := by
  obtain ⟨gen, rel, hflow⟩ := hf
  refine OrdSet.isSubset_iff.mpr (fun x hx => (hflow d' x).mpr ?_)
  rcases (hflow d x).mp hx with hgen | ⟨y, hy, hrel⟩
  · exact Or.inl hgen
  · exact Or.inr ⟨y, OrdSet.isSubset_iff.mp h y hy, hrel⟩

variable [Std.TransOrd α] [Std.LawfulEqOrd α]

theorem Covered.union {P : OrdSet α → Prop} {d d' : OrdSet α} (h : Covered P d)
    (h' : Covered P d') : Covered P (d.union d') := by
  refine ⟨h.1, fun x hx => ?_⟩
  rcases OrdSet.mem_union.mp hx with hx | hx
  · exact h.2 x hx
  · exact h'.2 x hx

variable [DecidableEq α]

structure Problem.Pointwise (p : Problem N M (OrdSet α) S E) : Prop where
  bottom_eq : p.bottom = ∅
  join_eq : p.join = OrdSet.union
  le_eq : p.le = OrdSet.isSubset
  normal : ∀ n, Interproc.Pointwise (p.normal n)
  call : ∀ n m, Interproc.Pointwise (p.call n m)
  ret : ∀ n m x, Interproc.Pointwise (p.ret n m x)
  bypass : ∀ n n', Interproc.Pointwise (p.bypass n n')

namespace Problem.Pointwise

variable {p : Problem N M (OrdSet α) S E}

theorem ordered (hp : p.Pointwise) : p.Ordered where
  le_refl _ := by
    rw [hp.le_eq]
    exact OrdSet.isSubset_iff.mpr (fun _ hx => hx)
  le_trans h h' := by
    rw [hp.le_eq] at h h' ⊢
    exact OrdSet.isSubset_iff.mpr
      (fun x hx => OrdSet.isSubset_iff.mp h' x (OrdSet.isSubset_iff.mp h x hx))
  le_join_left _ _ := by
    rw [hp.le_eq, hp.join_eq]
    exact OrdSet.isSubset_iff.mpr (fun _ hx => OrdSet.mem_union.mpr (Or.inl hx))
  le_join_right _ _ := by
    rw [hp.le_eq, hp.join_eq]
    exact OrdSet.isSubset_iff.mpr (fun _ hx => OrdSet.mem_union.mpr (Or.inr hx))

theorem joinsLeast (hp : p.Pointwise) : p.JoinsLeast := by
  intro d e f hd he
  rw [hp.le_eq, OrdSet.isSubset_iff] at hd he ⊢
  rw [hp.join_eq]
  exact fun x hx => (OrdSet.mem_union.mp hx).elim (hd x) (he x)

theorem monotone (hp : p.Pointwise) : p.Monotone where
  normal h := by
    rw [hp.le_eq] at h ⊢
    exact (hp.normal _).isSubset h
  call h := by
    rw [hp.le_eq] at h ⊢
    exact (hp.call _ _).isSubset h
  ret h := by
    rw [hp.le_eq] at h ⊢
    exact (hp.ret _ _ _).isSubset h
  bypass h := by
    rw [hp.le_eq] at h ⊢
    exact (hp.bypass _ _).isSubset h

end Problem.Pointwise

/-- What `Φ` says of facts holds of those that flow along an edge when it holds of those they come
from. It may refer to the facts with `V`, which the latter are among. -/
structure Problem.Explains (p : Problem N M (OrdSet α) S E)
    (Φ : (N → OrdSet α → Prop) → α → Prop) : Prop where
  mono : ∀ {V W x}, (∀ n d, V n d → W n d) → Φ V x → Φ W x
  seed : ∀ {V n d}, (n, d) ∈ p.seeds → ∀ x ∈ d, Φ V x
  pass : ∀ {V n d}, V n d → (∀ x ∈ d, Φ V x) → ∀ x ∈ p.normal n d, Φ V x
  bypass : ∀ {V n n' d}, V n d → (∀ x ∈ d, Φ V x) → ∀ x ∈ p.bypass n n' d, Φ V x
  enter : ∀ {V n m d}, V n d → (∀ x ∈ d, Φ V x) → ∀ x ∈ p.call n m d, Φ V x
  leave : ∀ {V site m n d}, V n d → (∀ x ∈ d, Φ V x) → ∀ x ∈ p.ret site m n d, Φ V x

theorem Walk.covered {g : Icfg N M} {p : Problem N M (OrdSet α) S E} (hp : p.Pointwise)
    {P : OrdSet α → Prop} {n₀ n : N} {d₀ d : OrdSet α} {stack : List N} (hd₀ : Covered P d₀)
    (h : Walk g p n₀ d₀ stack n d) :
    Covered (fun e => ∃ e₀, P e₀ ∧ Walk g p n₀ e₀ stack n e) d := by
  induction h with
  | start => exact hd₀.imp (fun e he => ⟨e, he, .start⟩)
  | pass _ hcall hexit hn ih =>
      exact ih.map (hp.normal _) (fun _ ⟨e₀, he₀, hwalk⟩ => ⟨e₀, he₀, hwalk.pass hcall hexit hn⟩)
  | bypass _ hcall hn ih =>
      exact ih.map (hp.bypass _ _) (fun _ ⟨e₀, he₀, hwalk⟩ => ⟨e₀, he₀, hwalk.bypass hcall hn⟩)
  | enter _ hcall hm hentry ih =>
      exact ih.map (hp.call _ _)
        (fun _ ⟨e₀, he₀, hwalk⟩ => ⟨e₀, he₀, hwalk.enter hcall hm hentry⟩)
  | leave _ hcall hexit hn ih =>
      exact ih.map (hp.ret _ _ _)
        (fun _ ⟨e₀, he₀, hwalk⟩ => ⟨e₀, he₀, hwalk.leave hcall hexit hn⟩)

theorem Walk.covered_carried {g : Icfg N M} {p : Problem N M (OrdSet α) S E} (hp : p.Pointwise)
    {n₀ n : N} {d₀ d : OrdSet α} {stack : List N} (hd₀ : Covered (p.Carried g n₀) d₀)
    (h : Walk g p n₀ d₀ stack n d) : Covered (p.Carried g n) d :=
  (h.covered hp hd₀).imp (fun _ ⟨_, he₀, hwalk⟩ => hwalk.carried he₀)

namespace Analysis

variable {C : Type} [Ord N] [Ord M]
variable {a : Analysis N M (OrdSet α) C S E} {s : State N M (OrdSet α) C S E}

theorem mem_factsAt (hp : a.problem.Pointwise) {n : N} {x : α} :
    x ∈ a.factsAt s n ↔ ∃ c d, (c, d) ∈ s.entriesAt n ∧ x ∈ d := by
  have hfold : ∀ (es : List (C × OrdSet α)) (d₀ : OrdSet α),
      x ∈ es.foldl (fun d e => a.problem.join d e.2) d₀ ↔ x ∈ d₀ ∨ ∃ e ∈ es, x ∈ e.2 := by
    intro es
    induction es with
    | nil => simp
    | cons e es ih =>
        intro d₀
        rw [List.foldl_cons, ih, hp.join_eq, OrdSet.mem_union, or_assoc]
        simp
  rw [factsAt, hfold, hp.bottom_eq]
  simp

section Explain

variable [Std.TransOrd N] [Std.LawfulEqOrd N] [DecidableEq N]
variable {Φ : (N → OrdSet α → Prop) → α → Prop} {t : State N M (OrdSet α) C S E}

variable (a) in
abbrev Explained (Φ : (N → OrdSet α → Prop) → α → Prop) (s t : State N M (OrdSet α) C S E) : Prop :=
  Supported (fun _ _ d => ∀ x ∈ d, Φ (a.Below t) x) (fun _ => True) s

theorem Explained.joinInto (hp : a.problem.Pointwise) (h : a.Explained Φ s t) {n : N} {c : C}
    {d : OrdSet α} (hd : ∀ x ∈ d, Φ (a.Below t) x) : a.Explained Φ (a.joinInto n c d s) t := by
  refine Supported.joinInto h (fun hd' _ x hx => ?_) hd
  rw [hp.join_eq] at hx
  exact (OrdSet.mem_union.mp hx).elim (hd' x) (hd x)

variable [Std.TransOrd M] [Std.LawfulEqOrd M] [DecidableEq M] [a.contexts.Lawful]

theorem Move.explained (hp : a.problem.Pointwise) (hΦ : a.problem.Explains Φ) {n : N} {c : C}
    {d : OrdSet α} (h : a.Amid (fun s => a.Explained Φ s s) n c d s) (hmove : a.Move n c d s t) :
    a.Explained Φ t t := by
  have hgrows := hmove.grows hp.ordered
  have hbelow : ∀ {s₀}, a.Grows s₀ t → ∀ m e, a.Below s₀ m e → a.Below t m e :=
    fun hgrows _ _ => Below.mono hp.ordered hgrows
  have hkept : a.Explained Φ s t :=
    ⟨fun he x hx => hΦ.mono (hbelow hgrows) (h.kept.entries he x hx), fun _ => trivial⟩
  have hvisited : a.Below t n d := .mono hp.ordered hgrows ⟨c, h.includes hp.ordered⟩
  have hd : ∀ x ∈ d, Φ (a.Below t) x := by
    obtain ⟨s₀, hs₀, _, hd, hbegan⟩ := h.began
    exact fun x hx => hΦ.mono (hbelow (hbegan.trans hp.ordered hgrows)) (hs₀.entries hd x hx)
  cases hmove with
  | quiet hquiet => exact hkept.congr hquiet.table hquiet.calls
  | requeue => exact hkept.congr rfl rfl
  | remember => exact hkept.congr rfl rfl
  | pass => exact hkept.joinInto hp (hΦ.pass hvisited hd)
  | bypass => exact hkept.joinInto hp (hΦ.bypass hvisited hd)
  | enter => exact Explained.joinInto hp (hkept.recordCall trivial) (hΦ.enter hvisited hd)
  | leave => exact hkept.joinInto hp (hΦ.leave hvisited hd)

theorem kept_explained (hp : a.problem.Pointwise) (hΦ : a.problem.Explains Φ) {x : S} :
    a.Kept x (fun s => a.Explained Φ s s) where
  fresh htable hcalls _ := supported_fresh htable hcalls
  congr {s t} h htable hcalls _ := by
    have ht := h.congr htable hcalls
    exact ⟨fun he x hx => hΦ.mono (fun _ _ => .congr htable) (ht.entries he x hx), fun _ => trivial⟩
  seed {s n d} h hd := by
    have hbelow : ∀ m e, a.Below s m e → a.Below (a.joinInto n a.initial d s) m e :=
      fun _ _ => Below.mono hp.ordered (grows_joinInto hp.ordered)
    refine Explained.joinInto hp ⟨fun he x hx => ?_, fun _ => trivial⟩ (hΦ.seed hd)
    exact hΦ.mono hbelow (h.entries he x hx)
  move h hmove := hmove.explained hp hΦ h

theorem Moment.explained (hp : a.problem.Pointwise) (hΦ : a.problem.Explains Φ) {x : S}
    (h : a.Moment x s) {n : N} {c : C} {d : OrdSet α} (hd : (c, d) ∈ s.entriesAt n) :
    ∀ y ∈ d, Φ (a.Below s) y :=
  ((kept_explained hp hΦ).moment hp.ordered h).entries hd

end Explain

variable [Std.TransOrd N] [Std.LawfulEqOrd N] [DecidableEq N] [Std.TransOrd M] [Std.LawfulEqOrd M]
variable [DecidableEq M] [a.contexts.Lawful]

theorem Solved.carried_subset (hp : a.problem.Pointwise) (hg : a.graph.Procedural)
    (hseeds : a.problem.SeedsEntries a.graph) (h : a.Solved s) (hs : s.finished = true) {n : N}
    {d : OrdSet α} (hd : a.problem.Carried a.graph n d) :
    (d.isSubset (a.factsAt s n)) = true := by
  obtain ⟨n₀, d₀, stack, hseed, hwalk⟩ := hd
  obtain ⟨c, d', hd', hle, _⟩ := h.covers_walk hp.ordered hp.monotone hg hseeds hs hseed hwalk
  rw [hp.le_eq] at hle
  refine OrdSet.isSubset_iff.mpr (fun x hx => (mem_factsAt hp).mpr ⟨c, d', hd', ?_⟩)
  exact OrdSet.isSubset_iff.mp hle x hx

theorem Solved.mem_factsAt_iff (hp : a.problem.Pointwise) (hg : a.graph.Procedural)
    (hseeds : a.problem.SeedsEntries a.graph) (h : a.Solved s) (hs : s.finished = true)
    (hcovered : ∀ {n c d}, (c, d) ∈ s.entriesAt n → Covered (a.problem.Carried a.graph n) d)
    {n : N} {x : α} :
    x ∈ a.factsAt s n ↔ ∃ d, a.problem.Carried a.graph n d ∧ x ∈ d := by
  constructor
  · intro hx
    obtain ⟨c, d, hd, hx⟩ := (mem_factsAt hp).mp hx
    exact (hcovered hd).2 x hx
  · rintro ⟨d, hd, hx⟩
    exact OrdSet.isSubset_iff.mp (h.carried_subset hp hg hseeds hs hd) x hx

end Analysis

end Interproc
