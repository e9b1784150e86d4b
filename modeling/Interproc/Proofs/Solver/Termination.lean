import Interproc.Proofs.Solver.BoundedContexts
import Mathlib.Logic.Hydra

namespace Interproc

open Solver

variable {N M D C S E : Type}

theorem cutExpand_append {α : Type} {r : α → α → Prop} {x : α} {xs ys : List α}
    (h : ∀ y ∈ ys, r y x) :
    Relation.CutExpand r (Multiset.ofList (xs ++ ys)) (Multiset.ofList (x :: xs)) :=
  ⟨Multiset.ofList ys, x, h, Quot.sound (List.perm_append_singleton x (xs ++ ys))⟩

namespace Analysis

section Definitions

/-- What a visit asks for exists at every node that facts come to. -/
structure Total (g : Icfg N M) (p : Problem N M D S E) : Prop where
  node : ∀ {n d}, Arises g p n d → g.hasNode n = true
  callee : ∀ {n d m}, Arises g p n d → g.isCall n = true → m ∈ g.callees n →
    g.hasFunction m = true
  reportable : ∀ {n d r}, Arises g p n d → g.isCall n = true → r ∈ g.returnSites n →
    p.reportable n r d = true

variable [Ord N] [Std.TransOrd N] [DecidableEq N] [Ord M] [Std.TransOrd M]
variable (a : Analysis N M D C S E)

/-- From wherever calls of `solve` have led, all further calls with fuel enough end in one state, in
which nothing waits, or fail with `excuse`. -/
def EndsUnless (x : S) (excuse : Prop) : Prop :=
  ∀ s, a.SolvedFrom x s → ∃ k t r, (∀ fuel, k ≤ fuel → a.solve fuel s = (t, r)) ∧
    (r = none ∧ t.finished = true ∧ t.worklist = [] ∨ r = some .outOfRange ∧ excuse)

def Terminates (x : S) : Prop := a.EndsUnless x (¬ Total a.graph a.problem)

def Drains (x : S) : Prop := a.EndsUnless x False

end Definitions

theorem wellFounded_of_recompute {a : Analysis N M D C S E} {ns : Finset N}
    (h : ∀ m, a.problem.recompute m = false) :
    WellFounded (fun n' n => n ∈ ns ∧ a.Recalls n n') := by
  refine ⟨fun n => ⟨n, ?_⟩⟩
  rintro n' ⟨_, _, m, _, hm, _⟩
  exact absurd ((h m).symm.trans hm) Bool.false_ne_true

variable [Ord N] [Std.TransOrd N] [DecidableEq N] [Ord M] [Std.TransOrd M]
variable {a : Analysis N M D C S E} {s t : State N M D C S E}

theorem EndsUnless.mono {x : S} {excuse excuse' : Prop} (h : a.EndsUnless x excuse)
    (himp : excuse → excuse') : a.EndsUnless x excuse' := by
  intro s hs
  obtain ⟨k, t, r, hsolve, hend⟩ := h s hs
  exact ⟨k, t, r, hsolve, hend.imp_right (fun hfails => ⟨hfails.1, himp hfails.2⟩)⟩

theorem Terminates.drains {x : S} (h : a.Terminates x) (ht : Total a.graph a.problem) :
    a.Drains x := EndsUnless.mono h (fun hnot => hnot ht)

theorem Total.visit_ends (h : Total a.graph a.problem) {n : N} {d : D}
    (hd : Arises a.graph a.problem n d) (c : C) (s : State N M D C S E) :
    (a.visit n c d s).2 = true := by
  simp only [visit, h.node hd, Bool.not_true, Bool.false_eq_true, if_false, visitCall]
  cases hcall : a.graph.isCall n with
  | false =>
      simp only [Bool.false_eq_true, if_false]
      split <;> rfl
  | true =>
      have hcallees : (a.graph.callees n).all a.graph.hasFunction = true :=
        List.all_eq_true.mpr (fun _ hm => h.callee hd hcall hm)
      simp only [hcallees, if_true]
      exact List.all_eq_true.mpr (fun _ hr => h.reportable hd hcall hr)

variable [Std.LawfulEqOrd N] [Std.LawfulEqOrd M] [DecidableEq M] [a.contexts.Lawful] {x : S}
variable {ns : Finset N} {b : Nat} {V : D → Prop}

theorem Paced.run_ends (hp : a.problem.Ordered) (hheight : a.problem.FiniteHeightIn V)
    (hrecalls : WellFounded (fun n' n => n ∈ ns ∧ a.Recalls n n'))
    (hbound : ∀ s, a.Paced x s → s.Bounded ns b) (hcarries : ∀ s, a.Paced x s → s.Carries V)
    (h : a.Paced x s) : ∃ k r, (∀ fuel, k ≤ fuel → a.run fuel s = r) ∧ r.2 ≠ .paused := by
  -- a visit spends credit, or else it leaves nodes waiting that come after its own in the recalls
  have hwf := InvImage.wf
    (fun s : State N M D C S E =>
      (a.credit hheight ns b s, (Multiset.ofList (s.worklist.map Prod.fst))))
    (WellFounded.prod_lex wellFounded_lt hrecalls.cutExpand)
  induction s using hwf.induction with
  | _ s ih =>
  cases hw : s.worklist with
  | nil =>
      refine ⟨0, (s, .drained), fun fuel _ => ?_, by simp⟩
      cases fuel <;> simp [run, hw]
  | cons w rest =>
      obtain ⟨n, c⟩ := w
      obtain ⟨d, s', hd, hquiet, hvisit⟩ := step_visits (h.tabled hp).1 hw
      have hstrides : a.Strides n c d { s with worklist := rest } (a.visit n c d s').1 :=
        (visit_strides n c d s').head (.quiet hquiet)
      cases hended : a.visit n c d s' with
      | mk t ended =>
          rw [hended] at hvisit hstrides
          cases ended with
          | false =>
              refine ⟨1, (t, .failed), fun fuel hfuel => ?_, by simp⟩
              obtain ⟨fuel, rfl⟩ := Nat.exists_eq_add_of_le' hfuel
              simp only [run, hw, hvisit]
          | true =>
              have hspends : a.Spends hheight ns b n { s with worklist := rest } t :=
                h.spends hp hbound hcarries hw hd hstrides
              have hnearer : Prod.Lex (· < ·)
                  (Relation.CutExpand (fun n' n => n ∈ ns ∧ a.Recalls n n'))
                  (a.credit hheight ns b t, Multiset.ofList (t.worklist.map Prod.fst))
                  (a.credit hheight ns b s, Multiset.ofList (s.worklist.map Prod.fst)) := by
                rcases hspends.le.lt_or_eq with hlt | heq
                · exact .left _ _ hlt
                · obtain ⟨ws, hws, hrecalled⟩ := hspends.worklist heq
                  have hn : n ∈ ns := (hbound s h).nodes ⟨d, hd⟩
                  rw [heq, hws, hw, List.map_append]
                  refine .right _ (cutExpand_append (fun n' hn' => ?_))
                  obtain ⟨w, hw, rfl⟩ := List.mem_map.mp hn'
                  exact ⟨hn, hrecalled w hw⟩
              obtain ⟨k, r, hr, hended⟩ := ih t hnearer (h.visit hw hd hstrides)
              refine ⟨k + 1, r, fun fuel hfuel => ?_, hended⟩
              obtain ⟨fuel, rfl⟩ := Nat.exists_eq_add_of_le' (Nat.le_of_add_left_le hfuel)
              simp only [run, hw, hvisit]
              exact hr fuel (by omega)

theorem Paced.failing_visit (hp : a.problem.Ordered) (h : a.Paced x s) {k : Nat}
    (hfailed : (a.run k s).2 = .failed) : ∃ t n c d u, a.Paced x t ∧ (c, d) ∈ t.entriesAt n ∧
      (a.visit n c d u).2 = false := by
  induction k generalizing s with
  | zero =>
      simp only [run] at hfailed
      split at hfailed <;> simp at hfailed
  | succ k ih =>
      cases hw : s.worklist with
      | nil => simp [run, hw] at hfailed
      | cons w rest =>
          obtain ⟨d, s', hd, hquiet, hvisit⟩ := step_visits (h.tabled hp).1 hw
          cases hended : a.visit w.1 w.2 d s' with
          | mk t ended =>
              rw [hended] at hvisit
              cases ended with
              | false => exact ⟨s, w.1, w.2, d, s', h, hd, congrArg Prod.snd hended⟩
              | true =>
                  have hstrides := (visit_strides (a := a) w.1 w.2 d s').head (.quiet hquiet)
                  rw [hended] at hstrides
                  simp only [run, hw, hvisit] at hfailed
                  exact ih (h.visit hw hd hstrides) hfailed

theorem endsUnless_of_bounded {excuse : Prop} (hlimit : a.limits.maxIterations = none)
    (hp : a.problem.Ordered) (hheight : a.problem.FiniteHeightIn V)
    (hrecalls : WellFounded (fun n' n => n ∈ ns ∧ a.Recalls n n'))
    (hbound : ∀ s, a.Paced x s → s.Bounded ns b) (hcarries : ∀ s, a.Paced x s → s.Carries V)
    (hexcuse : ∀ s k, a.Paced x s → (a.run k s).2 = .failed → excuse) :
    a.EndsUnless x excuse := by
  intro s hs
  obtain ⟨s₀, hs₀, hpaced⟩ : ∃ s₀, (if s.seeded then s else a.seed s) = s₀ ∧ a.Paced x s₀ :=
    ⟨_, rfl, ReachesFrom.paced hp hs.reachesFrom_start⟩
  obtain ⟨k, ⟨t, e⟩, hrun, hended⟩ := hpaced.run_ends hp hheight hrecalls hbound hcarries
  have hnow := hrun k (Nat.le_refl k)
  have hlimited : a.outgrows s₀ = false := by simp [outgrows, hlimit]
  cases e with
  | drained =>
      refine ⟨k, { t with finished := true }.emit (.drained t.statistics), none,
        fun fuel hfuel => ?_, Or.inl ⟨rfl, rfl, (run_ranTo hnow (by simp)).drained rfl⟩⟩
      simp [solve, hs₀, hlimited, hlimit, hrun fuel hfuel]
  | paused => exact absurd rfl hended
  | failed =>
      refine ⟨k, t, some .outOfRange, fun fuel hfuel => ?_, Or.inr ⟨rfl, ?_⟩⟩
      · simp [solve, hs₀, hlimited, hlimit, hrun fuel hfuel]
      · exact hexcuse s₀ k hpaced (congrArg Prod.snd hnow)

theorem Paced.arises (hp : a.problem.Ordered) (h : a.Paced x s) {n : N} {c : C} {d : D}
    (hd : (c, d) ∈ s.entriesAt n) : Arises a.graph a.problem n d := by
  have hsupports := supports_arises (a := a) (Set.mem_univ _) (fun _ _ _ => Set.mem_univ _)
  exact ((Moment.supported hp hsupports (Or.inr h.underway)).entries hd).1

theorem Paced.not_total (hp : a.problem.Ordered) (h : a.Paced x s) {k : Nat}
    (hfailed : (a.run k s).2 = .failed) : ¬ Total a.graph a.problem := by
  intro htotal
  obtain ⟨t, n, c, d, u, ht, hd, hvisit⟩ := h.failing_visit hp hfailed
  exact absurd ((htotal.visit_ends (ht.arises hp hd) c u).symm.trans hvisit) Bool.noConfusion

theorem terminates_of_bounded (hlimit : a.limits.maxIterations = none) (hp : a.problem.Ordered)
    (hheight : a.problem.FiniteHeightIn (fun d => ∃ n, Arises a.graph a.problem n d))
    (hrecalls : WellFounded (fun n' n => n ∈ ns ∧ a.Recalls n n'))
    (hbound : ∀ s, a.Paced x s → s.Bounded ns b) : a.Terminates x :=
  endsUnless_of_bounded hlimit hp hheight hrecalls hbound (fun _ hs _ _ he => ⟨_, hs.arises hp he⟩)
    (fun _ _ hs => hs.not_total hp)

end Analysis

section Terminates

variable [Ord N] [Std.TransOrd N] [Std.LawfulEqOrd N] [DecidableEq N] [Described N]
variable [Ord M] [Std.TransOrd M] [Std.LawfulEqOrd M] [DecidableEq M]
variable {g : Icfg N M} {p : Problem N M D S E} {ns : Finset N}

theorem solve_terminates (hp : p.Ordered)
    (hheight : p.FiniteHeightIn (fun d => ∃ n, Analysis.Arises g p n d))
    (hrecompute : ∀ m, p.recompute m = false) (hns : Enclosed g p ns) (x : S) :
    (∀ (K : Nat) (initial : CallString N K) (limit : Option Nat),
      (⟨g, p, CallString.kind, initial, ⟨limit, none⟩⟩ :
        Analysis N M D (CallString N K) S E).Terminates x) ∧
    (∀ [DecidableEq D] [EmptyCollection D] [Ord D] [Described D] (K : Nat)
      (initial : CallString N K) (limit : Option Nat),
      (⟨g, p, EitherContext.kind, .callString initial, ⟨limit, none⟩⟩ :
        Analysis N M D (EitherContext N D K) S E).Terminates x) ∧
    ∀ (C : Type) (k : ContextKind N D C) [k.Lawful] (initial : C) (limit : Nat),
      (⟨g, p, k, initial, ⟨some limit, none⟩⟩ : Analysis N M D C S E).Terminates x := by
  have hfinite := fun {K} (initial : CallString N K) =>
    CallString.finite_sites (K := K) (ns.finite_toSet.union initial.sites.finite_toSet)
  refine ⟨fun K initial limit => ?_, fun K initial limit => ?_, fun C k _ initial limit => ?_⟩
  · let a : Analysis N M D (CallString N K) S E := ⟨g, p, CallString.kind, initial, ⟨limit, none⟩⟩
    have : a.contexts.Lawful := CallString.lawful
    refine Analysis.terminates_of_bounded (a := a) rfl hp hheight
      (Analysis.wellFounded_of_recompute hrecompute)
      (fun s hs => hs.bounded_of_closed hp hns (hfinite initial) (fun _ hx => Or.inr hx) ?_)
    exact fun hc hn => CallString.sites_enter_subset hc (Or.inl hn)
  · let a : Analysis N M D (EitherContext N D K) S E :=
      ⟨g, p, EitherContext.kind, .callString initial, ⟨limit, none⟩⟩
    have : a.contexts.Lawful := EitherContext.lawful
    refine Analysis.terminates_of_bounded (a := a) rfl hp hheight
      (Analysis.wellFounded_of_recompute hrecompute)
      (fun s hs => hs.bounded_of_closed hp hns ((hfinite initial).image .callString)
        ⟨initial, fun _ hx => Or.inr hx, rfl⟩ ?_)
    rintro _ n _ _ ⟨c, hc, rfl⟩ hn
    exact ⟨c.enter n, CallString.sites_enter_subset hc (Or.inl hn), rfl⟩
  · let a : Analysis N M D C S E := ⟨g, p, k, initial, ⟨some limit, none⟩⟩
    have : a.contexts.Lawful := ‹k.Lawful›
    exact Analysis.terminates_of_bounded (a := a) rfl hp hheight
      (Analysis.wellFounded_of_recompute hrecompute) (fun s hs => (hs.pooled hp hns rfl).bounded)

end Terminates

namespace Graph

def lateCallReach : Problem Int Nat Bool Unit Empty where
  bottom := false
  join d e := d || e
  le d e := !d || e
  normal _ d := d
  call _ _ d := d
  ret _ _ _ d := d
  bypass _ _ d := d
  seeds := [(0, true), (10, false)]
  nodeText n := some (toString n)
  factsText d := some (toString d)

theorem lateCallReach_ordered : lateCallReach.Ordered where
  le_refl := by decide
  le_trans := by decide
  le_join_left := by decide
  le_join_right := by decide

theorem lateCallReach_finiteHeight : lateCallReach.FiniteHeight := by
  refine Subrelation.wf (r := InvImage (· < ·) (fun d : Bool => if d then 0 else 1)) ?_
    (InvImage.wf _ wellFounded_lt)
  rintro e d ⟨x, hle, rfl⟩
  cases d <;> cases x <;> simp [lateCallReach, InvImage] at hle ⊢

theorem enclosed_of_forall {G D S E : Type} {g : Graph G} {p : Problem Int Nat D S E}
    {ns : Finset Int} (hseeds : ∀ x ∈ p.seeds, x.1 ∈ ns)
    (hsucc : ∀ n ∈ ns, ∀ n' ∈ g.icfg.succs n, n' ∈ ns)
    (hstart : ∀ n ∈ ns, ∀ m ∈ g.icfg.callees n, ∀ n' ∈ g.icfg.starts m, n' ∈ ns) :
    Enclosed g.icfg p ns :=
  ⟨fun hd => hseeds _ hd, fun hn hn' => hsucc _ hn _ hn', fun hn hn' => hsucc _ hn _ hn',
    fun hn hm hn' => hstart _ hn _ hm _ hn'⟩

theorem lateCall_enclosed : Enclosed lateCall.icfg lateCallReach {0, 1, 2, 3, 4, 10, 15, 20} :=
  enclosed_of_forall (by decide) (by decide +kernel) (by decide +kernel)

theorem lateCall_total : Analysis.Total lateCall.icfg lateCallReach where
  node _ := rfl
  callee {n d m} hd _ hm := by
    have hfunctions : ∀ n ∈ ({0, 1, 2, 3, 4, 10, 15, 20} : Finset Int),
        ∀ m ∈ lateCall.icfg.callees n, lateCall.icfg.hasFunction m = true := by
      decide +kernel
    exact hfunctions n (hd.mem lateCall_enclosed) m hm
  reportable _ _ _ := rfl

theorem lateCall_terminates :
    (⟨lateCall.icfg, lateCallReach, CallString.kind, ∅, ⟨none, none⟩⟩ :
      Analysis Int Nat Bool (CallString Int 1) Unit Empty).Drains () ∧
    (⟨lateCall.icfg, lateCallReach, CallString.kind, ∅, ⟨some 0, none⟩⟩ :
      Analysis Int Nat Bool (CallString Int 2) Unit Empty).Drains () :=
  have hends := solve_terminates lateCallReach_ordered (lateCallReach_finiteHeight.within _)
    (fun _ => rfl) lateCall_enclosed ()
  ⟨(hends.1 1 ∅ none).drains lateCall_total, (hends.2.2 _ CallString.kind ∅ 0).drains lateCall_total⟩

end Graph

end Interproc
