import Interproc.Proofs.Solver.Orderly
import Mathlib.Data.DFinsupp.WellFounded
import Mathlib.Data.List.ProdSigma
import Mathlib.SetTheory.Ordinal.Rank

/-!
Runs that come to an end. Where no facts grow forever and the contexts are bounded, a state has a
credit: the growth left to each entry, the entries left to each node and the calls left to remember.
Whatever makes a state wait for a visit spends some of it, but for an entry that is recomputed.
-/
namespace Interproc

open Solver

variable {N M D C S E : Type}

namespace Problem

def Above (p : Problem N M D S E) (e d : D) : Prop := ∃ x, p.le x d = false ∧ e = p.join d x

def FiniteHeight (p : Problem N M D S E) : Prop := WellFounded p.Above

def FiniteHeightIn (p : Problem N M D S E) (V : D → Prop) : Prop :=
  WellFounded (fun e d => V e ∧ V d ∧ p.Above e d)

variable {p : Problem N M D S E} {V W : D → Prop}

theorem FiniteHeightIn.mono (h : p.FiniteHeightIn W) (hVW : ∀ d, V d → W d) : p.FiniteHeightIn V :=
  Subrelation.wf (fun habove => ⟨hVW _ habove.1, hVW _ habove.2.1, habove.2.2⟩) h

theorem FiniteHeight.within (h : p.FiniteHeight) (V : D → Prop) : p.FiniteHeightIn V :=
  Subrelation.wf (fun habove => habove.2.2) h

/-- What is left of the growth of each of the first `b` entries; all of it before there is one. -/
noncomputable def level (hheight : p.FiniteHeightIn V) (b : Nat) (es : List (C × D)) (i : Fin b) :
    WithTop Ordinal.{0} :=
  (es[(i : Nat)]?).elim ⊤ (fun e => ((hheight.apply e.2).rank : WithTop Ordinal.{0}))

theorem level_set_lt (hheight : p.FiniteHeightIn V) {b i : Nat} {es : List (C × D)} {e : C × D}
    {c : C} {d : D} (he : es[i]? = some e) (hb : es.length ≤ b)
    (hd : V d ∧ V e.2 ∧ p.Above d e.2) :
    level hheight b (es.set i (c, d)) < level hheight b es := by
  obtain ⟨hi, -⟩ := List.getElem?_eq_some_iff.mp he
  have hib : i < b := Nat.lt_of_lt_of_le hi hb
  have hlt : level hheight b (es.set i (c, d)) ⟨i, hib⟩ < level hheight b es ⟨i, hib⟩ := by
    simp only [level, List.getElem?_set_self hi, he, Option.elim_some, WithTop.coe_lt_coe]
    exact Acc.rank_lt_of_rel (hheight.apply e.2) hd
  refine Pi.lt_def.mpr ⟨fun j => ?_, _, hlt⟩
  by_cases hj : (j : Nat) = i
  · subst hj
    exact hlt.le
  · simp only [level, List.getElem?_set_ne (Ne.symm hj), le_refl]

theorem level_append_lt (hheight : p.FiniteHeightIn V) {b : Nat} {es : List (C × D)} {e : C × D}
    (hb : es.length < b) : level hheight b (es ++ [e]) < level hheight b es := by
  have hlt : level hheight b (es ++ [e]) ⟨es.length, hb⟩ < level hheight b es ⟨es.length, hb⟩ := by
    simp [level]
  refine Pi.lt_def.mpr ⟨fun j => ?_, _, hlt⟩
  rcases Nat.lt_or_ge j es.length with hj | hj
  · simp only [level, List.getElem?_append_left hj, le_refl]
  · simp [level, List.getElem?_eq_none hj]

end Problem

namespace Solver.State

variable [Ord N] [Ord M]

structure Bounded (ns : Finset N) (b : Nat) (s : State N M D C S E) : Prop where
  nodes : ∀ {n c}, s.Tracks n c → n ∈ ns
  contexts : ∃ cs : List C, cs.length ≤ b ∧ ∀ {n c}, s.Tracks n c → c ∈ cs

def Carries (V : D → Prop) (s : State N M D C S E) : Prop := ∀ n, ∀ e ∈ s.entriesAt n, V e.2

theorem Carries.congr {V : D → Prop} {s t : State N M D C S E} (h : s.Carries V)
    (htable : t.table = s.table) : t.Carries V := by
  intro n
  rw [entriesAt_congr htable]
  exact h n

end Solver.State

namespace Analysis

theorem replace_eq_set {a : Analysis N M D C S E} {es : List (C × D)} {c : C} {d : D} {e : C × D}
    (h : a.findIn es c = some e) : ∃ i, es[i]? = some e ∧ a.replace c d es = es.set i (e.1, d) := by
  induction es with
  | nil => simp [findIn] at h
  | cons x xs ih =>
      by_cases hx : a.contexts.same x.1 c = true
      · obtain rfl : x = e := by simpa [findIn, hx] using h
        exact ⟨0, by simp, by simp [replace, hx]⟩
      · obtain ⟨i, hi, hset⟩ := ih (by simpa [findIn, hx] using h)
        exact ⟨i + 1, by simpa using hi, by simp [replace, hx, hset]⟩

section Bounded

variable [Ord N] [Ord M] {a : Analysis N M D C S E} [a.contexts.Lawful] {s : State N M D C S E}
variable {ns : Finset N} {b : Nat}

theorem Tabled.length_entriesAt_le (hs : a.Tabled s) (h : s.Bounded ns b) (n : N) :
    (s.entriesAt n).length ≤ b := by
  obtain ⟨cs, hcs, hmem⟩ := h.contexts
  have hnodup : ((s.entriesAt n).map Prod.fst).Nodup := by
    refine List.pairwise_map.mpr ((hs.distinct n).imp (fun hdistinct heq => ?_))
    rw [heq, ContextKind.Lawful.same_refl] at hdistinct
    exact Bool.noConfusion hdistinct
  have hsub : ((s.entriesAt n).map Prod.fst).Subperm cs :=
    hnodup.subperm (fun c hc => hmem (State.tracks_iff.mpr hc))
  calc (s.entriesAt n).length = ((s.entriesAt n).map Prod.fst).length := by simp
    _ ≤ cs.length := hsub.length_le
    _ ≤ b := hcs

def mostCalls (ns : Finset N) (b : Nat) : Nat := ns.card * b * (ns.card * b)

def ends (r : CallRecord N C) : (N × C) × N × C := ((r.site, r.caller), r.entry, r.callee)

theorem Tabled.length_callsInto_le (hs : a.Tabled s) (honce : a.Once s) (h : s.Bounded ns b)
    (m : M) : (s.callsInto m).length ≤ mostCalls ns b := by
  obtain ⟨cs, hcs, hmem⟩ := h.contexts
  let states := ns.toList ×ˢ cs
  have hstates : ∀ {n c}, s.Tracks n c → (n, c) ∈ states := fun hc =>
    List.mem_product.mpr ⟨Finset.mem_toList.mpr (h.nodes hc), hmem hc⟩
  have hnodup : ((s.callsInto m).map ends).Nodup := by
    refine List.pairwise_map.mpr ((honce m).imp (fun hdistinct heq => hdistinct ?_))
    simp only [ends, Prod.mk.injEq] at heq
    obtain ⟨⟨hsite, hcaller⟩, hentry, hcallee⟩ := heq
    refine ⟨hsite, hentry, ?_, ?_⟩
    · rw [hcaller]
      exact ContextKind.Lawful.same_refl _
    · rw [hcallee]
      exact ContextKind.Lawful.same_refl _
  have hsub : ((s.callsInto m).map ends).Subperm (states ×ˢ states) := by
    refine hnodup.subperm (fun e he => ?_)
    obtain ⟨r, hr, rfl⟩ := List.mem_map.mp he
    obtain ⟨_, hcaller, hcallee⟩ := hs.recorded hr
    exact List.mem_product.mpr ⟨hstates hcaller, hstates hcallee⟩
  have hlength : states.length ≤ ns.card * b := by
    rw [List.length_product, Finset.length_toList]
    exact Nat.mul_le_mul_left _ hcs
  calc (s.callsInto m).length = ((s.callsInto m).map ends).length := by simp
    _ ≤ (states ×ˢ states).length := hsub.length_le
    _ = states.length * states.length := List.length_product ..
    _ ≤ mostCalls ns b := Nat.mul_le_mul hlength hlength

end Bounded

section Credit

variable [Ord N] [Ord M] (a : Analysis N M D C S E) {V : D → Prop}
variable (hheight : a.problem.FiniteHeightIn V) (ns : Finset N) (b : Nat)

noncomputable def credit (s : State N M D C S E) :
    (ns → Fin b → WithTop Ordinal.{0}) × (ns → Nat) :=
  (fun n => Problem.level hheight b (s.entriesAt n),
   fun n => mostCalls ns b - (s.callsInto (a.graph.functionOf n)).length)

def Recalls (n n' : N) : Prop :=
  a.graph.isCall n = true ∧ ∃ m ∈ a.graph.callees n, a.problem.recompute m = true ∧
    n' ∈ a.graph.starts m

/-- While `n` is visited, a state that `n` does not recall comes to wait only at the cost of credit. -/
structure Spends (n : N) (s t : State N M D C S E) : Prop where
  le : a.credit hheight ns b t ≤ a.credit hheight ns b s
  worklist : a.credit hheight ns b t = a.credit hheight ns b s →
    ∃ ws, t.worklist = s.worklist ++ ws ∧ ∀ w ∈ ws, a.Recalls n w.1

variable {a hheight ns b} {s t u : State N M D C S E} {n : N}

theorem credit_congr (htable : t.table = s.table) (hcalls : t.calls = s.calls) :
    a.credit hheight ns b t = a.credit hheight ns b s := by
  simp only [credit, State.entriesAt_congr htable, State.callsInto_congr hcalls]

namespace Spends

theorem of_same (htable : t.table = s.table) (hcalls : t.calls = s.calls)
    (hwork : t.worklist = s.worklist) : a.Spends hheight ns b n s t :=
  ⟨(credit_congr htable hcalls).le, fun _ => ⟨[], by simp [hwork], by simp⟩⟩

theorem of_lt (h : a.credit hheight ns b t < a.credit hheight ns b s) :
    a.Spends hheight ns b n s t :=
  ⟨h.le, fun heq => absurd heq h.ne⟩

theorem queue {n' : N} (c : C) (h : a.Recalls n n') : a.Spends hheight ns b n s (s.queue n' c) :=
  ⟨(credit_congr rfl rfl).le, fun _ => ⟨[(n', c)], rfl, fun _ hw => List.mem_singleton.mp hw ▸ h⟩⟩

theorem trans (h : a.Spends hheight ns b n s t) (h' : a.Spends hheight ns b n t u) :
    a.Spends hheight ns b n s u := by
  refine ⟨h'.le.trans h.le, fun heq => ?_⟩
  have hst : a.credit hheight ns b t = a.credit hheight ns b s :=
    le_antisymm h.le (heq ▸ h'.le)
  obtain ⟨ws, hws, hrecalls⟩ := h.worklist hst
  obtain ⟨ws', hws', hrecalls'⟩ := h'.worklist (heq.trans hst.symm)
  refine ⟨ws ++ ws', by rw [hws', hws, List.append_assoc], fun w hw => ?_⟩
  exact (List.mem_append.mp hw).elim (hrecalls w) (hrecalls' w)

end Spends

theorem credit_lt_of_entries {n : N} (hn : n ∈ ns)
    (hlt : Problem.level hheight b (t.entriesAt n) < Problem.level hheight b (s.entriesAt n))
    (hothers : ∀ m, m ≠ n → t.entriesAt m = s.entriesAt m) (hcalls : t.calls = s.calls) :
    a.credit hheight ns b t < a.credit hheight ns b s := by
  refine Prod.mk_lt_mk_of_lt_of_le (Pi.lt_def.mpr ⟨fun m => ?_, ⟨n, hn⟩, hlt⟩) ?_
  · beta_reduce
    by_cases hm : (m : N) = n
    · rw [hm]
      exact hlt.le
    · rw [hothers m hm]
  · simp only [State.callsInto_congr hcalls, le_refl]

theorem credit_lt_of_calls [DecidableEq M] {r : CallRecord N C} (hr : r.entry ∈ ns)
    (htable : t.table = s.table)
    (hinto : ∀ m, t.callsInto m =
      if m = a.graph.functionOf r.entry then s.callsInto m ++ [r] else s.callsInto m)
    (hmost : (t.callsInto (a.graph.functionOf r.entry)).length ≤ mostCalls ns b) :
    a.credit hheight ns b t < a.credit hheight ns b s := by
  refine Prod.mk_lt_mk_of_le_of_lt ?_ (Pi.lt_def.mpr ⟨fun m => ?_, ⟨r.entry, hr⟩, ?_⟩)
  · simp only [State.entriesAt_congr htable, le_refl]
  · beta_reduce
    rw [hinto]
    split
    · rw [List.length_append]
      omega
    · exact le_refl _
  · rw [hinto, if_pos rfl, List.length_append, List.length_singleton] at hmost
    simp only [hinto, if_true, List.length_append, List.length_singleton]
    omega

variable [Std.TransOrd N] [Std.LawfulEqOrd N] [DecidableEq N]

theorem spends_joinInto {n' : N} {c : C} {d : D} (hn : n' ∈ ns)
    (hb : ((a.joinInto n' c d s).entriesAt n').length ≤ b) (hs : s.Carries V)
    (ht : (a.joinInto n' c d s).Carries V) : a.Spends hheight ns b n s (a.joinInto n' c d s) := by
  rcases joinInto_cases a n' c d s with ⟨_, _, _, h⟩ | ⟨e, he, hle, h⟩ | ⟨_, h⟩
  · exact .of_same (by rw [h]) (by rw [h]) (by rw [h])
  · refine .of_lt (credit_lt_of_entries hn ?_ h.others h.calls)
    obtain ⟨i, hi, hset⟩ := replace_eq_set (d := a.problem.join e.2 d) he
    have hnew := ht n' (e.1, a.problem.join e.2 d)
    rw [h.entries, hset] at hb hnew ⊢
    refine Problem.level_set_lt hheight hi (by simpa using hb) ⟨hnew ?_, ?_, d, hle, rfl⟩
    · exact List.mem_set (List.getElem?_eq_some_iff.mp hi).1 _
    · exact hs n' e (mem_of_findIn he).1
  · refine .of_lt (credit_lt_of_entries hn ?_ h.others h.calls)
    rw [h.entries] at hb ⊢
    exact Problem.level_append_lt hheight (by simpa using hb)

variable [Std.TransOrd M] [Std.LawfulEqOrd M] [DecidableEq M]

theorem spends_enterAt {entry : N} {c : C} {m : M} {d : D} (hcall : a.graph.isCall n = true)
    (hm : m ∈ a.graph.callees n) (hentry : entry ∈ a.graph.starts m)
    (hnodes : ∀ {x c'}, (a.enterAt n c m d s entry).Tracks x c' → x ∈ ns)
    (hb : ∀ x, ((a.enterAt n c m d s entry).entriesAt x).length ≤ b)
    (hmost : ∀ m', ((a.enterAt n c m d s entry).callsInto m').length ≤ mostCalls ns b)
    (hs : s.Carries V) (hu : (a.enterAt n c m d s entry).Carries V) :
    a.Spends hheight ns b n s (a.enterAt n c m d s entry) := by
  obtain ⟨s', c', hquiet, hadopt, _, t, ht, heq⟩ := enterAt_spec a n c m d s entry
  let v := a.joinInto entry c' d (a.recordCall ⟨n, entry, c, c'⟩ s').2
  have hvt : t.table = v.table ∧ t.calls = v.calls := by
    rcases ht with ht | ⟨_, ht⟩ <;> rw [ht] <;> exact ⟨rfl, rfl⟩
  have hsame : (a.enterAt n c m d s entry).table = v.table ∧
      (a.enterAt n c m d s entry).calls = v.calls := by
    rw [heq]
    split
    · exact ⟨(requeueExits_table m c' t).1.trans hvt.1, (requeueExits_table m c' t).2.trans hvt.2⟩
    · exact hvt
  generalize a.enterAt n c m d s entry = u at heq hsame hnodes hb hmost hu ⊢
  have htracks : v.Tracks entry c' :=
    tracks_of_adopts (adopts_congr (recordCall_table _) hadopt)
  have hin : entry ∈ ns := hnodes ((State.tracks_congr hsame.1).mpr htracks)
  have hquiet' : a.Spends hheight ns b n s s' :=
    .of_same hquiet.table hquiet.calls hquiet.worklist
  have hjoin : a.Spends hheight ns b n (a.recordCall ⟨n, entry, c, c'⟩ s').2 v := by
    refine spends_joinInto hin ?_ ?_ (hu.congr hsame.1.symm)
    · rw [← State.entriesAt_congr hsame.1]
      exact hb entry
    · exact hs.congr ((recordCall_table _).trans hquiet.table)
  have hagain : a.Spends hheight ns b n v t := by
    rcases ht with ht | ⟨hrecompute, ht⟩
    · rw [ht]
      exact .of_same rfl rfl rfl
    · rw [ht]
      exact .queue c' ⟨hcall, m, hm, hrecompute, hentry⟩
  rcases recordCall_cases a ⟨n, entry, c, c'⟩ s' with ⟨_, hknown⟩ | ⟨_, _, hinto⟩
  · rw [hknown] at heq hjoin
    rw [heq]
    exact hquiet'.trans (hjoin.trans hagain)
  · -- the exits that are queued again are paid for by the call that is remembered
    have hrecord : a.credit hheight ns b (a.recordCall ⟨n, entry, c, c'⟩ s').2 <
        a.credit hheight ns b s' := by
      refine credit_lt_of_calls hin (recordCall_table _) hinto ?_
      rw [← joinInto_callsInto (n := entry) (c := c') (d := d), ← State.callsInto_congr hsame.2]
      exact hmost _
    refine hquiet'.trans (.of_lt ?_)
    rw [credit_congr hsame.1 hsame.2]
    exact lt_of_le_of_lt hjoin.le hrecord

theorem Stride.spends [a.contexts.Lawful] (hp : a.problem.Ordered) {c : C} {d : D}
    (h : a.Stride n c d s t) (htabled : a.Tabled t) (honce : a.Once t) (hbound : t.Bounded ns b)
    (hs : s.Carries V) (ht : t.Carries V) : a.Spends hheight ns b n s t := by
  have hentries := htabled.length_entriesAt_le hbound
  have hnode : ∀ {s : State N M D C S E} {n c d}, (a.joinInto n c d s).Bounded ns b → n ∈ ns :=
    fun hb => (exists_tracks_joinInto hp).elim (fun _ => hb.nodes)
  cases h with
  | quiet hquiet => exact .of_same hquiet.table hquiet.calls hquiet.worklist
  | remember => exact .of_same rfl rfl rfl
  | pass => exact spends_joinInto (hnode hbound) (hentries _) hs ht
  | bypass => exact spends_joinInto (hnode hbound) (hentries _) hs ht
  | enter hcall hm hentry =>
      exact spends_enterAt hcall hm hentry hbound.nodes hentries
        (htabled.length_callsInto_le honce hbound) hs ht
  | leave => exact spends_joinInto (hnode hbound) (hentries _) hs ht

end Credit

section Paced

variable [Ord N] [Std.TransOrd N] [DecidableEq N] [Ord M] [Std.TransOrd M]
variable (a : Analysis N M D C S E)

inductive Paced (x : S) : State N M D C S E → Prop
  | seeded : Paced x (a.seed (.initial x))
  | quiet {s t} : Paced x s → s.Alike t → Paced x t
  | visit {s t n c d rest} : Paced x s → s.worklist = (n, c) :: rest →
      (c, d) ∈ s.entriesAt n → a.Strides n c d { s with worklist := rest } t → Paced x t

variable {a} {s t : State N M D C S E} {x : S} [Std.LawfulEqOrd N]

theorem Paced.underway (h : a.Paced x s) : a.Underway x s := by
  induction h with
  | seeded => exact .seeded
  | quiet _ halike ih => exact ih.quiet halike
  | visit _ hw hd hstrides ih => exact ih.visit hw hd (Strides.moves hstrides)

variable [a.contexts.Lawful] [Std.LawfulEqOrd M] [DecidableEq M]

theorem Paced.tabled (hp : a.problem.Ordered) (h : a.Paced x s) : a.Tabled s ∧ a.Once s :=
  (h.underway.varied hp).tabled hp

theorem ReachesFrom.paced (hp : a.problem.Ordered) (h : a.ReachesFrom x s) : a.Paced x s := by
  induction h with
  | refl => exact .seeded
  | tail _ hstep ih =>
      cases hstep with
      | quiet halike => exact ih.quiet halike
      | step hw hstep =>
          obtain ⟨d, s', hd, hquiet, hvisit⟩ := step_visits (ih.tabled hp).1 hw
          obtain rfl : (a.visit _ _ d s').1 = _ := congrArg Prod.fst (hvisit.symm.trans hstep)
          exact ih.visit hw hd ((visit_strides _ _ d s').head (.quiet hquiet))

variable {V : D → Prop} {hheight : a.problem.FiniteHeightIn V} {ns : Finset N} {b : Nat}

theorem Paced.spends (hp : a.problem.Ordered) (hbound : ∀ s, a.Paced x s → s.Bounded ns b)
    (hcarries : ∀ s, a.Paced x s → s.Carries V) (h : a.Paced x s) {n : N} {c : C} {d : D}
    {rest : List (N × C)} (hw : s.worklist = (n, c) :: rest) (hd : (c, d) ∈ s.entriesAt n)
    (hstrides : a.Strides n c d { s with worklist := rest } t) :
    a.Spends hheight ns b n { s with worklist := rest } t := by
  induction hstrides with
  | refl => exact .of_same rfl rfl rfl
  | tail hbefore hstride ih =>
      have hpaced := h.visit hw hd (hbefore.tail hstride)
      obtain ⟨htabled, honce⟩ := hpaced.tabled hp
      exact ih.trans (hstride.spends hp htabled honce (hbound _ hpaced)
        (hcarries _ (h.visit hw hd hbefore)) (hcarries _ hpaced))

end Paced

end Analysis

end Interproc
