import Interproc.Context.Arguments
import Interproc.Context.CallString
import Interproc.Proofs.Solver.Pointwise

namespace Interproc

open Solver

variable {N M α S E : Type} [Ord α]

structure Problem.EntersAt (p : Problem N M (OrdSet α) S E) (g : Icfg N M) (entries : List M) :
    Prop where
  seeds : ∀ {n d}, (n, d) ∈ p.seeds → ∃ f ∈ entries, n ∈ g.starts f
  uncalled : ∀ {n m}, g.isCall n = true → m ∈ g.callees n → m ∉ entries

/-- The calls on a stack lead from an entry point to a function, the latest first. -/
inductive CallChain (g : Icfg N M) (entries : List M) : List N → M → Prop
  | entry {m} : m ∈ entries → CallChain g entries [] m
  | call {stack n m entry} : CallChain g entries stack (g.functionOf n) → g.isCall n = true →
      m ∈ g.callees n → entry ∈ g.starts m → CallChain g entries (n :: stack) m

namespace Problem.EntersAt

variable {p : Problem N M (OrdSet α) S E} {g : Icfg N M} {entries : List M}

theorem not_seeded (h : p.EntersAt g entries) (hg : g.Agrees) {n entry : N} {m : M}
    (hcall : g.isCall n = true) (hm : m ∈ g.callees n) (hentry : entry ∈ g.starts m)
    (d : OrdSet α) : (entry, d) ∉ p.seeds := by
  intro hd
  obtain ⟨f, hf, hstart⟩ := h.seeds hd
  have heq : f = m := (hg.functionOf_start hstart).symm.trans (hg.functionOf_start hentry)
  exact h.uncalled hcall hm (heq ▸ hf)

theorem chain_eq_nil_iff (h : p.EntersAt g entries) {stack : List N} {m : M}
    (hchain : CallChain g entries stack m) : stack = [] ↔ m ∈ entries := by
  cases hchain with
  | entry hm => exact ⟨fun _ => hm, fun _ => rfl⟩
  | call _ hcall hm _ =>
      refine ⟨fun hnil => absurd hnil (List.cons_ne_nil _ _), fun hentry => ?_⟩
      exact absurd hentry (h.uncalled hcall hm)

end Problem.EntersAt

namespace Analysis

section ByArguments

variable (a : Analysis N M (OrdSet α) (Arguments (OrdSet α)) S E)

def Begins (entry : N) (c : Arguments (OrdSet α)) (d : OrdSet α) : Prop :=
  (entry, d) ∈ a.problem.seeds ∨ (∀ e, (entry, e) ∉ a.problem.seeds) ∧ d = c.current

/-- Walks inside the function, and through what it calls, cover the facts from those with which it
begins; these are carried. -/
def Justified (n : N) (c : Arguments (OrdSet α)) (stack : List N) (n' : N) (d : OrdSet α) : Prop :=
  ∃ entry ∈ a.graph.starts (a.graph.functionOf n),
    Covered (fun e => ∃ d₀, a.Begins entry c d₀ ∧ Walk a.graph a.problem entry d₀ stack n' e) d ∧
      ∀ d₀, a.Begins entry c d₀ → Covered (a.problem.Carried a.graph entry) d₀

structure BroughtIn (r : CallRecord N (Arguments (OrdSet α))) : Prop where
  start : r.entry ∈ a.graph.starts (a.graph.functionOf r.entry)
  unseeded : ∀ d, (r.entry, d) ∉ a.problem.seeds
  justified : a.Justified r.site r.caller [r.site] r.entry r.callee.current

variable {a}

theorem begins_iff_of_current {entry : N} {c c' : Arguments (OrdSet α)} {d : OrdSet α}
    (h : c'.current = c.current) : a.Begins entry c' d ↔ a.Begins entry c d := by
  simp only [Begins, h]

theorem Justified.map {n n' n₁ n₂ : N} {c : Arguments (OrdSet α)} {stack stack' : List N}
    {d : OrdSet α} {f : OrdSet α → OrdSet α} (h : a.Justified n c stack n₁ d) (hf : Pointwise f)
    (hn : a.graph.functionOf n' = a.graph.functionOf n)
    (hwalk : ∀ {entry d₀ e}, Walk a.graph a.problem entry d₀ stack n₁ e →
      Walk a.graph a.problem entry d₀ stack' n₂ (f e)) : a.Justified n' c stack' n₂ (f d) := by
  obtain ⟨entry, hentry, hcovered, hbegins⟩ := h
  refine ⟨entry, hn ▸ hentry, hcovered.map hf (fun e he => ?_), hbegins⟩
  obtain ⟨d₀, hd₀, he⟩ := he
  exact ⟨d₀, hd₀, hwalk he⟩

variable [Std.TransOrd α] [Std.LawfulEqOrd α] [DecidableEq α]

theorem Justified.carried (hp : a.problem.Pointwise) {n n' : N} {c : Arguments (OrdSet α)}
    {stack : List N} {d : OrdSet α} (h : a.Justified n c stack n' d) :
    Covered (a.problem.Carried a.graph n') d := by
  obtain ⟨entry, _, hcovered, hbegins⟩ := h
  exact hcovered.bind (fun _ ⟨d₀, hd₀, hwalk⟩ => hwalk.covered_carried hp (hbegins d₀ hd₀))

variable [Described α]

theorem supports_arguments (hp : a.problem.Pointwise) (hg : a.graph.Procedural) {entries : List M}
    (hentries : a.problem.EntersAt a.graph entries) (hk : a.contexts = Arguments.kind)
    (hmax : a.limits.maxContexts = none) :
    a.Supports (fun n c d => a.Justified n c [] n d) a.BroughtIn where
  seed {n d} hd := by
    obtain ⟨f, _, hstart⟩ := hentries.seeds hd
    refine ⟨n, by rwa [hg.functionOf_start hstart], .of_mem ⟨d, Or.inl hd, .start⟩, ?_⟩
    rintro d₀ (hseed | ⟨hnone, _⟩)
    · exact .of_mem ⟨n, d₀, [], hseed, .start⟩
    · exact absurd hd (hnone d)
  join {n c c' d d'} hd' hd hsame := by
    have hcurrent : c'.current = c.current := Arguments.same_iff.mp (by rwa [hk] at hsame)
    obtain ⟨entry, hentry, hcovered, _⟩ := hd
    obtain ⟨entry', hentry', hcovered', hbegins'⟩ := hd'
    have heq : entry = entry' := hg.start_unique hentry hentry'
    subst heq
    simp only [← begins_iff_of_current hcurrent] at hcovered
    rw [hp.join_eq]
    exact ⟨entry, hentry, hcovered'.union hcovered, hbegins'⟩
  pass hd hcall hexit hn' :=
    hd.map (hp.normal _) (hg.functionOf_succ hn') (fun hwalk => hwalk.pass hcall hexit hn')
  bypass hd hcall hn' :=
    hd.map (hp.bypass _ _) (hg.functionOf_returnSite hn') (fun hwalk => hwalk.bypass hcall hn')
  enter {n c d m entry c'} hd hcall hm hentry hc' := by
    have hcurrent : c'.current = a.problem.call n m d := by
      rw [hk, hmax] at hc'
      rcases hc' with ⟨rfl, _⟩ | ⟨_, hsame | hnever⟩
      · rfl
      · exact Arguments.same_iff.mp hsame
      · exact absurd hnever (by simp)
    have hstart : entry ∈ a.graph.starts (a.graph.functionOf entry) := by
      rwa [hg.functionOf_start hentry]
    have hunseeded := hentries.not_seeded hg.toAgrees hcall hm hentry
    have hin : a.Justified n c [n] entry (a.problem.call n m d) :=
      hd.map (hp.call _ _) rfl (fun hwalk => hwalk.enter hcall hm hentry)
    refine ⟨⟨entry, hstart, ?_, ?_⟩, ⟨hstart, hunseeded, hcurrent ▸ hin⟩⟩
    · exact .of_mem ⟨_, Or.inr ⟨hunseeded, hcurrent.symm⟩, .start⟩
    · rintro d₀ (hseed | ⟨_, rfl⟩)
      · exact absurd hseed (hunseeded d₀)
      · exact hcurrent ▸ hin.carried hp
  leave {x c d r n'} hd hcall hexit hr hfunction hsame hn' := by
    have hcurrent : r.callee.current = c.current := Arguments.same_iff.mp (by rwa [hk] at hsame)
    obtain ⟨entry, hentry, hcovered, _⟩ := hd
    have heq : entry = r.entry := hg.start_unique hentry (hfunction ▸ hr.start)
    subst heq
    -- the walks in the callee go on from walks in the caller
    have hout : a.Justified r.site r.caller [r.site] x d := by
      obtain ⟨entry, hentry, hcaller, hbegins⟩ := hr.justified
      refine ⟨entry, hentry, hcovered.bind ?_, hbegins⟩
      rintro e ⟨d₀, hseed | ⟨_, rfl⟩, hwalk⟩
      · exact absurd hseed (hr.unseeded d₀)
      · refine (hwalk.covered hp (hcurrent ▸ hcaller)).imp ?_
        rintro e' ⟨e₀, ⟨d₁, hd₁, hwalk₁⟩, hwalk₂⟩
        exact ⟨d₁, hd₁, hwalk₁.append hwalk₂⟩
    exact hout.map (hp.ret _ _ _) (hg.functionOf_returnSite hn')
      (fun hwalk => hwalk.leave hcall hexit hn')

end ByArguments

section ByCallStrings

variable {K : Nat} (a : Analysis N M (OrdSet α) (CallString N K) S E)

structure Stacked (entries : List M) (n : N) (c : CallString N K) (d : OrdSet α) : Prop where
  chain : CallChain a.graph entries c.sites.reverse (a.graph.functionOf n)
  covered : Covered (fun e => ∃ n₀ d₀, (n₀, d₀) ∈ a.problem.seeds ∧
    Walk a.graph a.problem n₀ d₀ c.sites.reverse n e) d

structure Extended (entries : List M) (r : CallRecord N (CallString N K)) : Prop where
  chain : CallChain a.graph entries r.caller.sites.reverse (a.graph.functionOf r.site)
  sites : r.callee.sites = r.caller.sites ++ [r.site]
  uncalled : a.graph.functionOf r.entry ∉ entries

variable {a}

theorem Stacked.map {entries : List M} {n n' : N} {c c' : CallString N K} {d : OrdSet α}
    {f : OrdSet α → OrdSet α} (h : a.Stacked entries n c d) (hf : Pointwise f)
    (hchain : CallChain a.graph entries c'.sites.reverse (a.graph.functionOf n'))
    (hwalk : ∀ {n₀ d₀ e}, Walk a.graph a.problem n₀ d₀ c.sites.reverse n e →
      Walk a.graph a.problem n₀ d₀ c'.sites.reverse n' (f e)) : a.Stacked entries n' c' (f d) where
  chain := hchain
  covered := h.covered.map hf (fun _ ⟨n₀, d₀, hd₀, he⟩ => ⟨n₀, d₀, hd₀, hwalk he⟩)

theorem eq_of_same_of_chain [DecidableEq N] {entries : List M}
    (hentries : a.problem.EntersAt a.graph entries) {m : M} {c c' : CallString N K}
    (hc : CallChain a.graph entries c.sites.reverse m)
    (hc' : CallChain a.graph entries c'.sites.reverse m) (hsame : c'.same c = true) : c' = c := by
  have hnil := hentries.chain_eq_nil_iff hc
  have hnil' := hentries.chain_eq_nil_iff hc'
  rw [List.reverse_eq_nil_iff] at hnil hnil'
  by_cases hm : m ∈ entries
  · exact CallString.eq_of_sites ((hnil'.mpr hm).trans (hnil.mpr hm).symm)
  · exact CallString.same_of_ne_nil hsame (fun h => hm (hnil'.mp h)) (fun h => hm (hnil.mp h))

variable [Std.TransOrd α] [Std.LawfulEqOrd α] [DecidableEq α] [Ord N] [DecidableEq N] [Described N]

theorem supports_callStrings (hp : a.problem.Pointwise) (hg : a.graph.Procedural)
    {entries : List M} (hentries : a.problem.EntersAt a.graph entries)
    (hk : a.contexts = CallString.kind) (hinitial : a.initial = ∅)
    (hmax : a.limits.maxContexts = none)
    (hbound : ∀ {stack m}, CallChain a.graph entries stack m → stack.length ≤ K) :
    a.Supports (a.Stacked entries) (a.Extended entries) where
  seed {n d} hd := by
    obtain ⟨f, hf, hstart⟩ := hentries.seeds hd
    rw [hinitial]
    refine ⟨.entry ?_, .of_mem ⟨n, d, hd, .start⟩⟩
    rwa [hg.functionOf_start hstart]
  join {n c c' d d'} hd' hd hsame := by
    rw [hk] at hsame
    obtain rfl : c' = c := eq_of_same_of_chain hentries hd.chain hd'.chain hsame
    rw [hp.join_eq]
    exact ⟨hd.chain, hd'.covered.union hd.covered⟩
  pass hd hcall hexit hn' := hd.map (hp.normal _) (hg.functionOf_succ hn' ▸ hd.chain)
    (fun hwalk => hwalk.pass hcall hexit hn')
  bypass hd hcall hn' := hd.map (hp.bypass _ _) (hg.functionOf_returnSite hn' ▸ hd.chain)
    (fun hwalk => hwalk.bypass hcall hn')
  enter {n c d m entry c'} hd hcall hm hentry hc' := by
    have hm' : a.graph.functionOf entry = m := hg.functionOf_start hentry
    have hchain : CallChain a.graph entries (n :: c.sites.reverse) m :=
      .call hd.chain hcall hm hentry
    -- the bound leaves room for the site
    have hlt : c.sites.length < K := by
      have hle := hbound hchain
      rw [List.length_cons, List.length_reverse] at hle
      omega
    have hsites : (c.enter n).sites = c.sites ++ [n] := CallString.sites_enter_of_lt hlt
    have hstack : (c.enter n).sites.reverse = n :: c.sites.reverse := by
      rw [hsites, List.reverse_append]
      rfl
    have heq : c' = c.enter n := by
      rw [hk, hmax] at hc'
      rcases hc' with ⟨rfl, _⟩ | ⟨⟨d', hd'⟩, hsame | hnever⟩
      · rfl
      · refine eq_of_same_of_chain hentries ?_ (hm' ▸ hd'.chain) hsame
        rwa [hstack]
      · exact absurd hnever (by simp)
    subst heq
    refine ⟨hd.map (hp.call _ _) (by rwa [hstack, hm']) (fun hwalk => ?_),
      ⟨hd.chain, hsites, hm' ▸ hentries.uncalled hcall hm⟩⟩
    rw [hstack]
    exact hwalk.enter hcall hm hentry
  leave {x c d r n'} hd hcall hexit hr hfunction hsame hn' := by
    have hne : c.sites ≠ [] := by
      intro hnil
      have hm := (hentries.chain_eq_nil_iff hd.chain).mp (by rw [hnil]; rfl)
      exact hr.uncalled (hfunction ▸ hm)
    have hne' : r.callee.sites ≠ [] := by
      rw [hr.sites]
      simp
    obtain rfl : r.callee = c := CallString.same_of_ne_nil (by rwa [hk] at hsame) hne' hne
    have hstack : r.callee.sites.reverse = r.site :: r.caller.sites.reverse := by
      rw [hr.sites, List.reverse_append]
      rfl
    refine hd.map (hp.ret _ _ _) (hg.functionOf_returnSite hn' ▸ hr.chain) (fun hwalk => ?_)
    rw [hstack] at hwalk
    exact hwalk.leave hcall hexit hn'

end ByCallStrings

end Analysis

end Interproc
