import Interproc.Proofs.Solver.Memory
import Interproc.Proofs.Solver.Provenance
import Interproc.Proofs.Solver.Walk

namespace Interproc

open Solver

variable {N M D C C' S S' E E' : Type}

def Problem.JoinsLeast (p : Problem N M D S E) : Prop :=
  ∀ {d e f}, p.le d f = true → p.le e f = true → p.le (p.join d e) f = true

namespace Analysis

structure FlowsBelow (b : Analysis N M D C' S' E') (a : Analysis N M D C S E) : Prop where
  graph : b.graph = a.graph
  seed : ∀ {n d}, (n, d) ∈ b.problem.seeds →
    ∃ d', (n, d') ∈ a.problem.seeds ∧ a.problem.le d d' = true
  join : ∀ d e, a.problem.le (b.problem.join d e) (a.problem.join d e) = true
  normal : ∀ n d, a.problem.le (b.problem.normal n d) (a.problem.normal n d) = true
  call : ∀ {n m entry}, entry ∈ a.graph.starts m →
    ∀ d, a.problem.le (b.problem.call n m d) (a.problem.call n m d) = true
  ret : ∀ n m x d, a.problem.le (b.problem.ret n m x d) (a.problem.ret n m x d) = true
  bypass : ∀ n n' d, a.problem.le (b.problem.bypass n n' d) (a.problem.bypass n n' d) = true

theorem flowsBelow_of_problem {a : Analysis N M D C S E} {b : Analysis N M D C' S E}
    (hp : a.problem.Ordered) (hgraph : b.graph = a.graph) (hproblem : b.problem = a.problem) :
    b.FlowsBelow a := by
  obtain ⟨_, _, k, initial, limits⟩ := b
  obtain rfl := hgraph
  obtain rfl := hproblem
  exact ⟨rfl, fun hd => ⟨_, hd, hp.le_refl _⟩, fun _ _ => hp.le_refl _, fun _ _ => hp.le_refl _,
    fun _ _ => hp.le_refl _, fun _ _ _ _ => hp.le_refl _, fun _ _ _ => hp.le_refl _⟩

variable [Ord N] [Ord M] {a : Analysis N M D C S E}

structure Relates (a : Analysis N M D C S E) (s : State N M D C S E) (b : Analysis N M D C' S' E')
    (rel : N → C' → C → Prop) : Prop where
  seed : ∀ {n c d}, (n, d) ∈ b.problem.seeds → s.Tracks n c →
    a.contexts.same c a.initial = true → rel n b.initial c
  merge : ∀ {n c c₁ c' c₁'}, rel n c' c → rel n c₁' c₁ → b.contexts.same c' c₁' = true →
    a.contexts.same c c₁ = true
  inside : ∀ {n n' c c₁ c'}, rel n c' c → a.graph.functionOf n' = a.graph.functionOf n →
    s.Tracks n' c₁ → a.contexts.same c₁ c = true → rel n' c' c₁
  enter : ∀ {r : CallRecord N C} {c' c₁' d}, rel r.site c' r.caller →
    r ∈ s.callsInto (a.graph.functionOf r.entry) →
    c₁' = b.contexts.enter c' r.site r.entry d ∧
        (∀ d', (r.entry, d') ∈ b.problem.seeds → b.contexts.same b.initial c₁' = false) ∨
      (∃ c₁, rel r.entry c₁' c₁) ∧
        (b.contexts.same c₁' (b.contexts.enter c' r.site r.entry d) = true ∨
          b.limits.maxContexts.isSome = true) →
    rel r.entry c₁' r.callee
  leave : ∀ {n entry c c₁ c' c₁'}, rel n c' c → rel entry c₁' c₁ →
    a.graph.functionOf entry = a.graph.functionOf n → b.contexts.same c₁' c' = true →
    a.contexts.same c c₁ = true ∧
      ∀ c₂, s.Tracks n c₂ → a.contexts.same c₂ c₁ = true → a.contexts.same c₂ c = true

variable (a) in
def Bounded (s : State N M D C S E) (rel : N → C' → C → Prop) (n : N) (c' : C') (d : D) : Prop :=
  ∃ c e, (c, e) ∈ s.entriesAt n ∧ rel n c' c ∧ a.problem.le d e = true

variable (a) in
def Recorded (s : State N M D C S E) (rel : N → C' → C → Prop) (r' : CallRecord N C') : Prop :=
  ∃ r ∈ s.callsInto (a.graph.functionOf r'.entry), r.site = r'.site ∧ r.entry = r'.entry ∧
    rel r.site r'.caller r.caller ∧ rel r.entry r'.callee r.callee

variable {b : Analysis N M D C' S' E'} {s : State N M D C S E} {rel : N → C' → C → Prop}

theorem relates_of_same (h : ∀ c c₁, a.contexts.same c c₁ = true) :
    a.Relates s b (fun _ _ _ => True) where
  seed _ _ _ := trivial
  merge _ _ _ := h _ _
  inside _ _ _ _ := trivial
  enter _ _ _ := trivial
  leave _ _ _ _ := ⟨h _ _, fun _ _ _ => h _ _⟩

theorem Bounded.of_includes {n n' : N} {c' : C'} {c : C} {d : D}
    (h : a.Relates s b rel) (hc : rel n c' c)
    (hn : a.graph.functionOf n' = a.graph.functionOf n) (hd : a.includes s c n' d = true) :
    a.Bounded s rel n' c' d := by
  obtain ⟨e, he, hle⟩ := includes_iff.mp hd
  have hmem := mem_of_findIn he
  exact ⟨e.1, e.2, hmem.1, h.inside hc hn ⟨e.2, hmem.1⟩ hmem.2, hle⟩

variable [Std.TransOrd N] [DecidableEq N] [Std.LawfulEqOrd N] [Std.TransOrd M] [DecidableEq M]
variable [Std.LawfulEqOrd M] [a.contexts.Lawful]

theorem supports_of_relates (hp : a.problem.Ordered) (hjoin : a.problem.JoinsLeast)
    (hmono : a.problem.Monotone) (hg : a.graph.Procedural) (hsolved : a.Solved s)
    (hs : s.finished = true) (hflows : b.FlowsBelow a) (h : a.Relates s b rel) :
    b.Supports (a.Bounded s rel) (a.Recorded s rel) := by
  have htabled := hsolved.tabled hp hg.toAgrees hs
  have hsettled : ∀ {n c d}, (c, d) ∈ s.entriesAt n → a.Settled s n c d :=
    fun hd => hsolved.settled hp hg.toAgrees hs hd
  obtain ⟨_, q, k, initial, limits⟩ := b
  obtain rfl := hflows.graph
  constructor
  case seed =>
    intro n d hd
    obtain ⟨d', hd', hle'⟩ := hflows.seed hd
    obtain ⟨e, he, hle⟩ := includes_iff.mp (hsolved.seeds_included hp hg.toAgrees hs hd')
    have hmem := mem_of_findIn he
    exact ⟨e.1, e.2, hmem.1, h.seed hd ⟨e.2, hmem.1⟩ hmem.2, hp.le_trans hle' hle⟩
  case join =>
    intro n c' c₁' d d₁ ⟨c₁, e₁, he₁, hc₁, hle₁⟩ ⟨c, e, he, hc, hle⟩ hsame
    obtain ⟨rfl, rfl⟩ := Prod.mk.inj (htabled.eq_of_same he₁ he (h.merge hc₁ hc hsame))
    exact ⟨c₁, e₁, he₁, hc₁, hp.le_trans (hflows.join ..) (hjoin hle₁ hle)⟩
  case pass =>
    intro n c' d n' ⟨c, e, he, hc, hle⟩ hcall hexit hn'
    refine .of_includes h hc (hg.functionOf_succ hn') ?_
    have hflow := hp.le_trans (hflows.normal n d) (hmono.normal hle)
    exact includes_mono hp hflow ((hsettled he).pass hcall hexit n' hn')
  case bypass =>
    intro n c' d n' ⟨c, e, he, hc, hle⟩ hcall hn'
    refine .of_includes h hc (hg.functionOf_returnSite hn') ?_
    have hflow := hp.le_trans (hflows.bypass n n' d) (hmono.bypass hle)
    exact includes_mono hp hflow ((hsettled he).bypass hcall n' hn')
  case enter =>
    intro n c' d m entry c₁' ⟨c, e, he, hc, hle⟩ hcall hm hentry hnew
    obtain ⟨r, hr, rfl, rfl, rfl, hincludes⟩ := (hsettled he).enter hcall m hm entry hentry
    have hflow := hp.le_trans (hflows.call (n := r.site) hentry d) (hmono.call hle)
    have hcallee : rel r.entry c₁' r.callee := by
      refine h.enter hc hr (hnew.imp_right (And.imp_left ?_))
      rintro ⟨_, c₁, _, _, hc₁, _⟩
      exact ⟨c₁, hc₁⟩
    exact ⟨.of_includes h hcallee rfl (includes_mono hp hflow hincludes), r, hr, rfl, rfl, hc, hcallee⟩
  case leave =>
    rintro n c' d ⟨site, _, _, _⟩ n' ⟨c, e, he, hc, hle⟩ hcall hexit
      ⟨r, hr, rfl, rfl, hcaller, hcallee⟩ hfunction hsame hn'
    obtain ⟨hsame', hall⟩ := h.leave hc hcallee hfunction hsame
    -- the lookup for the callee context finds the related entry
    have hlookup : a.lookup s n r.callee = some (c, e) := by
      obtain ⟨x, hx⟩ := findIn_isSome_of_mem (a := a) he hsame'
      have hmem := mem_of_findIn hx
      rwa [htabled.eq_of_same hmem.1 he (hall x.1 ⟨x.2, hmem.1⟩ hmem.2)] at hx
    have hincludes := (hsettled he).leave hcall hexit (hg.mem_exits hexit) r (hfunction ▸ hr) hlookup
    refine .of_includes h hcaller (hg.functionOf_returnSite hn') ?_
    have hflow := hp.le_trans (hflows.ret r.site (a.graph.functionOf n) n d) (hmono.ret hle)
    exact includes_mono hp hflow (hincludes n' hn')

section Moments

variable [b.contexts.Lawful] {t : State N M D C' S' E'} {x : S'}

theorem Moment.bounded_of_relates (hp : a.problem.Ordered) (hjoin : a.problem.JoinsLeast)
    (hmono : a.problem.Monotone) (hg : a.graph.Procedural) (hsolved : a.Solved s)
    (hs : s.finished = true) (hflows : b.FlowsBelow a) (hrel : a.Relates s b rel)
    (hp' : b.problem.Ordered) (h : b.Moment x t) {n : N} {c' : C'} {d : D}
    (hd : (c', d) ∈ t.entriesAt n) : a.Bounded s rel n c' d :=
  (h.supported hp' (supports_of_relates hp hjoin hmono hg hsolved hs hflows hrel)).entries hd

theorem Moment.remembered_of_relates (hp : a.problem.Ordered) (hjoin : a.problem.JoinsLeast)
    (hmono : a.problem.Monotone) (hg : a.graph.Procedural) (hsolved : a.Solved s)
    (hs : s.finished = true) (hflows : b.FlowsBelow a) (hrel : a.Relates s b rel)
    (hp' : b.problem.Ordered) (hle : ∀ {d e}, b.problem.le d e = true → a.problem.le d e = true)
    (h : b.Moment x t) : Remembered b.graph b.problem (a.Below s) x t.client := by
  refine (h.remembered hp').imp (fun n d hd => ?_)
  obtain ⟨c', e', he', hle'⟩ := hd.entry
  obtain ⟨c, e, he, _, hle''⟩ := h.bounded_of_relates hp hjoin hmono hg hsolved hs hflows hrel hp' he'
  exact .of_mem (hsolved.tabled hp hg.toAgrees hs) he (hp.le_trans (hle hle') hle'')

end Moments

end Analysis

end Interproc
