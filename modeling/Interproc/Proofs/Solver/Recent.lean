import Interproc.Context.CallString
import Interproc.Proofs.Solver.Bound
import Mathlib.Data.List.DropRight

/-!
Call strings cut down to their latest sites. The empty string, which equals all others, stays inside
the functions that are seeded with it. A run is related to one whose strings, once they are cut, enter
callees as its own do: to one with a longer bound by cutting strings down to the shorter one, and to
one with fewer functions that are seeded by cutting strings at the last call of a function that is.
-/
namespace Interproc

open Solver

variable {N M D S S' E E' : Type} {J K : Nat}

theorem rtake_rtake (l : List N) (m n : Nat) : (l.rtake n).rtake m = l.rtake (min m n) := by
  simp only [List.rtake_eq_reverse_take_reverse, List.reverse_reverse, List.take_take]

theorem rtake_of_length_le {n : Nat} {l : List N} (h : l.length ≤ n) : l.rtake n = l := by
  rw [List.rtake, Nat.sub_eq_zero_of_le h, List.drop_zero]

namespace CallString

def recent (J : Nat) (c : CallString N K) : CallString N J :=
  ⟨c.sites.rtake J, by
    rw [List.rtake, List.length_drop]
    omega⟩

@[simp] theorem sites_recent (c : CallString N K) : (c.recent J).sites = c.sites.rtake J := rfl

theorem sites_enter (c : CallString N K) (site : N) :
    (c.enter site).sites = (c.sites ++ [site]).rtake K := by
  simp [enter, List.rtake]

theorem recent_eq_of_sites {c : CallString N J} {c' : CallString N K} (h : c'.sites = c.sites) :
    c'.recent J = c := by
  apply eq_of_sites
  rw [sites_recent, h, rtake_of_length_le c.length_le]

theorem recent_enter (h : J ≤ K) (c : CallString N K) (site : N) :
    (c.enter site).recent J = (c.recent J).enter site := by
  apply eq_of_sites
  rw [sites_recent, sites_enter, sites_enter, sites_recent, rtake_rtake, Nat.min_eq_left h]
  cases J with
  | zero => simp
  | succ J =>
      rw [List.rtake_concat_succ, List.rtake_concat_succ, rtake_rtake,
        Nat.min_eq_left (Nat.le_succ J)]

theorem sites_enter_ne_nil (hK : 0 < K) (c : CallString N K) (site : N) :
    (c.enter site).sites ≠ [] := by
  obtain ⟨n, rfl⟩ := Nat.exists_eq_succ_of_ne_zero (Nat.ne_of_gt hK)
  rw [sites_enter, List.rtake_concat_succ]
  simp

section Trim

variable (functionOf : N → M) (stop : M → Bool)

/-- The sites that lead to a function, the latest first, back to the last call of one where `stop`
holds. -/
def sitesSince : M → List N → List N
  | _, [] => []
  | m, site :: sites => if stop m then [] else site :: sitesSince (functionOf site) sites

theorem length_sitesSince_le (m : M) (sites : List N) :
    (sitesSince functionOf stop m sites).length ≤ sites.length := by
  induction sites generalizing m with
  | nil => exact Nat.le_refl 0
  | cons site sites ih =>
      simp only [sitesSince]
      split
      · exact Nat.zero_le _
      · exact Nat.succ_le_succ (ih (functionOf site))

theorem sitesSince_take (j : Nat) (m : M) (sites : List N) :
    sitesSince functionOf stop m (sites.take j) = (sitesSince functionOf stop m sites).take j := by
  induction sites generalizing j m with
  | nil => simp [sitesSince]
  | cons site sites ih =>
      cases j with
      | zero => simp [sitesSince]
      | succ j =>
          simp only [List.take_succ_cons, sitesSince, ih]
          split <;> rfl

def trim (m : M) (c : CallString N K) : CallString N K :=
  ⟨(sitesSince functionOf stop m c.sites.reverse).reverse, by
    have hle := length_sitesSince_le functionOf stop m c.sites.reverse
    rw [List.length_reverse] at hle ⊢
    exact hle.trans c.length_le⟩

variable {functionOf stop}

theorem trim_of_nil {m : M} {c : CallString N K} (h : c.sites = []) :
    (c.trim functionOf stop m).sites = [] := by
  simp [trim, h, sitesSince]

theorem trim_of_stop {m : M} (h : stop m = true) (c : CallString N K) :
    (c.trim functionOf stop m).sites = [] := by
  rw [trim, List.reverse_eq_nil_iff]
  cases c.sites.reverse with
  | nil => rfl
  | cons site sites => rw [sitesSince, if_pos h]

theorem trim_enter {m : M} (h : stop m = false) (site : N) (c : CallString N K) :
    (c.enter site).trim functionOf stop m = (c.trim functionOf stop (functionOf site)).enter site := by
  apply eq_of_sites
  simp only [trim, sites_enter, List.rtake_eq_reverse_take_reverse, List.reverse_reverse,
    List.reverse_append, List.reverse_singleton, List.singleton_append, sitesSince_take]
  simp [sitesSince, h]

end Trim

end CallString

def Blank (g : Icfg N M) (p : Problem N M D S E) (history : List N) (m : M) : Prop :=
  history = [] ∧ ∃ x ∈ p.seeds, g.functionOf x.1 = m

namespace Analysis

section Sited

variable {a : Analysis N M D (CallString N K) S E}

variable (a) in
def Sited (m : M) (c : CallString N K) : Prop :=
  c.sites = [] ↔ Blank a.graph a.problem a.initial.sites m

variable (a) in
structure Chained (r : CallRecord N (CallString N K)) : Prop where
  start : r.entry ∈ a.graph.starts (a.graph.functionOf r.entry)
  caller : a.Sited (a.graph.functionOf r.site) r.caller
  callee : a.Sited (a.graph.functionOf r.entry) r.callee
  enters : r.callee.sites = [] ∨ r.callee = r.caller.enter r.site

theorem Sited.eq_of_same [DecidableEq N] {m : M} {c c' : CallString N K} (hc : a.Sited m c)
    (hc' : a.Sited m c') (hsame : c.same c' = true) : c = c' := by
  by_cases hm : Blank a.graph a.problem a.initial.sites m
  · exact CallString.eq_of_sites ((hc.mpr hm).trans (hc'.mpr hm).symm)
  · exact CallString.same_of_ne_nil hsame (hm ∘ hc.mp) (hm ∘ hc'.mp)

theorem sited_initial {n : N} {d : D} (hd : (n, d) ∈ a.problem.seeds) :
    a.Sited (a.graph.functionOf n) a.initial :=
  ⟨fun hnil => ⟨hnil, (n, d), hd, rfl⟩, And.left⟩

variable [Ord N] [DecidableEq N] [Described N]

theorem chained_of_adopts (hK : 0 < K) (hk : a.contexts = CallString.kind)
    (hmax : a.limits.maxContexts = none) (hg : a.graph.Procedural)
    (hseeds : a.problem.SeedsEntries a.graph) {n entry : N} {c c' : CallString N K} {d : D}
    (hentry : entry ∈ a.graph.starts (a.graph.functionOf entry))
    (hc : a.Sited (a.graph.functionOf n) c)
    (hc' : c' = a.contexts.enter c n entry d ∧
        (∀ d', (entry, d') ∈ a.problem.seeds → a.contexts.same a.initial c' = false) ∨
      a.Sited (a.graph.functionOf entry) c' ∧
        (a.contexts.same c' (a.contexts.enter c n entry d) = true ∨
          a.limits.maxContexts.isSome = true)) :
    a.Chained ⟨n, entry, c, c'⟩ := by
  have hne : (c.enter n).sites ≠ [] := CallString.sites_enter_ne_nil hK c n
  rw [hk, hmax] at hc'
  rcases hc' with ⟨rfl, hdiffers⟩ | ⟨hsited, hsame | hnever⟩
  · -- an entry that is seeded with the empty string has no second context
    refine ⟨hentry, hc, ⟨fun hnil => absurd hnil hne, ?_⟩, Or.inr rfl⟩
    rintro ⟨hnil, ⟨x, e⟩, hx, hfunction⟩
    obtain ⟨m, hx'⟩ := hseeds hx
    rw [← hg.functionOf_start hx', hfunction] at hx'
    obtain rfl := hg.start_unique hx' hentry
    have hsame := CallString.same_iff (d := c.enter n).mpr (Or.inl hnil)
    exact absurd (hsame.symm.trans (hdiffers e hx)) (by simp)
  · refine ⟨hentry, hc, hsited, ?_⟩
    rcases CallString.same_iff.mp hsame with hnil | hnil | heq
    · exact Or.inl hnil
    · exact absurd hnil hne
    · exact Or.inr heq
  · exact absurd hnever (by simp)

theorem supports_sited (hK : 0 < K) (hk : a.contexts = CallString.kind)
    (hmax : a.limits.maxContexts = none) (hg : a.graph.Procedural)
    (hseeds : a.problem.SeedsEntries a.graph) :
    a.Supports (fun n c _ => a.Sited (a.graph.functionOf n) c) a.Chained where
  seed := sited_initial
  join hc _ _ := hc
  pass hc _ _ hn' := hg.functionOf_succ hn' ▸ hc
  bypass hc _ hn' := hg.functionOf_returnSite hn' ▸ hc
  enter hc _ _ hentry hnew := by
    rw [← hg.functionOf_start hentry] at hentry
    have hchained := chained_of_adopts hK hk hmax hg hseeds hentry hc
      (hnew.imp_right (And.imp_left (fun ⟨_, hc'⟩ => hc')))
    exact ⟨hchained.callee, hchained⟩
  leave _ _ _ hr _ _ hn' := hg.functionOf_returnSite hn' ▸ hr.caller

end Sited

section Cut

variable {a : Analysis N M D (CallString N J) S E} {b : Analysis N M D (CallString N K) S' E'}
variable {cut : M → CallString N K → CallString N J}

/-- Cutting strings of `b` makes them strings of `a`. Nothing is left in functions that are seeded with
the empty string; elsewhere cut strings enter callees as the strings do. -/
structure Cuts (b : Analysis N M D (CallString N K) S' E') (a : Analysis N M D (CallString N J) S E)
    (cut : M → CallString N K → CallString N J) : Prop where
  blank : ∀ {m c}, Blank a.graph a.problem a.initial.sites m → b.Sited m c → (cut m c).sites = []
  seeded : ∀ {m}, Blank b.graph b.problem b.initial.sites m →
    Blank a.graph a.problem a.initial.sites m
  initial : ∀ {n d}, (n, d) ∈ b.problem.seeds → cut (a.graph.functionOf n) b.initial = a.initial
  enter : ∀ {m}, ¬ Blank a.graph a.problem a.initial.sites m → ∀ site c,
    cut m (c.enter site) = (cut (a.graph.functionOf site) c).enter site

structure CutsTo (b : Analysis N M D (CallString N K) S' E') (a : Analysis N M D (CallString N J) S E)
    (cut : M → CallString N K → CallString N J) (m : M) (c' : CallString N K) (c : CallString N J) :
    Prop where
  short : a.Sited m c
  long : b.Sited m c'
  eq : cut m c' = c

theorem CutsTo.of_eq {m : M} {c' c₁' : CallString N K} {c c₁ : CallString N J}
    (hc : CutsTo b a cut m c' c) (h₁ : CutsTo b a cut m c₁' c₁) (h : c' = c₁') : c = c₁ := by
  rw [← hc.eq, ← h₁.eq, h]

theorem CutsTo.of_chained (hcuts : b.Cuts a cut) (hgraph : b.graph = a.graph)
    {r : CallRecord N (CallString N J)} {c' c₁' : CallString N K} (hr : a.Chained r)
    (hr' : b.Chained ⟨r.site, r.entry, c', c₁'⟩) (hc : cut (a.graph.functionOf r.site) c' = r.caller) :
    CutsTo b a cut (a.graph.functionOf r.entry) c₁' r.callee := by
  have hlong : b.Sited (a.graph.functionOf r.entry) c₁' := hgraph ▸ hr'.callee
  refine ⟨hr.callee, hlong, ?_⟩
  by_cases hblank : Blank a.graph a.problem a.initial.sites (a.graph.functionOf r.entry)
  · exact CallString.eq_of_sites ((hcuts.blank hblank hlong).trans (hr.callee.mpr hblank).symm)
  · have heq := hr.enters.resolve_left (hblank ∘ hr.callee.mp)
    have heq' : c₁' = c'.enter r.site := hr'.enters.resolve_left (hblank ∘ hcuts.seeded ∘ hlong.mp)
    rw [heq, heq', hcuts.enter hblank, hc]

variable [Ord N] [DecidableEq N] [Described N] [Ord M] [Std.TransOrd N] [Std.LawfulEqOrd N]
variable [Std.TransOrd M] [Std.LawfulEqOrd M] [DecidableEq M] [a.contexts.Lawful]
variable {s : State N M D (CallString N J) S E}

theorem Solved.relates_cut (hJ : 0 < J) (hK : 0 < K) (hk : a.contexts = CallString.kind)
    (hk' : b.contexts = CallString.kind) (hmax : a.limits.maxContexts = none)
    (hmax' : b.limits.maxContexts = none) (hflows : b.FlowsBelow a) (hcuts : b.Cuts a cut)
    (hp : a.problem.Ordered) (hg : a.graph.Procedural) (hseeds : a.problem.SeedsEntries a.graph)
    (h : a.Solved s) (hs : s.finished = true) :
    a.Relates s b (fun n c' c => CutsTo b a cut (a.graph.functionOf n) c' c) := by
  have hgraph := hflows.graph
  have hseeds' : b.problem.SeedsEntries b.graph := fun hd =>
    (hflows.seed hd).elim (fun _ hd' => hgraph ▸ hseeds hd'.1)
  have hsupported := h.supported hp (supports_sited hJ hk hmax hg hseeds) hs
  have hsited : ∀ {n c}, s.Tracks n c → a.Sited (a.graph.functionOf n) c :=
    fun ⟨_, hd⟩ => hsupported.entries hd
  -- strings of one function are equal as soon as they compare equal
  have hlong : ∀ {m} {c' c₁' : CallString N K}, b.Sited m c' → b.Sited m c₁' →
      b.contexts.same c' c₁' = true → c' = c₁' :=
    fun hc h₁ hsame => hc.eq_of_same h₁ (by rwa [hk'] at hsame)
  have hshort : ∀ {m} {c c₁ : CallString N J}, a.Sited m c → a.Sited m c₁ →
      a.contexts.same c c₁ = true → c = c₁ :=
    fun hc h₁ hsame => hc.eq_of_same h₁ (by rwa [hk] at hsame)
  constructor
  case seed =>
    intro n c d hd hc hsame
    obtain ⟨d', hd', _⟩ := hflows.seed hd
    obtain rfl := hshort (hsited hc) (sited_initial hd') hsame
    exact ⟨hsited hc, hgraph ▸ sited_initial hd, hcuts.initial hd⟩
  case merge =>
    intro n c c₁ c' c₁' hc h₁ hsame
    rw [hc.of_eq h₁ (hlong hc.long h₁.long hsame)]
    exact ContextKind.Lawful.same_refl _
  case inside =>
    intro n n' c c₁ c' hc hn h₁ hsame
    have hsited₁ := hsited h₁
    rw [hn] at hsited₁ ⊢
    rwa [hshort hsited₁ hc.short hsame]
  case enter =>
    intro r c' c₁' d hc hr hnew
    have hchained := hsupported.calls hr
    have hchained' : b.Chained ⟨r.site, r.entry, c', c₁'⟩ :=
      chained_of_adopts hK hk' hmax' (hgraph ▸ hg) hseeds' (hgraph ▸ hchained.start)
        (hgraph ▸ hc.long)
        (hnew.imp_right (And.imp_left (fun ⟨_, h₁⟩ => hgraph ▸ h₁.long)))
    exact .of_chained hcuts hgraph hchained hchained' hc.eq
  case leave =>
    intro n entry c c₁ c' c₁' hc h₁ hn hsame
    rw [hn] at h₁
    obtain rfl := hc.of_eq h₁ (hlong h₁.long hc.long hsame).symm
    exact ⟨ContextKind.Lawful.same_refl _, fun _ _ hsame₂ => hsame₂⟩

theorem Solved.relates_recent {initial : CallString N K} {limits : Limits} (hJ : 0 < J) (hle : J ≤ K)
    (hk : a.contexts = CallString.kind) (hmax : a.limits.maxContexts = none)
    (hmax' : limits.maxContexts = none) (hinitial : initial.sites = a.initial.sites)
    (hp : a.problem.Ordered) (hg : a.graph.Procedural) (hseeds : a.problem.SeedsEntries a.graph)
    (h : a.Solved s) (hs : s.finished = true) :
    let b : Analysis N M D (CallString N K) S E :=
      ⟨a.graph, a.problem, CallString.kind, initial, limits⟩
    a.Relates s b (fun n c' c =>
      CutsTo b a (fun _ => CallString.recent J) (a.graph.functionOf n) c' c) := by
  intro b
  have hcuts : b.Cuts a (fun _ => CallString.recent J) := by
    refine ⟨fun {m c} hblank hc => ?_, fun {m} hblank => ?_, fun _ => ?_, fun _ site c => ?_⟩
    · have hnil : c.sites = [] := hc.mpr (by rwa [hinitial])
      rw [CallString.sites_recent, hnil, List.rtake_nil]
    · rwa [← hinitial]
    · exact CallString.recent_eq_of_sites hinitial
    · exact CallString.recent_enter hle c site
  exact h.relates_cut hJ (Nat.lt_of_lt_of_le hJ hle) hk rfl hmax hmax'
    (flowsBelow_of_problem hp rfl rfl) hcuts hp hg hseeds hs

theorem Solved.relates_trim {b : Analysis N M D (CallString N J) S' E'} (hJ : 0 < J)
    (hk : a.contexts = CallString.kind) (hk' : b.contexts = CallString.kind)
    (hmax : a.limits.maxContexts = none) (hmax' : b.limits.maxContexts = none)
    (hinitial : a.initial = ∅) (hinitial' : b.initial = ∅) (hflows : b.FlowsBelow a)
    (hp : a.problem.Ordered) (hg : a.graph.Procedural) (hseeds : a.problem.SeedsEntries a.graph)
    (h : a.Solved s) (hs : s.finished = true) : ∃ rel, a.Relates s b rel := by
  let stop : M → Bool := fun m => a.problem.seeds.any (fun x => decide (a.graph.functionOf x.1 = m))
  have hnil : a.initial.sites = [] := congrArg CallString.sites hinitial
  have hnil' : b.initial.sites = [] := congrArg CallString.sites hinitial'
  have hstop : ∀ {m}, stop m = true ↔ Blank a.graph a.problem a.initial.sites m := by
    intro m
    simp [stop, Blank, hnil]
  have hcuts : b.Cuts a (CallString.trim a.graph.functionOf stop) := by
    constructor
    case blank => exact fun hblank _ => CallString.trim_of_stop (hstop.mpr hblank) _
    case seeded =>
      rintro m ⟨_, ⟨n, d⟩, hd, hm⟩
      obtain ⟨d', hd', _⟩ := hflows.seed hd
      exact ⟨hnil, (n, d'), hd', hflows.graph ▸ hm⟩
    case initial =>
      exact fun _ => CallString.eq_of_sites ((CallString.trim_of_nil hnil').trans hnil.symm)
    case enter =>
      intro m hm site c
      exact CallString.trim_enter (Bool.eq_false_iff.mpr (hm ∘ hstop.mp)) site c
  exact ⟨_, h.relates_cut hJ hJ hk hk' hmax hmax' hflows hcuts hp hg hseeds hs⟩

end Cut

end Analysis

end Interproc
