import Interproc.Proofs.Solver.Recent
import Interproc.Proofs.Solver.Walk

namespace Interproc

open Solver

variable {N M D C S E : Type} {K : Nat}

namespace Icfg

inductive Inside (g : Icfg N M) (m : M) : N → Prop
  | start {n} : n ∈ g.starts m → Inside g m n
  | pass {n n'} : Inside g m n → g.isCall n = false → g.isExit n = false → n' ∈ g.succs n →
      Inside g m n'
  | bypass {n n'} : Inside g m n → g.isCall n = true → n' ∈ g.returnSites n → Inside g m n'

/-- The call sites, the earliest first, by which calls lead from an entry point to a function. -/
inductive CallPath (g : Icfg N M) (entries : List M) : List N → M → Prop
  | entry {m} : m ∈ entries → CallPath g entries [] m
  | call {path m n m' entry} : CallPath g entries path m → g.Inside m n → g.isCall n = true →
      m' ∈ g.callees n → entry ∈ g.starts m' → m' ∉ entries → CallPath g entries (path ++ [n]) m'

variable {g : Icfg N M} {entries : List M}

theorem CallPath.eq_nil {path : List N} {m : M} (h : g.CallPath entries path m)
    (hm : m ∈ entries) : path = [] := by
  cases h with
  | entry => rfl
  | call _ _ _ _ _ hnot => exact absurd hm hnot

theorem CallPath.ne_nil {path : List N} {m : M} (h : g.CallPath entries path m)
    (hm : m ∉ entries) : path ≠ [] := by
  cases h with
  | entry hm' => exact absurd hm' hm
  | call => simp

theorem Inside.exists_start {m : M} {n : N} (h : g.Inside m n) : ∃ entry, entry ∈ g.starts m := by
  induction h with
  | start hn => exact ⟨_, hn⟩
  | pass _ _ _ _ ih => exact ih
  | bypass _ _ _ ih => exact ih

end Icfg

theorem CallString.sites_enter_of_path {c : CallString N K} {path : List N} (n : N)
    (h : c.sites = path.rtake K) : (c.enter n).sites = (path ++ [n]).rtake K := by
  rw [sites_enter, h]
  cases K with
  | zero => simp
  | succ K =>
      rw [List.rtake_concat_succ, List.rtake_concat_succ, rtake_rtake,
        Nat.min_eq_left (Nat.le_succ K)]

namespace Analysis

section Inside

variable [Ord N] [Std.TransOrd N] [Std.LawfulEqOrd N] [DecidableEq N]
variable [Ord M] [Std.TransOrd M] [Std.LawfulEqOrd M] [DecidableEq M]
variable {a : Analysis N M D C S E} [a.contexts.Lawful] {s : State N M D C S E}

theorem Solved.tracks_inside (hp : a.problem.Ordered) (hg : a.graph.Procedural)
    (hseeds : a.problem.SeedsEntries a.graph) (h : a.Solved s) (hs : s.finished = true)
    {m : M} {entry n : N} {c : C} (hentry : entry ∈ a.graph.starts m) (hc : s.Tracks entry c)
    (hn : a.graph.Inside m n) : s.Tracks n c := by
  have htabled := h.tabled hp hg.toAgrees hs
  have hrooted : a.Rooted s := Kept.reaches (fun _ => kept_rooted hg hseeds) hp (h.reaches hs).1
  induction hn with
  | start hn => rwa [hg.start_unique hn hentry]
  | pass _ hcall hexit hn' ih =>
      obtain ⟨d, hd⟩ := ih
      have hflow := (h.settled hp hg.toAgrees hs hd).pass hcall hexit _ hn'
      obtain ⟨d', hd', _⟩ := hrooted.includes hg htabled (hg.functionOf_succ hn') ⟨d, hd⟩ hflow
      exact ⟨d', hd'⟩
  | bypass _ hcall hn' ih =>
      obtain ⟨d, hd⟩ := ih
      have hflow := (h.settled hp hg.toAgrees hs hd).bypass hcall _ hn'
      obtain ⟨d', hd', _⟩ :=
        hrooted.includes hg htabled (hg.functionOf_returnSite hn') ⟨d, hd⟩ hflow
      exact ⟨d', hd'⟩

end Inside

section Path

def OnPath (g : Icfg N M) (entries : List M) (n : N) (c : CallString N K) : Prop :=
  g.Inside (g.functionOf n) n ∧
    ∃ path, g.CallPath entries path (g.functionOf n) ∧ c.sites = path.rtake K

theorem OnPath.move {g : Icfg N M} {entries : List M} {n n' : N} {c : CallString N K}
    (h : OnPath g entries n c) (hn : g.functionOf n' = g.functionOf n)
    (hin : g.Inside (g.functionOf n) n') : OnPath g entries n' c := by
  rw [OnPath, hn]
  exact ⟨hin, h.2⟩

variable [Ord N] [DecidableEq N] [Described N]

structure FromEntries (a : Analysis N M D (CallString N K) S E) (entries : List M) : Prop where
  ordered : a.problem.Ordered
  procedural : a.graph.Procedural
  kind : a.contexts = CallString.kind
  initial : a.initial = ∅
  unlimited : a.limits.maxContexts = none
  seeds : ∀ n, (∃ d, (n, d) ∈ a.problem.seeds) ↔ ∃ f ∈ entries, n ∈ a.graph.starts f

variable {a : Analysis N M D (CallString N K) S E} {entries : List M}

theorem FromEntries.seedsEntries (ha : a.FromEntries entries) :
    a.problem.SeedsEntries a.graph := by
  intro n d hd
  obtain ⟨f, _, hn⟩ := (ha.seeds n).mp ⟨d, hd⟩
  exact ⟨f, hn⟩

theorem FromEntries.blank_iff (ha : a.FromEntries entries) {m : M} {entry : N}
    (hentry : entry ∈ a.graph.starts m) :
    Blank a.graph a.problem a.initial.sites m ↔ m ∈ entries := by
  constructor
  · rintro ⟨_, x, hx, rfl⟩
    obtain ⟨f, hf, hstart⟩ := (ha.seeds x.1).mp ⟨x.2, hx⟩
    rwa [ha.procedural.functionOf_start hstart]
  · intro hm
    obtain ⟨d, hd⟩ := (ha.seeds entry).mpr ⟨m, hm, hentry⟩
    exact ⟨by rw [ha.initial]; rfl, (entry, d), hd, ha.procedural.functionOf_start hentry⟩

theorem supports_onPath (ha : a.FromEntries entries) :
    a.Supports (fun n c _ => OnPath a.graph entries n c)
      (fun r => a.graph.isCall r.site = true ∧ OnPath a.graph entries r.site r.caller) where
  seed {n d} hd := by
    obtain ⟨f, hf, hn⟩ := (ha.seeds n).mp ⟨d, hd⟩
    rw [OnPath, ha.procedural.functionOf_start hn, ha.initial]
    exact ⟨.start hn, [], .entry hf, (List.rtake_nil K).symm⟩
  join h _ _ := h
  pass h hcall hexit hn' := h.move (ha.procedural.functionOf_succ hn') (h.1.pass hcall hexit hn')
  bypass h hcall hn' := h.move (ha.procedural.functionOf_returnSite hn') (h.1.bypass hcall hn')
  enter {n c d m entry c'} h hcall hm hentry hc' := by
    refine ⟨?_, hcall, h⟩
    rw [ha.kind, ha.unlimited] at hc'
    rcases hc' with ⟨rfl, hdiffers⟩ | ⟨⟨_, hc'⟩, _⟩
    · obtain ⟨hin, path, hpath, hsites⟩ := h
      -- the empty string that an entry point is seeded with equals every other
      have hm' : m ∉ entries := by
        intro hm'
        obtain ⟨d', hd'⟩ := (ha.seeds entry).mpr ⟨m, hm', hentry⟩
        have hsame : CallString.same ∅ (c.enter n) = true := CallString.same_iff.mpr (Or.inl rfl)
        have hfalse := hdiffers d' hd'
        rw [ha.initial] at hfalse
        exact absurd (hsame.symm.trans hfalse) (by simp)
      rw [OnPath, ha.procedural.functionOf_start hentry]
      exact ⟨.start hentry, path ++ [n], hpath.call hin hcall hm hentry hm',
        CallString.sites_enter_of_path n hsites⟩
    · exact hc'
  leave _ _ _ hr _ _ hn' :=
    hr.2.move (ha.procedural.functionOf_returnSite hn') (hr.2.1.bypass hr.1 hn')

variable [Std.TransOrd N] [Std.LawfulEqOrd N]
variable [Ord M] [Std.TransOrd M] [Std.LawfulEqOrd M] [DecidableEq M] [a.contexts.Lawful]
variable {s : State N M D (CallString N K) S E}

theorem Solved.tracks_of_callPath (ha : a.FromEntries entries) (hK : 0 < K) (h : a.Solved s)
    (hs : s.finished = true) {path : List N} {m : M} (hpath : a.graph.CallPath entries path m)
    {entry : N} (hentry : entry ∈ a.graph.starts m) {c : CallString N K}
    (hc : c.sites = path.rtake K) : s.Tracks entry c := by
  have hg := ha.procedural
  have hsited := h.supported ha.ordered
    (supports_sited hK ha.kind ha.unlimited hg ha.seedsEntries) hs
  induction hpath generalizing entry c with
  | @entry m hm =>
      obtain ⟨d, hd⟩ := (ha.seeds entry).mpr ⟨m, hm, hentry⟩
      obtain ⟨e, he, _⟩ := includes_iff.mp (h.seeds_included ha.ordered hg.toAgrees hs hd)
      have hmem := (mem_of_findIn he).1
      have hblank := (ha.blank_iff hentry).mpr hm
      rw [← hg.functionOf_start hentry] at hblank
      have hnil : e.1.sites = [] := (hsited.entries hmem).mpr hblank
      have hsites : c.sites = e.1.sites := by rw [hc, hnil, List.rtake_nil]
      rw [CallString.eq_of_sites hsites]
      exact ⟨e.2, hmem⟩
  | @call path m n m' entry' _ hin hcall hm' _ hnot ih =>
      obtain ⟨start, hstart⟩ := hin.exists_start
      let c₀ : CallString N K := ⟨path.rtake K, by rw [List.rtake, List.length_drop]; omega⟩
      have htracks : s.Tracks start c₀ := ih hstart rfl
      obtain ⟨d, hd⟩ :=
        h.tracks_inside ha.ordered hg ha.seedsEntries hs hstart htracks hin
      obtain ⟨r, hr, rfl, rfl, hcaller, _⟩ :=
        (h.settled ha.ordered hg.toAgrees hs hd).enter hcall m' hm' entry hentry
      have hchained := hsited.calls hr
      -- only the start of an entry point has the empty string in place of the entered one
      have hcallee : r.callee = r.caller.enter r.site := by
        refine hchained.enters.resolve_left (fun hnil => hnot ?_)
        have hblank := hchained.callee.mp hnil
        rw [hg.functionOf_start hentry] at hblank
        exact (ha.blank_iff hentry).mp hblank
      have hsites : c.sites = r.callee.sites := by
        rw [hc, hcallee, hcaller]
        exact (CallString.sites_enter_of_path r.site rfl).symm
      rw [CallString.eq_of_sites hsites]
      exact ((h.tabled ha.ordered hg.toAgrees hs).recorded hr).2.2

theorem Solved.tracks_iff_onPath (ha : a.FromEntries entries) (hK : 0 < K) (h : a.Solved s)
    (hs : s.finished = true) {n : N} {c : CallString N K} :
    s.Tracks n c ↔ OnPath a.graph entries n c := by
  constructor
  · rintro ⟨d, hd⟩
    exact (h.supported ha.ordered (supports_onPath ha) hs).entries hd
  · rintro ⟨hin, path, hpath, hc⟩
    obtain ⟨start, hstart⟩ := hin.exists_start
    have htracks := h.tracks_of_callPath ha hK hs hpath hstart hc
    exact h.tracks_inside ha.ordered ha.procedural ha.seedsEntries hs hstart htracks hin

end Path

end Analysis

end Interproc
