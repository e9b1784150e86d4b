import Interproc.Proofs.Solver.Moment

namespace Interproc.Analysis

open Solver

variable {N M D C S E : Type} (a : Analysis N M D C S E)

/-- The flow along each edge carries `Q` on, given `R` for the calls that facts return to. A callee
context is new at its entry, and then differs from what is seeded there, or it is tracked already. -/
structure Supports (Q : N → C → D → Prop) (R : CallRecord N C → Prop) : Prop where
  seed : ∀ {n d}, (n, d) ∈ a.problem.seeds → Q n a.initial d
  join : ∀ {n c c' d d'}, Q n c' d' → Q n c d → a.contexts.same c' c = true →
    Q n c' (a.problem.join d' d)
  pass : ∀ {n c d n'}, Q n c d → a.graph.isCall n = false → a.graph.isExit n = false →
    n' ∈ a.graph.succs n → Q n' c (a.problem.normal n d)
  bypass : ∀ {n c d n'}, Q n c d → a.graph.isCall n = true → n' ∈ a.graph.returnSites n →
    Q n' c (a.problem.bypass n n' d)
  enter : ∀ {n c d m entry c'}, Q n c d → a.graph.isCall n = true → m ∈ a.graph.callees n →
    entry ∈ a.graph.starts m → c' = a.contexts.enter c n entry (a.problem.call n m d) ∧
        (∀ d', (entry, d') ∈ a.problem.seeds → a.contexts.same a.initial c' = false) ∨
      (∃ d', Q entry c' d') ∧
        (a.contexts.same c' (a.contexts.enter c n entry (a.problem.call n m d)) = true ∨
          a.limits.maxContexts.isSome = true) →
    Q entry c' (a.problem.call n m d) ∧ R ⟨n, entry, c, c'⟩
  leave : ∀ {n c d r n'}, Q n c d → a.graph.isCall n = false → a.graph.isExit n = true → R r →
    a.graph.functionOf r.entry = a.graph.functionOf n → a.contexts.same r.callee c = true →
    n' ∈ a.graph.returnSites r.site →
    Q n' r.caller (a.problem.ret r.site (a.graph.functionOf n) n d)

/-- What comes up at the nodes when the seeds flow on, whichever contexts keep it apart. -/
inductive Arises (g : Icfg N M) (p : Problem N M D S E) : N → D → Prop
  | seed {n d} (h : (n, d) ∈ p.seeds) : Arises g p n d
  | join {n d e} (hd : Arises g p n d) (he : Arises g p n e) : Arises g p n (p.join d e)
  | pass {n d n'} (h : Arises g p n d) (hcall : g.isCall n = false) (hexit : g.isExit n = false)
      (hn' : n' ∈ g.succs n) : Arises g p n' (p.normal n d)
  | bypass {n d n'} (h : Arises g p n d) (hcall : g.isCall n = true)
      (hn' : n' ∈ g.returnSites n) : Arises g p n' (p.bypass n n' d)
  | enter {n d m entry} (h : Arises g p n d) (hcall : g.isCall n = true) (hm : m ∈ g.callees n)
      (hentry : entry ∈ g.starts m) : Arises g p entry (p.call n m d)
  | leave {n d site e m entry n'} (h : Arises g p n d) (hcall : g.isCall n = false)
      (hexit : g.isExit n = true) (hsite : Arises g p site e) (hsiteCall : g.isCall site = true)
      (hm : m ∈ g.callees site) (hentry : entry ∈ g.starts m)
      (hcallee : g.functionOf entry = g.functionOf n) (hn' : n' ∈ g.returnSites site) :
      Arises g p n' (p.ret site (g.functionOf n) n d)

def Enters (g : Icfg N M) (p : Problem N M D S E) (site entry : N) : Prop :=
  (∃ d, Arises g p site d) ∧ g.isCall site = true ∧ ∃ m ∈ g.callees site, entry ∈ g.starts m

variable {a}

theorem supports_arises {cs : Set C} (hinitial : a.initial ∈ cs)
    (henter : ∀ {c n m entry d}, c ∈ cs → Arises a.graph a.problem n d →
      m ∈ a.graph.callees n → a.contexts.enter c n entry (a.problem.call n m d) ∈ cs) :
    a.Supports (fun n c d => Arises a.graph a.problem n d ∧ c ∈ cs)
      (fun r => Enters a.graph a.problem r.site r.entry ∧ r.caller ∈ cs) where
  seed hd := ⟨.seed hd, hinitial⟩
  join h' h _ := ⟨.join h'.1 h.1, h'.2⟩
  pass h hcall hexit hn' := ⟨.pass h.1 hcall hexit hn', h.2⟩
  bypass h hcall hn' := ⟨.bypass h.1 hcall hn', h.2⟩
  enter h hcall hm hentry hnew := by
    refine ⟨⟨.enter h.1 hcall hm hentry, ?_⟩, ⟨⟨_, h.1⟩, hcall, _, hm, hentry⟩, h.2⟩
    rcases hnew with ⟨rfl, _⟩ | ⟨⟨_, htracked⟩, _⟩
    · exact henter h.2 h.1 hm
    · exact htracked.2
  leave h hcall hexit hr hfunction _ hn' := by
    obtain ⟨⟨⟨_, hsite⟩, hsiteCall, _, hm, hentry⟩, hcaller⟩ := hr
    exact ⟨.leave h.1 hcall hexit hsite hsiteCall hm hentry hfunction hn', hcaller⟩

variable [Ord N] [Ord M]

structure Supported (Q : N → C → D → Prop) (R : CallRecord N C → Prop) (s : State N M D C S E) :
    Prop where
  entries : ∀ {n c d}, (c, d) ∈ s.entriesAt n → Q n c d
  calls : ∀ {m r}, r ∈ s.callsInto m → R r

variable {Q : N → C → D → Prop} {R : CallRecord N C → Prop} {s t : State N M D C S E}

theorem supported_fresh (htable : s.table = ∅) (hcalls : s.calls = ∅) : Supported Q R s where
  entries hd := by simp [State.entriesAt, htable, OrdMap.getD] at hd
  calls hr := by simp [State.callsInto, hcalls, OrdMap.getD] at hr

theorem Supported.congr (h : Supported Q R s) (htable : t.table = s.table)
    (hcalls : t.calls = s.calls) : Supported Q R t where
  entries hd := h.entries (by rwa [State.entriesAt_congr htable] at hd)
  calls hr := h.calls (by rwa [State.callsInto_congr hcalls] at hr)

theorem Supported.recordCall [DecidableEq N] [Std.TransOrd M] [Std.LawfulEqOrd M] [DecidableEq M]
    (h : Supported Q R s) {r : CallRecord N C} (hr : R r) :
    Supported Q R (a.recordCall r s).2 where
  entries hd := h.entries (by rwa [recordCall_entriesAt] at hd)
  calls hr' := by
    rcases mem_callsInto_recordCall.mp hr' with hold | ⟨rfl, _, _⟩
    · exact h.calls hold
    · exact hr

variable [Std.TransOrd N] [Std.LawfulEqOrd N] [DecidableEq N]

theorem Supported.joinInto (h : Supported Q R s) {n : N} {c : C} {d : D}
    (hjoin : ∀ {c' d'}, Q n c' d' → a.contexts.same c' c = true → Q n c' (a.problem.join d' d))
    (hd : Q n c d) : Supported Q R (a.joinInto n c d s) where
  entries {m c' e} he := by
    rcases mem_entriesAt_joinInto he with hold | ⟨rfl, _, ⟨d', hd', hsame, heq⟩ | ⟨_, heq⟩⟩
    · exact h.entries hold
    · simp only at heq hsame
      rw [heq]
      exact hjoin (h.entries hd') hsame
    · obtain ⟨rfl, rfl⟩ := Prod.mk.inj heq
      exact hd
  calls hr := h.calls (by rwa [joinInto_callsInto] at hr)

theorem Supports.joinInto (hq : a.Supports Q R) (h : Supported Q R s) {n : N} {c : C} {d : D}
    (hd : Q n c d) : Supported Q R (a.joinInto n c d s) :=
  h.joinInto (fun hd' hsame => hq.join hd' hd hsame) hd

variable [Std.TransOrd M] [Std.LawfulEqOrd M] [DecidableEq M]

theorem Move.supported (hq : a.Supports Q R) {n : N} {c : C} {d : D}
    (h : a.Amid (Supported Q R) n c d s) (hmove : a.Move n c d s t) : Supported Q R t := by
  have hd : Q n c d := by
    obtain ⟨s₀, hs₀, _, hd, _⟩ := h.began
    exact hs₀.entries hd
  cases hmove with
  | quiet hquiet => exact h.kept.congr hquiet.table hquiet.calls
  | requeue => exact h.kept.congr rfl rfl
  | remember => exact h.kept.congr rfl rfl
  | pass hcall hexit hn' => exact hq.joinInto h.kept (hq.pass hd hcall hexit hn')
  | bypass hcall hn' => exact hq.joinInto h.kept (hq.bypass hd hcall hn')
  | enter hcall hm hentry hadopt =>
      obtain ⟨hcallee, hr⟩ := hq.enter hd hcall hm hentry (hadopt.imp
        (fun hnew => ⟨hnew.2, fun _ hd' => hnew.2 ▸ h.seeded.differs hnew.1 hd'⟩)
        (fun htracked => ⟨htracked.1.imp (fun _ => h.kept.entries), htracked.2⟩))
      exact hq.joinInto (h.kept.recordCall hr) hcallee
  | leave hcall hexit hr hsame hn' =>
      exact hq.joinInto h.kept
        (hq.leave hd hcall hexit (h.kept.calls hr) (h.tabled.recorded hr).1 hsame hn')

theorem kept_supported (hq : a.Supports Q R) {x : S} : a.Kept x (Supported Q R) where
  fresh htable hcalls _ := supported_fresh htable hcalls
  congr h htable hcalls _ := h.congr htable hcalls
  seed h hd := hq.joinInto h (hq.seed hd)
  move h hmove := hmove.supported hq h

theorem Solved.supported [a.contexts.Lawful] (hp : a.problem.Ordered) (hq : a.Supports Q R)
    (h : a.Solved s) (hs : s.finished = true) : Supported Q R s :=
  Kept.reaches (fun _ => kept_supported hq) hp (h.reaches hs).1

theorem Moment.supported [a.contexts.Lawful] (hp : a.problem.Ordered) (hq : a.Supports Q R)
    {x : S} (h : a.Moment x s) : Supported Q R s :=
  (kept_supported hq).moment hp h

end Interproc.Analysis
