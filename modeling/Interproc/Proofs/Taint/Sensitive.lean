import Interproc.Proofs.Taint.Flows

namespace Interproc.Taint

open Solver

namespace Setup

variable (t : Setup)

inductive Linked (g : Nat) : Nat → Prop
  | self : Linked g g
  | callee {n m} : Linked g (t.program.functionOf n) → t.program.isCall n = true →
      m ∈ t.program.calleesAt n → Linked g m
  | caller {n m} : Linked g m → t.program.isCall n = true → m ∈ t.program.calleesAt n →
      t.isSensitive m = false → Linked g (t.program.functionOf n)

def Supplied (g : Nat) : Prop :=
  ∃ f, t.Linked g f ∧ (f ∈ t.entries ∧ t.seedFacts f ≠ ∅ ∨
    ∃ n, t.program.functionOf n = f ∧ t.program.isCall n = true ∧ (t.sourceAt? n).isSome = true)

variable {t} {g : Nat}

theorem eq_empty {d : ValueSet} (h : ∀ v, v ∉ d) : d = ∅ :=
  OrdSet.ext (fun v => ⟨fun hv => absurd hv (h v), fun hv => absurd hv OrdSet.not_mem_empty⟩)

theorem normal_empty (n : Nat) : t.normal n ∅ = ∅ := by
  unfold normal
  split
  · rfl
  · split <;> simp

theorem call_empty (site callee : Nat) : t.call site callee ∅ = ∅ := by
  unfold call
  split
  · rfl
  · exact eq_empty (fun v hv => by simp [OrdSet.contains] at hv)

theorem ret_empty (site callee exit : Nat) : t.ret site callee exit ∅ = ∅ := by
  refine eq_empty (fun v hv => ?_)
  rcases List.mem_append.mp (OrdSet.mem_ofList.mp hv) with hv | hv
  · obtain ⟨_, hy, _⟩ := t.mem_returned.mp hv
    exact absurd hy OrdSet.not_mem_empty
  · obtain ⟨_, hy, _⟩ := t.mem_writtenBack.mp hv
    exact absurd hy OrdSet.not_mem_empty

theorem bypass_empty {n : Nat} (h : t.sourceAt? n = none) : t.bypass n ∅ = ∅ := by
  simp [bypass, h]

variable {C : Type} {k : ContextKind Nat ValueSet C} {initial : C} {limits : Limits} {s : Run C}

theorem supports_linked (hp : t.program.Coherent) (h : ¬ t.Supplied g) :
    (t.analysis k initial limits).Supports
      (fun n _ d => t.Linked g (t.program.functionOf n) → d = ∅)
      (fun r => t.program.isCall r.site = true ∧
        t.program.functionOf r.entry ∈ t.program.calleesAt r.site) where
  seed {n d} hd hlinked := by
    obtain ⟨f, hf, hn, rfl⟩ := (t.mem_seeds hp).mp hd
    obtain rfl : t.program.functionOf n = f := hp.procedural.functionOf_start hn
    exact Classical.not_not.mp (fun hne => h ⟨_, hlinked, Or.inl ⟨hf, hne⟩⟩)
  join h₁ h₂ _ hlinked := by
    rw [h₁ hlinked, h₂ hlinked]
    exact OrdSet.union_self ∅
  pass {n c d n'} hd _ _ hn' hlinked := by
    have hn : t.program.functionOf n' = t.program.functionOf n := hp.procedural.functionOf_succ hn'
    rw [hd (hn ▸ hlinked)]
    exact normal_empty n
  bypass {n c d n'} hd hcall hn' hlinked := by
    have hn : t.program.functionOf n' = t.program.functionOf n :=
      hp.procedural.functionOf_returnSite hn'
    -- a source called in a linked function would supply `g`
    have hnone : t.sourceAt? n = none := by
      refine Option.not_isSome_iff_eq_none.mp (fun hsome => h ⟨_, hlinked, Or.inr ?_⟩)
      exact ⟨n, hn.symm, hcall, hsome⟩
    rw [hd (hn ▸ hlinked)]
    exact bypass_empty hnone
  enter {n c d m entry c'} hd hcall hm hentry _ := by
    have hfunction : t.program.functionOf entry = m := hp.procedural.functionOf_start hentry
    refine ⟨fun hlinked => ?_, hcall, hfunction ▸ hm⟩
    cases hsensitive : t.isSensitive m with
    | true => exact if_pos hsensitive
    | false =>
        rw [hfunction] at hlinked
        rw [hd (hlinked.caller hcall hm hsensitive)]
        exact call_empty n m
  leave {n c d r n'} hd _ _ hr hfunction _ hn' hlinked := by
    have hn : t.program.functionOf n' = t.program.functionOf r.site :=
      hp.procedural.functionOf_returnSite hn'
    have hfunction : t.program.functionOf r.entry = t.program.functionOf n := hfunction
    rw [hn] at hlinked
    have hcallee := hlinked.callee hr.1 hr.2
    rw [hd (hfunction ▸ hcallee)]
    exact ret_empty ..

variable [k.Lawful]

theorem supplied_of_ret (hp : t.program.Coherent) (h : (t.analysis k initial limits).Moment ∅ s)
    {site x : Nat} (hx : x ∈ t.program.exitsOf g) {c : C} {d : ValueSet}
    (hd : (c, d) ∈ s.entriesAt x) {v : Value} (hv : v ∈ t.ret site g x d) : t.Supplied g := by
  refine Classical.not_not.mp (fun hnot => ?_)
  have hsupported := h.supported (a := t.analysis k initial limits) t.pointwise.ordered
    (supports_linked hp hnot)
  have hfunction : t.program.functionOf x = g := hp.procedural.functionOf_exit hx
  rw [hsupported.entries hd (hfunction ▸ .self), ret_empty] at hv
  exact OrdSet.not_mem_empty hv

theorem tracked_of_ret (hp : t.program.Coherent) (h : (t.analysis k initial limits).Solved s)
    (hs : s.finished = true) {r : CallRecord Nat C} (hr : r ∈ s.callsInto g) {x : Nat}
    (hx : x ∈ t.program.exitsOf g) {c : C} {d : ValueSet} (hd : (c, d) ∈ s.entriesAt x)
    (hsame : k.same r.callee c = true) {n : Nat} (hn : n ∈ t.program.succs r.site) :
    ∃ e, (r.caller, e) ∈ s.entriesAt n ∧ (t.ret r.site g x d).isSubset e = true := by
  let a := t.analysis k initial limits
  have hordered : a.problem.Ordered := t.pointwise.ordered
  have hg : a.graph.Procedural := hp.procedural
  have hseeds : a.problem.SeedsEntries a.graph := t.seedsEntries hp
  have htabled : a.Tabled s := h.tabled hordered hg.toAgrees hs
  have hrooted : a.Rooted s :=
    Analysis.Kept.reaches (fun _ => Analysis.kept_rooted hg hseeds) hordered (h.reaches hs).1
  obtain ⟨hentry, hcaller, hcallee⟩ := htabled.recorded hr
  have hfunction : a.graph.functionOf x = g := hg.functionOf_exit hx
  have hexit : a.graph.isExit x = true := (List.mem_filter.mp hx).2
  -- within one function contexts that are equal are the same
  obtain rfl : r.callee = c :=
    hrooted.eq_of_same hg htabled (hfunction.trans hentry.symm) hcallee ⟨d, hd⟩ hsame
  have hflow := (h.settled hordered hg.toAgrees hs hd).leave (hg.isCall_of_isExit hexit) hexit
    (hfunction.symm ▸ hx) r (hfunction.symm ▸ hr) (htabled.lookup_of_mem hd) n hn
  rw [hfunction] at hflow
  exact hrooted.includes hg htabled (hg.functionOf_returnSite hn) hcaller hflow

theorem ret_supplied_and_tracked {text module : String}
    (hlift : Program.lift text module = .ok t.program) (k : ContextKind Nat ValueSet C) [k.Lawful]
    (initial : C) (limits : Limits) (g : Nat) :
    (∀ s, (t.analysis k initial limits).Moment ∅ s → ∀ x ∈ t.program.exitsOf g, ∀ c d,
      (c, d) ∈ s.entriesAt x → ∀ site, ∀ v ∈ t.ret site g x d, t.Supplied g) ∧
    ∀ s, (t.analysis k initial limits).Solved s → s.finished = true → ∀ r ∈ s.callsInto g,
      ∀ x ∈ t.program.exitsOf g, ∀ c d, (c, d) ∈ s.entriesAt x → k.same r.callee c = true →
      ∀ v ∈ t.ret r.site g x d, ∀ n ∈ t.program.succs r.site,
        ∃ e, (r.caller, e) ∈ s.entriesAt n ∧ v ∈ e := by
  have hp := Program.coherent_of_lift hlift
  refine ⟨fun s h x hx c d hd site v hv => supplied_of_ret hp h hx hd hv, ?_⟩
  intro s h hs r hr x hx c d hd hsame v hv n hn
  obtain ⟨e, he, hle⟩ := tracked_of_ret hp h hs hr hx hd hsame hn
  exact ⟨e, he, OrdSet.isSubset_iff.mp hle v hv⟩

def sinkBodyLines : List String := [
  "declare source()",
  "fn sink(%d) \x7b",
  "  %t = call source()",
  "  ret %t",
  "\x7d",
  "fn main() \x7b",
  "  %r = call sink(7)",
  "  ret",
  "\x7d"]

def sinkBody : Setup where
  program := {
    instructions := #[
      { op := .start, function := 1 },
      { op := .call, output := "t", callee := some 0, function := 1, line := some 3 },
      { op := .ret, inputs := [.result 1], function := 1, line := some 4 },
      { op := .start, function := 2 },
      { op := .call, output := "r", inputs := [.constant 7], callee := some 1, function := 2,
        line := some 7 },
      { op := .ret, function := 2, line := some 8 }]
    functions := #[
      ⟨"source", "t.c", [], none⟩,
      ⟨"sink", "t.c", [⟨"d", false⟩], some ⟨0, 3⟩⟩,
      ⟨"main", "t.c", [], some ⟨3, 6⟩⟩]
    globals := ∅
    openBody := none }
  registry := .defaults
  aliases := noAliases
  entries := [2]
  config := {}

theorem sinkBody_lift :
    Program.lift (String.intercalate "\n" sinkBodyLines) "t.c" = .ok sinkBody.program := by
  rw [Program.lift_lines]
  decide +kernel

def sinkBodySolved :
    (sinkBody.analysis CallString.kind (∅ : CallString Nat 1) ⟨none, none⟩).Fixpoint ∅ :=
  .ofSolve 60 (by decide +kernel)

theorem sinkBody_returned : ∃ r ∈ sinkBodySolved.state.callsInto 1, r.site = 4 ∧
    ∃ e ∈ sinkBodySolved.state.entriesAt 2, r.callee.same e.1 = true ∧
      .result 4 ∈ sinkBody.ret 4 1 2 e.2 ∧
      (∃ e' ∈ sinkBodySolved.state.entriesAt 4, e'.1.sites = r.caller.sites ∧
        .result 4 ∉ sinkBody.bypass 4 e'.2) ∧
      ∃ e' ∈ sinkBodySolved.state.entriesAt 5, e'.1.sites = r.caller.sites ∧ .result 4 ∈ e'.2 := by
  decide +kernel

theorem sinkBody_supplied : sinkBody.Supplied 1 ∧ ∃ r ∈ sinkBodySolved.state.callsInto 1,
    ∃ e, (r.caller, e) ∈ sinkBodySolved.state.entriesAt 5 ∧ .result 4 ∈ e := by
  obtain ⟨r, hr, hsite, ⟨c, d⟩, hd, hsame, hv, -⟩ := sinkBody_returned
  have hreturns := ret_supplied_and_tracked sinkBody_lift CallString.kind (∅ : CallString Nat 1)
    ⟨none, none⟩ 1
  refine ⟨hreturns.1 _ (sinkBodySolved.solved.moment sinkBody.pointwise.ordered) 2 (by decide) c d
    hd 4 _ hv, r, hr, ?_⟩
  exact hreturns.2 _ sinkBodySolved.solved.solved sinkBodySolved.finished r hr 2 (by decide) c d hd
    hsame _ (hsite.symm ▸ hv) 5 (by rw [hsite]; decide)

theorem sinkBody_adds :
    Program.lift (String.intercalate "\n" sinkBodyLines) "t.c" = .ok sinkBody.program ∧
    sinkBodySolved.state.finished = true ∧ 1 ∈ sinkBody.program.calleesAt 4 ∧
    sinkBody.isSensitive 1 = true ∧ 1 ∉ sinkBody.entries ∧
    ∃ r ∈ sinkBodySolved.state.callsInto 1, r.site = 4 ∧
      (∃ e ∈ sinkBodySolved.state.entriesAt 2, r.callee.same e.1 = true ∧
        .result 4 ∈ sinkBody.ret 4 1 2 e.2) ∧
      (∃ d, (r.caller, d) ∈ sinkBodySolved.state.entriesAt 4 ∧ .result 4 ∉ sinkBody.bypass 4 d) ∧
      ∃ d, (r.caller, d) ∈ sinkBodySolved.state.entriesAt 5 ∧ .result 4 ∈ d := by
  refine ⟨sinkBody_lift, sinkBodySolved.finished, by decide, by decide +kernel, by decide, ?_⟩
  obtain ⟨r, hr, hsite, e, he, hsame, hv, ⟨⟨c, d⟩, hd, hc, hnot⟩, ⟨c', d'⟩, hd', hc', hv'⟩ :=
    sinkBody_returned
  obtain rfl : c = r.caller := CallString.eq_of_sites hc
  obtain rfl : c' = r.caller := CallString.eq_of_sites hc'
  exact ⟨r, hr, hsite, ⟨e, he, hsame, hv⟩, ⟨d, hd, hnot⟩, d', hd', hv'⟩

end Setup

end Interproc.Taint
