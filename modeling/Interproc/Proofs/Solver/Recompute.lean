import Interproc.Proofs.Solver.Drawn
import Interproc.Proofs.Solver.Recall
import Interproc.Proofs.Solver.Recent

namespace Interproc

open Solver

variable {N M D C S E : Type}

namespace Problem

def recomputing (p : Problem N M D S E) (r : M → Bool) : Problem N M D S E :=
  { p with recompute := r }

variable {p : Problem N M D S E}

theorem Ordered.recomputing (h : p.Ordered) (r : M → Bool) : (p.recomputing r).Ordered :=
  ⟨h.le_refl, h.le_trans, h.le_join_left, h.le_join_right⟩

theorem Monotone.recomputing (h : p.Monotone) (r : M → Bool) : (p.recomputing r).Monotone :=
  ⟨h.normal, h.call, h.ret, h.bypass⟩

end Problem

namespace Analysis

def recomputing (a : Analysis N M D C S E) (r : M → Bool) : Analysis N M D C S E :=
  { a with problem := a.problem.recomputing r }

section Closes

variable [Ord N] [Ord M] (a : Analysis N M D C S E)

/-- Each exit that a remembered call returns from is the one that is found for its callee context. -/
def Decided (s : State N M D C S E) : Prop :=
  ∀ m, ∀ r ∈ s.callsInto m, ∀ x c, a.graph.functionOf x = m → a.graph.isCall x = false →
    a.graph.isExit x = true → s.Tracks x c → a.contexts.same c r.callee = true →
      x ∈ a.graph.exits m ∧ (a.lookup s x r.callee).map Prod.fst = some c

structure Closes (t : State N M D C S E) : Prop where
  tabled : a.Tabled t
  seeded : ∀ {n d}, (n, d) ∈ a.problem.seeds → a.includes t a.initial n d = true
  pass : ∀ {n c d}, (c, d) ∈ t.entriesAt n → a.graph.isCall n = false → a.graph.isExit n = false →
    ∀ n' ∈ a.graph.succs n, a.includes t c n' (a.problem.normal n d) = true
  bypass : ∀ {n c d}, (c, d) ∈ t.entriesAt n → a.graph.isCall n = true →
    ∀ n' ∈ a.graph.returnSites n, a.includes t c n' (a.problem.bypass n n' d) = true
  enter : ∀ {n c d m r}, (c, d) ∈ t.entriesAt n → a.graph.isCall n = true →
    m ∈ a.graph.callees n → r ∈ t.callsInto (a.graph.functionOf r.entry) → r.site = n →
    r.entry ∈ a.graph.starts m → r.caller = c →
      a.includes t r.callee r.entry (a.problem.call n m d) = true
  leave : ∀ {n c d r}, (c, d) ∈ t.entriesAt n → a.graph.isCall n = false →
    a.graph.isExit n = true → r ∈ t.callsInto (a.graph.functionOf n) →
    a.contexts.same r.callee c = true → ∀ n' ∈ a.graph.returnSites r.site,
      a.includes t r.caller n' (a.problem.ret r.site (a.graph.functionOf n) n d) = true

def Beneath (s t : State N M D C S E) : Prop :=
  ∀ n c d, (c, d) ∈ s.entriesAt n → ∃ e, (c, e) ∈ t.entriesAt n ∧ a.problem.le d e = true

variable {a} {s t u : State N M D C S E} {n : N} {c : C} {d : D}

theorem lookup_fst (s : State N M D C S E) (n : N) (c : C) : (a.lookup s n c).map Prod.fst =
    ((s.entriesAt n).map Prod.fst).find? (fun c' => a.contexts.same c' c) := by
  rw [List.find?_map]
  rfl

theorem Decided.congr (h : a.Decided s)
    (hcontexts : ∀ n, (s.entriesAt n).map Prod.fst = (t.entriesAt n).map Prod.fst)
    (hcalls : ∀ m, s.callsInto m = t.callsInto m) : a.Decided t := by
  intro m r hr x c hx hcall hexit hc hsame
  rw [lookup_fst, ← hcontexts, ← lookup_fst]
  rw [← hcalls] at hr
  refine h m r hr x c hx hcall hexit (State.tracks_iff.mpr ?_) hsame
  rw [hcontexts]
  exact State.tracks_iff.mp hc

theorem Precedes.lookup (h : Precedes s t) {e : C × D} (he : a.lookup s n c = some e) :
    ∃ d, a.lookup t n c = some (e.1, d) := by
  obtain ⟨cs, hcs⟩ := h.contexts n
  have hfound : (a.lookup t n c).map Prod.fst = some e.1 := by
    rw [lookup_fst, ← hcs, List.find?_append, ← lookup_fst, he]
    rfl
  obtain ⟨x, hx, hc⟩ := Option.map_eq_some_iff.mp hfound
  exact ⟨x.2, by rw [hx, ← hc]⟩

theorem Beneath.congr (h : a.Beneath s t) (htable : u.table = s.table) : a.Beneath u t := by
  intro n c d hd
  rw [State.entriesAt_congr htable] at hd
  exact h n c d hd

theorem Closes.recomputing (h : a.Closes t) (r : M → Bool) : (a.recomputing r).Closes t :=
  ⟨⟨h.tabled.distinct, h.tabled.queued, h.tabled.recorded⟩, h.seeded, h.pass, h.bypass, h.enter,
    h.leave⟩

theorem entriesAt_eq_of_beneath [a.contexts.Lawful] (hantisymm : ∀ {d e}, a.problem.le d e = true →
      a.problem.le e d = true → d = e) (hs : a.Tabled s) (ht : a.Tabled t)
    (hcontexts : (t.entriesAt n).map Prod.fst = (s.entriesAt n).map Prod.fst)
    (h : a.Beneath s t) (h' : a.Beneath t s) : t.entriesAt n = s.entriesAt n := by
  have hmem : ∀ e ∈ s.entriesAt n, e ∈ t.entriesAt n := by
    rintro ⟨c, d⟩ hd
    obtain ⟨f, hf, hle⟩ := h n c d hd
    obtain ⟨d', hd', hle'⟩ := h' n c f hf
    have hdd := Prod.mk.inj (hs.eq_of_same hd' hd (ContextKind.Lawful.same_refl c))
    rw [hdd.2] at hle'
    rwa [hantisymm hle hle']
  have hlength : (t.entriesAt n).length = (s.entriesAt n).length := by
    simpa using congrArg List.length hcontexts
  refine List.ext_getElem hlength (fun i hi hi' => ?_)
  have hfst : ((t.entriesAt n)[i]).1 = ((s.entriesAt n)[i]).1 := by
    have hget := List.getElem_of_eq hcontexts (by simpa using hi)
    simpa using hget
  refine ht.eq_of_same (List.getElem_mem hi) (hmem _ (List.getElem_mem hi')) ?_
  rw [hfst]
  exact ContextKind.Lawful.same_refl _

section Join

variable [Std.TransOrd N] [Std.LawfulEqOrd N] [DecidableEq N] [a.contexts.Lawful]

theorem lookup_joinInto_of_mem {m : N} {e : C × D} (he : e ∈ (a.joinInto n c d s).entriesAt m) :
    e ∈ s.entriesAt m ∨ m = n ∧ a.lookup (a.joinInto n c d s) n c = some e ∧
      ((∃ d', (e.1, d') ∈ s.entriesAt n ∧ e.2 = a.problem.join d' d) ∨ e.2 = d) := by
  by_cases hm : m = n
  · subst hm
    rcases joinInto_cases a m c d s with ⟨_, _, _, hs⟩ | ⟨e₀, h₀, _, hs⟩ | ⟨hnone, hs⟩
    · exact Or.inl (hs ▸ he)
    · rw [hs.entries] at he
      rcases mem_replace he with hold | ⟨d', hfound, heq⟩
      · exact Or.inl hold
      · obtain rfl : e₀ = (e.1, d') := Option.some.inj (h₀.symm.trans hfound)
        refine Or.inr ⟨rfl, ?_, Or.inl ⟨d', (mem_of_findIn h₀).1, heq⟩⟩
        have hself := findIn_replace_self (d := a.problem.join d' d) h₀
        rwa [← hs.entries, ← heq] at hself
    · rw [hs.entries, List.mem_append, List.mem_singleton] at he
      rcases he with hold | rfl
      · exact Or.inl hold
      · have hfind : List.find? (fun e => a.contexts.same e.1 c) (s.entriesAt m) = none := hnone
        refine Or.inr ⟨rfl, ?_, Or.inr rfl⟩
        simp [Analysis.lookup, findIn, hs.entries, List.find?_append, hfind,
          ContextKind.Lawful.same_refl]
  · refine Or.inl ?_
    rcases joinInto_cases a n c d s with ⟨_, _, _, hs⟩ | ⟨_, _, _, hs⟩ | ⟨_, hs⟩
    · exact hs ▸ he
    · exact hs.others m hm ▸ he
    · exact hs.others m hm ▸ he

theorem Beneath.joinInto (hjoin : a.problem.JoinsLeast) (ht : a.Tabled t)
    (h : a.Beneath s t) (hprec : Precedes (a.joinInto n c d s) t)
    (hd : a.includes t c n d = true) : a.Beneath (a.joinInto n c d s) t := by
  obtain ⟨⟨c', e⟩, he, hle⟩ := includes_iff.mp hd
  have hmem := (mem_of_findIn he).1
  intro m c'' d' hd'
  rcases lookup_joinInto_of_mem hd' with hold | ⟨rfl, hfound, hnew⟩
  · exact h m c'' d' hold
  · -- the same context is found in `t`
    obtain ⟨_, hx⟩ := hprec.lookup hfound
    obtain rfl : c'' = c' := congrArg Prod.fst (Option.some.inj (hx.symm.trans he))
    refine ⟨e, hmem, ?_⟩
    rcases hnew with ⟨d₀, hd₀, rfl⟩ | rfl
    · obtain ⟨f, hf, hle'⟩ := h m c'' d₀ hd₀
      obtain rfl : f = e :=
        congrArg Prod.snd (ht.eq_of_same hf hmem (ContextKind.Lawful.same_refl c''))
      exact hjoin hle' hle
    · exact hle

end Join

section Run

variable [Std.TransOrd N] [Std.LawfulEqOrd N] [DecidableEq N]
variable [Std.TransOrd M] [Std.LawfulEqOrd M] [DecidableEq M] [a.contexts.Lawful]
variable {enter : C → N → N → C} {x : S}

theorem Solved.closes (hp : a.problem.Ordered) (hg : a.graph.Agrees) (ha : a.EntersBy enter)
    (h : a.Solved t) (hs : t.finished = true) (hdecided : a.Decided t) : a.Closes t := by
  have htabled := h.tabled hp hg hs
  have hsettled : ∀ {n c d}, (c, d) ∈ t.entriesAt n → a.Settled t n c d :=
    fun hd => h.settled hp hg hs hd
  obtain ⟨⟨x, hreach⟩, _⟩ := h.reaches hs
  refine ⟨htabled, h.seeds_included hp hg hs, fun hd => (hsettled hd).pass,
    fun hd => (hsettled hd).bypass, ?_, ?_⟩
  · rintro n c d m r hd hcall hm hr rfl hentry rfl
    -- the call that the facts entered by has the same callee context
    obtain ⟨r', hr', hsite, hentry', hcaller, hle⟩ := (hsettled hd).enter hcall m hm _ hentry
    obtain ⟨_, haimed⟩ := hreach.aimed hp ha hr
    obtain ⟨_, haimed'⟩ := hreach.aimed hp ha hr'
    rw [hsite, hentry', hcaller, haimed] at haimed'
    have hcallee : r.callee = r'.callee := congrArg Prod.fst (Option.some.inj haimed')
    rwa [hcallee]
  · intro n c d r hd hcall hexit hr hsame
    obtain ⟨hn, hfound⟩ := hdecided _ r hr n c rfl hcall hexit ⟨d, hd⟩
      (ContextKind.Lawful.same_symm hsame)
    obtain ⟨e, he, rfl⟩ := Option.map_eq_some_iff.mp hfound
    rw [htabled.eq_of_same (mem_of_findIn he).1 hd (ContextKind.Lawful.same_refl _)] at he
    exact (hsettled hd).leave hcall hexit hn r hr he

theorem Move.beneath (hp : a.problem.Ordered) (hjoin : a.problem.JoinsLeast)
    (hmono : a.problem.Monotone) (ht : a.Closes t) (h : a.Beneath s t)
    (hd : ∃ e, (c, e) ∈ t.entriesAt n ∧ a.problem.le d e = true) (hmove : a.Move n c d s u)
    (hprec : Precedes u t) : a.Beneath u t := by
  obtain ⟨e, he, hle⟩ := hd
  cases hmove with
  | quiet hquiet => exact h.congr hquiet.table
  | requeue => exact h
  | remember => exact h.congr rfl
  | pass hcall hexit hn' =>
      exact h.joinInto hjoin ht.tabled hprec
        (includes_mono hp (hmono.normal hle) (ht.pass he hcall hexit _ hn'))
  | bypass hcall hn' =>
      exact h.joinInto hjoin ht.tabled hprec
        (includes_mono hp (hmono.bypass hle) (ht.bypass he hcall _ hn'))
  | @enter m entry c' hcall hm hentry hadopt =>
      refine (h.congr (recordCall_table _)).joinInto hjoin ht.tabled hprec ?_
      -- the call is remembered in `t`, between the same contexts
      obtain ⟨r, hr, hsite, hrentry, hcaller, hcallee⟩ :=
        exists_recordCall (a := a) (s := s) ⟨n, entry, c, c'⟩
      rw [← joinInto_callsInto (n := entry) (c := c') (d := a.problem.call n m d)] at hr
      have hr := (hprec.calls _).mem hr
      obtain ⟨_, htcaller, htcallee⟩ := ht.tabled.recorded hr
      have hc' : t.Tracks entry c' :=
        hprec.tracks (tracks_of_adopts (adopts_congr (recordCall_table _) hadopt))
      simp only at hsite hrentry hcaller hcallee hr
      subst hrentry
      rw [hsite] at htcaller
      have hcallerEq := ht.tabled.eq_of_tracks htcaller ⟨e, he⟩ hcaller
      have hcalleeEq := ht.tabled.eq_of_tracks htcallee hc' hcallee
      rw [← hcalleeEq]
      exact includes_mono hp (hmono.call hle) (ht.enter he hcall hm hr hsite hentry hcallerEq)
  | leave hcall hexit hr hsame hn' =>
      have hr := ((precedes_joinInto.trans hprec).calls _).mem hr
      exact h.joinInto hjoin ht.tabled hprec
        (includes_mono hp (hmono.ret hle) (ht.leave he hcall hexit hr hsame _ hn'))

theorem Moves.beneath (hp : a.problem.Ordered) (hjoin : a.problem.JoinsLeast)
    (hmono : a.problem.Monotone) (ht : a.Closes t)
    (hd : ∃ e, (c, e) ∈ t.entriesAt n ∧ a.problem.le d e = true) (hmoves : a.Moves n c d s u)
    (h : a.Beneath s t) (hprec : Precedes u t) : a.Beneath u t := by
  induction hmoves with
  | refl => exact h
  | tail _ hmove ih => exact hmove.beneath hp hjoin hmono ht (ih (hmove.precedes.trans hprec)) hd hprec

theorem ReachesFrom.beneath (hp : a.problem.Ordered) (hjoin : a.problem.JoinsLeast)
    (hmono : a.problem.Monotone) (ht : a.Closes t) (h : a.ReachesFrom x s)
    (hprec : ∀ s, a.ReachesFrom x s → Precedes s t) : a.Beneath s t := by
  induction h with
  | refl =>
      have hseeds : ∀ l : List (N × D), (∀ y ∈ l, y ∈ a.problem.seeds) → ∀ s, a.Beneath s t →
          Precedes (a.joinSeeds l s) t → a.Beneath (a.joinSeeds l s) t := by
        intro l
        induction l with
        | nil => exact fun _ _ h _ => h
        | cons y l ih =>
            intro hl s h hprec
            have hlater : Precedes (a.joinInto y.1 a.initial y.2 s) (a.joinSeeds l _) :=
              List.foldlRecOn (motive := Precedes _) _ _ (.of_same rfl rfl)
                (fun _ hu _ _ => hu.trans precedes_joinInto)
            refine ih (fun z hz => hl z (List.mem_cons_of_mem _ hz)) _ ?_ hprec
            exact h.joinInto hjoin ht.tabled (hlater.trans hprec)
              (ht.seeded (hl y (List.mem_cons_self ..)))
      refine hseeds _ (fun _ hy => hy) _ ?_ (hprec _ .refl)
      intro n c d hd
      simp at hd
  | @tail s u hreach hstep ih =>
      cases hstep with
      | quiet halike => exact ih.congr halike.table
      | @step n c rest hw hvisit =>
          have hprec := hprec u (hreach.tail (.step hw hvisit))
          obtain ⟨d, s', hd, hquiet, heq⟩ :=
            step_visits ((ReachesFrom.paced hp hreach).tabled hp).1 hw
          have hmoves := visit_moves (a := a) n c d s'
          rw [heq.symm.trans hvisit] at hmoves
          exact hmoves.beneath hp hjoin hmono ht (ih _ _ _ hd) (ih.congr hquiet.table) hprec

theorem Solved.eq_recomputing (hp : a.problem.Ordered) (hjoin : a.problem.JoinsLeast)
    (hantisymm : ∀ {d e}, a.problem.le d e = true → a.problem.le e d = true → d = e)
    (hmono : a.problem.Monotone) (hg : a.graph.Agrees) (ha : a.EntersBy enter) {r : M → Bool}
    (h : a.Solved s) (hs : s.finished = true) (h' : (a.recomputing r).Solved t)
    (ht : t.finished = true) :
    (∀ n, (t.entriesAt n).map Prod.fst = (s.entriesAt n).map Prod.fst) ∧
      (∀ m, t.callsInto m = s.callsInto m) ∧
      (a.Decided s → ∀ n, t.entriesAt n = s.entriesAt n) := by
  let b := a.recomputing r
  have : b.contexts.Lawful := ‹a.contexts.Lawful›
  have hp' : b.problem.Ordered := hp.recomputing r
  have hmono' : b.problem.Monotone := hmono.recomputing r
  have hb : b.EntersBy enter := ⟨ha.enter, ha.unlimited⟩
  obtain ⟨⟨x, hreach⟩, hdone⟩ := h.reaches hs
  obtain ⟨⟨y, hreach'⟩, hdone'⟩ := h'.reaches ht
  -- each run ends with what the other has drawn in front, so they have drawn the same
  have hst : ∀ s, a.ReachesFrom x s → Precedes s t := fun _ hs =>
    ReachesFrom.precedes (a := a) (b := b) rfl hp hp' ha hb hs hreach' hdone'
  have hts : ∀ t, b.ReachesFrom y t → Precedes t s := fun _ ht =>
    ReachesFrom.precedes (a := b) (b := a) rfl hp' hp hb ha ht hreach hdone
  obtain ⟨hcontexts, hcalls⟩ := (hts t hreach').eq (hst s hreach)
  refine ⟨hcontexts, hcalls, fun hdecided n => ?_⟩
  have hcloses := h.closes hp hg ha hs hdecided
  have hdecided' : b.Decided t :=
    hdecided.congr (fun n => (hcontexts n).symm) (fun m => (hcalls m).symm)
  have hcloses' : a.Closes t :=
    (h'.closes (a := b) hp' hg hb ht hdecided').recomputing a.problem.recompute
  -- each table is closed under the flow, so the other run stays below it
  have hbelow : a.Beneath s t := hreach.beneath hp hjoin hmono hcloses' hst
  have habove : b.Beneath t s :=
    hreach'.beneath (a := b) hp' hjoin hmono' (hcloses.recomputing r) hts
  exact entriesAt_eq_of_beneath hantisymm hcloses.tabled hcloses'.tabled (hcontexts n) hbelow habove

end Run

end Closes

end Analysis

section CallStrings

variable {K : Nat} [Ord N] [Std.TransOrd N] [Std.LawfulEqOrd N] [DecidableEq N] [Described N]
variable [Ord M] [Std.TransOrd M] [Std.LawfulEqOrd M] [DecidableEq M]

def callStrings (g : Icfg N M) (p : Problem N M D S E) (initial : CallString N K) :
    Analysis N M D (CallString N K) S E := ⟨g, p, CallString.kind, initial, ⟨none, none⟩⟩

instance {g : Icfg N M} {p : Problem N M D S E} {initial : CallString N K} :
    (callStrings g p initial).contexts.Lawful := CallString.lawful

instance {g : Icfg N M} {p : Problem N M D S E} {initial : CallString N K} {r : M → Bool} :
    ((callStrings g p initial).recomputing r).contexts.Lawful := CallString.lawful

variable {g : Icfg N M} {p : Problem N M D S E} {ns : Finset N} {initial : CallString N K}
variable {s : State N M D (CallString N K) S E}

theorem Analysis.Solved.decided (hp : p.Ordered) (hg : g.Agrees)
    (hexits : ∀ {n}, g.isExit n = true → n ∈ g.exits (g.functionOf n))
    (hclear : K = 0 ∨ initial.sites ≠ [] ∨ g.Procedural ∧ p.SeedsEntries g)
    (h : (callStrings g p initial).Solved s) (hs : s.finished = true) :
    (callStrings g p initial).Decided s := by
  let a := callStrings g p initial
  have htabled : a.Tabled s := h.tabled hp hg hs
  intro m r hr x c hx hcall hexit hc hsame
  subst hx
  refine ⟨hexits hexit, ?_⟩
  obtain ⟨d, hd⟩ := hc
  obtain ⟨hentry, _, e, hcallee⟩ := htabled.recorded hr
  suffices hlookup : a.lookup s x r.callee = some (c, d) by rw [hlookup]; rfl
  by_cases hK : K = 0
  · exact htabled.lookup_of_unambiguous hd hsame (CallString.unambiguous (Or.inr hK))
  have hpos : 0 < K := Nat.pos_of_ne_zero hK
  rcases hclear with hzero | hinitial | ⟨hg', hseeds⟩
  · exact absurd hzero hK
  · have hsupports : a.Supports (fun n c d => Arises g p n d ∧ c ∈ {c | c.sites ≠ []}) _ :=
      supports_arises hinitial (fun {c n _ _ _} _ _ _ => CallString.sites_enter_ne_nil hpos c n)
    have hsupported := h.supported hp hsupports hs
    have hne : r.callee.sites ≠ [] := (hsupported.entries hcallee).2
    exact htabled.lookup_of_unambiguous hd hsame (CallString.unambiguous (Or.inl hne))
  · -- empty strings stay in the functions that are seeded with them
    have hsupported := h.supported hp (supports_sited (a := a) hpos rfl rfl hg' hseeds) hs
    have hsited : a.Sited (g.functionOf x) c := hsupported.entries hd
    have hsited' : a.Sited (g.functionOf x) r.callee := hentry ▸ hsupported.entries hcallee
    rw [← hsited.eq_of_same hsited' hsame]
    exact htabled.lookup_of_mem hd

/-- A run that recomputes the functions `r` ends if no endless chain of calls and entries to recompute
is reached, and finishes only then. Once finished, it tracks the contexts and remembers the calls of a
run that recomputes nothing, and if every return is decided it has found the same facts. -/
theorem recomputed_runs (hp : p.Ordered) (hjoin : p.JoinsLeast)
    (hantisymm : ∀ {d e}, p.le d e = true → p.le e d = true → d = e) (hmono : p.Monotone)
    (hheight : p.FiniteHeight) (hg : g.Agrees) (hns : Enclosed g p ns) (initial : CallString N K)
    (r : M → Bool) (x : S) :
    let a := (callStrings g p initial).recomputing (fun _ => false)
    let b := (callStrings g p initial).recomputing r
    ((∀ n ∈ b.reached, b.Rests n) → b.Terminates x) ∧
    (∀ t, b.Solved t → t.finished = true → ∀ n ∈ b.reached, b.Rests n) ∧
    ∀ s t, a.Solved s → s.finished = true → b.Solved t → t.finished = true →
      (∀ n, (t.entriesAt n).map Prod.fst = (s.entriesAt n).map Prod.fst) ∧
      (∀ m, t.callsInto m = s.callsInto m) ∧
      (a.Decided s ∨ (∀ {n}, g.isExit n = true → n ∈ g.exits (g.functionOf n)) ∧
          (K = 0 ∨ initial.sites ≠ [] ∨ g.Procedural ∧ p.SeedsEntries g) →
        ∀ n, t.entriesAt n = s.entriesAt n ∧ b.factsAt t n = a.factsAt s n) := by
  intro a b
  have hordered : ∀ r, (p.recomputing r).Ordered := hp.recomputing
  have henclosed : ∀ {r}, Enclosed g (p.recomputing r) ns :=
    ⟨hns.seed, hns.succ, hns.returnSite, hns.start⟩
  have hfinite := CallString.finite_sites (K := K) (ns.finite_toSet.union initial.sites.finite_toSet)
  have hbound : ∀ t, b.Paced x t → t.Bounded ns _ := fun t ht =>
    ht.bounded_of_closed (a := b) (hordered r) henclosed hfinite (fun _ hx => Or.inr hx)
      (fun hc hn => CallString.sites_enter_subset hc (Or.inl hn))
  refine ⟨Analysis.terminates_of_rests (a := b) rfl (hordered r) hheight hbound,
    fun t ht hfinished => ht.rests (a := b) (hordered r) hfinished, ?_⟩
  intro s t hsolved hs hsolved' ht
  have henters : a.EntersBy (fun c n _ => c.enter n) := ⟨fun _ _ _ _ => rfl, rfl⟩
  have heq := Analysis.Solved.eq_recomputing (a := a) (r := r) (hordered _) hjoin hantisymm
    (hmono.recomputing _) hg henters hsolved hs hsolved' ht
  refine ⟨heq.1, heq.2.1, fun hclear n => ?_⟩
  have hdecided : a.Decided s := hclear.elim id (fun hclear =>
    Analysis.Solved.decided (p := p.recomputing fun _ => false) (hordered _) hg hclear.1
      hclear.2 hsolved hs)
  have hentries := heq.2.2 hdecided n
  refine ⟨hentries, ?_⟩
  rw [Analysis.factsAt, hentries]
  rfl

end CallStrings

namespace Graph

theorem mem_exits_of_entries {G : Type} {g : Graph G}
    (h : ∀ e ∈ g.nodes.entries, e.2.isExit = true → e.1 ∈ g.icfg.exits e.2.method) {n : Int}
    (hn : g.icfg.isExit n = true) : n ∈ g.icfg.exits (g.icfg.functionOf n) := by
  cases hnode : g.nodes.get? n with
  | none => simp [icfg, node, OrdMap.getD, hnode] at hn
  | some v =>
      have hv : g.node n = v := by simp [node, OrdMap.getD, hnode]
      have hexit := h (n, v) (OrdMap.get?_eq_some_iff.mp hnode)
      simp only [icfg, hv] at hn hexit ⊢
      exact hexit hn

def reachFrom (seeds : List (Int × Bool)) : Problem Int Nat Bool Unit Empty :=
  { lateCallReach with seeds := seeds }

variable {seeds : List (Int × Bool)}

theorem reachFrom_ordered : (reachFrom seeds).Ordered :=
  ⟨lateCallReach_ordered.le_refl, lateCallReach_ordered.le_trans,
    lateCallReach_ordered.le_join_left, lateCallReach_ordered.le_join_right⟩

theorem reachFrom_joinsLeast : (reachFrom seeds).JoinsLeast := by
  have h : lateCallReach.JoinsLeast := by
    intro d e f
    revert d e f
    decide
  exact @h

theorem reachFrom_antisymm {d e : Bool} (h : (reachFrom seeds).le d e = true)
    (h' : (reachFrom seeds).le e d = true) : d = e := by
  have hantisymm : ∀ d e, lateCallReach.le d e = true → lateCallReach.le e d = true → d = e := by
    decide
  exact hantisymm d e h h'

theorem reachFrom_monotone : (reachFrom seeds).Monotone := ⟨id, id, id, id⟩

def twoCalls : Graph Int where
  methods := #[⟨"main", [0], [2]⟩, ⟨"f", [10], [11]⟩]
  nodes := OrdMap.ofList [
    (0, ⟨0, [1], some [1], false, {}, {}, {}, {}⟩),
    (1, ⟨0, [2], some [1], false, {}, {}, {}, {}⟩),
    (2, ⟨0, [], none, true, {}, {}, {}, {}⟩),
    (10, ⟨1, [11], none, false, {}, {}, {}, {}⟩),
    (11, ⟨1, [], none, true, {}, {}, {}, {}⟩)]

def recomputing (g : Graph Int) (K : Nat) (seeds : List (Int × Bool)) (r : Nat → Bool) :
    Analysis Int Nat Bool (CallString Int K) Unit Empty :=
  (callStrings g.icfg (reachFrom seeds) ∅).recomputing r

instance {g : Graph Int} {K : Nat} {r : Nat → Bool} : (recomputing g K seeds r).contexts.Lawful :=
  CallString.lawful

theorem twoCalls_agrees : twoCalls.icfg.Agrees := icfg_agrees (by decide)

theorem twoCalls_enclosed : Enclosed twoCalls.icfg (reachFrom [(0, true)]) {0, 1, 2, 10, 11} :=
  enclosed_of_forall (by decide) (by decide +kernel) (by decide +kernel)

theorem twoCalls_rests (n : Int) : (recomputing twoCalls 0 [(0, true)] (· == 1)).Rests n := by
  refine ⟨n, fun n' ⟨_, m, _, hm, hn'⟩ => ⟨n', fun _ ⟨hcall, _⟩ => ?_⟩⟩
  obtain rfl : m = 1 := beq_iff_eq.mp hm
  obtain rfl : n' = 10 := List.mem_singleton.mp hn'
  exact absurd hcall (by decide)

theorem twoCalls_recomputed : ∃ s t,
    (recomputing twoCalls 0 [(0, true)] (fun _ => false)).Solved s ∧ s.finished = true ∧
    (recomputing twoCalls 0 [(0, true)] (· == 1)).Solved t ∧ t.finished = true ∧
    (recomputing twoCalls 0 [(0, true)] (· == 1)).Terminates () ∧
    s.statistics.iterations < t.statistics.iterations ∧
    ∀ n, t.entriesAt n = s.entriesAt n := by
  let a := recomputing twoCalls 0 [(0, true)] (fun _ => false)
  let b := recomputing twoCalls 0 [(0, true)] (· == 1)
  have hs : a.Solved (a.solve 20 (.initial ())).1 := Analysis.solved_of_solve (by decide +kernel)
  have ht : b.Solved (b.solve 20 (.initial ())).1 := Analysis.solved_of_solve (by decide +kernel)
  have hs' : (a.solve 20 (.initial ())).1.finished = true := by decide +kernel
  have ht' : (b.solve 20 (.initial ())).1.finished = true := by decide +kernel
  have hruns := recomputed_runs (p := reachFrom [(0, true)]) reachFrom_ordered
    reachFrom_joinsLeast reachFrom_antisymm reachFrom_monotone lateCallReach_finiteHeight
    twoCalls_agrees twoCalls_enclosed (∅ : CallString Int 0) (· == 1) ()
  refine ⟨_, _, hs, hs', ht, ht', hruns.1 (fun n _ => twoCalls_rests n), by decide +kernel, ?_⟩
  exact fun n => ((hruns.2.2 _ _ hs hs' ht ht').2.2
    (Or.inr ⟨fun hn => mem_exits_of_entries (by decide +kernel) hn, Or.inl rfl⟩) n).1

def selfCall : Graph Int where
  methods := #[⟨"main", [0], [1]⟩, ⟨"f", [10], [11]⟩]
  nodes := OrdMap.ofList [
    (0, ⟨0, [1], some [1], false, {}, {}, {}, {}⟩),
    (1, ⟨0, [], none, true, {}, {}, {}, {}⟩),
    (10, ⟨1, [11], some [1], false, {}, {}, {}, {}⟩),
    (11, ⟨1, [], none, true, {}, {}, {}, {}⟩)]

theorem selfCall_enclosed : Enclosed selfCall.icfg (reachFrom [(0, false)]) {0, 1, 10, 11} :=
  enclosed_of_forall (by decide) (by decide +kernel) (by decide +kernel)

theorem selfCall_never_finishes :
    (reachFrom [(0, false)]).Ordered ∧ (reachFrom [(0, false)]).JoinsLeast ∧
    (reachFrom [(0, false)]).Monotone ∧ (reachFrom [(0, false)]).FiniteHeight ∧
    selfCall.icfg.Agrees ∧ Enclosed selfCall.icfg (reachFrom [(0, false)]) {0, 1, 10, 11} ∧
    (∃ s, (recomputing selfCall 1 [(0, false)] (fun _ => false)).Solved s ∧ s.finished = true) ∧
    ∀ t, (recomputing selfCall 1 [(0, false)] (· == 1)).Solved t → t.finished = false := by
  let a := recomputing selfCall 1 [(0, false)] (fun _ => false)
  let b := recomputing selfCall 1 [(0, false)] (· == 1)
  have hs : a.Solved (a.solve 20 (.initial ())).1 := Analysis.solved_of_solve (by decide +kernel)
  refine ⟨reachFrom_ordered, reachFrom_joinsLeast, reachFrom_monotone, lateCallReach_finiteHeight,
    icfg_agrees (by decide), selfCall_enclosed, ⟨_, hs, by decide +kernel⟩, fun t ht => ?_⟩
  -- the start of the function is reached, and each visit of it makes it wait again
  have hclosed := Analysis.reached_closed (a := b)
  have hmain : 0 ∈ b.reached := hclosed.seeded ⟨false, List.mem_singleton.mpr rfl⟩
  have hstart : 10 ∈ b.reached :=
    (hclosed.onward 0 hmain).enter (by decide) 1 (by decide) 10 (by decide)
  have hrecalls : b.Recalls 10 10 := ⟨by decide, 1, by decide, by decide, by decide⟩
  refine Bool.eq_false_iff.mpr (fun hfinished => ?_)
  exact Analysis.not_rests_of_recalls_self hrecalls
    (ht.rests (reachFrom_ordered.recomputing _) hfinished 10 hstart)

/-- A call at which a fact comes up and a last call that drops it. The last call joins an empty call
string, which equals the contexts of both exit states. -/
def lateReturn : Graph Int where
  methods := #[⟨"main", [0], [4]⟩, ⟨"f", [20, 10], [20]⟩]
  nodes := OrdMap.ofList [
    (0, ⟨0, [2], some [1], false, {}, {}, {}, {}⟩),
    (2, ⟨0, [3], some [1], false, {}, {}, {}, {}⟩),
    (3, ⟨0, [4], some [1], false, {}, {}, {}, {}⟩),
    (4, ⟨0, [], none, true, {}, {}, {}, {}⟩),
    (10, ⟨1, [], none, false, {}, {}, {}, {}⟩),
    (20, ⟨1, [], none, true, {}, {}, {}, {}⟩)]

def lateReturnProblem : Problem Int Nat Bool Unit Empty :=
  { reachFrom [(0, false), (10, false)] with
    call := fun n _ d => if n = 2 then true else if n = 3 then false else d
    bypass := fun n _ d => if n = 3 then false else d }

def lateReturnRecomputing (r : Nat → Bool) : Analysis Int Nat Bool (CallString Int 1) Unit Empty :=
  (callStrings lateReturn.icfg lateReturnProblem ∅).recomputing r

theorem lateReturnProblem_monotone : lateReturnProblem.Monotone where
  normal := id
  call {n _ d e} h := by
    simp only [lateReturnProblem]
    split
    · rfl
    · split
      · rfl
      · exact h
  ret := id
  bypass {n _ d e} h := by
    simp only [lateReturnProblem]
    split
    · rfl
    · exact h

theorem lateReturn_facts_differ : lateReturnProblem.Monotone ∧ ∃ s t,
    (lateReturnRecomputing (fun _ => false)).Solved s ∧ s.finished = true ∧
    (lateReturnRecomputing (· == 1)).Solved t ∧ t.finished = true ∧
    (lateReturnRecomputing (fun _ => false)).factsAt s 4 = false ∧
    (lateReturnRecomputing (· == 1)).factsAt t 4 = true := by
  let a := lateReturnRecomputing (fun _ => false)
  let b := lateReturnRecomputing (· == 1)
  have hs : a.Solved (a.solve 40 (.initial ())).1 := Analysis.solved_of_solve (by decide +kernel)
  have ht : b.Solved (b.solve 40 (.initial ())).1 := Analysis.solved_of_solve (by decide +kernel)
  exact ⟨lateReturnProblem_monotone, _, _, hs, by decide +kernel, ht, by decide +kernel,
    by decide +kernel, by decide +kernel⟩

end Graph

end Interproc
