import Interproc.Proofs.Solver.Credit
import Interproc.Proofs.Solver.Provenance
import Mathlib.Algebra.Order.BigOperators.Group.List
import Mathlib.Data.Set.Finite.List

namespace Interproc

open Solver

variable {N M D C S E : Type}

structure Enclosed (g : Icfg N M) (p : Problem N M D S E) (ns : Finset N) : Prop where
  seed : ∀ {n d}, (n, d) ∈ p.seeds → n ∈ ns
  succ : ∀ {n n'}, n ∈ ns → n' ∈ g.succs n → n' ∈ ns
  returnSite : ∀ {n n'}, n ∈ ns → n' ∈ g.returnSites n → n' ∈ ns
  start : ∀ {n m n'}, n ∈ ns → m ∈ g.callees n → n' ∈ g.starts m → n' ∈ ns

theorem CallString.finite_sites {K : Nat} {xs : Set N} (h : xs.Finite) :
    {c : CallString N K | ∀ x ∈ c.sites, x ∈ xs}.Finite := by
  have : Finite xs := h
  have hlists : ((fun l : List xs => l.map Subtype.val) '' {l | l.length ≤ K}).Finite :=
    (List.finite_length_le xs K).image _
  have hinjective : Function.Injective (CallString.sites : CallString N K → List N) :=
    fun _ _ heq => CallString.eq_of_sites heq
  refine (hlists.preimage hinjective.injOn).subset (fun c hc => ?_)
  lift c.sites to List xs using hc with l hl
  exact ⟨l, by rw [Set.mem_ofPred_eq, ← List.length_map, hl]; exact c.length_le, hl⟩

theorem CallString.sites_enter_subset {K : Nat} {xs : Set N} {c : CallString N K} {n : N}
    (hc : ∀ x ∈ c.sites, x ∈ xs) (hn : n ∈ xs) : ∀ x ∈ (c.enter n).sites, x ∈ xs := by
  intro x hx
  rcases List.mem_append.mp (List.mem_of_mem_drop hx) with hx | hx
  · exact hc x hx
  · rwa [List.mem_singleton.mp hx]

namespace Analysis

section Closed

variable {g : Icfg N M} {p : Problem N M D S E} {ns : Finset N} {n : N} {d : D}

theorem Arises.mem (hns : Enclosed g p ns) (h : Arises g p n d) : n ∈ ns := by
  induction h with
  | seed h => exact hns.seed h
  | join _ _ ih _ => exact ih
  | pass _ _ _ hn' ih => exact hns.succ ih hn'
  | bypass _ _ hn' ih => exact hns.returnSite ih hn'
  | enter _ _ hm hentry ih => exact hns.start ih hm hentry
  | leave _ _ _ _ _ _ _ _ hn' _ ih => exact hns.returnSite ih hn'

end Closed

section Pool

variable [Ord N] [Ord M] (ns : Finset N) (k : Nat) (c₀ : C)

/-- The contexts that a limit of `k` lets a run track: the one it starts with and the first `k` at
each node. -/
noncomputable def pool (s : State N M D C S E) : List C :=
  c₀ :: ns.toList.flatMap (fun n => ((s.entriesAt n).map Prod.fst).take k)

variable {ns k c₀} {s t : State N M D C S E} {n : N} {c : C}

theorem mem_pool (hn : n ∈ ns) (hc : c ∈ ((s.entriesAt n).map Prod.fst).take k) :
    c ∈ pool ns k c₀ s :=
  List.mem_cons_of_mem _ (List.mem_flatMap.mpr ⟨n, Finset.mem_toList.mpr hn, hc⟩)

theorem pool_mono (h : ∀ n, (s.entriesAt n).map Prod.fst <+: (t.entriesAt n).map Prod.fst)
    (hc : c ∈ pool ns k c₀ s) : c ∈ pool ns k c₀ t := by
  rcases List.mem_cons.mp hc with rfl | hc
  · exact List.mem_cons_self ..
  · obtain ⟨n, hn, hc⟩ := List.mem_flatMap.mp hc
    exact mem_pool (Finset.mem_toList.mp hn) (((h n).take k).mem hc)

theorem length_pool_le (s : State N M D C S E) :
    (pool ns k c₀ s).length ≤ ns.card * k + 1 := by
  have hsum := List.sum_le_card_nsmul
    (ns.toList.map (fun n => (((s.entriesAt n).map Prod.fst).take k).length)) k (by simp)
  rw [List.length_map, Finset.length_toList, smul_eq_mul] at hsum
  simpa [pool, List.length_flatMap] using hsum

variable (ns k c₀) in
def Pooled (s : State N M D C S E) : Prop := ∀ n c, s.Tracks n c → n ∈ ns ∧ c ∈ pool ns k c₀ s

theorem Pooled.congr (h : Pooled ns k c₀ s) (htable : t.table = s.table) : Pooled ns k c₀ t := by
  intro n c hc
  obtain ⟨hn, hpool⟩ := h n c ((State.tracks_congr htable).mp hc)
  exact ⟨hn, pool_mono (fun m => by rw [State.entriesAt_congr htable]) hpool⟩

theorem Pooled.bounded (h : Pooled ns k c₀ s) : s.Bounded ns (ns.card * k + 1) :=
  ⟨fun hc => (h _ _ hc).1, pool ns k c₀ s, length_pool_le s, fun hc => (h _ _ hc).2⟩

variable [Std.TransOrd N] [Std.LawfulEqOrd N] [DecidableEq N] {a : Analysis N M D C S E} {d : D}

theorem Pooled.joinInto (h : Pooled ns k c₀ s) (hn : n ∈ ns)
    (hc : c ∈ pool ns k c₀ s ∨ (s.entriesAt n).length < k) :
    Pooled ns k c₀ (a.joinInto n c d s) := by
  have hold : ∀ {m c'}, s.Tracks m c' → m ∈ ns ∧ c' ∈ pool ns k c₀ (a.joinInto n c d s) :=
    fun hc' => ⟨(h _ _ hc').1, pool_mono contexts_joinInto (h _ _ hc').2⟩
  rintro m c' ⟨d', hd'⟩
  rcases mem_entriesAt_joinInto hd' with hd' | ⟨rfl, _, ⟨_, hd', _⟩ | ⟨hnone, heq⟩⟩
  · exact hold ⟨d', hd'⟩
  · exact hold ⟨_, hd'⟩
  · obtain ⟨rfl, rfl⟩ := Prod.mk.inj heq
    refine ⟨hn, ?_⟩
    rcases hc with hc | hroom
    · exact pool_mono contexts_joinInto hc
    · -- the new context stands among the first `k`
      have hentries : (a.joinInto m c' d' s).entriesAt m = s.entriesAt m ++ [(c', d')] := by
        rcases joinInto_cases a m c' d' s with ⟨_, hsome, _⟩ | ⟨_, hsome, _⟩ | ⟨_, hupdates⟩
        · exact absurd (hsome.symm.trans hnone) (by simp)
        · exact absurd (hsome.symm.trans hnone) (by simp)
        · exact hupdates.entries
      refine mem_pool hn ?_
      rw [hentries, List.take_of_length_le (by simpa using hroom)]
      simp

variable [Std.TransOrd M]

theorem Pooled.stride {max : Nat} (hmax : a.limits.maxContexts = some max)
    (hns : Enclosed a.graph a.problem ns) (h : Pooled ns (Nat.max 1 max) c₀ s) (hs : a.Tabled s)
    (hc : s.Tracks n c) (hstride : a.Stride n c d s t) : Pooled ns (Nat.max 1 max) c₀ t := by
  obtain ⟨hn, hpool⟩ := h n c hc
  cases hstride with
  | quiet hquiet => exact h.congr hquiet.table
  | remember => exact h.congr rfl
  | pass _ _ hn' => exact h.joinInto (hns.succ hn hn') (Or.inl hpool)
  | bypass _ hn' => exact h.joinInto (hns.returnSite hn hn') (Or.inl hpool)
  | @enter m entry _ hm hentry =>
      obtain ⟨s', c', hquiet, _, hroom, u, hu, heq⟩ :=
        enterAt_spec a n c m (a.problem.call n m d) s entry
      let v := (a.recordCall ⟨n, entry, c, c'⟩ s').2
      have hv : v.table = s.table := (recordCall_table _).trans hquiet.table
      have hjoin : Pooled ns (Nat.max 1 max) c₀ (a.joinInto entry c' (a.problem.call n m d) v) := by
        refine Pooled.joinInto (h.congr hv) (hns.start hn hm hentry) ?_
        -- a context that is new at the entry was let in while there was room
        rcases hroom with htracks | hadmits
        · have hc' : s.Tracks entry c' := (State.tracks_congr hquiet.table).mp htracks
          exact Or.inl ((h.congr hv) entry c' ((State.tracks_congr hv).mpr hc')).2
        · right
          rw [recordCall_entriesAt]
          exact hadmits max hmax
      have hdone : Pooled ns (Nat.max 1 max) c₀ u := by
        rcases hu with rfl | ⟨_, rfl⟩
        · exact hjoin
        · exact hjoin.congr rfl
      rw [heq]
      split
      · exact hdone.congr (requeueExits_table m c' u).1
      · exact hdone
  | leave _ _ hr _ hn' =>
      obtain ⟨hsite, hcaller⟩ := h _ _ (hs.recorded hr).2.1
      exact h.joinInto (hns.returnSite hsite hn') (Or.inl hcaller)

end Pool

section Paced

variable [Ord N] [Std.TransOrd N] [Std.LawfulEqOrd N] [DecidableEq N]
variable [Ord M] [Std.TransOrd M] [Std.LawfulEqOrd M] [DecidableEq M]
variable {a : Analysis N M D C S E} [a.contexts.Lawful] {s : State N M D C S E} {x : S}
variable {ns : Finset N}

theorem Paced.bounded_of_supports {Q : N → C → D → Prop} {R : CallRecord N C → Prop} {cs : Set C}
    (hp : a.problem.Ordered) (hq : a.Supports Q R) (hcs : cs.Finite)
    (hQ : ∀ {n c d}, Q n c d → n ∈ ns ∧ c ∈ cs) (h : a.Paced x s) :
    s.Bounded ns hcs.toFinset.card := by
  have hsupported : Supported Q R s := Moment.supported hp hq (Or.inr h.underway)
  refine ⟨fun ⟨_, hd⟩ => (hQ (hsupported.entries hd)).1, hcs.toFinset.toList, ?_, fun ⟨_, hd⟩ => ?_⟩
  · rw [Finset.length_toList]
  · rw [Finset.mem_toList, Set.Finite.mem_toFinset]
    exact (hQ (hsupported.entries hd)).2

theorem Paced.bounded_of_closed {cs : Set C} (hp : a.problem.Ordered)
    (hns : Enclosed a.graph a.problem ns) (hcs : cs.Finite) (hinitial : a.initial ∈ cs)
    (henter : ∀ {c n entry d}, c ∈ cs → n ∈ ns → a.contexts.enter c n entry d ∈ cs)
    (h : a.Paced x s) : s.Bounded ns hcs.toFinset.card :=
  h.bounded_of_supports hp (supports_arises hinitial (fun hc hd _ => henter hc (hd.mem hns))) hcs
    (fun h => ⟨h.1.mem hns, h.2⟩)

theorem Paced.pooled (hp : a.problem.Ordered) (hns : Enclosed a.graph a.problem ns) {max : Nat}
    (hmax : a.limits.maxContexts = some max) (h : a.Paced x s) :
    Pooled ns (Nat.max 1 max) a.initial s := by
  induction h with
  | seeded =>
      refine List.foldlRecOn (motive := fun s => Pooled ns (Nat.max 1 max) a.initial s) _ _ ?_ ?_
      · rintro n c ⟨d, hd⟩
        simp at hd
      · intro t ht y hy
        exact ht.joinInto (hns.seed hy) (Or.inl (List.mem_cons_self ..))
  | quiet _ halike ih => exact ih.congr halike.table
  | @visit s t n c d rest hs hw hd hstrides ih =>
      induction hstrides with
      | refl => exact ih.congr rfl
      | tail hbefore hstride ihs =>
          have hpaced := hs.visit hw hd hbefore
          have hgrows := Moves.grows hp (Strides.moves hbefore)
          exact ihs.stride hmax hns (hpaced.tabled hp).1 (hgrows.tracks ⟨d, hd⟩) hstride

end Paced

end Analysis

end Interproc
