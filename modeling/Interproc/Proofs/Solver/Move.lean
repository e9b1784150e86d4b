import Interproc.Proofs.Solver.Table
import Mathlib.Data.List.TakeWhile
import Mathlib.Logic.Relation

namespace Interproc

open Solver

theorem foldl_reflTransGen {α β : Type} {R : β → β → Prop} {f : β → α → β} {xs : List α}
    (h : ∀ b, ∀ x ∈ xs, Relation.ReflTransGen R b (f b x)) (b : β) :
    Relation.ReflTransGen R b (xs.foldl f b) := by
  induction xs generalizing b with
  | nil => exact .refl
  | cons x xs ih =>
      exact (h b x (List.mem_cons_self ..)).trans
        (ih (fun b y hy => h b y (List.mem_cons_of_mem _ hy)) (f b x))

variable {N M D C S E : Type} [Ord N] [Ord M]

namespace Solver.State

def widen (s : State N M D C S E) (entry : N) (dropped into : C) : State N M D C S E :=
  (s.count (fun t => { t with widenings := t.widenings + 1 })).emit (.widened entry dropped into)

def truncate (s : State N M D C S E) (site : N) (restored caller : C) : State N M D C S E :=
  (s.count (fun t => { t with truncatedReturns := t.truncatedReturns + 1 })).emit
    (.truncated site restored caller)

end Solver.State

namespace Analysis

variable (a : Analysis N M D C S E)

def Adopts (s : State N M D C S E) (entry : N) (c c' : C) : Prop :=
  (a.lookup s entry c = none ∧ c' = c) ∨
  (s.Tracks entry c' ∧ (a.contexts.same c' c = true ∨ a.limits.maxContexts.isSome = true))

theorem lookup_tracks {s : State N M D C S E} {n : N} {c : C} {e : C × D}
    (h : a.lookup s n c = some e) : s.Tracks n e.1 := ⟨e.2, (mem_of_findIn h).1⟩

theorem create_quiet (site entry : N) (c : C) (s : State N M D C S E) :
    s.Quiet (a.create site entry c s) := by
  unfold create
  split <;> exact ⟨⟨rfl, rfl, rfl, rfl⟩, rfl, rfl⟩

def Admits (s : State N M D C S E) (entry : N) : Prop :=
  ∀ max, a.limits.maxContexts = some max → (s.entriesAt entry).length < Nat.max 1 max

theorem adopt_cases (site entry : N) (c : C) (s : State N M D C S E) :
    (∃ e, a.lookup s entry c = some e ∧ a.adopt site entry c s = (e.1, s)) ∨
    (a.lookup s entry c = none ∧ ∃ max first d es, a.limits.maxContexts = some max ∧
      s.entriesAt entry = (first, d) :: es ∧ max ≤ (s.entriesAt entry).length ∧
      a.adopt site entry c s = (first, s.widen entry c first)) ∨
    (a.lookup s entry c = none ∧ a.Admits s entry ∧
      a.adopt site entry c s = (c, a.create site entry c s)) := by
  cases h : a.lookup s entry c with
  | some e => exact Or.inl ⟨e, rfl, by simp [adopt, h]⟩
  | none =>
      right
      simp only [adopt, h, true_and]
      split
      · rename_i max first d es hmax hes
        split
        · rename_i hfull
          exact Or.inl ⟨max, first, d, es, hmax, hes, hes ▸ hfull, rfl⟩
        · rename_i hroom
          refine Or.inr ⟨fun max' hmax' => ?_, rfl⟩
          obtain rfl : max = max' := Option.some.inj (hmax.symm.trans hmax')
          rw [hes]
          exact Nat.lt_of_lt_of_le (Nat.lt_of_not_le hroom) (Nat.le_max_right ..)
      · rename_i hfree
        refine Or.inr ⟨fun max hmax => ?_, rfl⟩
        cases hes : s.entriesAt entry with
        | nil => exact Nat.lt_of_lt_of_le Nat.zero_lt_one (Nat.le_max_left ..)
        | cons e es => exact absurd hes (hfree max e.1 e.2 es hmax)

theorem adopt_spec (site entry : N) (c : C) (s : State N M D C S E) :
    a.Adopts s entry c (a.adopt site entry c s).1 ∧ s.Quiet (a.adopt site entry c s).2 ∧
      (s.Tracks entry (a.adopt site entry c s).1 ∨ a.Admits s entry) := by
  rcases adopt_cases a site entry c s with ⟨e, he, heq⟩ |
    ⟨_, max, first, d, es, hmax, hes, _, heq⟩ | ⟨hnone, hadmits, heq⟩
  · have hmem := mem_of_findIn he
    rw [heq]
    exact ⟨Or.inr ⟨⟨e.2, hmem.1⟩, Or.inl hmem.2⟩, .refl s, Or.inl ⟨e.2, hmem.1⟩⟩
  · have htracks : s.Tracks entry first := ⟨d, by simp [hes]⟩
    rw [heq]
    exact ⟨Or.inr ⟨htracks, Or.inr (by simp [hmax])⟩, ⟨⟨rfl, rfl, rfl, rfl⟩, rfl, rfl⟩,
      Or.inl htracks⟩
  · rw [heq]
    exact ⟨Or.inl ⟨hnone, rfl⟩, create_quiet .., Or.inr hadmits⟩

theorem remember_quiet (site site' : N) (d : D) (s : State N M D C S E) :
    State.Quiet { s with client := (a.problem.remember site site' d s.client).1 }
      (a.remember site site' d s) :=
  State.emitAll_quiet _

variable {a}

theorem adopts_congr {s t : State N M D C S E} {entry : N} {c c' : C}
    (h : t.table = s.table) (hs : a.Adopts s entry c c') : a.Adopts t entry c c' := by
  simpa only [Adopts, lookup_congr h, State.tracks_congr h] using hs

variable [Std.TransOrd N] [DecidableEq N]

theorem tracks_of_adopts [Std.LawfulEqOrd N] {s : State N M D C S E} {entry : N} {c c' : C}
    {d : D} (h : a.Adopts s entry c c') :
    (a.joinInto entry c' d s).Tracks entry c' := by
  rcases h with ⟨h, rfl⟩ | ⟨h, _⟩
  · exact tracks_joinInto_self h
  · exact tracks_joinInto h

variable (a) [Std.TransOrd M]

inductive Move (n : N) (c : C) (d : D) : State N M D C S E → State N M D C S E → Prop
  | quiet {s t} : s.Quiet t → Move n c d s t
  | requeue {s n' c'} : s.Tracks n' c' → Move n c d s (s.queue n' c')
  | remember {s n'} : a.graph.isCall n = true → n' ∈ a.graph.returnSites n →
      Move n c d s { s with client := (a.problem.remember n n' d s.client).1 }
  | pass {s n'} : a.graph.isCall n = false → a.graph.isExit n = false → n' ∈ a.graph.succs n →
      Move n c d s (a.joinInto n' c (a.problem.normal n d) s)
  | bypass {s n'} : a.graph.isCall n = true → n' ∈ a.graph.returnSites n →
      Move n c d s (a.joinInto n' c (a.problem.bypass n n' d) s)
  | enter {s m entry c'} : a.graph.isCall n = true → m ∈ a.graph.callees n →
      entry ∈ a.graph.starts m →
      a.Adopts s entry (a.contexts.enter c n entry (a.problem.call n m d)) c' →
      Move n c d s (a.joinInto entry c' (a.problem.call n m d) (a.recordCall ⟨n, entry, c, c'⟩ s).2)
  | leave {s n'} {r : CallRecord N C} : a.graph.isCall n = false → a.graph.isExit n = true →
      r ∈ s.callsInto (a.graph.functionOf n) → a.contexts.same r.callee c = true →
      n' ∈ a.graph.returnSites r.site →
      Move n c d s
        (a.joinInto n' r.caller (a.problem.ret r.site (a.graph.functionOf n) n d) s)

abbrev Moves (n : N) (c : C) (d : D) : State N M D C S E → State N M D C S E → Prop :=
  Relation.ReflTransGen (a.Move n c d)

inductive Stride (n : N) (c : C) (d : D) : State N M D C S E → State N M D C S E → Prop
  | quiet {s t} : s.Quiet t → Stride n c d s t
  | remember {s n'} : a.graph.isCall n = true → n' ∈ a.graph.returnSites n →
      Stride n c d s { s with client := (a.problem.remember n n' d s.client).1 }
  | pass {s n'} : a.graph.isCall n = false → a.graph.isExit n = false → n' ∈ a.graph.succs n →
      Stride n c d s (a.joinInto n' c (a.problem.normal n d) s)
  | bypass {s n'} : a.graph.isCall n = true → n' ∈ a.graph.returnSites n →
      Stride n c d s (a.joinInto n' c (a.problem.bypass n n' d) s)
  | enter {s m entry} : a.graph.isCall n = true → m ∈ a.graph.callees n →
      entry ∈ a.graph.starts m → Stride n c d s (a.enterAt n c m (a.problem.call n m d) s entry)
  | leave {s n'} {r : CallRecord N C} : a.graph.isCall n = false → a.graph.isExit n = true →
      r ∈ s.callsInto (a.graph.functionOf n) → a.contexts.same r.callee c = true →
      n' ∈ a.graph.returnSites r.site →
      Stride n c d s
        (a.joinInto n' r.caller (a.problem.ret r.site (a.graph.functionOf n) n d) s)

abbrev Strides (n : N) (c : C) (d : D) : State N M D C S E → State N M D C S E → Prop :=
  Relation.ReflTransGen (a.Stride n c d)

structure Composes (R : State N M D C S E → State N M D C S E → Prop) (n : N) (c : C) (d : D) :
    Prop where
  pass : a.graph.isCall n = false → a.graph.isExit n = false → ∀ {n'} s, n' ∈ a.graph.succs n →
    Relation.ReflTransGen R s (a.joinInto n' c (a.problem.normal n d) s)
  enter : a.graph.isCall n = true → ∀ {m entry} s, m ∈ a.graph.callees n →
    entry ∈ a.graph.starts m →
    Relation.ReflTransGen R s (a.enterAt n c m (a.problem.call n m d) s entry)
  remember : a.graph.isCall n = true → ∀ {n'} s, n' ∈ a.graph.returnSites n →
    Relation.ReflTransGen R s (a.remember n n' d s)
  bypass : a.graph.isCall n = true → ∀ {n'} s, n' ∈ a.graph.returnSites n →
    Relation.ReflTransGen R s (a.joinInto n' c (a.problem.bypass n n' d) s)
  uncalled : ∀ s, Relation.ReflTransGen R s (s.emit (.uncalled n c))
  truncate : a.graph.isCall n = false → a.graph.isExit n = true → ∀ {r} s,
    r ∈ s.callsInto (a.graph.functionOf n) → a.contexts.same r.callee c = true →
    a.contexts.same (a.contexts.leave c) r.caller = false →
    Relation.ReflTransGen R s (s.truncate r.site (a.contexts.leave c) r.caller)
  leave : a.graph.isCall n = false → a.graph.isExit n = true → ∀ {r n'} s,
    r ∈ s.callsInto (a.graph.functionOf n) → a.contexts.same r.callee c = true →
    n' ∈ a.graph.returnSites r.site → Relation.ReflTransGen R s
      (a.joinInto n' r.caller (a.problem.ret r.site (a.graph.functionOf n) n d) s)

variable {a}

theorem enterAt_spec (a : Analysis N M D C S E) (n : N) (c : C) (m : M) (d : D)
    (s : State N M D C S E) (entry : N) :
    ∃ s' c', s.Quiet s' ∧ a.Adopts s' entry (a.contexts.enter c n entry d) c' ∧
      (s'.Tracks entry c' ∨ a.Admits s' entry) ∧
      ∃ t, (t = a.joinInto entry c' d (a.recordCall ⟨n, entry, c, c'⟩ s').2 ∨
          a.problem.recompute m = true ∧
            t = (a.joinInto entry c' d (a.recordCall ⟨n, entry, c, c'⟩ s').2).queue entry c') ∧
        a.enterAt n c m d s entry =
          if (a.recordCall ⟨n, entry, c, c'⟩ s').1 then a.requeueExits m c' t else t := by
  let s₀ := s.emitAll ((a.contexts.missing n entry d).map (fun x => .absent x n entry))
  have h₀ : s.Quiet s₀ := State.emitAll_quiet _
  obtain ⟨hadopts, hquiet, hroom⟩ := adopt_spec a n entry (a.contexts.enter c n entry d) s₀
  let p := a.adopt n entry (a.contexts.enter c n entry d) s₀
  let q := a.recordCall ⟨n, entry, c, p.1⟩ p.2
  let u := a.joinInto entry p.1 d q.2
  let again := (a.lookup q.2 entry p.1).isSome && a.problem.recompute m
  have hroom' : p.2.Tracks entry p.1 ∨ a.Admits p.2 entry :=
    hroom.imp (State.tracks_congr hquiet.table).mpr
      (fun hadmits => by rwa [Admits, hquiet.entriesAt])
  refine ⟨p.2, p.1, h₀.trans hquiet, adopts_congr hquiet.table hadopts, hroom',
    if again then u.queue entry p.1 else u, ?_, rfl⟩
  by_cases h : again
  · exact Or.inr ⟨(Bool.and_eq_true_iff.mp h).2, if_pos h⟩
  · exact Or.inl (if_neg h)

theorem hasNode_of_visit (hend : (a.visit n c d s).2 = true) :
    a.graph.hasNode n = true := by
  cases h : a.graph.hasNode n with
  | true => rfl
  | false => simp [visit, h] at hend

theorem visitCall_eq (hend : (a.visitCall n c d s).2 = true) :
    (a.graph.callees n).all a.graph.hasFunction = true ∧ a.passes n d = true ∧
      (a.visitCall n c d s).1 =
        (a.graph.returnSites n).foldl (a.bypassTo n c d) (a.enterCallees n c d s) := by
  simp only [visitCall] at hend ⊢
  split at hend
  · rename_i hexist
    have hsites : a.passable n d = a.graph.returnSites n :=
      List.takeWhile_eq_self_iff.mpr (List.all_eq_true.mp hend)
    rw [if_pos hexist, hsites]
    exact ⟨hexist, hend, rfl⟩
  · simp at hend

theorem enterCallees_eq (h : (a.graph.callees n).all a.graph.hasFunction = true) :
    a.enterCallees n c d s = (a.graph.callees n).foldl (a.enterCallee n c d) s := by
  rw [enterCallees, List.takeWhile_eq_self_iff.mpr (List.all_eq_true.mp h)]

theorem Composes.visitCall {R : State N M D C S E → State N M D C S E → Prop}
    (h : a.Composes R n c d) (hcall : a.graph.isCall n = true) (s : State N M D C S E) :
    Relation.ReflTransGen R s (a.visitCall n c d s).1 := by
  have henter : Relation.ReflTransGen R s (a.enterCallees n c d s) := by
    refine foldl_reflTransGen (fun t m hm => ?_) s
    have hm := (List.takeWhile_sublist _).mem hm
    exact foldl_reflTransGen (fun u _ hentry => h.enter hcall u hm hentry) t
  simp only [Analysis.visitCall]
  split
  · refine henter.trans (foldl_reflTransGen (fun t n' hn' => ?_) _)
    have hn' := (List.takeWhile_sublist _).mem hn'
    exact (h.remember hcall t hn').trans (h.bypass hcall _ hn')
  · exact henter

theorem bypassTo_strides {n' : N} (hcall : a.graph.isCall n = true)
    (hn' : n' ∈ a.graph.returnSites n) : a.Strides n c d s (a.bypassTo n c d s n') := by
  have hclient : a.Stride n c d s _ := .remember hcall hn'
  have hquiet : a.Stride n c d _ (a.remember n n' d s) := .quiet (remember_quiet a ..)
  exact ((Relation.ReflTransGen.single hclient).tail hquiet).tail (.bypass hcall hn')

theorem requeueExits_moves (m : M) (c' : C) : a.Moves n c d s (a.requeueExits m c' s) := by
  refine foldl_reflTransGen (fun t x _ => ?_) s
  cases h : a.lookup t x c' with
  | none => exact .refl
  | some e => exact .single (.requeue (lookup_tracks a h))

theorem Move.flags {t : State N M D C S E} (h : a.Move n c d s t) :
    t.seeded = s.seeded ∧ t.finished = s.finished := by
  cases h with
  | quiet h => exact ⟨h.seeded, h.finished⟩
  | requeue => exact ⟨rfl, rfl⟩
  | remember => exact ⟨rfl, rfl⟩
  | pass => exact joinInto_flags
  | bypass => exact joinInto_flags
  | enter =>
      have hrecord := recordCall_flags (a := a) (s := s)
      exact ⟨joinInto_flags.1.trans (hrecord _).1, joinInto_flags.2.trans (hrecord _).2⟩
  | leave => exact joinInto_flags

theorem Move.client {t : State N M D C S E} (h : a.Move n c d s t) : t.client = s.client ∨
    a.graph.isCall n = true ∧ ∃ n' ∈ a.graph.returnSites n,
      t.client = (a.problem.remember n n' d s.client).1 := by
  cases h with
  | quiet h => exact Or.inl h.client
  | requeue => exact Or.inl rfl
  | remember hcall hn' => exact Or.inr ⟨hcall, _, hn', rfl⟩
  | pass => exact Or.inl joinInto_client
  | bypass => exact Or.inl joinInto_client
  | enter => exact Or.inl (joinInto_client.trans (recordCall_client _))
  | leave => exact Or.inl joinInto_client

theorem Moves.flags {t : State N M D C S E} (h : a.Moves n c d s t) :
    t.seeded = s.seeded ∧ t.finished = s.finished := by
  induction h with
  | refl => exact ⟨rfl, rfl⟩
  | tail _ hmove ih => exact ⟨hmove.flags.1.trans ih.1, hmove.flags.2.trans ih.2⟩

variable [Std.LawfulEqOrd N]

namespace Composes

variable {R : State N M D C S E → State N M D C S E → Prop}

theorem leaveAll (h : a.Composes R n c d) {r : CallRecord N C} {xs : List N}
    (hcall : a.graph.isCall n = false) (hexit : a.graph.isExit n = true)
    (hr : r ∈ s.callsInto (a.graph.functionOf n)) (hsame : a.contexts.same r.callee c = true)
    (hxs : ∀ x ∈ xs, x ∈ a.graph.returnSites r.site) :
    Relation.ReflTransGen R s (xs.foldl (fun s x =>
      a.joinInto x r.caller (a.problem.ret r.site (a.graph.functionOf n) n d) s) s) := by
  induction xs generalizing s with
  | nil => exact .refl
  | cons x xs ih =>
      refine (h.leave hcall hexit s hr hsame (hxs x (List.mem_cons_self ..))).trans
        (ih ?_ (fun y hy => hxs y (List.mem_cons_of_mem _ hy)))
      rw [joinInto_callsInto]
      exact hr

theorem returnTo (h : a.Composes R n c d) {r : CallRecord N C}
    (hcall : a.graph.isCall n = false) (hexit : a.graph.isExit n = true)
    (hr : r ∈ s.callsInto (a.graph.functionOf n)) (hsame : a.contexts.same r.callee c = true) :
    Relation.ReflTransGen R s (a.returnTo n c d s r) := by
  simp only [Analysis.returnTo]
  split
  · exact h.leaveAll hcall hexit hr hsame (fun _ hx => hx)
  · rename_i hdiffers
    have htruncate := h.truncate hcall hexit s hr hsame (Bool.eq_false_iff.mpr hdiffers)
    exact htruncate.trans (h.leaveAll hcall hexit hr hsame (fun _ hx => hx))

theorem returnAll (h : a.Composes R n c d) {rs : List (CallRecord N C)}
    (hcall : a.graph.isCall n = false) (hexit : a.graph.isExit n = true)
    (hrs : ∀ r ∈ rs, r ∈ s.callsInto (a.graph.functionOf n) ∧ a.contexts.same r.callee c = true) :
    Relation.ReflTransGen R s (rs.foldl (a.returnTo n c d) s) := by
  induction rs generalizing s with
  | nil => exact .refl
  | cons r rs ih =>
      have hr := hrs r (List.mem_cons_self ..)
      refine (h.returnTo hcall hexit hr.1 hr.2).trans (ih (fun r' hr' => ?_))
      rw [State.callsInto_congr (returnTo_calls r)]
      exact hrs r' (List.mem_cons_of_mem _ hr')

theorem visitExit (h : a.Composes R n c d) (hcall : a.graph.isCall n = false)
    (hexit : a.graph.isExit n = true) (s : State N M D C S E) :
    Relation.ReflTransGen R s (a.visitExit n c d s) := by
  simp only [Analysis.visitExit]
  split
  · exact (h.uncalled s).trans (h.returnAll hcall hexit (fun r hr => List.mem_filter.mp hr))
  · exact h.returnAll hcall hexit (fun r hr => List.mem_filter.mp hr)

theorem visit (h : a.Composes R n c d) (s : State N M D C S E) :
    Relation.ReflTransGen R (s.emit (.visited n c d)) (a.visit n c d s).1 := by
  simp only [Analysis.visit]
  split
  · exact .refl
  · cases hcall : a.graph.isCall n with
    | true => exact h.visitCall hcall _
    | false =>
        cases hexit : a.graph.isExit n with
        | true => exact h.visitExit hcall hexit _
        | false => exact foldl_reflTransGen (fun t n' hn' => h.pass hcall hexit t hn') _

end Composes

theorem visit_strides (n : N) (c : C) (d : D) (s : State N M D C S E) :
    a.Strides n c d s (a.visit n c d s).1 := by
  have hcomposes : a.Composes (a.Stride n c d) n c d := by
    constructor
    case pass => exact fun hcall hexit _ _ hn' => .single (.pass hcall hexit hn')
    case enter => exact fun hcall _ _ _ hm hentry => .single (.enter hcall hm hentry)
    case remember =>
      intro hcall n' t hn'
      have hclient : a.Stride n c d t _ := .remember hcall hn'
      exact (Relation.ReflTransGen.single hclient).tail (.quiet (remember_quiet a ..))
    case bypass => exact fun hcall _ _ hn' => .single (.bypass hcall hn')
    case uncalled => exact fun _ => .single (.quiet ⟨⟨rfl, rfl, rfl, rfl⟩, rfl, rfl⟩)
    case truncate => exact fun _ _ _ _ _ _ _ => .single (.quiet ⟨⟨rfl, rfl, rfl, rfl⟩, rfl, rfl⟩)
    case leave =>
      exact fun hcall hexit _ _ _ hr hsame hn' => .single (.leave hcall hexit hr hsame hn')
  have hvisited : a.Stride n c d s (s.emit (.visited n c d)) :=
    .quiet ⟨⟨rfl, rfl, rfl, rfl⟩, rfl, rfl⟩
  exact (hcomposes.visit s).head hvisited

theorem enterAt_moves {m : M} {entry : N} (hcall : a.graph.isCall n = true)
    (hm : m ∈ a.graph.callees n) (hentry : entry ∈ a.graph.starts m) :
    a.Moves n c d s (a.enterAt n c m (a.problem.call n m d) s entry) := by
  obtain ⟨s', c', hquiet, hadopt, _, t, ht, heq⟩ :=
    enterAt_spec a n c m (a.problem.call n m d) s entry
  have henter := Move.enter hcall hm hentry hadopt
  have htracks := tracks_of_adopts (d := a.problem.call n m d)
    (adopts_congr (recordCall_table (a := a) (s := s') ⟨n, entry, c, c'⟩) hadopt)
  have hst : a.Moves n c d s t := by
    refine Relation.ReflTransGen.head (.quiet hquiet) ?_
    rcases ht with rfl | ⟨_, rfl⟩
    · exact .single henter
    · exact (Relation.ReflTransGen.single henter).tail (.requeue htracks)
  rw [heq]
  split
  · exact hst.trans (requeueExits_moves m c')
  · exact hst

theorem Stride.moves {t : State N M D C S E} (h : a.Stride n c d s t) : a.Moves n c d s t := by
  cases h with
  | quiet h => exact .single (.quiet h)
  | remember hcall hn' => exact .single (.remember hcall hn')
  | pass hcall hexit hn' => exact .single (.pass hcall hexit hn')
  | bypass hcall hn' => exact .single (.bypass hcall hn')
  | enter hcall hm hentry => exact enterAt_moves hcall hm hentry
  | leave hcall hexit hr hsame hn' => exact .single (.leave hcall hexit hr hsame hn')

theorem Strides.moves {t : State N M D C S E} (h : a.Strides n c d s t) : a.Moves n c d s t := by
  induction h with
  | refl => exact .refl
  | tail _ hstride ih => exact ih.trans hstride.moves

theorem bypassTo_moves {n' : N} (hcall : a.graph.isCall n = true)
    (hn' : n' ∈ a.graph.returnSites n) : a.Moves n c d s (a.bypassTo n c d s n') :=
  Strides.moves (bypassTo_strides hcall hn')

theorem enterCallee_moves {m : M} (hcall : a.graph.isCall n = true)
    (hm : m ∈ a.graph.callees n) : a.Moves n c d s (a.enterCallee n c d s m) :=
  foldl_reflTransGen (fun _ _ hentry => enterAt_moves hcall hm hentry) s

theorem visit_moves (n : N) (c : C) (d : D) (s : State N M D C S E) :
    a.Moves n c d s (a.visit n c d s).1 :=
  Strides.moves (visit_strides n c d s)

end Analysis

end Interproc
