import Interproc.Proofs.Solver.Settled
import Mathlib.Data.List.Infix
import Mathlib.Logic.Function.Iterate

/-!
The outline of a run: which contexts each node has and which calls are remembered, in their order, and
which states are yet to be visited for the first time. Where the contexts of callees do not depend on
facts and no limit merges them, first visits alone draw the outline, and they take the states in the order
in which these came up. Runs of one plan thus draw one outline, whatever flows they have and whatever
they visit again.
-/
namespace Interproc

open Solver

inductive Leads {α : Type} : List α → List α → Prop
  | nil {w} : Leads [] w
  | take {x f w} : x ∉ f → Leads f w → Leads (x :: f) (x :: w)
  | skip {x f w} : x ∉ f → Leads f w → Leads f (x :: w)

namespace Leads

variable {α : Type} {f w : List α} {x : α}

theorem append (h : Leads f w) (ws : List α) : Leads f (w ++ ws) := by
  induction h with
  | nil => exact .nil
  | take hx _ ih => exact .take hx ih
  | skip hx _ ih => exact .skip hx ih

theorem concat (h : Leads f w) (hx : x ∉ w) : Leads (f ++ [x]) (w ++ [x]) := by
  induction h with
  | @nil w =>
      induction w with
      | nil => exact .take (List.not_mem_nil) .nil
      | cons y w ih =>
          rw [List.mem_cons, not_or] at hx
          exact .skip (by simpa using Ne.symm hx.1) (ih hx.2)
  | @take y f w hy _ ih =>
      rw [List.mem_cons, not_or] at hx
      exact .take (by simpa [hy] using Ne.symm hx.1) (ih hx.2)
  | @skip y f w hy _ ih =>
      rw [List.mem_cons, not_or] at hx
      exact .skip (by simpa [hy] using Ne.symm hx.1) (ih hx.2)

theorem eq_nil (h : Leads f []) : f = [] := by
  cases h
  rfl

theorem cons_cases (h : Leads f (x :: w)) : (∃ f', f = x :: f' ∧ Leads f' w) ∨ x ∉ f ∧ Leads f w := by
  cases h with
  | nil => exact Or.inr ⟨List.not_mem_nil, .nil⟩
  | take _ h => exact Or.inl ⟨_, rfl, h⟩
  | skip hx h => exact Or.inr ⟨hx, h⟩

end Leads

variable {N M C : Type}

structure Outline (N M C : Type) where
  contexts : N → List C
  calls : M → List (CallRecord N C)
  fresh : List (N × C)

namespace Outline

instance : EmptyCollection (Outline N M C) := ⟨⟨fun _ => [], fun _ => [], []⟩⟩

structure Prefix (o o' : Outline N M C) : Prop where
  contexts : ∀ n, o.contexts n <+: o'.contexts n
  calls : ∀ m, o.calls m <+: o'.calls m

variable {o o' o'' : Outline N M C}

theorem Prefix.refl (o : Outline N M C) : o.Prefix o :=
  ⟨fun _ => List.prefix_refl _, fun _ => List.prefix_refl _⟩

theorem Prefix.trans (h : o.Prefix o') (h' : o'.Prefix o'') : o.Prefix o'' where
  contexts n := (h.contexts n).trans (h'.contexts n)
  calls m := (h.calls m).trans (h'.calls m)

end Outline

structure Plan (N M C : Type) where
  graph : Icfg N M
  same : C → C → Bool
  enter : C → N → N → C
  seeds : List N
  initial : C

namespace Plan

open Analysis (foldl_gains)

section Definitions

variable [DecidableEq N] [DecidableEq M] (P : Plan N M C) (o : Outline N M C)

def find (n : N) (c : C) : Option C := (o.contexts n).find? (fun c' => P.same c' c)

def known (r : CallRecord N C) (rs : List (CallRecord N C)) : Bool :=
  rs.any (fun r' => decide (r'.site = r.site) && decide (r'.entry = r.entry) &&
    P.same r'.caller r.caller && P.same r'.callee r.callee)

def join (n : N) (c : C) : Outline N M C :=
  if (P.find o n c).isSome then o
  else { o with
    contexts := Function.update o.contexts n (o.contexts n ++ [c])
    fresh := o.fresh ++ [(n, c)] }

def record (r : CallRecord N C) : Outline N M C :=
  let m := P.graph.functionOf r.entry
  if P.known r (o.calls m) then o
  else { o with calls := Function.update o.calls m (o.calls m ++ [r]) }

def callee (n : N) (c : C) (entry : N) : C :=
  (P.find o entry (P.enter c n entry)).getD (P.enter c n entry)

def enterAt (n : N) (c : C) (entry : N) : Outline N M C :=
  let c' := P.callee o n c entry
  P.join (P.record o ⟨n, entry, c, c'⟩) entry c'

def enterCallee (n : N) (c : C) (m : M) : Outline N M C :=
  (P.graph.starts m).foldl (fun o entry => P.enterAt o n c entry) o

def visit (n : N) (c : C) : Outline N M C :=
  if P.graph.isCall n then
    (P.graph.returnSites n).foldl (fun o n' => P.join o n' c)
      ((P.graph.callees n).foldl (fun o m => P.enterCallee o n c m) o)
  else if P.graph.isExit n then o
  else (P.graph.succs n).foldl (fun o n' => P.join o n' c) o

def next : Outline N M C :=
  match o.fresh with
  | [] => o
  | (n, c) :: rest => P.visit { o with fresh := rest } n c

def start : Outline N M C := P.seeds.foldl (fun o n => P.join o n P.initial) ∅

def Entered (n : N) (c : C) (entry : N) : Prop :=
  ∃ c', P.find o entry (P.enter c n entry) = some c' ∧
    P.known ⟨n, entry, c, c'⟩ (o.calls (P.graph.functionOf entry)) = true

structure Passed (n : N) (c : C) : Prop where
  pass : P.graph.isCall n = false → P.graph.isExit n = false →
    ∀ n' ∈ P.graph.succs n, (P.find o n' c).isSome
  bypass : P.graph.isCall n = true → ∀ n' ∈ P.graph.returnSites n, (P.find o n' c).isSome
  enter : P.graph.isCall n = true → ∀ m ∈ P.graph.callees n, ∀ entry ∈ P.graph.starts m,
    P.Entered o n c entry

def Aimed (r : CallRecord N C) : Prop :=
  P.find o r.entry (P.enter r.caller r.site r.entry) = some r.callee

structure Draws (n : N) (c : C) (o o' : Outline N M C) : Prop extends o.Prefix o' where
  queued : ∀ {w}, w ∈ o.fresh → w ∈ o'.fresh
  added : ∀ {n' c'}, c' ∈ o'.contexts n' → c' ∈ o.contexts n' ∨ (n', c') ∈ o'.fresh
  called : ∀ {m r}, r ∈ o'.calls m → r ∈ o.calls m ∨
    P.graph.isCall n = true ∧ r.site = n ∧ r.caller = c ∧ P.Aimed o' r

structure Sound : Prop where
  passed : ∀ n, ∀ c ∈ o.contexts n, (n, c) ∈ o.fresh ∨ P.Passed o n c
  returned : ∀ m, ∀ r ∈ o.calls m, ∀ n' ∈ P.graph.returnSites r.site,
    (P.find o n' r.caller).isSome
  aimed : ∀ m, ∀ r ∈ o.calls m, P.Aimed o r

end Definitions

variable {P : Plan N M C} {o o' o'' : Outline N M C} {n k : N} {c c' : C} {m : M}
variable {r : CallRecord N C}

theorem find_mono (h : o.Prefix o') (hc : P.find o n c = some c') : P.find o' n c = some c' := by
  obtain ⟨cs, hcs⟩ := h.contexts n
  simp only [find] at hc ⊢
  rw [← hcs, List.find?_append, hc]
  rfl

theorem isSome_find_mono (h : o.Prefix o') (hc : (P.find o n c).isSome) :
    (P.find o' n c).isSome := by
  obtain ⟨c', hc'⟩ := Option.isSome_iff_exists.mp hc
  rw [find_mono h hc']
  rfl

theorem isSome_find_of_mem (hrefl : ∀ c, P.same c c = true) (hc : c ∈ o.contexts n) :
    (P.find o n c).isSome :=
  List.find?_isSome.mpr ⟨c, hc, hrefl c⟩

namespace Draws

theorem refl (o : Outline N M C) : P.Draws n c o o := ⟨.refl o, id, Or.inl, Or.inl⟩

theorem trans (h : P.Draws n c o o') (h' : P.Draws n c o' o'') : P.Draws n c o o'' where
  toPrefix := h.toPrefix.trans h'.toPrefix
  queued hw := h'.queued (h.queued hw)
  added hc := by
    rcases h'.added hc with hc | hc
    · exact (h.added hc).imp_right h'.queued
    · exact Or.inr hc
  called hr := by
    rcases h'.called hr with hr | hr
    · exact (h.called hr).imp_right (fun ⟨hcall, hsite, hcaller, haimed⟩ =>
        ⟨hcall, hsite, hcaller, find_mono h'.toPrefix haimed⟩)
    · exact Or.inr hr

theorem foldl {α : Type} {f : Outline N M C → α → Outline N M C} {l : List α}
    (h : ∀ o, ∀ x ∈ l, P.Draws n c o (f o x)) (o : Outline N M C) :
    P.Draws n c o (l.foldl f o) :=
  List.foldlRecOn (motive := P.Draws n c o) _ _ (refl o) (fun o' ho' x hx => ho'.trans (h o' x hx))

end Draws

variable [DecidableEq N]

theorem known_mono (h : o.Prefix o') (hr : P.known r (o.calls m) = true) :
    P.known r (o'.calls m) = true := by
  obtain ⟨rs, hrs⟩ := h.calls m
  rw [← hrs, known, List.any_append, ← known, hr, Bool.true_or]

theorem Entered.mono {entry : N} (h : P.Entered o n c entry) (ho : o.Prefix o') :
    P.Entered o' n c entry :=
  h.imp (fun _ hc' => ⟨find_mono ho hc'.1, known_mono ho hc'.2⟩)

theorem Passed.mono (h : P.Passed o n c) (ho : o.Prefix o') : P.Passed o' n c where
  pass hcall hexit n' hn' := isSome_find_mono ho (h.pass hcall hexit n' hn')
  bypass hcall n' hn' := isSome_find_mono ho (h.bypass hcall n' hn')
  enter hcall m hm entry hentry := (h.enter hcall m hm entry hentry).mono ho

theorem join_of_find (h : (P.find o n c).isSome) : P.join o n c = o := if_pos h

theorem calls_join : (P.join o n c).calls = o.calls := by
  rw [join]
  split <;> rfl

theorem contexts_join_of_not (h : ¬ (P.find o n c).isSome) (k : N) :
    (P.join o n c).contexts k = if k = n then o.contexts n ++ [c] else o.contexts k := by
  rw [join, if_neg h]
  exact Function.update_apply ..

theorem draws_join (n' : N) (c' : C) : P.Draws n c o (P.join o n' c') := by
  by_cases h : (P.find o n' c').isSome
  · rw [join_of_find h]
    exact .refl o
  · have hcontexts := contexts_join_of_not h
    have hfresh : (P.join o n' c').fresh = o.fresh ++ [(n', c')] := by rw [join, if_neg h]
    refine ⟨⟨fun k => ?_, fun m => by rw [calls_join]⟩, fun hw => ?_, fun {k c''} hc => ?_,
      fun hr => Or.inl (by rwa [calls_join] at hr)⟩
    · rw [hcontexts]
      split
      · rename_i hk
        exact hk ▸ List.prefix_append ..
      · exact List.prefix_refl _
    · exact hfresh ▸ List.mem_append_left _ hw
    · rw [hcontexts] at hc
      split at hc
      · rename_i hk
        subst hk
        rw [hfresh]
        exact (List.mem_append.mp hc).imp_right (fun hc =>
          List.mem_append_right _ (List.mem_singleton.mpr (by rw [List.mem_singleton.mp hc])))
      · exact Or.inl hc

theorem prefix_join : o.Prefix (P.join o n c) := (draws_join (n := n) (c := c) n c).toPrefix

theorem isSome_find_join (hrefl : ∀ c, P.same c c = true) : (P.find (P.join o n c) n c).isSome := by
  by_cases h : (P.find o n c).isSome
  · rwa [join_of_find h]
  · refine isSome_find_of_mem hrefl ?_
    rw [contexts_join_of_not h, if_pos rfl]
    exact List.mem_append_right _ (List.mem_singleton.mpr rfl)

theorem joinAll_finds (hrefl : ∀ c, P.same c c = true) {l : List N} (hn : n ∈ l) :
    (P.find (l.foldl (fun o n => P.join o n c) o) n c).isSome :=
  foldl_gains (P := fun n o => (P.find o n c).isSome) _ l (fun _ _ _ => isSome_find_join hrefl)
    (fun _ _ _ _ h => isSome_find_mono prefix_join h) o n hn

theorem joinAll_of_find {l : List N} (h : ∀ n ∈ l, (P.find o n c).isSome) :
    l.foldl (fun o n => P.join o n c) o = o :=
  List.foldlRecOn (motive := fun o' => o' = o) _ _ rfl
    (fun _ ho n hn => by rw [ho, join_of_find (h n hn)])

theorem sound_start : P.Sound P.start := by
  have hstart : (∀ n, ∀ c ∈ P.start.contexts n, (n, c) ∈ P.start.fresh) ∧
      ∀ m, P.start.calls m = [] := by
    refine List.foldlRecOn (motive := fun o : Outline N M C =>
      (∀ n, ∀ c ∈ o.contexts n, (n, c) ∈ o.fresh) ∧ ∀ m, o.calls m = []) _ _
      ⟨fun _ _ hc => absurd hc List.not_mem_nil, fun _ => rfl⟩ (fun o ho n _ => ⟨?_, ?_⟩)
    · intro n' c hc
      have hdraws := draws_join (P := P) (o := o) (n := n) (c := P.initial) n P.initial
      exact (hdraws.added hc).elim (fun hc => hdraws.queued (ho.1 n' c hc)) id
    · rw [calls_join]
      exact ho.2
  exact ⟨fun n c hc => Or.inl (hstart.1 n c hc), by simp [hstart.2], by simp [hstart.2]⟩

variable [DecidableEq M]

theorem record_of_known (h : P.known r (o.calls (P.graph.functionOf r.entry)) = true) :
    P.record o r = o := if_pos h

theorem calls_record_of_not (h : ¬ P.known r (o.calls (P.graph.functionOf r.entry)) = true) (m : M) :
    (P.record o r).calls m =
      if m = P.graph.functionOf r.entry then o.calls m ++ [r] else o.calls m := by
  rw [record, if_neg h]
  refine (Function.update_apply ..).trans ?_
  split
  · rename_i hm
    rw [hm]
  · rfl

theorem contexts_record : (P.record o r).contexts = o.contexts := by
  rw [record]
  split <;> rfl

theorem fresh_record : (P.record o r).fresh = o.fresh := by
  rw [record]
  split <;> rfl

theorem mem_calls_record {r' : CallRecord N C} (h : r' ∈ (P.record o r).calls m) :
    r' ∈ o.calls m ∨ r' = r := by
  by_cases hknown : P.known r (o.calls (P.graph.functionOf r.entry)) = true
  · rw [record_of_known hknown] at h
    exact Or.inl h
  · rw [calls_record_of_not hknown] at h
    split at h
    · simpa using h
    · exact Or.inl h

theorem known_record (hrefl : ∀ c, P.same c c = true) :
    P.known r ((P.record o r).calls (P.graph.functionOf r.entry)) = true := by
  by_cases hknown : P.known r (o.calls (P.graph.functionOf r.entry)) = true
  · rwa [record_of_known hknown]
  · rw [calls_record_of_not hknown, if_pos rfl]
    simp [known, hrefl]

theorem prefix_record : o.Prefix (P.record o r) := by
  refine ⟨fun k => by rw [contexts_record], fun m => ?_⟩
  by_cases hknown : P.known r (o.calls (P.graph.functionOf r.entry)) = true
  · rw [record_of_known hknown]
  · rw [calls_record_of_not hknown]
    split
    · exact List.prefix_append ..
    · exact List.prefix_refl _

theorem find_enterAt (hrefl : ∀ c, P.same c c = true) {entry : N} :
    P.find (P.enterAt o n c entry) entry (P.enter c n entry) = some (P.callee o n c entry) := by
  cases h : P.find o entry (P.enter c n entry) with
  | some c' =>
      rw [callee, h, enterAt, find_mono (prefix_record.trans prefix_join) h]
      rfl
  | none =>
      have hcallee : P.callee o n c entry = P.enter c n entry := by rw [callee, h]; rfl
      have hnone : ¬ (P.find (P.record o ⟨n, entry, c, P.enter c n entry⟩) entry
          (P.enter c n entry)).isSome := by
        rw [find, contexts_record, ← find, h]
        simp
      rw [enterAt, hcallee, find, contexts_join_of_not hnone, if_pos rfl, contexts_record,
        List.find?_append, ← find, h]
      simp [hrefl]

theorem entered_enterAt (hrefl : ∀ c, P.same c c = true) {entry : N} :
    P.Entered (P.enterAt o n c entry) n c entry := by
  refine ⟨_, find_enterAt hrefl, ?_⟩
  rw [enterAt, calls_join]
  exact known_record hrefl

theorem draws_enterAt (hrefl : ∀ c, P.same c c = true) (hcall : P.graph.isCall n = true)
    {entry : N} : P.Draws n c o (P.enterAt o n c entry) := by
  have hjoin : P.Draws n c _ (P.enterAt o n c entry) := draws_join entry (P.callee o n c entry)
  refine ⟨prefix_record.trans hjoin.toPrefix, fun hw => hjoin.queued (by rwa [fresh_record]),
    fun hc => ?_, fun hr => ?_⟩
  · rcases hjoin.added hc with hc | hc
    · exact Or.inl (by rwa [contexts_record] at hc)
    · exact Or.inr hc
  · rw [enterAt, calls_join] at hr
    rcases mem_calls_record hr with hr | rfl
    · exact Or.inl hr
    · exact Or.inr ⟨hcall, rfl, rfl, find_enterAt hrefl⟩

theorem draws_enterCallee (hrefl : ∀ c, P.same c c = true) (hcall : P.graph.isCall n = true)
    (m : M) : P.Draws n c o (P.enterCallee o n c m) :=
  .foldl (fun _ _ _ => draws_enterAt hrefl hcall) o

theorem visit_call (h : P.graph.isCall n = true) : P.visit o n c =
    (P.graph.returnSites n).foldl (fun o n' => P.join o n' c)
      ((P.graph.callees n).foldl (fun o m => P.enterCallee o n c m) o) := if_pos h

theorem visit_inner (h : ¬ P.graph.isCall n = true) : P.visit o n c =
    if P.graph.isExit n then o else (P.graph.succs n).foldl (fun o n' => P.join o n' c) o :=
  if_neg h

theorem draws_visit (hrefl : ∀ c, P.same c c = true) : P.Draws n c o (P.visit o n c) := by
  by_cases hcall : P.graph.isCall n = true
  · rw [visit_call hcall]
    exact (Draws.foldl (fun _ m _ => draws_enterCallee hrefl hcall m) o).trans
      (.foldl (fun _ n' _ => draws_join n' c) _)
  · rw [visit_inner hcall]
    split
    · exact .refl o
    · exact .foldl (fun _ n' _ => draws_join n' c) o

theorem enterCallee_entered (hrefl : ∀ c, P.same c c = true) (hcall : P.graph.isCall n = true)
    {entry : N} (hentry : entry ∈ P.graph.starts m) :
    P.Entered (P.enterCallee o n c m) n c entry :=
  foldl_gains (P := fun entry o => P.Entered o n c entry) _ _ (fun _ _ _ => entered_enterAt hrefl)
    (fun _ _ _ _ h => h.mono (draws_enterAt hrefl hcall).toPrefix) o entry hentry

theorem visit_passed (hrefl : ∀ c, P.same c c = true) : P.Passed (P.visit o n c) n c := by
  by_cases hcall : P.graph.isCall n = true
  · rw [visit_call hcall]
    refine ⟨by simp [hcall], fun _ _ hn' => joinAll_finds hrefl hn', fun _ m hm entry hentry => ?_⟩
    refine Entered.mono ?_ (Draws.foldl (n := n) (c := c) (fun _ n' _ => draws_join n' c) _).toPrefix
    exact foldl_gains (P := fun m o => ∀ entry ∈ P.graph.starts m, P.Entered o n c entry) _ _
      (fun _ _ _ _ => enterCallee_entered hrefl hcall)
      (fun _ _ m _ h entry hentry => (h entry hentry).mono
        (draws_enterCallee hrefl hcall m).toPrefix) o m hm entry hentry
  · rw [visit_inner hcall]
    refine ⟨fun _ hexit n' hn' => ?_, by simp [hcall], by simp [hcall]⟩
    rw [hexit, if_neg Bool.false_ne_true]
    exact joinAll_finds hrefl hn'

theorem enterAt_of_entered (hrefl : ∀ c, P.same c c = true) {entry : N}
    (h : P.Entered o n c entry) : P.enterAt o n c entry = o := by
  obtain ⟨c', hc', hknown⟩ := h
  have hcallee : P.callee o n c entry = c' := by rw [callee, hc']; rfl
  rw [enterAt, hcallee, record_of_known hknown]
  exact join_of_find (isSome_find_of_mem hrefl (List.mem_of_find?_eq_some hc'))

theorem visit_of_passed (hrefl : ∀ c, P.same c c = true) (h : P.Passed o n c) :
    P.visit o n c = o := by
  by_cases hcall : P.graph.isCall n = true
  · have henter : (P.graph.callees n).foldl (fun o m => P.enterCallee o n c m) o = o :=
      List.foldlRecOn (motive := fun o' => o' = o) _ _ rfl (fun o' ho' m hm => by
        rw [ho']
        exact List.foldlRecOn (motive := fun o' => o' = o) _ _ rfl (fun o' ho' entry hentry => by
          rw [ho', enterAt_of_entered hrefl (h.enter hcall m hm entry hentry)]))
    rw [visit_call hcall, henter]
    exact joinAll_of_find (h.bypass hcall)
  · rw [visit_inner hcall]
    split
    · rfl
    · rename_i hexit
      exact joinAll_of_find (h.pass (Bool.eq_false_iff.mpr hcall) (Bool.eq_false_iff.mpr hexit))

theorem prefix_next (hrefl : ∀ c, P.same c c = true) : o.Prefix (P.next o) := by
  unfold next
  split
  · exact .refl o
  · rename_i n c rest _
    have hdraws := draws_visit hrefl (o := { o with fresh := rest }) (n := n) (c := c)
    exact ⟨hdraws.contexts, hdraws.calls⟩

theorem prefix_iterate (hrefl : ∀ c, P.same c c = true) (i : Nat) : o.Prefix (P.next^[i] o) := by
  induction i with
  | zero => exact .refl o
  | succ i ih =>
      rw [Function.iterate_succ_apply']
      exact ih.trans (prefix_next hrefl)

theorem iterate_of_fresh_nil (h : o.fresh = []) (i : Nat) : P.next^[i] o = o :=
  Function.iterate_fixed (by simp [next, h]) i

section Sound

variable (hrefl : ∀ c, P.same c c = true)
include hrefl

theorem Sound.next (h : P.Sound o) : P.Sound (P.next o) := by
  unfold Plan.next
  split
  · exact h
  · rename_i n c rest hfresh
    have hdraws := draws_visit (o := { o with fresh := rest }) (n := n) (c := c) hrefl
    have hpassed := visit_passed (o := { o with fresh := rest }) (n := n) (c := c) hrefl
    generalize P.visit { o with fresh := rest } n c = o' at hdraws hpassed ⊢
    have hprefix : o.Prefix o' := ⟨hdraws.contexts, hdraws.calls⟩
    refine ⟨fun n' c' hc' => ?_, fun m r hr n' hn' => ?_, fun m r hr => ?_⟩
    · -- what is new waits for its first visit, and the state just visited has passed on
      rcases hdraws.added hc' with hc' | hc'
      · rcases h.passed n' c' hc' with hwait | hpassed'
        · rw [hfresh, List.mem_cons] at hwait
          rcases hwait with heq | hwait
          · obtain ⟨rfl, rfl⟩ := Prod.mk.inj heq
            exact Or.inr hpassed
          · exact Or.inl (hdraws.queued hwait)
        · exact Or.inr (hpassed'.mono hprefix)
      · exact Or.inl hc'
    · rcases hdraws.called hr with hr | ⟨hcall, rfl, rfl, _⟩
      · exact isSome_find_mono hprefix (h.returned m r hr n' hn')
      · exact hpassed.bypass hcall n' hn'
    · rcases hdraws.called hr with hr | ⟨_, _, _, haimed⟩
      · exact find_mono hprefix (h.aimed m r hr)
      · exact haimed

theorem sound_iterate (i : Nat) : P.Sound (P.next^[i] P.start) := by
  induction i with
  | zero => exact sound_start
  | succ i ih =>
      rw [Function.iterate_succ_apply']
      exact ih.next hrefl

end Sound

end Plan

end Interproc
