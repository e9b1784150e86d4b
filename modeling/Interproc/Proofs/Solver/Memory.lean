import Interproc.Proofs.Solver.Moment
import Interproc.Solver.Results

namespace Interproc

open Solver

variable {N M D C S E : Type}

inductive Remembered (g : Icfg N M) (p : Problem N M D S E) (V : N → D → Prop) (x : S) : S → Prop
  | start : Remembered g p V x x
  | pass {y n n' d} : Remembered g p V x y → g.isCall n = true → n' ∈ g.returnSites n → V n d →
      Remembered g p V x (p.remember n n' d y).1

theorem Remembered.imp {g : Icfg N M} {p : Problem N M D S E} {V W : N → D → Prop} {x y : S}
    (h : Remembered g p V x y) (hVW : ∀ n d, V n d → W n d) : Remembered g p W x y := by
  induction h with
  | start => exact .start
  | pass _ hcall hn' hd ih => exact ih.pass hcall hn' (hVW _ _ hd)

structure Problem.Retains (p : Problem N M D S E) : Prop where
  again : ∀ n n' d x, (p.remember n n' d (p.remember n n' d x).1).1 = (p.remember n n' d x).1
  later : ∀ {n n' d x} m m' e, (p.remember n n' d x).1 = x →
    (p.remember n n' d (p.remember m m' e x).1).1 = (p.remember m m' e x).1

namespace Analysis

variable (a : Analysis N M D C S E)

def Noted (n : N) (d : D) (x : S) : Prop :=
  a.graph.isCall n = true → ∀ n' ∈ a.graph.returnSites n, (a.problem.remember n n' d x).1 = x

variable [Ord N] [Ord M]

def Below (s : State N M D C S E) (n : N) (d : D) : Prop := ∃ c, a.includes s c n d = true

variable {a} {s t : State N M D C S E} {n : N} {c : C} {d : D}

section Check

theorem mem_entriesAt_of_tracked [Std.TransOrd N] [Std.LawfulEqOrd N] {e : N × C × D}
    (he : e ∈ tracked s) : e.2 ∈ s.entriesAt e.1 := by
  obtain ⟨⟨n, es⟩, hes, he⟩ := List.mem_flatMap.mp he
  obtain ⟨⟨c, d⟩, hd, rfl⟩ := List.mem_map.mp he
  rw [State.entriesAt, OrdMap.getD, OrdMap.get?_eq_some_iff.mpr hes]
  exact hd

variable {xs : List (N × C × D)}

theorem passed_client (hd : a.Noted n d s.client) (hcall : a.graph.isCall n = true) {rs : List N}
    (hrs : ∀ r ∈ rs, r ∈ a.graph.returnSites n) :
    (rs.foldl (fun s r => a.remember n r d s) s).client = s.client := by
  refine List.foldlRecOn (motive := fun t : State N M D C S E => t.client = s.client)
    _ _ rfl (fun t ht r hr => ?_)
  have hquiet := remember_quiet a n r d t
  rw [hquiet.client, ht]
  exact hd hcall r (hrs r hr)

theorem reviewCall_client (hd : a.Noted n d s.client) :
    (a.reviewCall n d s).1.client = s.client := by
  unfold reviewCall
  split
  · rename_i hcall
    exact passed_client hd hcall (fun r hr => (List.takeWhile_sublist _).mem hr)
  · rfl

theorem review_client (h : ∀ e ∈ xs, a.Noted e.1 e.2.2 s.client) :
    (a.review xs s).1.client = s.client := by
  induction xs generalizing s with
  | nil => rfl
  | cons e xs ih =>
      obtain ⟨n, c, d⟩ := e
      have hclient := reviewCall_client (h (n, c, d) (List.mem_cons_self ..))
      have hrest : (a.review xs (a.reviewCall n d s).1).1.client = s.client := by
        rw [← hclient]
        exact ih (fun e he => hclient ▸ h e (List.mem_cons_of_mem _ he))
      simp only [review]
      split
      · rfl
      · split
        · rename_i u hu
          rwa [hu] at hclient
        · rename_i u hu
          rw [hu] at hrest
          split
          · rename_i v hv
            rwa [hv] at hrest
          · rename_i v vs hv
            rwa [hv] at hrest

end Check

theorem Below.congr (htable : t.table = s.table) (h : a.Below s n d) : a.Below t n d :=
  h.imp (fun _ hc => by rwa [includes_congr htable])

theorem Below.mono (hp : a.problem.Ordered) (hgrows : a.Grows s t) (h : a.Below s n d) :
    a.Below t n d :=
  h.imp (fun _ hc => hgrows.includes hp hc)

theorem Below.entry (h : a.Below s n d) :
    ∃ c e, (c, e) ∈ s.entriesAt n ∧ a.problem.le d e = true := by
  obtain ⟨c, hc⟩ := h
  obtain ⟨e, he, hle⟩ := includes_iff.mp hc
  exact ⟨e.1, e.2, (mem_of_findIn he).1, hle⟩

theorem Below.of_mem [a.contexts.Lawful] (hs : a.Tabled s) {e : D} (he : (c, e) ∈ s.entriesAt n)
    (hle : a.problem.le d e = true) : a.Below s n d :=
  ⟨c, includes_iff.mpr ⟨(c, e), hs.lookup_of_mem he, hle⟩⟩

variable [Std.TransOrd N]

theorem bypassTo_client (n' : N) :
    (a.bypassTo n c d s n').client = (a.problem.remember n n' d s.client).1 := by
  rw [bypassTo, joinInto_client]
  exact (remember_quiet a n n' d s).client

theorem bypassAll_notes (hr : a.problem.Retains) {rs : List N} {n' : N} (hn' : n' ∈ rs) :
    (a.problem.remember n n' d (rs.foldl (a.bypassTo n c d) s).client).1 =
      (rs.foldl (a.bypassTo n c d) s).client := by
  refine foldl_gains (P := fun n' u => (a.problem.remember n n' d u.client).1 = u.client)
    (a.bypassTo n c d) rs ?_ ?_ s n' hn'
  · intro u x _
    rw [bypassTo_client]
    exact hr.again n x d u.client
  · intro u y x _ hy
    rw [bypassTo_client]
    exact hr.later n x d hy

variable [DecidableEq N] [Std.TransOrd M]

theorem Moves.noted (hr : a.problem.Retains) (h : a.Moves n c d s t) {m : N} {e : D}
    (hs : a.Noted m e s.client) : a.Noted m e t.client := by
  induction h with
  | refl => exact hs
  | tail _ hmove ih =>
      rcases hmove.client with hclient | ⟨_, n', _, hclient⟩
      · rwa [hclient]
      · rw [hclient]
        exact fun hcall m' hm' => hr.later n n' d (ih hcall m' hm')

theorem visit_notes (hr : a.problem.Retains) (hend : (a.visit n c d s).2 = true) :
    a.Noted n d (a.visit n c d s).1.client := by
  intro hcall n' hn'
  have hnode := hasNode_of_visit hend
  simp only [visit, hnode, hcall, Bool.not_true, Bool.false_eq_true, if_false, if_true] at hend ⊢
  rw [(visitCall_eq hend).2.2]
  exact bypassAll_notes hr hn'

theorem lasting_noted (hr : a.problem.Retains) :
    a.Lasting (fun n _ d s => a.Noted n d s.client) where
  congr {_ t n _ d} h _ _ hclient := by
    rwa [hclient]
  gain {s t n c d} hvisit := by
    have hnotes := visit_notes hr (a := a) (n := n) (c := c) (d := d) (s := s) (by rw [hvisit])
    rwa [hvisit] at hnotes
  stay h hmoves := Moves.noted hr hmoves h

variable [Std.LawfulEqOrd N] [Std.LawfulEqOrd M] [DecidableEq M] [a.contexts.Lawful]

theorem kept_remembered (hp : a.problem.Ordered) {x : S} :
    a.Kept x (fun s => Remembered a.graph a.problem (a.Below s) x s.client) where
  fresh _ _ hclient := by
    rw [hclient]
    exact .start
  congr h htable _ hclient := by
    rw [hclient]
    exact h.imp (fun _ _ => .congr htable)
  seed h _ := by
    rw [joinInto_client]
    exact h.imp (fun _ _ => .mono hp (grows_joinInto hp))
  move {s t n c d} h hmove := by
    have hgrows := hmove.grows hp
    have hkept := h.kept.imp (fun _ _ => Below.mono hp hgrows)
    rcases hmove.client with hclient | ⟨hcall, n', hn', hclient⟩
    · rwa [hclient]
    · rw [hclient]
      exact hkept.pass hcall hn' ⟨c, hgrows.includes hp (h.includes hp)⟩

theorem Moment.remembered (hp : a.problem.Ordered) {x : S} (h : a.Moment x s) :
    Remembered a.graph a.problem (a.Below s) x s.client :=
  (kept_remembered hp).moment hp h

theorem Solved.noted (hp : a.problem.Ordered) (hr : a.problem.Retains) (h : a.Solved s)
    (hs : s.finished = true) (hd : (c, d) ∈ s.entriesAt n) : a.Noted n d s.client :=
  (lasting_noted hr).solved hp h hs hd

theorem Solved.checkPostFixpoint_client (hp : a.problem.Ordered) (hr : a.problem.Retains)
    (h : a.Solved s) (hs : s.finished = true) : (a.checkPostFixpoint s).1.client = s.client :=
  review_client (fun _ he => h.noted hp hr hs (mem_entriesAt_of_tracked he))

end Analysis

end Interproc
