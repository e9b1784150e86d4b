import Interproc.Proofs.Solver.Run

/-!
Runs seen through a map of contexts. A way of looking at states that shows their entries and calls with
mapped contexts commutes with every change a run makes, as long as the contexts on the other side are
entered, left and compared as those they stand for.
-/
namespace Interproc

open Solver

variable {N M D C C' S E : Type}

theorem foldl_hom_of_mem {α β γ : Type} {φ : α → β} {f : α → γ → α} {g : β → γ → β} {xs : List γ}
    (h : ∀ a, ∀ x ∈ xs, g (φ a) x = φ (f a x)) (a : α) : xs.foldl g (φ a) = φ (xs.foldl f a) := by
  induction xs generalizing a with
  | nil => rfl
  | cons x xs ih =>
      rw [List.foldl_cons, List.foldl_cons, h a x (List.mem_cons_self ..)]
      exact ih (fun b y hy => h b y (List.mem_cons_of_mem _ hy)) (f a x)

def Solver.CallRecord.mapContexts (f : C → C') (r : CallRecord N C) : CallRecord N C' :=
  ⟨r.site, r.entry, f r.caller, f r.callee⟩

@[simp] theorem Solver.CallRecord.mapContexts_id :
    (CallRecord.mapContexts id : CallRecord N C → CallRecord N C) = id := rfl

namespace Solver.Event

def mapContexts (f : C → C') : Event N D C E → Event N D C' E
  | .seeding n => .seeding n
  | .visited n c d => .visited n (f c) d
  | .grew n c d => .grew n (f c) d
  | .created n c => .created n (f c)
  | .widened n c c' => .widened n (f c) (f c')
  | .unsure n c => .unsure n (f c)
  | .absent x n n' => .absent x n n'
  | .uncalled n c => .uncalled n (f c)
  | .truncated n c c' => .truncated n (f c) (f c')
  | .exhausted i j => .exhausted i j
  | .drained t => .drained t
  | .client e => .client e

def closing : Event N D C E → Bool
  | .exhausted .. => true
  | .drained _ => true
  | _ => false

def isAbsence : Event N D C E → Bool
  | .absent .. => true
  | _ => false

@[simp] theorem mapContexts_id (e : Event N D C E) : e.mapContexts id = e := by
  cases e <;> rfl

end Solver.Event

structure ContextKind.Mirrors (k : ContextKind N D C) (k' : ContextKind N D C') (f : C → C') :
    Prop where
  leave : ∀ c, k'.leave (f c) = f (k.leave c)
  unsure : ∀ c, k'.unsure (f c) = k.unsure c
  same : ∀ c c₁, k'.same (f c) (f c₁) = k.same c c₁
  before : ∀ c c₁, k'.before (f c) (f c₁) = k.before c c₁

theorem ContextKind.Mirrors.refl (k : ContextKind N D C) : k.Mirrors k id :=
  ⟨fun _ => rfl, fun _ => rfl, fun _ _ => rfl, fun _ _ => rfl⟩

namespace Solver.State

variable [Ord N] [Ord M]

/-- A way `φ` of looking at states that shows contexts through `f`. Other than that it may change the
flags, the count of iterations and what is told of arguments and of the ends of calls. -/
structure Mirror [Std.TransOrd N] [Std.TransOrd M]
    (φ : State N M D C S E → State N M D C' S E) (f : C → C') : Prop where
  entriesAt : ∀ s n, (φ s).entriesAt n = (s.entriesAt n).map (Prod.map f id)
  callsInto : ∀ s m, (φ s).callsInto m = (s.callsInto m).map (CallRecord.mapContexts f)
  client : ∀ s, (φ s).client = s.client
  setEntries : ∀ s n es, { φ s with table := (φ s).table.insert n (es.map (Prod.map f id)) } =
    φ { s with table := s.table.insert n es }
  setCalls : ∀ s m rs,
    { φ s with calls := (φ s).calls.insert m (rs.map (CallRecord.mapContexts f)) } =
      φ { s with calls := s.calls.insert m rs }
  setClient : ∀ s x, { φ s with client := x } = φ { s with client := x }
  queue : ∀ s n c, (φ s).queue n (f c) = φ (s.queue n c)
  emit : ∀ s e, e.closing = false → e.isAbsence = false →
    (φ s).emit (e.mapContexts f) = φ (s.emit e)
  count : ∀ s g, (∀ t i, g { t with iterations := i } = { g t with iterations := i }) →
    (φ s).count g = φ (s.count g)

/-- It shows what waits as well, and all counts as they are. -/
structure Mirror.Running [Std.TransOrd N] [Std.TransOrd M]
    (φ : State N M D C S E → State N M D C' S E) (f : C → C') : Prop extends Mirror φ f where
  worklist : ∀ s, (φ s).worklist = s.worklist.map (Prod.map id f)
  setWorklist : ∀ s ws, { φ s with worklist := ws.map (Prod.map id f) } = φ { s with worklist := ws }
  countAll : ∀ s g, (φ s).count g = φ (s.count g)

structure Mirror.Whole [Std.TransOrd N] [Std.TransOrd M]
    (φ : State N M D C S E → State N M D C' S E) (f : C → C') : Prop extends Mirror.Running φ f where
  statistics : ∀ s, (φ s).statistics = s.statistics
  seeded : ∀ s, (φ s).seeded = s.seeded
  setSeeded : ∀ s, { φ s with seeded := true } = φ { s with seeded := true }
  setFinished : ∀ s, { φ s with finished := true } = φ { s with finished := true }
  close : ∀ s e, e.closing = true → (φ s).emit (e.mapContexts f) = φ (s.emit e)

theorem whole_id [Std.TransOrd N] [Std.TransOrd M] :
    Mirror.Whole (id : State N M D C S E → State N M D C S E) id where
  entriesAt _ _ := by simp
  callsInto _ _ := by simp
  client _ := rfl
  setEntries _ _ _ := by simp
  setCalls _ _ _ := by simp
  setClient _ _ := rfl
  queue _ _ _ := rfl
  emit _ _ _ _ := by simp
  count _ _ _ := rfl
  worklist _ := by simp
  setWorklist _ _ := by simp
  countAll _ _ := rfl
  statistics _ := rfl
  seeded _ := rfl
  setSeeded _ := rfl
  setFinished _ := rfl
  close _ _ _ := by simp

def since (es : List (Event N D C E)) (s : State N M D C S E) : State N M D C S E :=
  { s with trail := s.trail ++ es }

theorem whole_since [Std.TransOrd N] [Std.TransOrd M] (es : List (Event N D C E)) :
    Mirror.Whole (since es : State N M D C S E → State N M D C S E) id where
  entriesAt _ _ := by simp [since, State.entriesAt]
  callsInto _ _ := by simp [since, State.callsInto]
  client _ := rfl
  setEntries _ _ _ := by simp [since]
  setCalls _ _ _ := by simp [since]
  setClient _ _ := rfl
  queue _ _ _ := rfl
  emit _ _ _ _ := by simp [since, State.emit]
  count _ _ _ := rfl
  worklist _ := by simp [since]
  setWorklist _ _ := by simp [since]
  countAll _ _ := rfl
  statistics _ := rfl
  seeded _ := rfl
  setSeeded _ := rfl
  setFinished _ := rfl
  close _ _ _ := by simp [since, State.emit]

theorem trail_of_since {F : State N M D C S E → State N M D C S E}
    (h : ∀ es s, F (s.since es) = (F s).since es) (s : State N M D C S E) :
    s.trail <:+ (F s).trail := by
  have hs : F s = (F { s with trail := [] }).since s.trail := h s.trail { s with trail := [] }
  rw [hs]
  exact List.suffix_append ..

end Solver.State

namespace Analysis

def mirror (a : Analysis N M D C S E) (k' : ContextKind N D C') (f : C → C')
    (maxIterations : Option Nat) : Analysis N M D C' S E :=
  ⟨a.graph, a.problem, k', f a.initial, ⟨a.limits.maxContexts, maxIterations⟩⟩

variable {a : Analysis N M D C S E} {k' : ContextKind N D C'} {f : C → C'} {i : Option Nat}

theorem findIn_mirror (hk : a.contexts.Mirrors k' f) (es : List (C × D)) (c : C) :
    (a.mirror k' f i).findIn (es.map (Prod.map f id)) (f c) =
      (a.findIn es c).map (Prod.map f id) := by
  have hsame : (fun e : C' × D => k'.same e.1 (f c)) ∘ Prod.map f id =
      fun e : C × D => a.contexts.same e.1 c := funext (fun e => hk.same e.1 c)
  show (es.map (Prod.map f id)).find? (fun e => k'.same e.1 (f c)) = _
  rw [List.find?_map, hsame, findIn]

theorem replace_mirror (hk : a.contexts.Mirrors k' f) (c : C) (d : D) (es : List (C × D)) :
    (a.mirror k' f i).replace (f c) d (es.map (Prod.map f id)) =
      (a.replace c d es).map (Prod.map f id) := by
  induction es with
  | nil => rfl
  | cons e es ih =>
      have hsame : (a.mirror k' f i).contexts.same (Prod.map f id e).1 (f c) =
        a.contexts.same e.1 c := hk.same e.1 c
      simp only [List.map_cons, replace, hsame, ih]
      split <;> rfl

theorem known_mirror [DecidableEq N] (hk : a.contexts.Mirrors k' f) (r : CallRecord N C)
    (rs : List (CallRecord N C)) : (a.mirror k' f i).known (r.mapContexts f)
      (rs.map (CallRecord.mapContexts f)) = a.known r rs := by
  have hsame : ∀ c c₁, (a.mirror k' f i).contexts.same (f c) (f c₁) = a.contexts.same c c₁ := hk.same
  simp only [known, List.any_map]
  congr 1
  funext r'
  simp only [Function.comp, CallRecord.mapContexts, hsame]
  rfl

theorem filter_mirror (hk : a.contexts.Mirrors k' f) (c : C) (rs : List (CallRecord N C)) :
    (rs.map (CallRecord.mapContexts f)).filter
        (fun r => (a.mirror k' f i).contexts.same r.callee (f c)) =
      (rs.filter (fun r => a.contexts.same r.callee c)).map (CallRecord.mapContexts f) := by
  rw [List.filter_map]
  exact congrArg _ (congrArg (List.filter · rs) (funext (fun r => hk.same r.callee c)))

section Visit

variable [Ord N] [Std.TransOrd N] [Ord M] [Std.TransOrd M]
variable {φ : State N M D C S E → State N M D C' S E} {s : State N M D C S E} {n : N} {c : C} {d : D}

theorem lookup_mirror (hk : a.contexts.Mirrors k' f) (hφ : State.Mirror φ f)
    (s : State N M D C S E) (n : N) (c : C) :
    (a.mirror k' f i).lookup (φ s) n (f c) = (a.lookup s n c).map (Prod.map f id) := by
  rw [lookup, hφ.entriesAt, findIn_mirror hk, lookup]

theorem joinInto_mirror (hk : a.contexts.Mirrors k' f) (hφ : State.Mirror φ f) :
    (a.mirror k' f i).joinInto n (f c) d (φ s) = φ (a.joinInto n c d s) := by
  have hgrew : ∀ t c d, (φ t).emit (.grew n (f c) d) = φ (t.emit (.grew n c d)) :=
    fun t c d => hφ.emit t (.grew n c d) rfl rfl
  simp only [joinInto, lookup_mirror hk hφ, hφ.entriesAt]
  cases a.lookup s n c with
  | none =>
      have hadd : (s.entriesAt n).map (Prod.map f id) ++ [(f c, d)] =
          (s.entriesAt n ++ [(c, d)]).map (Prod.map f id) := by simp
      simp only [Option.map_none, hadd, hφ.setEntries, hgrew]
      rw [hφ.count _ _ (fun _ _ => rfl), hφ.queue]
  | some e =>
      obtain ⟨c₀, d₀⟩ := e
      have hproblem : (a.mirror k' f i).problem = a.problem := rfl
      simp only [Option.map_some, Prod.map_apply, id, hproblem, replace_mirror hk, hφ.setEntries,
        hgrew, hφ.queue]
      split <;> rfl

theorem create_mirror (hk : a.contexts.Mirrors k' f) (hφ : State.Mirror φ f) {entry : N} :
    (a.mirror k' f i).create n entry (f c) (φ s) = φ (a.create n entry c s) := by
  have hunsure : ∀ t, (φ t).emit (.unsure n (f c)) = φ (t.emit (.unsure n c)) :=
    fun t => hφ.emit t (.unsure n c) rfl rfl
  have hcreated : ∀ t, (φ t).emit (.created entry (f c)) = φ (t.emit (.created entry c)) :=
    fun t => hφ.emit t (.created entry c) rfl rfl
  have hsure : (a.mirror k' f i).contexts.unsure (f c) = a.contexts.unsure c := hk.unsure c
  simp only [create, hsure]
  rw [hφ.count _ _ (fun _ _ => rfl), hφ.count _ _ (fun _ _ => rfl), hunsure]
  split <;> exact hcreated _

theorem adopt_mirror (hk : a.contexts.Mirrors k' f) (hφ : State.Mirror φ f) {entry : N} :
    (a.mirror k' f i).adopt n entry (f c) (φ s) =
      (f (a.adopt n entry c s).1, φ (a.adopt n entry c s).2) := by
  have hwidened : ∀ t c₁, (φ t).emit (.widened entry (f c) (f c₁)) =
    φ (t.emit (.widened entry c c₁)) := fun t c₁ => hφ.emit t (.widened entry c c₁) rfl rfl
  have hmax : (a.mirror k' f i).limits.maxContexts = a.limits.maxContexts := rfl
  simp only [adopt, lookup_mirror hk hφ, hφ.entriesAt, create_mirror hk hφ, hmax]
  cases a.lookup s entry c with
  | some e => rfl
  | none =>
      cases a.limits.maxContexts with
      | none => rfl
      | some max =>
          cases s.entriesAt entry with
          | nil => rfl
          | cons e es =>
              simp only [Option.map_none, List.map_cons, List.length_cons, List.length_map]
              rw [hφ.count _ _ (fun _ _ => rfl)]
              split
              · exact congrArg (Prod.mk _) (hwidened ..)
              · rfl

theorem recordCall_mirror [DecidableEq N] (hk : a.contexts.Mirrors k' f) (hφ : State.Mirror φ f)
    (r : CallRecord N C) : (a.mirror k' f i).recordCall (r.mapContexts f) (φ s) =
      ((a.recordCall r s).1, φ (a.recordCall r s).2) := by
  have hfunction : (a.mirror k' f i).graph.functionOf (r.mapContexts f).entry =
    a.graph.functionOf r.entry := rfl
  have hadd : ∀ rs : List (CallRecord N C), rs.map (CallRecord.mapContexts f) ++ [r.mapContexts f] =
    (rs ++ [r]).map (CallRecord.mapContexts f) := by simp
  simp only [recordCall, hfunction, hφ.callsInto, known_mirror hk, hadd, hφ.setCalls]
  split <;> rfl

theorem requeueExits_mirror (hk : a.contexts.Mirrors k' f) (hφ : State.Mirror φ f) {m : M} :
    (a.mirror k' f i).requeueExits m (f c) (φ s) = φ (a.requeueExits m c s) := by
  refine List.foldl_hom φ (fun t x => ?_)
  rw [lookup_mirror hk hφ]
  cases a.lookup t x c with
  | none => rfl
  | some e => exact hφ.queue t x e.1

theorem remember_mirror (hφ : State.Mirror φ f) {n' : N} :
    (a.mirror k' f i).remember n n' d (φ s) = φ (a.remember n n' d s) := by
  have hclient : ∀ t e, (φ t).emit (.client e) = φ (t.emit (.client e)) :=
    fun t e => hφ.emit t (.client e) rfl rfl
  have hproblem : (a.mirror k' f i).problem.remember = a.problem.remember := rfl
  simp only [remember, hφ.client, hφ.setClient, State.emitAll, List.foldl_map, hproblem]
  exact List.foldl_hom φ hclient

structure EntersAlike (a : Analysis N M D C S E) (k' : ContextKind N D C') (f : C → C')
    (φ : State N M D C S E → State N M D C' S E) (site entry : N) (facts : D) : Prop where
  enter : ∀ c, k'.enter (f c) site entry facts = f (a.contexts.enter c site entry facts)
  absent : ∀ t, (φ t).emitAll ((k'.missing site entry facts).map (fun x => .absent x site entry)) =
    φ (t.emitAll ((a.contexts.missing site entry facts).map (fun x => .absent x site entry)))

def CallsAlike (a : Analysis N M D C S E) (k' : ContextKind N D C') (f : C → C')
    (φ : State N M D C S E → State N M D C' S E) (n : N) (d : D) : Prop :=
  ∀ m ∈ (a.graph.callees n).takeWhile a.graph.hasFunction, ∀ entry ∈ a.graph.starts m,
    a.EntersAlike k' f φ n entry (a.problem.call n m d)

def VisitsAlike (a : Analysis N M D C S E) (k' : ContextKind N D C') (f : C → C')
    (φ : State N M D C S E → State N M D C' S E) (n : N) (d : D) : Prop :=
  a.graph.hasNode n = true → a.graph.isCall n = true → a.CallsAlike k' f φ n d

theorem returnTo_mirror (hk : a.contexts.Mirrors k' f) (hφ : State.Mirror φ f)
    (r : CallRecord N C) : (a.mirror k' f i).returnTo n (f c) d (φ s) (r.mapContexts f) =
      φ (a.returnTo n c d s r) := by
  have hleave : (a.mirror k' f i).contexts.leave (f c) = f (a.contexts.leave c) := hk.leave c
  have hsame : (a.mirror k' f i).contexts.same (f (a.contexts.leave c)) (r.mapContexts f).caller =
    a.contexts.same (a.contexts.leave c) r.caller := hk.same _ r.caller
  have htruncated : ∀ t, (φ t).emit (.truncated r.site (f (a.contexts.leave c)) (f r.caller)) =
    φ (t.emit (.truncated r.site (a.contexts.leave c) r.caller)) :=
    fun t => hφ.emit t (.truncated r.site (a.contexts.leave c) r.caller) rfl rfl
  simp only [returnTo, hleave, hsame]
  rw [hφ.count _ _ (fun _ _ => rfl)]
  split
  · exact List.foldl_hom φ (fun _ _ => joinInto_mirror hk hφ)
  · rw [show (r.mapContexts f).site = r.site from rfl,
      show (r.mapContexts f).caller = f r.caller from rfl, htruncated]
    exact List.foldl_hom φ (fun _ _ => joinInto_mirror hk hφ)

theorem visitExit_mirror (hk : a.contexts.Mirrors k' f) (hφ : State.Mirror φ f) :
    (a.mirror k' f i).visitExit n (f c) d (φ s) = φ (a.visitExit n c d s) := by
  have huncalled : ∀ t, (φ t).emit (.uncalled n (f c)) = φ (t.emit (.uncalled n c)) :=
    fun t => hφ.emit t (.uncalled n c) rfl rfl
  have hfunction : (a.mirror k' f i).graph.functionOf n = a.graph.functionOf n := rfl
  simp only [visitExit, hfunction, hφ.callsInto, filter_mirror hk, List.isEmpty_map, List.foldl_map,
    huncalled]
  split <;> exact List.foldl_hom φ (fun _ r => returnTo_mirror hk hφ r)

theorem visitPlain_mirror (hk : a.contexts.Mirrors k' f) (hφ : State.Mirror φ f) :
    (a.mirror k' f i).visitPlain n (f c) d (φ s) = φ (a.visitPlain n c d s) :=
  List.foldl_hom φ (fun _ _ => joinInto_mirror hk hφ)

theorem bypassTo_mirror (hk : a.contexts.Mirrors k' f) (hφ : State.Mirror φ f) {n' : N} :
    (a.mirror k' f i).bypassTo n (f c) d (φ s) n' = φ (a.bypassTo n c d s n') := by
  rw [bypassTo, remember_mirror hφ, joinInto_mirror hk hφ]
  rfl

variable [DecidableEq N]

theorem enterAt_mirror (hk : a.contexts.Mirrors k' f) (hφ : State.Mirror φ f) {m : M} {entry : N}
    (henter : a.EntersAlike k' f φ n entry d) : (a.mirror k' f i).enterAt n (f c) m d (φ s) entry =
      φ (a.enterAt n c m d s entry) := by
  have hcontext : (a.mirror k' f i).contexts.enter (f c) n entry d =
    f (a.contexts.enter c n entry d) := henter.enter c
  have habsent := henter.absent s
  have hrecord : ∀ t c', (a.mirror k' f i).recordCall ⟨n, entry, f c, f c'⟩ (φ t) =
      ((a.recordCall ⟨n, entry, c, c'⟩ t).1, φ (a.recordCall ⟨n, entry, c, c'⟩ t).2) :=
    fun t c' => recordCall_mirror hk hφ ⟨n, entry, c, c'⟩
  have hagain : (a.mirror k' f i).problem.recompute m = a.problem.recompute m := rfl
  have hmissing : (a.mirror k' f i).contexts.missing = k'.missing := rfl
  simp only [enterAt, hcontext, hmissing, habsent, adopt_mirror hk hφ, hrecord, lookup_mirror hk hφ,
    Option.isSome_map, hagain, joinInto_mirror hk hφ, hφ.queue]
  split <;> split <;> simp only [requeueExits_mirror hk hφ]

theorem enterCallee_mirror (hk : a.contexts.Mirrors k' f) (hφ : State.Mirror φ f) {m : M}
    (henter : ∀ entry ∈ a.graph.starts m, a.EntersAlike k' f φ n entry (a.problem.call n m d)) :
    (a.mirror k' f i).enterCallee n (f c) d (φ s) m = φ (a.enterCallee n c d s m) :=
  foldl_hom_of_mem (fun _ entry hentry => enterAt_mirror hk hφ (henter entry hentry)) s

theorem enterCallees_mirror (hk : a.contexts.Mirrors k' f) (hφ : State.Mirror φ f)
    (henter : a.CallsAlike k' f φ n d) :
    (a.mirror k' f i).enterCallees n (f c) d (φ s) = φ (a.enterCallees n c d s) :=
  foldl_hom_of_mem (fun _ m hm => enterCallee_mirror hk hφ (henter m hm)) s

theorem visitCall_mirror (hk : a.contexts.Mirrors k' f) (hφ : State.Mirror φ f)
    (henter : a.CallsAlike k' f φ n d) :
    (a.mirror k' f i).visitCall n (f c) d (φ s) =
      (φ (a.visitCall n c d s).1, (a.visitCall n c d s).2) := by
  have hgraph : (a.mirror k' f i).graph = a.graph := rfl
  have hpassable : (a.mirror k' f i).passable n d = a.passable n d := rfl
  have hpasses : (a.mirror k' f i).passes n d = a.passes n d := rfl
  simp only [visitCall, enterCallees_mirror hk hφ henter, hgraph, hpassable, hpasses]
  split
  · rw [List.foldl_hom φ (fun _ _ => bypassTo_mirror hk hφ)]
  · rfl

theorem visit_mirror (hk : a.contexts.Mirrors k' f) (hφ : State.Mirror φ f)
    (henter : a.VisitsAlike k' f φ n d) : (a.mirror k' f i).visit n (f c) d (φ s) =
      (φ (a.visit n c d s).1, (a.visit n c d s).2) := by
  have hvisited : (φ s).emit (.visited n (f c) d) = φ (s.emit (.visited n c d)) :=
    hφ.emit s (.visited n c d) rfl rfl
  have hgraph : (a.mirror k' f i).graph = a.graph := rfl
  simp only [visit, hvisited, hgraph]
  by_cases hn : a.graph.hasNode n
  · simp only [hn, Bool.not_true, Bool.false_eq_true, if_false]
    by_cases hcall : a.graph.isCall n
    · simp only [hcall, if_true]
      exact visitCall_mirror hk hφ (henter hn hcall)
    · simp only [hcall, Bool.false_eq_true, if_false, visitExit_mirror hk hφ, visitPlain_mirror hk hφ]
      split <;> rfl
  · simp only [hn, Bool.not_false, if_true]

end Visit

theorem callsAlike_of_enter [Ord N] [Ord M] {φ : State N M D C S E → State N M D C' S E}
    (henter : ∀ c site entry facts,
      k'.enter (f c) site entry facts = f (a.contexts.enter c site entry facts))
    (hmissing : k'.missing = a.contexts.missing)
    (habsent : ∀ t x n n', (φ t).emit (.absent x n n') = φ (t.emit (.absent x n n')))
    (n : N) (d : D) : a.CallsAlike k' f φ n d := by
  refine fun m _ entry _ => ⟨fun c => henter c n entry _, fun t => ?_⟩
  simp only [hmissing, State.emitAll, List.foldl_map]
  exact List.foldl_hom φ (fun t x => habsent t x n entry)

section Told

variable [Ord N] [Ord M]

theorem callsAlike_since (es : List (Event N D C E)) (n : N) (d : D) :
    a.CallsAlike a.contexts id (State.since es : State N M D C S E → State N M D C S E) n d :=
  callsAlike_of_enter (fun _ _ _ _ => rfl) rfl (fun _ _ _ _ => rfl) n d

variable [Std.TransOrd N] [Std.TransOrd M] [DecidableEq N]

theorem visited_suffix (n : N) (c : C) (d : D) (s : State N M D C S E) :
    .visited n c d :: s.trail <:+ (a.visit n c d s).1.trail := by
  have hk : a.contexts.Mirrors a.contexts id := .refl a.contexts
  have hsince : ∀ es, State.Mirror (State.since es : State N M D C S E → State N M D C S E) id :=
    fun es => (State.whole_since es).toMirror
  have hcall := State.trail_of_since (F := fun t => (a.visitCall n c d t).1) (fun es t =>
    congrArg Prod.fst (visitCall_mirror (i := a.limits.maxIterations) hk (hsince es)
      (callsAlike_since es n d)))
  have hexit := State.trail_of_since (F := a.visitExit n c d) (fun es _ =>
    visitExit_mirror (i := a.limits.maxIterations) hk (hsince es))
  have hplain := State.trail_of_since (F := a.visitPlain n c d) (fun es _ =>
    visitPlain_mirror (i := a.limits.maxIterations) hk (hsince es))
  simp only [visit]
  split
  · exact List.suffix_refl _
  · split
    · exact hcall (s.emit (.visited n c d))
    · split
      · exact hexit (s.emit (.visited n c d))
      · exact hplain (s.emit (.visited n c d))

theorem trail_step (n : N) (c : C) (s : State N M D C S E) :
    s.trail <:+ (a.step n c s).1.trail := by
  let s' := s.count (fun t => { t with iterations := t.iterations + 1 })
  simp only [step]
  split
  · rename_i c' d _
    exact (List.suffix_cons ..).trans (visited_suffix (a := a) n c' d s')
  · exact List.suffix_refl _

theorem trail_run (k : Nat) (s : State N M D C S E) : s.trail <:+ (a.run k s).1.trail :=
  run_keeps (P := fun _ t => s.trail <:+ t.trail)
    (fun {t n c rest} h _ => h.trans (trail_step (a := a) n c { t with worklist := rest }))
    (List.suffix_refl _) k

end Told

section Run

variable [Ord N] [Std.TransOrd N] [Ord M] [Std.TransOrd M]
variable {φ : State N M D C S E → State N M D C' S E} {s : State N M D C S E} {n : N} {c : C} {d : D}

def TakesAlike (a : Analysis N M D C S E) (k' : ContextKind N D C') (f : C → C')
    (φ : State N M D C S E → State N M D C' S E) (s : State N M D C S E) : Prop :=
  ∀ n c d, .visited n c d ∈ s.trail → a.VisitsAlike k' f φ n d

omit [Std.TransOrd N] [Std.TransOrd M] in
theorem TakesAlike.before {t : State N M D C S E} (h : a.TakesAlike k' f φ t)
    (hst : s.trail <:+ t.trail) : a.TakesAlike k' f φ s :=
  fun n c d hevent => h n c d (hst.mem hevent)

theorem seed_mirror (hk : a.contexts.Mirrors k' f) (hφ : State.Mirror.Whole φ f) :
    (a.mirror k' f i).seed (φ s) = φ (a.seed s) := by
  have hseeding : ∀ t j, (φ t).emit (.seeding j) = φ (t.emit (.seeding j)) :=
    fun t j => hφ.emit t (.seeding j) rfl rfl
  have hproblem : (a.mirror k' f i).problem = a.problem := rfl
  simp only [seed, hφ.setSeeded, hseeding, hproblem]
  exact List.foldl_hom φ (fun _ _ => joinInto_mirror hk hφ.toMirror)

variable [DecidableEq N]

theorem step_mirror (hk : a.contexts.Mirrors k' f) (hφ : State.Mirror.Running φ f)
    (h : a.TakesAlike k' f φ (a.step n c s).1) :
    (a.mirror k' f i).step n (f c) (φ s) = (φ (a.step n c s).1, (a.step n c s).2) := by
  simp only [step, hφ.countAll, lookup_mirror hk hφ.toMirror] at h ⊢
  cases hlookup : a.lookup (s.count fun t => { t with iterations := t.iterations + 1 }) n c with
  | none => rfl
  | some e =>
      simp only [hlookup] at h
      exact visit_mirror hk hφ.toMirror
        (h n e.1 e.2 ((visited_suffix ..).mem (List.mem_cons_self ..)))

theorem run_mirror (hk : a.contexts.Mirrors k' f) (hφ : State.Mirror.Running φ f) (k : Nat)
    (h : a.TakesAlike k' f φ (a.run k s).1) :
    (a.mirror k' f i).run k (φ s) = (φ (a.run k s).1, (a.run k s).2) := by
  induction k generalizing s with
  | zero => simp only [run, hφ.worklist, List.isEmpty_map]
  | succ k ih =>
      cases hw : s.worklist with
      | nil => simp only [run, hφ.worklist, hw, List.map_nil]
      | cons w rest =>
          obtain ⟨n, c⟩ := w
          simp only [run, hφ.worklist, hw, List.map_cons, Prod.map_apply, id, hφ.setWorklist] at h ⊢
          cases hstep : a.step n c { s with worklist := rest } with
          | mk u ended =>
              cases ended with
              | true =>
                  simp only [hstep] at h
                  rw [step_mirror hk hφ (by rw [hstep]; exact h.before (trail_run ..)), hstep]
                  exact ih h
              | false =>
                  simp only [hstep] at h
                  rw [step_mirror hk hφ (by rw [hstep]; exact h), hstep]

theorem solve_mirror (hk : a.contexts.Mirrors k' f) (hφ : State.Mirror.Whole φ f) (fuel : Nat)
    (h : a.TakesAlike k' f φ (a.solve fuel s).1) :
    (a.mirror k' f a.limits.maxIterations).solve fuel (φ s) =
      (φ (a.solve fuel s).1, (a.solve fuel s).2) := by
  have hstart : (if (φ s).seeded then φ s else (a.mirror k' f a.limits.maxIterations).seed (φ s)) =
      φ (if s.seeded then s else a.seed s) := by
    rw [hφ.seeded, seed_mirror hk hφ]
    split <;> rfl
  have hmax : (a.mirror k' f a.limits.maxIterations).limits.maxIterations = a.limits.maxIterations :=
    rfl
  have hdrained : ∀ t j, (φ t).emit (.drained j) = φ (t.emit (.drained j)) :=
    fun t j => hφ.close t (.drained j) rfl
  have hexhausted : ∀ t j j', (φ t).emit (.exhausted j j') = φ (t.emit (.exhausted j j')) :=
    fun t j j' => hφ.close t (.exhausted j j') rfl
  simp only [solve, hstart] at h ⊢
  generalize (if s.seeded then s else a.seed s) = s₀ at h ⊢
  have houtgrows : (a.mirror k' f a.limits.maxIterations).outgrows (φ s₀) = a.outgrows s₀ := by
    simp only [outgrows, hmax, hφ.statistics]
  by_cases hgrow : a.outgrows s₀
  · simp only [houtgrows, hgrow, if_true]
  · simp only [houtgrows, hmax, hgrow, Bool.false_eq_true, if_false] at h ⊢
    -- as it stops a call only tells more, so `h` covers all edges that were taken
    have hrun : a.TakesAlike k' f φ (a.run (a.limits.maxIterations.getD fuel) s₀).1 := by
      generalize a.run (a.limits.maxIterations.getD fuel) s₀ = r at h
      obtain ⟨u, _ | _ | _⟩ := r
      · exact h.before (List.suffix_cons ..)
      · refine h.before ?_
        dsimp only
        split
        · exact List.suffix_cons ..
        · exact List.suffix_refl _
      · exact h
    rw [run_mirror hk hφ.toRunning _ hrun]
    generalize a.run (a.limits.maxIterations.getD fuel) s₀ = r
    obtain ⟨u, _ | _ | _⟩ := r
    · dsimp only
      rw [hφ.setFinished, hφ.statistics, hdrained]
    · simp only [hφ.statistics, hφ.worklist, List.length_map, hexhausted]
      split <;> rfl
    · rfl

theorem trail_solve (fuel : Nat) (s : State N M D C S E) : s.trail <:+ (a.solve fuel s).1.trail :=
  State.trail_of_since (F := fun s => (a.solve fuel s).1) (fun es _ => congrArg Prod.fst
    (solve_mirror (.refl a.contexts) (State.whole_since es) fuel
      (fun n _ d _ _ _ => callsAlike_since es n d))) s

end Run

section Results

theorem arrange_mirror (hk : a.contexts.Mirrors k' f) (e : C × D) (xs : List (C × D)) :
    (a.mirror k' f i).arrange (Prod.map f id e) (xs.map (Prod.map f id)) =
      (a.arrange e xs).map (Prod.map f id) := by
  induction xs with
  | nil => rfl
  | cons x xs ih =>
      have hbefore : (a.mirror k' f i).contexts.before (Prod.map f id e).1 (Prod.map f id x).1 =
        a.contexts.before e.1 x.1 := hk.before e.1 x.1
      simp only [List.map_cons, arrange, hbefore, ih]
      split <;> rfl

theorem ordered_mirror (hk : a.contexts.Mirrors k' f) (es : List (C × D)) :
    (a.mirror k' f i).ordered (es.map (Prod.map f id)) = (a.ordered es).map (Prod.map f id) := by
  simp only [ordered, List.foldl_map]
  exact foldl_hom_of_mem (f := fun xs e => a.arrange e xs)
    (g := fun xs e => (a.mirror k' f i).arrange (Prod.map f id e) xs)
    (fun xs e _ => arrange_mirror hk e xs) []

variable [Ord N] [Std.TransOrd N] [Ord M] [Std.TransOrd M]
variable {φ : State N M D C S E → State N M D C' S E}

theorem resultsAt_mirror (hk : a.contexts.Mirrors k' f) (hφ : State.Mirror φ f)
    (s : State N M D C S E) (n : N) : (a.mirror k' f i).resultsAt (φ s) n =
      (a.resultsAt s n).map (Prod.map f id) := by
  rw [resultsAt, hφ.entriesAt, ordered_mirror hk, resultsAt]

end Results

end Analysis

end Interproc
