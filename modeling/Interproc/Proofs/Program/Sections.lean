import Interproc.Program.Source.Lift
import Interproc.Proofs.Program.Statements

namespace Interproc

open Source

def Instruction.ends (i : Instruction) : Bool := decide (i.op = .ret ∨ i.op = .branch)

namespace Program

variable {p q : Program} {f g : Nat} {is js : List Instruction} {i : Instruction}

def opening (f : Nat) : Instruction := { op := .start, function := f }

def closing (f : Nat) : Instruction := { op := .ret, function := f }

def enclosed (f : Nat) (is : List Instruction) : List Instruction :=
  opening f :: is ++ if is.getLast?.any Instruction.ends then [] else [closing f]

def within (p : Program) (f : Nat) (is : List Instruction) : Program :=
  { p.setBody f ⟨p.size, p.size⟩ with
    instructions := p.instructions ++ (opening f :: is).toArray
    openBody := some f }

def addBody (p : Program) (f : Nat) (is : List Instruction) : Program :=
  { p.setBody f ⟨p.size, p.size + (enclosed f is).length⟩ with
    instructions := p.instructions ++ (enclosed f is).toArray
    openBody := none }

structure Awaits (p : Program) (f : Nat) : Prop where
  settled : p.openBody = none
  defined : f < p.functions.size
  undefined : p.body? f = none

section Bodies

theorem body?_setBody {b : Span} (hf : f < p.functions.size) :
    (p.setBody f b).body? g = if g = f then some b else p.body? g := by
  by_cases hg : g = f
  · subst hg
    simp only [body?, setBody, Array.getElem?_modify, Array.getElem?_eq_getElem hf, if_true,
      Option.map_some, Option.bind_some]
  · have hne : f ≠ g := fun h => hg h.symm
    simp [body?, setBody, Array.getElem?_modify, hne, hg]

theorem map_setBody {α : Type} {b : Span} {c : Function → α}
    (h : ∀ g b, c { g with body := some b } = c g) :
    (p.setBody f b).functions.map c = p.functions.map c := by
  refine Array.ext_getElem? (fun g => ?_)
  by_cases hg : f = g
  · cases hf : p.functions[g]? <;> simp [setBody, Array.getElem?_modify, hg, hf, h]
  · simp [setBody, Array.getElem?_modify, hg]

theorem sameHeads_setBody {b : Span} : SameHeads p (p.setBody f b) :=
  ⟨rfl, rfl, map_setBody (fun _ _ => rfl), map_setBody (fun _ _ => rfl)⟩

theorem sameHeads_within : SameHeads p (p.within f is) :=
  ⟨rfl, rfl, sameHeads_setBody.names, sameHeads_setBody.params⟩

theorem sameHeads_addBody : SameHeads p (p.addBody f is) :=
  ⟨rfl, rfl, sameHeads_setBody.names, sameHeads_setBody.params⟩

theorem size_within : (p.within f is).size = p.size + 1 + is.length := by
  simp [within, size, Nat.add_comm, Nat.add_left_comm]

theorem size_addBody : (p.addBody f is).size = p.size + (enclosed f is).length := by
  simp [addBody, size]

end Bodies

section Steps

variable {α : Type}

theorem perform_get {k : Program → Build α} : perform p (get >>= k) = perform p (k p) := rfl

theorem perform_set {k : PUnit → Build α} : perform p (set q >>= k) = perform q (k ⟨⟩) := rfl

theorem perform_addGlobal (name : String) : perform p (addGlobal name) =
    .ok (.global ((p.globals.insert name).position name),
      { p with globals := p.globals.insert name }) := rfl

theorem perform_addFunction {name module : String} {params : List Parameter}
    (h : p.functionNamed? name = none) : perform p (addFunction name module params) =
      .ok (p.functions.size, p.withFunction ⟨name, module, params, none⟩) := by
  simp only [addFunction, perform_get, h, Option.isSome_none, Bool.false_eq_true, if_false]
  rfl

theorem perform_push (hopen : p.openBody = some f) (hi : i.Proper) : perform p (push i) =
    .ok (p.size, { p with instructions := p.instructions.push { i with function := f } }) := by
  have hproper : Instruction.fault? { i with function := f } = none :=
    Instruction.fault?_eq_none_iff.mpr ⟨hi.shape, hi.callee, hi.targets⟩
  simp only [push, perform_get, hopen, hproper]
  rfl

theorem perform_discard {b : Build α} {a : α} (h : perform p b = .ok (a, q)) :
    perform p (discard b) = .ok ((), q) := by
  simp only [perform, Functor.discard, Functor.mapConst, ExceptT.run, StateT.run,
    Function.comp_apply, ExceptT.map, ExceptT.mk, bind, StateT.bind] at h ⊢
  cases hb : b p with
  | mk r p' =>
      rw [hb] at h
      cases r with
      | error e => exact nomatch h
      | ok a =>
          obtain ⟨-, rfl⟩ := Prod.mk.inj (Except.ok.inj h)
          rfl

theorem perform_beginBody (h : p.Awaits f) :
    perform p (beginBody f) = .ok ((), p.within f []) := by
  obtain ⟨g, hg⟩ : ∃ g, p.functions[f]? = some g := ⟨_, Array.getElem?_eq_getElem h.defined⟩
  have hbody : g.body = none := by simpa [body?, hg] using h.undefined
  have hpush := perform_push (p := { p.setBody f ⟨p.size, p.size⟩ with openBody := some f })
    (i := opening f) rfl ⟨rfl, fun _ => rfl, fun _ => rfl⟩
  have hbegun := perform_discard hpush
  simp only [beginBody, perform_get, h.settled, hg, hbody, Option.isSome_none, Bool.false_eq_true,
    if_false]
  rw [← Array.append_singleton] at hbegun
  exact hbegun

theorem fallsThrough_within {h : Option Nat} :
    Program.fallsThrough { p.within f is with openBody := h } =
      !is.getLast?.any Instruction.ends := by
  have hback : (p.within f is).instructions.back? = is.getLast?.or (some (opening f)) := by
    simp only [within, Array.back?_append, List.back?_toArray, List.getLast?_cons]
    cases is.getLast? <;> rfl
  simp only [fallsThrough, hback]
  cases is.getLast? with
  | none => rfl
  | some i => simp [Instruction.ends, Bool.not_or]

def StaysWithin (p : Program) (is : List Instruction) : Prop :=
  ∀ i ∈ is, ∀ n ∈ i.targets, p.size < n ∧ n ≤ p.size + is.length

theorem mem_enclosed (h : i ∈ enclosed f is) : i = opening f ∨ i ∈ is ∨ i = closing f := by
  unfold enclosed at h
  split at h
  · simpa using Or.imp_right Or.inl (List.mem_cons.mp (by simpa using h))
  · simpa using h

theorem getElem?_addBody {n : Nat} (hle : p.size ≤ n) :
    (p.addBody f is).instructions[n]? = (enclosed f is)[n - p.size]? := by
  simp only [addBody, Array.getElem?_append_right (show p.instructions.size ≤ n from hle),
    List.getElem?_toArray]
  rfl

theorem length_enclosed_le (f : Nat) (is : List Instruction) :
    is.length + 1 ≤ (enclosed f is).length := by
  simp [enclosed]

theorem strays_addBody (h : p.StaysWithin is) :
    (p.addBody f is).strays ⟨p.size, p.size + (enclosed f is).length⟩ = [] := by
  refine List.filter_eq_nil_iff.mpr (fun n hn => ?_)
  rw [getElem?_addBody (Span.mem_toList.mp hn).1]
  cases hi : (enclosed f is)[n - p.size]? with
  | none => simp
  | some i =>
      have htargets : ∀ t ∈ i.targets, t ∈ (⟨p.size, p.size + (enclosed f is).length⟩ : Span) := by
        intro t ht
        rcases mem_enclosed (List.mem_of_getElem? hi) with rfl | hmem | rfl
        · exact absurd ht List.not_mem_nil
        · have hbounds := h i hmem t ht
          have hlength := length_enclosed_le f is
          have hstop : t < p.size + (enclosed f is).length := by omega
          exact ⟨Nat.le_of_lt hbounds.1, hstop⟩
        · exact absurd ht List.not_mem_nil
      simpa using htargets

def sealed (p : Program) (f : Nat) : Program :=
  let p := { p with openBody := none }
  if p.fallsThrough then { p with instructions := p.instructions.push (closing f) } else p

theorem sealed_eq : (if Program.fallsThrough { p with openBody := none } then
      { p with
        openBody := none
        instructions := p.instructions.push ⟨.ret, none, [], none, [], f, none⟩ }
    else { p with openBody := none }) = p.sealed f := rfl

theorem perform_endBody_eq {b : Span} (hopen : p.openBody = some f)
    (hb : (p.sealed f).body? f = some b)
    (hstrays : ((p.sealed f).setBody f ⟨b.first, (p.sealed f).size⟩).strays
      ⟨b.first, (p.sealed f).size⟩ = []) :
    perform p endBody = .ok ((), (p.sealed f).setBody f ⟨b.first, (p.sealed f).size⟩) := by
  simp only [endBody, perform_get, hopen, sealed_eq, hb, perform_set, hstrays]
  rfl

theorem sealed_within : (p.within f is).sealed f =
    { p.setBody f ⟨p.size, p.size⟩ with
      instructions := p.instructions ++ (enclosed f is).toArray
      openBody := none } := by
  simp only [sealed, fallsThrough_within, enclosed]
  cases is.getLast?.any Instruction.ends <;> simp [within]

theorem perform_endBody (hf : f < p.functions.size) (h : p.StaysWithin is) :
    perform (p.within f is) endBody = .ok ((), p.addBody f is) := by
  have hbody : ((p.within f is).sealed f).body? f = some ⟨p.size, p.size⟩ := by
    rw [sealed_within]
    exact (body?_setBody hf).trans (if_pos rfl)
  have hsize : ((p.within f is).sealed f).size = p.size + (enclosed f is).length := by
    rw [sealed_within]
    simp [size]
  have hadded : ((p.within f is).sealed f).setBody f ⟨p.size, p.size + (enclosed f is).length⟩ =
      p.addBody f is := by
    rw [sealed_within]
    simp only [addBody, setBody]
    congr 1
    refine Array.ext_getElem? (fun g => ?_)
    by_cases hg : f = g
    · cases hf : p.functions[g]? <;> simp [Array.getElem?_modify, hg, hf]
    · simp [Array.getElem?_modify, hg]
  have hended := perform_endBody_eq (p := p.within f is) rfl hbody
    (by rw [hsize, hadded]; exact strays_addBody h)
  rwa [hsize, hadded] at hended

end Steps

end Program

namespace Source

open Text

section Answers

variable {α β : Type} {rs : List Row} {P : α → Prop} {Q : β → Prop} {x : Except LiftFailure α}

/-- The result is as `P` says, or the text is refused for one of its rows. -/
def Answers (rs : List Row) (P : α → Prop) : Except LiftFailure α → Prop
  | .ok a => P a
  | .error (.line n _) => ∃ r ∈ rs, r.line = n
  | .error (.step _) => False

namespace Answers

theorem of_ok (h : Answers rs P x) {a : α} (hx : x = .ok a) : P a := by
  subst hx
  exact h

theorem imp {P' : α → Prop} (h : Answers rs P x) (himp : ∀ a, x = .ok a → P a → P' a) :
    Answers rs P' x := by
  cases x with
  | ok a => exact himp a rfl h
  | error e => cases e <;> exact h

theorem bind {c : α → Except LiftFailure β} (h : Answers rs P x)
    (hc : ∀ a, x = .ok a → P a → Answers rs Q (c a)) : Answers rs Q (x >>= c) := by
  cases x with
  | ok a => exact hc a rfl h
  | error e => cases e <;> exact h

theorem refused {r : Row} {c : Cause} (hr : r ∈ rs) :
    Answers rs P (.error (.line r.line c)) :=
  ⟨r, hr, rfl⟩

theorem at? {r : Row} {x : Except Cause α} (hr : r ∈ rs) :
    Answers rs (fun a => x = .ok a) (at? r.line x) := by
  cases x with
  | ok a => rfl
  | error c => exact refused hr

theorem mapM {c : β → Except LiftFailure α} {xs : List β}
    (h : ∀ x ∈ xs, Answers rs (fun _ => True) (c x)) :
    Answers rs (fun ys => xs.mapM c = .ok ys) (xs.mapM c) := by
  have hall : Answers rs (fun _ => True) (xs.mapM c) := by
    induction xs with
    | nil => trivial
    | cons x xs ih =>
        rw [List.mapM_cons]
        refine (h x (List.mem_cons_self ..)).bind (fun y _ _ => ?_)
        exact (ih (fun x hx => h x (List.mem_cons_of_mem _ hx))).bind (fun _ _ _ => trivial)
  exact hall.imp (fun _ hx _ => hx)

theorem foldlM {c : α → β → Except LiftFailure α} {I : List β → α → Prop} {xs : List β} {a : α}
    (h : ∀ x xs a, I (x :: xs) a → Answers rs (I xs) (c a x)) (ha : I xs a) :
    Answers rs (I []) (xs.foldlM c a) := by
  induction xs generalizing a with
  | nil => exact ha
  | cons x xs ih =>
      rw [List.foldlM_cons]
      exact (h x xs a ha).bind (fun _ _ hb => ih hb)

end Answers

end Answers

section Names

variable {rs done rest : List Row} {r : Row} {params : List Parameter} {base : Nat}
  {key : Row → Option String} {m : OrdMap String Nat} {names : Names}

def Indexes (key : Row → Option String) (base : Nat) (rs : List Row) (m : OrdMap String Nat) :
    Prop :=
  ∀ x n, m.get? x = some n ↔ ∃ k, n = base + k ∧ rs[k]?.bind key = some x

theorem indexes_empty : Indexes key base [] ∅ := by simp [Indexes]

theorem getElem?_concat_iff {k : Nat} {x : String} :
    (done ++ [r])[k]?.bind key = some x ↔
      done[k]?.bind key = some x ∨ k = done.length ∧ key r = some x := by
  simp only [Option.bind_eq_some_iff, getElem?_concat_eq_some_iff, or_and_right, exists_or,
    and_assoc, exists_and_left, exists_eq_left']

theorem Indexes.skip (h : Indexes key base done m) (hr : key r = none) :
    Indexes key base (done ++ [r]) m := by
  intro x n
  simp only [h x n, getElem?_concat_iff, hr, reduceCtorEq, and_false, or_false]

theorem Indexes.insert {y : String} (h : Indexes key base done m) (hr : key r = some y)
    (hy : m.get? y = none) :
    Indexes key base (done ++ [r]) (m.insert y (base + done.length)) := by
  intro x n
  simp only [OrdMap.get?_insert, getElem?_concat_iff, hr, Option.some.injEq]
  by_cases hx : x = y
  · subst hx
    have hnot : ∀ k, ¬ done[k]?.bind key = some x := fun k hk => by
      have hsome := (h x (base + k)).mpr ⟨k, rfl, hk⟩
      rw [hy] at hsome
      exact nomatch hsome
    simp [hnot, eq_comm]
  · have hne : y ≠ x := fun heq => hx heq.symm
    simp [hx, h x n, hne]

def labelled? (r : Row) : Option String := (label? r.text).map String.ofList

structure Names.Covers (params : List Parameter) (base : Nat) (rs : List Row) (names : Names) :
    Prop where
  labels : Indexes labelled? base rs names.labels
  locals : Indexes (fun r => assigned? r.text) base rs names.locals
  fresh : ∀ {r x}, r ∈ rs → assigned? r.text = some x → ∀ q ∈ params, q.name ≠ x

theorem Names.Covers.add (h : names.Covers params base done) (hr : r ∈ rs) :
    Answers rs (Names.Covers params base (done ++ [r]))
      (names.add params r (base + done.length)) := by
  have hfresh : (∀ x, assigned? r.text = some x → ∀ q ∈ params, q.name ≠ x) →
      ∀ {r' x}, r' ∈ done ++ [r] → assigned? r'.text = some x → ∀ q ∈ params, q.name ≠ x := by
    intro hlast r' x hr' hx
    rcases List.mem_append.mp hr' with hr' | hr'
    · exact h.fresh hr' hx
    · rw [List.mem_singleton.mp hr'] at hx
      exact hlast x hx
  unfold Names.add
  split
  · rename_i l hl
    -- a label assigns nothing
    have hnone : assigned? r.text = none := by simp [assigned?, hl]
    dsimp only
    split
    · exact .refused hr
    · rename_i hnew
      refine ⟨h.labels.insert (by simp [labelled?, hl]) (by simpa [OrdMap.contains] using hnew),
        h.locals.skip hnone, hfresh (fun x hx => ?_)⟩
      rw [hnone] at hx
      exact nomatch hx
  · rename_i hl
    have hlabel : labelled? r = none := by simp [labelled?, hl]
    refine (Answers.at? hr).bind (fun a _ houtput => ?_)
    obtain ⟨output, text⟩ := a
    have hassigned : assigned? r.text = output := by simp [assigned?, hl, houtput]
    cases output with
    | none =>
        refine ⟨h.labels.skip hlabel, h.locals.skip hassigned, hfresh (fun x hx => ?_)⟩
        rw [hassigned] at hx
        exact nomatch hx
    | some x =>
        dsimp only
        split
        · exact .refused hr
        · rename_i hnew
          simp only [Bool.or_eq_true, not_or, OrdMap.contains, Bool.not_eq_true,
            Option.isSome_eq_false_iff, Option.isNone_iff_eq_none, List.any_eq_false,
            beq_iff_eq] at hnew
          refine ⟨h.labels.skip hlabel, h.locals.insert hassigned hnew.2,
            hfresh (fun y hy q hq => ?_)⟩
          rw [hassigned] at hy
          obtain rfl := Option.some.inj hy
          exact hnew.1 q hq

theorem Names.Covers.addAll (h : names.Covers params base done) (hrest : ∀ r ∈ rest, r ∈ rs) :
    Answers rs (Names.Covers params base (done ++ rest))
      ((rest.zipIdx done.length).foldlM (fun names (r, k) => names.add params r (base + k))
        names) := by
  induction rest generalizing done names with
  | nil => exact (List.append_nil done).symm ▸ h
  | cons r rest ih =>
      rw [List.zipIdx_cons, List.foldlM_cons]
      refine (h.add (hrest r (List.mem_cons_self ..))).bind (fun names' _ h' => ?_)
      have hall := ih h' (fun r hr => hrest r (List.mem_cons_of_mem _ hr))
      rwa [List.length_append, List.length_singleton, List.append_assoc] at hall

theorem covers_ofRows (hrows : ∀ r ∈ rest, r ∈ rs) :
    Answers rs (Names.Covers params base rest) (Names.ofRows params base rest) :=
  have hnone : Names.Covers params base [] ⟨∅, ∅⟩ :=
    ⟨indexes_empty, indexes_empty, fun hr => nomatch hr⟩
  hnone.addAll hrows

end Names

section Rows

variable {rs rows : List Row} {p q : Program} {f : Nat} {names : Names} {r : Row}
  {is : List Instruction} {i : Instruction}

def rowInstruction? (p : Program) (f : Nat) (names : Names) (r : Row) :
    Except LiftFailure Instruction := do
  let i ← at? r.line (Scope.statement? ⟨p, f, names.locals, names.labels⟩ r.text)
  return { i with line := some r.line, function := f }

theorem statement?_of_rowInstruction? (h : rowInstruction? p f names r = .ok i) :
    ∃ j, Scope.statement? ⟨p, f, names.locals, names.labels⟩ r.text = .ok j ∧
      i = { j with line := some r.line, function := f } := by
  obtain ⟨j, hj, h⟩ := bind_eq_ok.mp h
  refine ⟨j, ?_, (Except.ok.inj h).symm⟩
  unfold at? at hj
  split at hj
  · rename_i hstatement
    rwa [← Except.ok.inj hj]
  · exact nomatch hj

theorem liftRow_within : liftRow f names (p.within f is) r (p.size + 1 + is.length) =
    (rowInstruction? p f names r).map (fun i => p.within f (is ++ [i])) := by
  simp only [liftRow, rowInstruction?, Scope.statement?_congr Program.sameHeads_within]
  cases hi : Scope.statement? ⟨p, f, names.locals, names.labels⟩ r.text with
  | error c => rfl
  | ok i =>
      have hproper := (Scope.admits_of_statement? hi).1.proper
      have hpush := Program.perform_push (p := p.within f is) (i := { i with line := some r.line })
        rfl ⟨hproper.shape, hproper.callee, hproper.targets⟩
      have happend : { p.within f is with
          instructions := (p.within f is).instructions.push
            { i with line := some r.line, function := f } } =
          p.within f (is ++ [{ i with line := some r.line, function := f }]) := by
        simp [Program.within]
      rw [happend, Program.size_within] at hpush
      simp only [Source.at?, bind, Except.bind, hpush, pure, Except.pure, Except.map]
      simp

theorem foldlM_liftRow (p : Program) (f : Nat) (names : Names) (rows : List Row)
    (is : List Instruction) :
    (rows.zipIdx is.length).foldlM (fun p' (r, k) => liftRow f names p' r (p.size + 1 + k))
      (p.within f is) =
      (rows.mapM (rowInstruction? p f names)).map (fun js => p.within f (is ++ js)) := by
  induction rows generalizing is with
  | nil => simp [pure, Except.pure, Except.map]
  | cons r rows ih =>
      rw [List.zipIdx_cons, List.foldlM_cons, List.mapM_cons]
      dsimp only
      rw [liftRow_within]
      cases rowInstruction? p f names r with
      | error e => rfl
      | ok i =>
          -- one more instruction stands, so the next row is numbered one higher
          have hrest := ih (is ++ [i])
          rw [List.length_append, List.length_singleton] at hrest
          refine hrest.trans ?_
          cases rows.mapM (rowInstruction? p f names) with
          | error e => rfl
          | ok js => simp [bind, Except.bind, pure, Except.pure, Except.map]

theorem staysWithin_of_mapM {params : List Parameter}
    (hnames : names.Covers params (p.size + 1) rows)
    (his : rows.mapM (rowInstruction? p f names) = .ok is) : p.StaysWithin is := by
  obtain ⟨hlength, hget⟩ := mapM_ok his
  intro i hi n hn
  obtain ⟨k, hk⟩ := List.mem_iff_getElem?.mp hi
  obtain ⟨r, _, hr⟩ := hget hk
  obtain ⟨j, hj, rfl⟩ := statement?_of_rowInstruction? hr
  obtain ⟨l, hl⟩ := (Scope.admits_of_statement? hj).1.targets n hn
  obtain ⟨k', rfl, hk'⟩ := (hnames.labels l n).mp hl
  have hlt : k' < rows.length := by
    refine Nat.lt_of_not_le (fun hle => ?_)
    simp [List.getElem?_eq_none hle] at hk'
  omega

def Section.params (p : Program) (s : Section) : List Parameter :=
  (p.functions[s.function]?.map Function.params).getD []

theorem liftSection_eq {s : Section} (h : p.Awaits s.function) : liftSection p s = (do
    let names ← Names.ofRows (s.params p) (p.size + 1) s.rows
    let is ← s.rows.mapM (rowInstruction? p s.function names)
    return p.addBody s.function is) := by
  refine bind_congr_of_ok (fun names hnames => ?_)
  have hcovers := (covers_ofRows (fun _ hr => hr)).of_ok hnames
  have hrows := foldlM_liftRow p s.function names s.rows []
  rw [Program.perform_beginBody h]
  simp only [bind, Except.bind] at hrows ⊢
  rw [List.length_nil] at hrows
  rw [hrows]
  cases his : s.rows.mapM (rowInstruction? p s.function names) with
  | error e => rfl
  | ok is =>
      have hended := Program.perform_endBody h.defined (staysWithin_of_mapM hcovers his)
      simp only [Except.map, List.nil_append, hended]

theorem answers_liftSection {s : Section} (h : p.Awaits s.function)
    (hrows : ∀ r ∈ s.rows, r ∈ rs) :
    Answers rs (fun q => ∃ names is, names.Covers (s.params p) (p.size + 1) s.rows ∧
      s.rows.mapM (rowInstruction? p s.function names) = .ok is ∧ q = p.addBody s.function is)
      (liftSection p s) := by
  rw [liftSection_eq h]
  refine (covers_ofRows hrows).bind (fun names _ hcovers => ?_)
  have hread : ∀ r ∈ s.rows, Answers rs (fun _ => True) (rowInstruction? p s.function names r) :=
    fun r hr => (Answers.at? (hrows r hr)).bind (fun _ _ _ => trivial)
  exact (Answers.mapM hread).bind (fun is _ his => ⟨names, is, hcovers, his, rfl⟩)

end Rows

end Source

end Interproc
