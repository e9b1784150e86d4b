import Interproc.Proofs.Program.Rows

namespace Interproc

open Source Text

namespace Source

variable {rs rows : List Row} {header r : Row} {p q : Program} {f g k n : Nat} {b : Span}
  {names : Names} {is js : List Instruction} {i : Instruction} {d : Draft} {s : Section}
  {rest : List Section}

structure Carries (p : Program) (f : Nat) (b : Span) (rows : List Row) (names : Names)
    (is : List Instruction) : Prop where
  body : p.body? f = some b
  stop : b.stop = b.first + (Program.enclosed f is).length
  named : ∀ {g}, p.functions[f]? = some g →
    Names.ofRows g.params (b.first + 1) rows = .ok names
  read : rows.mapM (rowInstruction? p f names) = .ok is
  placed : ∀ {k i}, (Program.enclosed f is)[k]? = some i →
    p.instructions[b.first + k]? = some i

theorem rowInstruction?_congr (h : Program.SameHeads p q) :
    rowInstruction? q f names = rowInstruction? p f names := by
  funext r
  simp only [rowInstruction?, Scope.statement?_congr h]

theorem eq_of_liftSection (hf : p.Awaits s.function) (h : liftSection p s = .ok q) :
    ∃ names is, Names.ofRows (s.params p) (p.size + 1) s.rows = .ok names ∧
      s.rows.mapM (rowInstruction? p s.function names) = .ok is ∧ q = p.addBody s.function is := by
  rw [liftSection_eq hf] at h
  obtain ⟨names, hnames, h⟩ := bind_eq_ok.mp h
  obtain ⟨is, his, h⟩ := bind_eq_ok.mp h
  exact ⟨names, is, hnames, his, (Except.ok.inj h).symm⟩

theorem carries_addBody (hf : p.Awaits s.function)
    (hnames : Names.ofRows (s.params p) (p.size + 1) s.rows = .ok names)
    (his : s.rows.mapM (rowInstruction? p s.function names) = .ok is) :
    Carries (p.addBody s.function is) s.function
      ⟨p.size, p.size + (Program.enclosed s.function is).length⟩ s.rows names is where
  body := (Program.body?_setBody hf.defined).trans (if_pos rfl)
  stop := rfl
  named {g} hg := by
    obtain ⟨g', hg', _, hparams⟩ := Program.sameHeads_addBody.head hg
    rwa [Section.params, hg', Option.map_some, Option.getD_some, hparams] at hnames
  read := by rwa [rowInstruction?_congr Program.sameHeads_addBody]
  placed {k i} hi := by
    rw [Program.getElem?_addBody (Nat.le_add_right ..), Nat.add_sub_cancel_left, hi]

theorem Carries.addBody (h : Carries p f b rows names is) (hg : p.Awaits g) :
    Carries (p.addBody g js) f b rows names is where
  body := by
    have hne : f ≠ g := by
      rintro rfl
      exact nomatch hg.undefined.symm.trans h.body
    exact ((Program.body?_setBody hg.defined).trans (if_neg hne)).trans h.body
  stop := h.stop
  named {g'} hg' := by
    obtain ⟨g'', hg'', _, hparams⟩ := Program.sameHeads_addBody.head hg'
    exact hparams ▸ h.named hg''
  read := by
    rw [rowInstruction?_congr Program.sameHeads_addBody]
    exact h.read
  placed {k i} hi := by
    have hold := h.placed hi
    rwa [Program.getElem?_addBody_of_lt (Array.getElem?_eq_some_iff.mp hold).1]

section Sections

structure Lifting (rs : List Row) (d : Draft) (rest : List Section) (p : Program) : Prop where
  pending : Pending rs rest p
  left : ∀ s ∈ rest, s ∈ d.closed
  carried : ∀ s ∈ d.closed, s ∈ rest ∨
    ∃ b names is, Carries p s.function b s.rows names is
  bodies : ∀ {f b}, p.body? f = some b → ∃ s ∈ d.closed, s.function = f
  heads : d.program.SameHeads p

theorem Lifting.liftSection (h : Lifting rs d (s :: rest) p) (hq : liftSection p s = .ok q) :
    Lifting rs d rest q := by
  have hf := h.pending.awaits s (List.mem_cons_self ..)
  have hpending := h.pending.answers_liftSection.of_ok hq
  obtain ⟨names, is, hnames, his, rfl⟩ := eq_of_liftSection hf hq
  refine ⟨hpending, fun s' hs' => h.left s' (List.mem_cons_of_mem _ hs'), fun s' hs' => ?_,
    fun {f b} hb => ?_, ?_⟩
  · rcases h.carried s' hs' with hrest | ⟨b, names', is', hcarries⟩
    · rcases List.mem_cons.mp hrest with rfl | hrest
      · exact Or.inr ⟨_, names, is, carries_addBody hf hnames his⟩
      · exact Or.inl hrest
    · exact Or.inr ⟨b, names', is', hcarries.addBody hf⟩
  · have hbody := (Program.body?_setBody hf.defined).symm.trans hb
    split at hbody
    · rename_i heq
      exact ⟨s, h.left s (List.mem_cons_self ..), heq.symm⟩
    · exact h.bodies hbody
  · exact ⟨(Program.sameHeads_addBody (p := p)).globals.trans h.heads.globals,
      (Program.sameHeads_addBody (p := p)).index.trans h.heads.index,
      (Program.sameHeads_addBody (p := p)).names.trans h.heads.names,
      (Program.sameHeads_addBody (p := p)).params.trans h.heads.params⟩

theorem Lifting.foldlM (h : Lifting rs d rest p) (hq : rest.foldlM Source.liftSection p = .ok q) :
    Lifting rs d [] q := by
  induction rest generalizing p with
  | nil =>
      obtain rfl := Except.ok.inj hq
      exact h
  | cons s rest ih =>
      rw [List.foldlM_cons] at hq
      obtain ⟨p', hp', hq⟩ := bind_eq_ok.mp hq
      exact ih (h.liftSection hp') hq

theorem lifting_of_liftRows {module : String} (h : liftRows rs module = .ok p) :
    ∃ d, rs.foldlM Draft.read ⟨∅, module, [], none⟩ = .ok d ∧ d.current = none ∧
      Lifting rs d [] p := by
  obtain ⟨d, hd, h⟩ := bind_eq_ok.mp h
  refine ⟨d, hd, ?_⟩
  have hheads := (Draft.answers_readAll module (fun _ hr => hr)).of_ok hd
  split at h
  · exact nomatch h
  · rename_i hend
    rw [Draft.sections, hend, Option.toList_none, List.append_nil] at hheads
    have hstart : Lifting rs d d.closed d.program :=
      { pending := hheads.pending
        left := fun _ hs => hs
        carried := fun _ hs => Or.inl hs
        bodies := fun hb => by simp [hheads.undefined] at hb
        heads := ⟨rfl, rfl, rfl, rfl⟩ }
    exact ⟨hend, hstart.foldlM h⟩

end Sections

namespace Carries

theorem row (h : Carries p f b rows names is) (hr : rows[k]? = some r) :
    ∃ i, is[k]? = some i ∧ rowInstruction? p f names r = .ok i ∧
      p.instructions[b.first + 1 + k]? = some i := by
  obtain ⟨hlength, hget⟩ := mapM_ok h.read
  have hlt : k < is.length := hlength ▸ (List.getElem?_eq_some_iff.mp hr).1
  obtain ⟨i, hi⟩ : ∃ i, is[k]? = some i := ⟨_, List.getElem?_eq_getElem hlt⟩
  obtain ⟨r', hr', hread⟩ := hget hi
  obtain rfl := Option.some.inj (hr.symm.trans hr')
  refine ⟨i, hi, hread, ?_⟩
  rw [Nat.add_assoc, Nat.add_comm 1 k]
  exact h.placed (Program.getElem?_enclosed_succ hi)

theorem statement (h : Carries p f b rows names is) (hr : rows[k]? = some r) :
    ∃ i j, p.instructions[b.first + 1 + k]? = some i ∧ is[k]? = some i ∧
      Scope.statement? ⟨p, f, names.locals, names.labels⟩ r.text = .ok j ∧
      i = { j with line := some r.line, function := f } := by
  obtain ⟨i, hi, hread, hplaced⟩ := h.row hr
  obtain ⟨j, hj, heq⟩ := statement?_of_rowInstruction? hread
  exact ⟨i, j, hplaced, hi, hj, heq⟩

theorem covers (h : Carries p f b rows names is) {g : Function} (hg : p.functions[f]? = some g) :
    names.Covers g.params (b.first + 1) rows :=
  (covers_ofRows (fun _ hr => hr)).of_ok (h.named hg)

theorem keyword_ne (h : Carries p f b rows names is) (hr : r ∈ rows) :
    keyword r ≠ ['f', 'n'] := by
  intro hkey
  obtain ⟨k, hk⟩ := List.mem_iff_getElem?.mp hr
  obtain ⟨i, j, _, _, hj, _⟩ := h.statement hk
  have hmnemonic := mnemonic_of_keyword hj hkey (by decide) (by decide)
  cases hop : j.op <;> rw [hop] at hmnemonic <;> exact absurd hmnemonic (by decide)

theorem cases (h : Carries p f b rows names is) (hn : n ∈ b) :
    p.instructions[n]? = some (Program.opening f) ∧ n = b.first ∨
      (∃ k r, n = b.first + 1 + k ∧ rows[k]? = some r) ∨
      p.instructions[n]? = some (Program.closing f) ∧ n = b.first + 1 + rows.length ∧
        is.getLast?.any Instruction.ends = false := by
  have hlength := (mapM_ok h.read).1
  have hfirst : b.first ≤ n := hn.1
  have hlt : n - b.first < (Program.enclosed f is).length := by
    have hstop := h.stop
    have hlast : n < b.stop := hn.2
    omega
  obtain ⟨i, hi⟩ : ∃ i, (Program.enclosed f is)[n - b.first]? = some i :=
    ⟨_, List.getElem?_eq_getElem hlt⟩
  have hplaced := h.placed hi
  rw [Nat.add_sub_cancel' hfirst] at hplaced
  rcases Program.getElem?_enclosed hi with ⟨hzero, rfl⟩ | ⟨k, hk, hrow⟩ | ⟨hlast, rfl⟩
  · exact Or.inl ⟨hplaced, by omega⟩
  · have hk' : k < rows.length := hlength ▸ (List.getElem?_eq_some_iff.mp hrow).1
    exact Or.inr (Or.inl ⟨k, rows[k], by omega, List.getElem?_eq_getElem hk'⟩)
  · refine Or.inr (Or.inr ⟨hplaced, by omega, ?_⟩)
    cases hends : is.getLast?.any Instruction.ends with
    | false => rfl
    | true =>
        simp [Program.enclosed, hends] at hlt
        omega

theorem instruction (h : Carries p f b rows names is) (hn : n ∈ b)
    (hi : p.instructions[n]? = some i) : (i = Program.opening f ∨ i = Program.closing f) ∨
      ∃ k r j, n = b.first + 1 + k ∧ rows[k]? = some r ∧
        Scope.statement? ⟨p, f, names.locals, names.labels⟩ r.text = .ok j ∧
        i = { j with line := some r.line, function := f } := by
  rcases h.cases hn with ⟨hfirst, _⟩ | ⟨k, r, hk, hr⟩ | ⟨hlast, _⟩
  · exact Or.inl (Or.inl (Option.some.inj (hi.symm.trans hfirst)))
  · obtain ⟨i', j, hplaced, _, hj, heq⟩ := h.statement hr
    rw [← hk, hi] at hplaced
    exact Or.inr ⟨k, r, j, hk, hr, hj, (Option.some.inj hplaced).trans heq⟩
  · exact Or.inl (Or.inr (Option.some.inj (hi.symm.trans hlast)))

end Carries

end Source

namespace Program

variable {p : Program} {text module : String} {rows : List Row} {header : Row} {f : Nat} {b : Span}

theorem exists_carries_of_stands (h : lift text module = .ok p)
    (hstands : Stands (Text.rows text.toList) header rows) :
    ∃ f g b names is, p.functions[f]? = some g ∧ Declares header g.name g.params ∧
      Carries p f b rows names is := by
  obtain ⟨d, hd, hend, hlifting⟩ := lifting_of_liftRows h
  have hcarried : ∀ s ∈ d.closed, ∃ b names is, Carries p s.function b s.rows names is :=
    fun s hs => (hlifting.carried s hs).resolve_left List.not_mem_nil
  have hrows : ∀ s ∈ d.closed, ∀ r ∈ s.rows, keyword r ≠ ['f', 'n'] := fun s hs r hr => by
    obtain ⟨b, names, is, hcarries⟩ := hcarried s hs
    exact hcarries.keyword_ne hr
  obtain ⟨s, hs, rfl, g, hg, hdeclares⟩ := Draft.exists_closed_of_stands hd hend hrows hstands
  obtain ⟨b, names, is, hcarries⟩ := hcarried s hs
  obtain ⟨g', hg', hname, hparams⟩ := hlifting.heads.symm.head hg
  exact ⟨s.function, g', b, names, is, hg', hname ▸ hparams ▸ hdeclares, hcarries⟩

theorem exists_stands_of_body (h : lift text module = .ok p) (hb : p.body? f = some b) :
    ∃ header rows g names is, Stands (Text.rows text.toList) header rows ∧
      p.functions[f]? = some g ∧ Declares header g.name g.params ∧
      Carries p f b rows names is := by
  obtain ⟨d, hd, _, hlifting⟩ := lifting_of_liftRows h
  obtain ⟨s, hs, rfl⟩ := hlifting.bodies hb
  obtain ⟨b', names, is, hcarries⟩ := (hlifting.carried s hs).resolve_left List.not_mem_nil
  obtain rfl := Option.some.inj (hcarries.body.symm.trans hb)
  obtain ⟨header, hstands, g, hg, hdeclares⟩ := (Draft.placed_of_readAll hd).closed s hs
  obtain ⟨g', hg', hname, hparams⟩ := hlifting.heads.symm.head hg
  exact ⟨header, s.rows, g', names, is, hstands, hg', hname ▸ hparams ▸ hdeclares, hcarries⟩

end Program

end Interproc
