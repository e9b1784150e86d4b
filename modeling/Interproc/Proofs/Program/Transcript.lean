import Interproc.Proofs.Program.Carried

namespace Interproc

open Source Text

theorem exists_line_of_mem_rows {cs : List Char} {r : Row} (h : r ∈ Text.rows cs) :
    ∃ n l, (lines cs)[n]? = some l ∧ r.line = n + 1 ∧ r.text = trim (beforeHash l) := by
  obtain ⟨⟨l, n⟩, hl, rfl⟩ := List.mem_map.mp (List.mem_filter.mp h).1
  exact ⟨n, l, List.mem_zipIdx_iff_getElem?.mp hl, rfl, rfl⟩

theorem Source.Stands.mem {rs rows : List Row} {header r : Row} (h : Stands rs header rows)
    (hr : r ∈ rows) : r ∈ rs := by
  obtain ⟨before, close, after, rfl, _⟩ := h.between
  simp [hr]

namespace Program

def lastEnds (rows : List Row) : Bool := rows.getLast?.any (fun r => ends r.text)

def IsLabel (p : Program) (b : Span) (rows : List Row) (name : String) (n : Nat) : Prop :=
  ∃ k r i, n = b.first + 1 + k ∧ rows[k]? = some r ∧ labelled? r = some name ∧
    p.instructions[n]? = some i ∧ i.op = .nop ∧ i.line = some r.line

structure Transcribes (p : Program) (text : String) (header : Row) (rows : List Row) (f : Nat)
    (b : Span) (names : Names) : Prop where
  function : ∃ g, p.functionNamed? g.name = some f ∧ p.functions[f]? = some g ∧
    Declares header g.name g.params ∧ g.body = some b ∧
    Names.ofRows g.params (b.first + 1) rows = .ok names
  size : b.toList.length = rows.length + if lastEnds rows then 1 else 2
  start : p.instructions[b.first]? = some { op := .start, function := f, line := none }
  line : ∀ r ∈ rows, ∃ n l, (lines text.toList)[n]? = some l ∧ r.line = n + 1 ∧
    r.text = trim (beforeHash l)
  row : ∀ k r, rows[k]? = some r → ∃ i, p.instructions[b.first + 1 + k]? =
    some { i with line := some r.line, function := f } ∧
      Scope.statement? ⟨p, f, names.locals, names.labels⟩ r.text = .ok i
  last : lastEnds rows = true → ∃ r i, rows.getLast? = some r ∧
    p.instructions[b.stop - 1]? = some i ∧ i.line = some r.line
  implicit : lastEnds rows = false →
    p.instructions[b.stop - 1]? = some { op := .ret, function := f, line := none }
  label : ∀ name n, names.labels.get? name = some n ↔ p.IsLabel b rows name n
  target : ∀ k r i, rows[k]? = some r → p.instructions[b.first + 1 + k]? = some i →
    i.op = .branch → List.Forall₂ (fun name n => p.IsLabel b rows (String.ofList name) n)
      (items (firstWord r.text).2) i.targets

end Program

namespace Source.Carries

open Program

variable {p : Program} {rows : List Row} {r : Row} {f k n : Nat} {b : Span} {names : Names}
  {is : List Instruction} {i : Instruction} {name : String}

theorem getLast_row (h : Carries p f b rows names is) (hr : rows.getLast? = some r) :
    ∃ i, is.getLast? = some i ∧ i.ends = ends r.text ∧
      p.instructions[b.first + rows.length]? = some i ∧ i.line = some r.line := by
  have hlength := (mapM_ok h.read).1
  have hpos : rows ≠ [] := fun hnil => by simp [hnil] at hr
  have hrow := List.getLast?_eq_getElem? ▸ hr
  obtain ⟨i, j, hplaced, hi, hj, rfl⟩ := h.statement hrow
  have hnumber : b.first + 1 + (rows.length - 1) = b.first + rows.length := by
    have hlt := List.length_pos_iff.mpr hpos
    omega
  have hends : j.ends = ends r.text := ends_eq hj
  refine ⟨{ j with line := some r.line, function := f }, ?_, hends, hnumber ▸ hplaced, rfl⟩
  rw [List.getLast?_eq_getElem?, hlength, hi]

theorem lastEnds_eq (h : Carries p f b rows names is) :
    is.getLast?.any Instruction.ends = lastEnds rows := by
  cases hr : rows.getLast? with
  | none =>
      have hlength := (mapM_ok h.read).1
      rw [List.getLast?_eq_none_iff.mp hr, List.length_nil, List.length_eq_zero_iff] at hlength
      rw [hlength, lastEnds, hr]
      rfl
  | some r =>
      obtain ⟨i, hi, hends, _⟩ := h.getLast_row hr
      rw [lastEnds, hi, hr, Option.any_some, Option.any_some, hends]

theorem stop_eq (h : Carries p f b rows names is) :
    b.stop = b.first + rows.length + if lastEnds rows then 1 else 2 := by
  rw [h.stop, enclosed, h.lastEnds_eq, ← (mapM_ok h.read).1]
  split <;> simp <;> omega

theorem isLabel_iff (h : Carries p f b rows names is) {g : Function}
    (hg : p.functions[f]? = some g) :
    names.labels.get? name = some n ↔ p.IsLabel b rows name n := by
  rw [(h.covers hg).labels name n]
  constructor
  · rintro ⟨k, rfl, hk⟩
    obtain ⟨r, hr, hname⟩ := Option.bind_eq_some_iff.mp hk
    obtain ⟨l, hl, _⟩ := Option.map_eq_some_iff.mp hname
    obtain ⟨i, j, hplaced, _, hj, rfl⟩ := h.statement hr
    refine ⟨k, r, _, rfl, hr, hname, hplaced, ?_, rfl⟩
    rw [Scope.statement?, hl] at hj
    rw [← Except.ok.inj hj]
  · rintro ⟨k, r, _, rfl, hr, hname, _⟩
    exact ⟨k, rfl, by rw [hr]; exact hname⟩

theorem target (h : Carries p f b rows names is) {g : Function} (hg : p.functions[f]? = some g)
    (hr : rows[k]? = some r) (hi : p.instructions[b.first + 1 + k]? = some i)
    (hop : i.op = .branch) :
    List.Forall₂ (fun name n => p.IsLabel b rows (String.ofList name) n)
      (items (firstWord r.text).2) i.targets := by
  obtain ⟨i', j, hplaced, _, hj, rfl⟩ := h.statement hr
  obtain rfl := Option.some.inj (hplaced.symm.trans hi)
  exact (targets_of_statement? hj hop).imp (fun name n hn => (h.isLabel_iff hg).mp hn)

theorem transcribes (h : Carries p f b rows names is) {g : Function} {text : String} {header : Row}
    (hp : p.WellFormed) (hg : p.functions[f]? = some g) (hdeclares : Declares header g.name g.params)
    (hstands : Stands (Text.rows text.toList) header rows) :
    p.Transcribes text header rows f b names where
  function := by
    have hbody : g.body = some b := by simpa [body?, hg] using h.body
    exact ⟨g, hp.functionNamed?_iff.mpr ⟨g, hg, rfl⟩, hg, hdeclares, hbody, h.named hg⟩
  size := by
    have hstop := h.stop_eq
    rw [Span.toList, List.length_range']
    omega
  start := h.placed (k := 0) rfl
  line r hr := exists_line_of_mem_rows (hstands.mem hr)
  row k r hr := by
    obtain ⟨i, j, hplaced, _, hj, rfl⟩ := h.statement hr
    exact ⟨j, hplaced, hj⟩
  last hends := by
    have hstop := h.stop_eq
    obtain ⟨r, hr, _⟩ := (Option.any_eq_true _ _).mp hends
    obtain ⟨i, _, _, hplaced, hline⟩ := h.getLast_row hr
    refine ⟨r, i, hr, ?_, hline⟩
    rwa [hstop, if_pos hends]
  implicit hends := by
    have hstop := h.stop_eq
    rw [hends, if_neg Bool.false_ne_true] at hstop
    have hmem : b.stop - 1 ∈ b := by
      show b.first ≤ b.stop - 1 ∧ b.stop - 1 < b.stop
      omega
    rcases h.cases hmem with ⟨_, hfirst⟩ | ⟨k, r, hk, hr⟩ | ⟨hplaced, _⟩
    · omega
    · have hlt := (List.getElem?_eq_some_iff.mp hr).1
      omega
    · exact hplaced
  label name n := h.isLabel_iff hg
  target k r i hr hi hop := h.target hg hr hi hop

end Source.Carries

namespace Program

variable {p : Program} {text module : String} {header : Row}

theorem transcribes_of_lift (h : lift text module = .ok p) (hheader : header ∈ Text.rows text.toList)
    (hkey : keyword header = ['f', 'n']) :
    ∃ rows f b names, Stands (Text.rows text.toList) header rows ∧
      p.Transcribes text header rows f b names := by
  obtain ⟨d, hread, hend, _⟩ := lifting_of_liftRows h
  obtain ⟨rows, hstands⟩ := Draft.exists_stands hread hend hheader hkey
  obtain ⟨f, g, b, names, is, hg, hdeclares, hcarries⟩ := exists_carries_of_stands h hstands
  exact ⟨rows, f, b, names, hstands,
    hcarries.transcribes (wellFormed_of_lift h) hg hdeclares hstands⟩

def tourHeader : Row := ⟨14, "fn helper(%a, *%b) \x7b".toList⟩

theorem tour_transcribes :
    lift (String.intercalate "\n" tourLines) "t.c" = .ok tour ∧
      tourHeader ∈ Text.rows (String.intercalate "\n" tourLines).toList ∧
      keyword tourHeader = ['f', 'n'] ∧
      ∃ rows f b names, Stands (Text.rows (String.intercalate "\n" tourLines).toList) tourHeader rows ∧
        tour.Transcribes (String.intercalate "\n" tourLines) tourHeader rows f b names := by
  have hheader : tourHeader ∈ Text.rows (String.intercalate "\n" tourLines).toList := by
    rw [String.toList_intercalate]
    decide +kernel
  have hkey : keyword tourHeader = ['f', 'n'] := by decide +kernel
  exact ⟨tour_lift, hheader, hkey, transcribes_of_lift tour_lift hheader hkey⟩

end Program

end Interproc
