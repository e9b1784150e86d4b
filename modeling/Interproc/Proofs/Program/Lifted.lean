import Interproc.Proofs.Program.Heads

namespace Interproc

open Source Text

namespace Source

section Suits

variable {p : Program} {f k : Nat} {names : Names} {rs : List Row} {r : Row} {i : Instruction}
  {is : List Instruction} {s : Section} {v : Value}

theorem parameter?_of_offers {locals labels : OrdMap String Nat} {g : Nat}
    (h : Scope.Offers ⟨p, f, locals, labels⟩ (.argument g k)) :
    g = f ∧ (p.parameter? f k).isSome = true := by
  obtain ⟨rfl, hk⟩ := h
  refine ⟨rfl, ?_⟩
  unfold Scope.params at hk
  split at hk
  · rename_i g hg
    simpa [Program.parameter?, hg] using hk
  · exact absurd hk (Nat.not_lt_zero _)

structure Reads (p : Program) (f : Nat) (names : Names) (r : Row) (i : Instruction) : Prop where
  function : i.function = f
  output : i.output = assigned? r.text
  admits : Scope.Admits ⟨p, f, names.locals, names.labels⟩ i

theorem reads_of_rowInstruction? (h : rowInstruction? p f names r = .ok i) :
    Reads p f names r i := by
  obtain ⟨j, hj, rfl⟩ := statement?_of_rowInstruction? h
  obtain ⟨hadmits, houtput⟩ := Scope.admits_of_statement? hj
  exact ⟨rfl, houtput, ⟨hadmits.proper.shape, hadmits.proper.callee, hadmits.proper.targets⟩,
    hadmits.op_ne_start, hadmits.inputs, hadmits.named, hadmits.callee, hadmits.targets_ne_nil,
    hadmits.targets⟩

theorem provides_of_offers {params : List Parameter} (hnames : names.Covers params (p.size + 1) rs)
    (his : rs.mapM (rowInstruction? p f names) = .ok is)
    (h : Scope.Offers ⟨p, f, names.locals, names.labels⟩ v) : (p.addBody f is).Provides f v := by
  cases v with
  | argument g k =>
      obtain ⟨rfl, hk⟩ := parameter?_of_offers h
      exact ⟨rfl, by rwa [Program.sameHeads_addBody.parameter?_eq]⟩
  | result n =>
      obtain ⟨x, hx⟩ := h
      obtain ⟨k, rfl, hk⟩ := (hnames.locals x n).mp hx
      obtain ⟨r, hr, hassigned⟩ := Option.bind_eq_some_iff.mp hk
      obtain ⟨hlength, hget⟩ := mapM_ok his
      obtain ⟨i, hi⟩ : ∃ i, is[k]? = some i :=
        ⟨_, List.getElem?_eq_getElem (hlength ▸ (List.getElem?_eq_some_iff.mp hr).1)⟩
      obtain ⟨r', hr', hrow⟩ := hget hi
      obtain rfl := Option.some.inj (hr.symm.trans hr')
      have hreads := reads_of_rowInstruction? hrow
      exact ⟨i, Program.getElem?_addBody_row hi, hreads.function,
        by rw [hreads.output, hassigned]; rfl⟩
  | global k => exact h
  | constant c => trivial

theorem Reads.fits (h : Reads p s.function names r i) (hp : p.WellFormed) (hr : r ∈ s.rows)
    (hi : i ∈ is)
    (hnames : names.Covers (s.params p) (p.size + 1) s.rows)
    (his : s.rows.mapM (rowInstruction? p s.function names) = .ok is)
    (hf : p.Awaits s.function) : (p.addBody s.function is).Fits i where
  proper := h.admits.proper
  branch := h.admits.targets_ne_nil
  target hb n hn := by
    have hbody : (p.addBody s.function is).body? s.function = some ⟨p.size, _⟩ :=
      (Program.body?_setBody hf.defined).trans (if_pos rfl)
    rw [h.function, hbody] at hb
    obtain rfl := Option.some.inj hb
    obtain ⟨hgt, hle⟩ := staysWithin_of_mapM hnames his i hi n hn
    have hrows := Program.length_enclosed_le s.function is
    have hlt : n < p.size + (Program.enclosed s.function is).length := by omega
    exact ⟨⟨Nat.le_of_lt hgt, hlt⟩, Nat.ne_of_gt hgt⟩
  operand v hv := by
    rw [h.function]
    exact provides_of_offers hnames his (h.admits.inputs v hv)
  callee hm := by
    obtain ⟨name, hname⟩ := h.admits.named hm
    obtain ⟨g, hg, _⟩ := hp.functionNamed?_iff.mp hname
    obtain ⟨g', hg', _, hparams⟩ := Program.sameHeads_addBody.symm.head hg
    exact ⟨g', hg', hparams ▸ h.admits.callee hm hg⟩
  output hg hx := by
    rw [h.function] at hg
    obtain ⟨g', hg', _, hparams⟩ := Program.sameHeads_addBody.head hg
    have hfresh := hnames.fresh hr (h.output.symm.trans hx)
    rwa [Section.params, hg', Option.map_some, Option.getD_some, hparams] at hfresh

theorem suits_of_mapM (hp : p.WellFormed) (hnames : names.Covers (s.params p) (p.size + 1) s.rows)
    (his : s.rows.mapM (rowInstruction? p s.function names) = .ok is) (hf : p.Awaits s.function) :
    p.Suits s.function is := by
  have hreads : ∀ {k i}, is[k]? = some i →
      ∃ r, s.rows[k]? = some r ∧ Reads p s.function names r i := fun hi =>
    ((mapM_ok his).2 hi).imp (fun _ hr => ⟨hr.1, reads_of_rowInstruction? hr.2⟩)
  have hmem : ∀ i ∈ is, ∃ r ∈ s.rows, Reads p s.function names r i := by
    intro i hi
    obtain ⟨k, hk⟩ := List.mem_iff_getElem?.mp hi
    obtain ⟨r, hr, hread⟩ := hreads hk
    exact ⟨r, List.mem_of_getElem? hr, hread⟩
  refine ⟨fun i hi => ?_, fun i hi => ?_, staysWithin_of_mapM hnames his, fun i hi => ?_,
    fun {j k i i' x} hi hi' hx hx' => ?_⟩
  · obtain ⟨r, _, hread⟩ := hmem i hi
    exact hread.function
  · obtain ⟨r, _, hread⟩ := hmem i hi
    exact hread.admits.op_ne_start
  · obtain ⟨r, hr, hread⟩ := hmem i hi
    exact hread.fits hp hr hi hnames his hf
  · obtain ⟨r, hr, hread⟩ := hreads hi
    obtain ⟨r', hr', hread'⟩ := hreads hi'
    have hj := (hnames.locals x _).mpr ⟨j, rfl, by rw [hr]; exact hread.output.symm.trans hx⟩
    have hk := (hnames.locals x _).mpr ⟨k, rfl, by rw [hr']; exact hread'.output.symm.trans hx'⟩
    exact Nat.add_left_cancel (Option.some.inj (hj.symm.trans hk))

end Suits

section Sections

variable {p q : Program} {rs : List Row} {s : Section} {before ss : List Section} {d : Draft}

structure Pending (rs : List Row) (ss : List Section) (p : Program) : Prop where
  wellFormed : p.WellFormed
  nodup : (ss.map Section.function).Nodup
  awaits : ∀ s ∈ ss, p.Awaits s.function
  rows : ∀ s ∈ ss, ∀ r ∈ s.rows, r ∈ rs

theorem Heads.pending (h : Heads rs p ss) : Pending rs ss p where
  wellFormed := h.wellFormed
  nodup := h.sections_nodup
  awaits s hs := ⟨h.settled, h.defined s hs, h.undefined s.function⟩
  rows := h.rows

theorem Pending.answers_liftSection (h : Pending rs (s :: ss) p) :
    Answers rs (Pending rs ss) (liftSection p s) := by
  have hf := h.awaits s (List.mem_cons_self ..)
  refine (Source.answers_liftSection hf (h.rows s (List.mem_cons_self ..))).imp (fun q _ hq => ?_)
  obtain ⟨names, is, hnames, his, rfl⟩ := hq
  obtain ⟨hnew, hnodup⟩ := List.nodup_cons.mp h.nodup
  refine ⟨h.wellFormed.addBody hf (suits_of_mapM h.wellFormed hnames his hf), hnodup, fun s' hs' => ?_,
    fun s' hs' => h.rows s' (List.mem_cons_of_mem _ hs')⟩
  have hf' := h.awaits s' (List.mem_cons_of_mem _ hs')
  have hne : s'.function ≠ s.function := fun heq => hnew (heq ▸ List.mem_map_of_mem hs')
  have hbody : (p.addBody s.function is).body? s'.function = p.body? s'.function :=
    (Program.body?_setBody hf.defined).trans (if_neg hne)
  exact ⟨rfl, by simpa [Program.addBody, Program.setBody] using hf'.defined,
    hbody.trans hf'.undefined⟩

theorem Pending.answers_foldlM (h : Pending rs (before ++ ss) p) :
    Answers rs (Pending rs ss) (before.foldlM liftSection p) :=
  Answers.foldlM (I := fun rest => Pending rs (rest ++ ss)) (fun _ _ _ h => h.answers_liftSection) h

theorem answers_liftRows {module : String} :
    Answers rs Program.WellFormed (liftRows rs module) := by
  refine (Draft.answers_readAll module (fun _ hr => hr)).bind (fun d _ h => ?_)
  unfold Draft.sections at h
  split
  · rename_i s hs
    obtain ⟨r, hr, hline⟩ := h.header s (by simp [hs])
    exact ⟨r, hr, hline⟩
  · rename_i hnone
    rw [hnone] at h
    exact h.pending.answers_foldlM.imp (fun _ _ hp => hp.wellFormed)

def Section.partly (s : Section) (p : Program) (names : Names) (k : Nat) :
    Except LiftFailure Program := do
  let (_, q) ← perform p (Program.beginBody s.function)
  (s.rows.take k).zipIdx.foldlM (fun q (r, k) => liftRow s.function names q r (p.size + 1 + k)) q

theorem sameHeads_of_partly {names : Names} {k : Nat} (hf : p.Awaits s.function)
    (h : s.partly p names k = .ok q) : p.SameHeads q := by
  unfold Section.partly at h
  rw [Program.perform_beginBody hf] at h
  have hrows := foldlM_liftRow p s.function names (s.rows.take k) []
  rw [List.length_nil] at hrows
  have hread := hrows.symm.trans h
  cases his : (s.rows.take k).mapM (rowInstruction? p s.function names) with
  | error e => simp [his, Except.map] at hread
  | ok is =>
      rw [his] at hread
      obtain rfl := Except.ok.inj hread
      exact Program.sameHeads_within

theorem line_of_mem_rows {cs : List Char} {r : Row} (h : r ∈ rows cs) :
    1 ≤ r.line ∧ r.line ≤ (lines cs).length := by
  obtain ⟨⟨l, k⟩, hk, rfl⟩ := List.mem_map.mp (List.mem_filter.mp h).1
  have hlt := (List.getElem?_eq_some_iff.mp (List.mem_zipIdx_iff_getElem?.mp hk)).1
  exact ⟨Nat.le_add_left 1 k, hlt⟩

end Sections

end Source

namespace Program

variable {p : Program} {text module : String}

theorem rows_lines {lines : List String} : Text.rows (String.intercalate "\n" lines).toList =
    Text.rows (['\n'].intercalate (lines.map String.toList)) := by
  rw [String.toList_intercalate]
  rfl

theorem lift_lines {lines : List String} :
    lift (String.intercalate "\n" lines) module =
      liftRows (Text.rows (['\n'].intercalate (lines.map String.toList))) module := by
  rw [lift, rows_lines]

theorem coherent_of_lift (h : lift text module = .ok p) : p.Coherent :=
  (answers_liftRows.of_ok h).toCoherent

theorem wellFormed_of_lift (h : lift text module = .ok p) : p.WellFormed :=
  answers_liftRows.of_ok h

def tourLines : List String :=
  ["global @config",
    "declare sink(%data)",
    "fn main(%argc, *%argv) \x7b",
    "  %x = alloca",
    "again:",
    "  %r = call helper(%later, %argv, @config)",
    "  store %r, %x",
    "  %f = gep %x, 4",
    "  br again, done",
    "done:",
    "  %later = load %f",
    "  ret %argc",
    "\x7d",
    "fn helper(%a, *%b) \x7b",
    "  %c = const 7",
    "  call sink(%c)",
    "\x7d"]

def tour : Program where
  instructions := #[
    ⟨.start, none, [], none, [], 1, none⟩,
    ⟨.alloca, some "x", [], none, [], 1, some 4⟩,
    ⟨.nop, none, [], none, [], 1, some 5⟩,
    ⟨.call, some "r", [.result 8, .argument 1 1, .global 0], some 2, [], 1, some 6⟩,
    ⟨.store, none, [.result 3, .result 1], none, [], 1, some 7⟩,
    ⟨.elementPtr, some "f", [.result 1, .constant 4], none, [], 1, some 8⟩,
    ⟨.branch, none, [], none, [2, 7], 1, some 9⟩,
    ⟨.nop, none, [], none, [], 1, some 10⟩,
    ⟨.load, some "later", [.result 5], none, [], 1, some 11⟩,
    ⟨.ret, none, [.argument 1 0], none, [], 1, some 12⟩,
    ⟨.start, none, [], none, [], 2, none⟩,
    ⟨.const, some "c", [.constant 7], none, [], 2, some 15⟩,
    ⟨.call, none, [.result 11], some 0, [], 2, some 16⟩,
    ⟨.ret, none, [], none, [], 2, none⟩]
  functions := #[
    ⟨"sink", "t.c", [⟨"data", false⟩], none⟩,
    ⟨"main", "t.c", [⟨"argc", false⟩, ⟨"argv", true⟩], some ⟨0, 10⟩⟩,
    ⟨"helper", "t.c", [⟨"a", false⟩, ⟨"b", true⟩], some ⟨10, 14⟩⟩]
  globals := (∅ : Interned String).insert "config"
  openBody := none

theorem tour_lift : lift (String.intercalate "\n" tourLines) "t.c" = .ok tour := by
  rw [lift_lines]
  decide +kernel

theorem tour_wellFormed :
    lift (String.intercalate "\n" tourLines) "t.c" = .ok tour ∧ tour.WellFormed :=
  ⟨tour_lift, wellFormed_of_lift tour_lift⟩

/-- Lifting gives a program or the number of a line, never a fault of the construction; and at every
point of it, the function whose body is read and the functions that are called are there. -/
theorem lift_ok_or_line (text module : String) :
    ((∃ p, lift text module = .ok p) ∨ ∃ n c, lift text module = .error (.line n c) ∧
      1 ≤ n ∧ n ≤ (Text.lines text.toList).length) ∧
    ∀ d, (Text.rows text.toList).foldlM Draft.read ⟨∅, module, [], none⟩ = .ok d →
      (∀ s ∈ d.current, s.function < d.program.functions.size) ∧
      ∀ before s p, before ++ [s] <+: d.closed → before.foldlM liftSection d.program = .ok p →
        s.function < p.functions.size ∧
        ∀ names k q, s.partly p names k = .ok q → s.function < q.functions.size ∧
          ∀ name f, q.functionNamed? name = some f → f < q.functions.size := by
  refine ⟨?_, fun d hd => ?_⟩
  · have hlift : Answers (Text.rows text.toList) WellFormed (lift text module) := answers_liftRows
    cases h : lift text module with
    | ok p => exact Or.inl ⟨p, rfl⟩
    | error e =>
        rw [h] at hlift
        cases e with
        | line n c =>
            obtain ⟨r, hr, rfl⟩ := hlift
            exact Or.inr ⟨r.line, c, rfl, line_of_mem_rows hr⟩
        | step e => exact hlift.elim
  · have hheads := (Draft.answers_readAll module (fun _ hr => hr)).of_ok hd
    refine ⟨fun s hs => hheads.defined s (by simp [Draft.sections, Option.mem_def.mp hs]), ?_⟩
    rintro before s p ⟨rest, hclosed⟩ hp
    have hsections : d.sections = before ++ (s :: (rest ++ d.current.toList)) := by
      simp [Draft.sections, ← hclosed]
    -- whatever was lifted before, the function of `s` still awaits its body
    have hpending := (hsections ▸ hheads).pending.answers_foldlM.of_ok hp
    have hf := hpending.awaits s (List.mem_cons_self ..)
    refine ⟨hf.defined, fun names k q hq => ?_⟩
    have hsame := sameHeads_of_partly hf hq
    refine ⟨hsame.size_functions ▸ hf.defined, fun name f hname => ?_⟩
    rw [hsame.functionNamed?_eq] at hname
    obtain ⟨g, hg, _⟩ := hpending.wellFormed.functionNamed?_iff.mp hname
    exact hsame.size_functions ▸ (Array.getElem?_eq_some_iff.mp hg).1

example : lift (String.intercalate "\n" ["fn main() \x7b", "  br", "\x7d"]) "t.c" =
    .error (.line 2 .noTarget) := by
  rw [lift_lines]
  decide +kernel

end Program

end Interproc
