import Interproc.Proofs.Program.WellFormed

namespace Interproc.Source

open Text

structure Heads (rs : List Row) (p : Program) (ss : List Section) : Prop where
  empty : p.instructions = #[]
  settled : p.openBody = none
  undefined : ∀ f, p.body? f = none
  indexed : p.Indexed
  params_nodup : ∀ {f : Nat} {g}, p.functions[f]? = some g → (g.params.map Parameter.name).Nodup
  sections_nodup : (ss.map Section.function).Nodup
  defined : ∀ s ∈ ss, s.function < p.functions.size
  rows : ∀ s ∈ ss, ∀ r ∈ s.rows, r ∈ rs
  header : ∀ s ∈ ss, ∃ r ∈ rs, r.line = s.header

section Signatures

variable {p : Program} {name : String} {params : List Parameter} {signature : List Char}

theorem nodup_of_repeated? {names : List String} (h : repeated? names = none) : names.Nodup := by
  refine List.nodup_iff_count_le_one.mpr (fun x => Nat.le_of_not_lt (fun hcount => ?_))
  have hmem : x ∈ OrdSet.ofList (names.filter (fun x => decide (2 ≤ names.count x))) :=
    OrdSet.mem_ofList.mpr (List.mem_filter.mpr
      ⟨List.count_pos_iff.mp (Nat.lt_trans Nat.zero_lt_one hcount), decide_eq_true hcount⟩)
  exact List.ne_nil_of_mem hmem (List.head?_eq_none_iff.mp h)

theorem nodup_of_signature? (h : signature? signature = .ok (name, params)) :
    (params.map Parameter.name).Nodup := by
  obtain ⟨⟨name', list⟩, _, h⟩ := bind_eq_ok.mp h
  obtain ⟨params', _, h⟩ := bind_eq_ok.mp h
  split at h
  · exact nomatch h
  · rename_i hrepeated
    obtain ⟨-, rfl⟩ := Prod.mk.inj (Except.ok.inj h)
    exact nodup_of_repeated? hrepeated

end Signatures

namespace Heads

variable {rs : List Row} {p : Program} {ss : List Section} {s : Section} {r : Row}

theorem nil : Heads rs ∅ [] where
  empty := rfl
  settled := rfl
  undefined _ := rfl
  indexed := Program.indexed_empty
  params_nodup hg := nomatch hg
  sections_nodup := List.nodup_nil
  defined _ hs := nomatch hs
  rows _ hs := nomatch hs
  header _ hs := nomatch hs

theorem wellFormed (h : Heads rs p ss) : p.WellFormed := by
  have hnone : ∀ n : Nat, p.instructions[n]? = none := fun n => by simp [h.empty]
  have hsize : p.size = 0 := by simp [Program.size, h.empty]
  exact {
    mem_body := fun hn => absurd (hsize ▸ hn) (Nat.not_lt_zero _)
    functionOf_of_mem := fun hb => by simp [h.undefined] at hb
    first_mem := fun hb => by simp [h.undefined] at hb
    stop_le := fun hb => by simp [h.undefined] at hb
    succ_mem := fun hb => by simp [h.undefined] at hb
    settled := h.settled
    names_nodup := h.indexed.nodup
    functionNamed?_iff := Program.indexed_iff.mp h.indexed
    params_nodup := h.params_nodup
    output_unique := fun hi => by simp [hnone] at hi
    tiled := ⟨[], fun f b => by simp [h.undefined], List.nodup_nil, hsize ▸ Tiles.nil⟩
    start_iff := fun hb => by simp [h.undefined] at hb
    ends := fun hb => by simp [h.undefined] at hb
    fits := fun hi => by simp [hnone] at hi }

theorem addFunction (h : Heads rs p ss) {name module : String} {params : List Parameter}
    (hnew : p.functionNamed? name = none) (hparams : (params.map Parameter.name).Nodup) :
    Heads rs (p.withFunction ⟨name, module, params, none⟩) ss where
  empty := h.empty
  settled := h.settled
  undefined f := by
    have hbody := h.undefined f
    unfold Program.body? at hbody ⊢
    rw [Program.functions_withFunction, Array.getElem?_push]
    split
    · rfl
    · exact hbody
  indexed := h.indexed.withFunction hnew
  params_nodup hg := by
    rw [Program.functions_withFunction, Array.getElem?_push] at hg
    split at hg
    · rwa [← Option.some.inj hg]
    · exact h.params_nodup hg
  sections_nodup := h.sections_nodup
  defined s hs := by
    rw [Program.functions_withFunction, Array.size_push]
    exact Nat.lt_succ_of_lt (h.defined s hs)
  rows := h.rows
  header := h.header

theorem addSection (h : Heads rs p ss) {f : Nat} (hf : f < p.functions.size)
    (hnew : ∀ s ∈ ss, s.function < f) (hr : r ∈ rs) : Heads rs p (ss ++ [⟨f, r.line, []⟩]) := by
  have hcases : ∀ {P : Section → Prop}, (∀ s ∈ ss, P s) → P ⟨f, r.line, []⟩ →
      ∀ s ∈ ss ++ [⟨f, r.line, []⟩], P s := fun hold hlast s hs =>
    (List.mem_append.mp hs).elim (hold s) (fun hs => List.mem_singleton.mp hs ▸ hlast)
  refine { h with
    sections_nodup := ?_
    defined := hcases h.defined hf
    rows := hcases h.rows (List.forall_mem_nil _)
    header := hcases h.header ⟨r, hr, rfl⟩ }
  rw [List.map_append]
  refine List.nodup_append.mpr ⟨h.sections_nodup, List.nodup_singleton _, ?_⟩
  rintro m hm m' hm' rfl
  obtain ⟨s, hs, rfl⟩ := List.mem_map.mp hm
  exact absurd (hnew s hs) (List.mem_singleton.mp hm' ▸ Nat.lt_irrefl _)

theorem addRow (h : Heads rs p (ss ++ [s])) (hr : r ∈ rs) :
    Heads rs p (ss ++ [{ s with rows := s.rows ++ [r] }]) := by
  have hcases : ∀ {P : Section → Prop}, (∀ s' ∈ ss ++ [s], P s') →
      (P s → P { s with rows := s.rows ++ [r] }) →
      ∀ s' ∈ ss ++ [{ s with rows := s.rows ++ [r] }], P s' := fun hold hlast s' hs =>
    (List.mem_append.mp hs).elim (fun hs => hold s' (List.mem_append_left _ hs))
      (fun hs => List.mem_singleton.mp hs ▸
        hlast (hold s (List.mem_append_right _ (List.mem_singleton_self s))))
  refine { h with
    sections_nodup := by simpa using h.sections_nodup
    defined := hcases h.defined id
    rows := hcases h.rows (fun hs r' hr' => ?_)
    header := hcases h.header id }
  exact (List.mem_append.mp hr').elim (hs r') (fun heq => List.mem_singleton.mp heq ▸ hr)

end Heads

namespace Draft

variable {rs : List Row} {d : Draft} {r : Row} {s : Section}

def sections (d : Draft) : List Section := d.closed ++ d.current.toList

theorem answers_declare {signature : List Char} {ss : List Section} (h : Heads rs d.program ss)
    (hr : r ∈ rs) :
    Answers rs (fun (f, d') => Heads rs d'.program ss ∧ d'.closed = d.closed ∧
      d'.current = d.current ∧ f < d'.program.functions.size ∧ ∀ s ∈ ss, s.function < f)
      (d.declare r signature) := by
  unfold declare
  refine (Answers.at? hr).bind (fun a _ hsignature => ?_)
  obtain ⟨name, params⟩ := a
  dsimp only
  split
  · exact .refused hr
  · rename_i hnew
    have hnone : d.program.functionNamed? name = none := by simpa using hnew
    rw [Program.perform_addFunction hnone]
    -- the new function has the next number, above all that have sections
    exact ⟨h.addFunction hnone (nodup_of_signature? hsignature), rfl, rfl, by simp, h.defined⟩

theorem answers_outside (h : Heads rs d.program d.sections) (hr : r ∈ rs)
    (hnone : d.current = none) :
    Answers rs (fun d' : Draft => Heads rs d'.program d'.sections) (d.outside r) := by
  unfold outside
  dsimp only
  split
  · split
    · exact .refused hr
    · exact h
  · split
    · exact .refused hr
    · rw [Program.perform_addGlobal]
      exact { h with }
  · refine (answers_declare h hr).bind (fun (f, d') _ hd => ?_)
    obtain ⟨hheads, hclosed, hcurrent, _, _⟩ := hd
    have hsections : d'.sections = d.sections := by rw [sections, sections, hclosed, hcurrent]
    rw [← hsections] at hheads
    exact hheads
  · split
    · exact .refused hr
    · refine (answers_declare h hr).bind (fun (f, d') _ hd => ?_)
      obtain ⟨hheads, hclosed, _, hf, hnew⟩ := hd
      have hsections : d.sections = d'.closed := by simp [sections, hnone, hclosed]
      exact hsections ▸ hheads.addSection hf hnew hr
  · exact .refused hr

theorem answers_inside (h : Heads rs d.program (d.closed ++ [s])) (hr : r ∈ rs) :
    Answers rs (fun d' : Draft => Heads rs d'.program d'.sections) (d.inside s r) := by
  unfold inside
  split
  · rw [← List.append_nil (d.closed ++ [s])] at h
    exact h
  · split
    · exact .refused hr
    · exact h.addRow hr

theorem answers_read (h : Heads rs d.program d.sections) (hr : r ∈ rs) :
    Answers rs (fun d' : Draft => Heads rs d'.program d'.sections) (d.read r) := by
  unfold read
  split
  · rename_i s hs
    rw [sections, hs] at h
    exact answers_inside h hr
  · rename_i hnone
    exact answers_outside h hr hnone

theorem answers_readAll {rows : List Row} (module : String) (hrows : ∀ r ∈ rows, r ∈ rs) :
    Answers rs (fun d : Draft => Heads rs d.program d.sections)
      (rows.foldlM read ⟨∅, module, [], none⟩) :=
  Answers.foldlM (I := fun rest d => (∀ r ∈ rest, r ∈ rs) ∧ Heads rs d.program d.sections)
    (fun _ _ _ h => (answers_read h.2 (h.1 _ (List.mem_cons_self ..))).imp
      (fun _ _ hd => ⟨fun r hr => h.1 r (List.mem_cons_of_mem _ hr), hd⟩))
    ⟨hrows, Heads.nil⟩ |>.imp (fun _ _ h => h.2)

end Draft

end Interproc.Source
