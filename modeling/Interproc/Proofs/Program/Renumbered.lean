import Interproc.Proofs.Program.Lifted

namespace Interproc

open Source Text

variable {ρ : Nat → Nat}

def Text.Row.renumber (ρ : Nat → Nat) (r : Row) : Row := { r with line := ρ r.line }

def Instruction.renumber (ρ : Nat → Nat) (i : Instruction) : Instruction :=
  { i with line := i.line.map ρ }

def Program.renumber (ρ : Nat → Nat) (p : Program) : Program :=
  { p with instructions := p.instructions.map (Instruction.renumber ρ) }

def LiftFailure.renumber (ρ : Nat → Nat) : LiftFailure → LiftFailure
  | .line n c => .line (ρ n) c
  | .step e => .step e

namespace Source

def Section.renumber (ρ : Nat → Nat) (s : Section) : Section :=
  ⟨s.function, ρ s.header, s.rows.map (Row.renumber ρ)⟩

def Draft.renumber (ρ : Nat → Nat) (d : Draft) : Draft where
  program := d.program.renumber ρ
  module := d.module
  closed := d.closed.map (Section.renumber ρ)
  current := d.current.map (Section.renumber ρ)

section Outcomes

variable {α β γ δ : Type} {c : α → β} {e : γ → δ}

/-- An outcome with new line numbers; `c` says what they do to a value. -/
def renumbered (ρ : Nat → Nat) (c : α → β) : Except LiftFailure α → Except LiftFailure β
  | .ok a => .ok (c a)
  | .error e => .error (e.renumber ρ)

theorem renumbered_bind {x : Except LiftFailure α} {k : α → Except LiftFailure γ}
    {k' : β → Except LiftFailure δ}
    (h : ∀ a, x = .ok a → k' (c a) = renumbered ρ e (k a)) :
    (renumbered ρ c x >>= k') = renumbered ρ e (x >>= k) := by
  cases x with
  | error e => rfl
  | ok a => exact h a rfl

theorem at?_renumber {n : Nat} {x : Except Cause α} : at? (ρ n) x = renumbered ρ id (at? n x) := by
  cases x <;> rfl

theorem foldlM_renumber {k : α → γ → Except LiftFailure α} {k' : β → δ → Except LiftFailure β}
    (h : ∀ a b, k' (c a) (e b) = renumbered ρ c (k a b)) (xs : List γ) (a : α) :
    (xs.map e).foldlM k' (c a) = renumbered ρ c (xs.foldlM k a) := by
  induction xs generalizing a with
  | nil => rfl
  | cons x xs ih =>
      rw [List.map_cons, List.foldlM_cons, List.foldlM_cons, h]
      exact renumbered_bind (fun a _ => ih a)

theorem mapM_renumber {k : α → Except LiftFailure γ} {k' : β → Except LiftFailure δ}
    (h : ∀ a, k' (c a) = renumbered ρ e (k a)) (xs : List α) :
    (xs.map c).mapM k' = renumbered ρ (List.map e) (xs.mapM k) := by
  induction xs with
  | nil => rfl
  | cons x xs ih =>
      rw [List.map_cons, List.mapM_cons, List.mapM_cons, h, ih]
      exact renumbered_bind (fun _ _ => renumbered_bind (fun _ _ => rfl))

end Outcomes

namespace Draft

variable {d : Draft} {r : Row} {s : Section}

theorem declare_renumber {signature : List Char} :
    (d.renumber ρ).declare (r.renumber ρ) signature =
      renumbered ρ (fun (f, d) => (f, d.renumber ρ)) (d.declare r signature) := by
  refine (congrArg (· >>= _) at?_renumber).trans (renumbered_bind (fun a _ => ?_))
  obtain ⟨name, params⟩ := a
  have hnamed : (d.renumber ρ).program.functionNamed? name = d.program.functionNamed? name := rfl
  dsimp only [id]
  rw [hnamed]
  split
  · rfl
  · rename_i hsome
    have hnew : d.program.functionNamed? name = none := by simpa using hsome
    rw [Program.perform_addFunction hnew, Program.perform_addFunction (hnamed.trans hnew)]
    rfl

theorem outside_renumber :
    (d.renumber ρ).outside (r.renumber ρ) = renumbered ρ (Draft.renumber ρ) (d.outside r) := by
  have htext : (r.renumber ρ).text = r.text := rfl
  unfold outside
  rw [htext]
  dsimp only
  split
  · split <;> rfl
  · split
    · rfl
    · rw [Program.perform_addGlobal, Program.perform_addGlobal]
      rfl
  · rw [declare_renumber]
    exact renumbered_bind (fun _ _ => rfl)
  · split
    · rfl
    · rw [declare_renumber]
      exact renumbered_bind (fun _ _ => rfl)
  · rfl

theorem inside_renumber : (d.renumber ρ).inside (s.renumber ρ) (r.renumber ρ) =
    renumbered ρ (Draft.renumber ρ) (d.inside s r) := by
  have htext : (r.renumber ρ).text = r.text := rfl
  unfold inside
  rw [htext]
  split
  · simp [renumbered, renumber]
  · split
    · rfl
    · simp [renumbered, renumber, Section.renumber]

theorem read_renumber :
    (d.renumber ρ).read (r.renumber ρ) = renumbered ρ (Draft.renumber ρ) (d.read r) := by
  cases hcurrent : d.current with
  | none =>
      have hcurrent' : (d.renumber ρ).current = none := by rw [renumber, hcurrent]; rfl
      simp only [read, hcurrent, hcurrent', outside_renumber]
  | some s =>
      have hcurrent' : (d.renumber ρ).current = some (s.renumber ρ) := by
        rw [renumber, hcurrent]
        rfl
      simp only [read, hcurrent, hcurrent', inside_renumber]

end Draft

section Bodies

variable {p : Program} {f n : Nat} {names : Names} {params : List Parameter} {r : Row}
  {is : List Instruction} {s : Section}

theorem names_add_renumber : names.add params (r.renumber ρ) n =
    renumbered ρ id (names.add params r n) := by
  have htext : (r.renumber ρ).text = r.text := rfl
  unfold Names.add
  rw [htext]
  split
  · dsimp only
    split <;> rfl
  · refine (congrArg (· >>= _) at?_renumber).trans (renumbered_bind (fun a _ => ?_))
    obtain ⟨output, text⟩ := a
    cases output with
    | none => rfl
    | some x =>
        dsimp only [id]
        split <;> rfl

theorem names_ofRows_renumber (params : List Parameter) (base : Nat) (rs : List Row) :
    Names.ofRows params base (rs.map (Row.renumber ρ)) =
      renumbered ρ id (Names.ofRows params base rs) := by
  let add (names : Names) (e : Row × Nat) := names.add params e.1 (base + e.2)
  have hadd : ∀ names e, add names (Prod.map (Row.renumber ρ) id e) =
      renumbered ρ id (add names e) := fun _ _ => names_add_renumber
  rw [Names.ofRows, List.zipIdx_map]
  exact foldlM_renumber (c := id) hadd rs.zipIdx ⟨∅, ∅⟩

theorem sameHeads_renumber : Program.SameHeads p (p.renumber ρ) := ⟨rfl, rfl, rfl, rfl⟩

theorem rowInstruction?_renumber : rowInstruction? (p.renumber ρ) f names (r.renumber ρ) =
    renumbered ρ (Instruction.renumber ρ) (rowInstruction? p f names r) := by
  rw [rowInstruction?, Scope.statement?_congr sameHeads_renumber]
  exact (congrArg (· >>= _) at?_renumber).trans (renumbered_bind (fun _ _ => rfl))

theorem enclosed_renumber : Program.enclosed f (is.map (Instruction.renumber ρ)) =
    (Program.enclosed f is).map (Instruction.renumber ρ) := by
  have hends : (is.map (Instruction.renumber ρ)).getLast?.any Instruction.ends =
      is.getLast?.any Instruction.ends := by
    rw [List.getLast?_map, Option.any_map]
    rfl
  rw [Program.enclosed, Program.enclosed, hends]
  split <;> simp [Program.opening, Program.closing, Instruction.renumber]

theorem addBody_renumber : (p.renumber ρ).addBody f (is.map (Instruction.renumber ρ)) =
    (p.addBody f is).renumber ρ := by
  have hsize : (p.renumber ρ).size = p.size := Array.size_map
  simp only [Program.addBody, hsize, enclosed_renumber, List.length_map]
  simp [Program.renumber, Program.setBody]

theorem liftSection_renumber (h : p.Awaits s.function) :
    liftSection (p.renumber ρ) (s.renumber ρ) =
      renumbered ρ (Program.renumber ρ) (liftSection p s) := by
  have hsize : (p.renumber ρ).size = p.size := Array.size_map
  have hawaits : (p.renumber ρ).Awaits (s.renumber ρ).function := ⟨h.settled, h.defined, h.undefined⟩
  rw [liftSection_eq h, liftSection_eq hawaits, hsize]
  refine (congrArg (· >>= _) (names_ofRows_renumber (s.params p) _ s.rows)).trans
    (renumbered_bind (fun names _ => ?_))
  refine (congrArg (· >>= _) (mapM_renumber (fun _ => rowInstruction?_renumber) s.rows)).trans
    (renumbered_bind (fun is _ => ?_))
  exact congrArg Except.ok addBody_renumber

theorem foldlM_liftSection_renumber {rs : List Row} {ss : List Section} (h : Pending rs ss p) :
    (ss.map (Section.renumber ρ)).foldlM liftSection (p.renumber ρ) =
      renumbered ρ (Program.renumber ρ) (ss.foldlM liftSection p) := by
  induction ss generalizing p with
  | nil => rfl
  | cons s ss ih =>
      rw [List.map_cons, List.foldlM_cons, List.foldlM_cons,
        liftSection_renumber (h.awaits s (List.mem_cons_self ..))]
      exact renumbered_bind (fun q hq => ih (h.answers_liftSection.of_ok hq))

end Bodies

theorem liftRows_renumber (rs : List Row) (module : String) :
    liftRows (rs.map (Row.renumber ρ)) module =
      renumbered ρ (Program.renumber ρ) (liftRows rs module) := by
  have hempty : Draft.renumber ρ ⟨∅, module, [], none⟩ = ⟨∅, module, [], none⟩ := by
    simp [Draft.renumber, Program.renumber, EmptyCollection.emptyCollection]
  have hread : (rs.map (Row.renumber ρ)).foldlM Draft.read ⟨∅, module, [], none⟩ =
      renumbered ρ (Draft.renumber ρ) (rs.foldlM Draft.read ⟨∅, module, [], none⟩) := by
    have hfold := foldlM_renumber (c := Draft.renumber ρ) (e := Row.renumber ρ)
      (fun _ _ => Draft.read_renumber) rs ⟨∅, module, [], none⟩
    rwa [hempty] at hfold
  refine (congrArg (· >>= _) hread).trans (renumbered_bind (fun d hd => ?_))
  have hheads := (Draft.answers_readAll module (fun _ hr => hr)).of_ok hd
  cases hcurrent : d.current with
  | some s =>
      have hcurrent' : (d.renumber ρ).current = some (s.renumber ρ) := by
        rw [Draft.renumber, hcurrent]
        rfl
      rw [hcurrent']
      rfl
  | none =>
      have hcurrent' : (d.renumber ρ).current = none := by rw [Draft.renumber, hcurrent]; rfl
      rw [Draft.sections, hcurrent, Option.toList_none, List.append_nil] at hheads
      rw [hcurrent']
      exact foldlM_liftSection_renumber hheads.pending

end Source

namespace Program

variable {text text' module : String}

def Relines (ρ : Nat → Nat) (text text' : String) : Prop :=
  (rows text'.toList).map Row.line = (rows text.toList).map (fun r => ρ r.line)

theorem nodup_lines (cs : List Char) : ((rows cs).map Row.line).Nodup := by
  refine (List.filter_sublist.map _).nodup ?_
  rw [List.map_map]
  change ((lines cs).zipIdx.map (Nat.succ ∘ Prod.snd)).Nodup
  rw [← List.map_map, List.zipIdx_map_snd]
  exact List.Nodup.map (fun _ _ => Nat.succ.inj) List.nodup_range'

theorem exists_map_eq {xs ys : List Nat} (hxs : xs.Nodup) (hlength : xs.length = ys.length) :
    ∃ ρ, xs.map ρ = ys := by
  refine ⟨fun n => ys.getD (xs.idxOf n) 0, List.ext_getElem (by simpa using hlength) ?_⟩
  intro k hk hk'
  rw [List.getElem_map, hxs.idxOf_getElem, List.getD_eq_getElem?_getD,
    List.getElem?_eq_getElem hk', Option.getD_some]

variable (h : (rows text.toList).map Row.text = (rows text'.toList).map Row.text)
include h

theorem exists_relines : ∃ ρ, Relines ρ text text' := by
  have hlength : ((rows text.toList).map Row.line).length =
      ((rows text'.toList).map Row.line).length := by
    simpa using congrArg List.length h
  obtain ⟨ρ, hρ⟩ := exists_map_eq (nodup_lines text.toList) hlength
  rw [List.map_map] at hρ
  exact ⟨ρ, hρ.symm⟩

theorem rows_eq_of_relines (hρ : Relines ρ text text') :
    rows text'.toList = (rows text.toList).map (Row.renumber ρ) := by
  refine List.ext_getElem? (fun k => ?_)
  have htext := congrArg (fun xs => xs[k]?) h
  have hline := congrArg (fun xs => xs[k]?) hρ
  simp only [List.getElem?_map] at htext hline ⊢
  cases hr : (rows text.toList)[k]? with
  | none =>
      rw [hr] at htext
      exact Option.map_eq_none_iff.mp htext.symm
  | some r =>
      rw [hr] at htext hline
      obtain ⟨r', hr', htext⟩ := Option.map_eq_some_iff.mp htext.symm
      rw [hr'] at hline ⊢
      obtain rfl : r' = r.renumber ρ := by
        cases r'
        exact congrArg₂ Row.mk (Option.some.inj hline) htext
      rfl

theorem lift_relines (module : String) (hρ : Relines ρ text text') :
    lift text' module = renumbered ρ (renumber ρ) (lift text module) := by
  rw [lift, rows_eq_of_relines h hρ, liftRows_renumber]
  rfl

theorem layout_of_rows (module : String) : (∃ ρ, Relines ρ text text') ∧
    ((∃ p, lift text module = .ok p ∧
        ∀ ρ, Relines ρ text text' → lift text' module = .ok (p.renumber ρ)) ∨
      ∃ (k : Nat) (r r' : Row) (c : Cause), (rows text.toList)[k]? = some r ∧
        (rows text'.toList)[k]? = some r' ∧ lift text module = .error (.line r.line c) ∧
        lift text' module = .error (.line r'.line c)) := by
  obtain ⟨ρ, hρ⟩ := exists_relines h
  refine ⟨⟨ρ, hρ⟩, ?_⟩
  have hlift : Answers (rows text.toList) WellFormed (lift text module) := answers_liftRows
  have hboth := fun ρ (hρ : Relines ρ text text') => lift_relines h module hρ
  cases hout : lift text module with
  | ok p =>
      rw [hout] at hboth
      exact Or.inl ⟨p, rfl, hboth⟩
  | error e =>
      rw [hout] at hlift hboth
      cases e with
      | line n c =>
          obtain ⟨r, hr, rfl⟩ := hlift
          obtain ⟨k, hk⟩ := List.mem_iff_getElem?.mp hr
          refine Or.inr ⟨k, r, r.renumber ρ, c, hk, ?_, rfl, hboth ρ hρ⟩
          rw [rows_eq_of_relines h hρ, List.getElem?_map, hk]
          rfl
      | step e => exact hlift.elim

def airyLines : List String := tourLines.flatMap (fun l => ["\t\r", "  " ++ l ++ " # so"])

omit h in
theorem tour_layout :
    (rows (String.intercalate "\n" tourLines).toList).map Row.text =
      (rows (String.intercalate "\n" airyLines).toList).map Row.text ∧
    lift (String.intercalate "\n" airyLines) "t.c" = .ok (tour.renumber (fun n => 2 * n)) := by
  have hrows : (rows (String.intercalate "\n" tourLines).toList).map Row.text =
      (rows (String.intercalate "\n" airyLines).toList).map Row.text := by
    rw [rows_lines, rows_lines]
    decide +kernel
  have hρ : Relines (fun n => 2 * n) (String.intercalate "\n" tourLines)
      (String.intercalate "\n" airyLines) := by
    rw [Relines, rows_lines, rows_lines]
    decide +kernel
  refine ⟨hrows, ?_⟩
  rcases (layout_of_rows hrows "t.c").2 with ⟨p, hp, hlift⟩ | ⟨_, _, _, _, _, _, herror, _⟩
  · obtain rfl := Except.ok.inj (tour_lift.symm.trans hp)
    exact hlift _ hρ
  · exact nomatch tour_lift.symm.trans herror

end Program

end Interproc
