import Interproc.Proofs.Program.Lifted
import Interproc.Proofs.Program.Lines

namespace Interproc.Source

open Text

variable {rs done rest rows : List Row} {header r : Row} {d d' : Draft} {s : Section} {name : String}
  {params : List Parameter} {signature : List Char} {f : Nat} {g : Function}

def Declares (r : Row) (name : String) (params : List Parameter) : Prop :=
  ∃ signature, firstWord r.text = (['f', 'n'], signature ++ ['\x7b']) ∧
    signature? signature = .ok (name, params)

structure Stands (rs : List Row) (header : Row) (rows : List Row) : Prop where
  between : ∃ before close after,
    rs = before ++ header :: (rows ++ close :: after) ∧ close.text = ['\x7d']
  keyword : keyword header = ['f', 'n']
  inner : ∀ r ∈ rows, r.text ≠ ['\x7d']

theorem Stands.append (h : Stands done header rows) (rest : List Row) :
    Stands (done ++ rest) header rows where
  between := by
    obtain ⟨before, close, after, rfl, hclose⟩ := h.between
    exact ⟨before, close, after ++ rest, by simp, hclose⟩
  keyword := h.keyword
  inner := h.inner

theorem at?_eq_ok {α : Type} {line : Nat} {x : Except Cause α} {a : α}
    (h : at? line x = .ok a) : x = .ok a := by
  unfold at? at h
  split at h
  · rw [Except.ok.inj h]
  · exact nomatch h

theorem foldlM_invariant {α β ε : Type} {c : α → β → Except ε α} {I : List β → α → Prop}
    {xs : List β} (done : List β) {a b : α}
    (hstep : ∀ {done x a a'}, I done a → c a x = .ok a' → I (done ++ [x]) a') (ha : I done a)
    (h : xs.foldlM c a = .ok b) : I (done ++ xs) b := by
  induction xs generalizing done a with
  | nil =>
      obtain rfl := Except.ok.inj h
      rwa [List.append_nil]
  | cons x xs ih =>
      rw [List.foldlM_cons] at h
      obtain ⟨a', ha', h⟩ := bind_eq_ok.mp h
      rw [List.append_cons]
      exact ih (done ++ [x]) (hstep ha ha') h

theorem foldlM_append {α β ε : Type} {c : α → β → Except ε α} {xs ys : List β} {a b : α} :
    (xs ++ ys).foldlM c a = .ok b ↔ ∃ m, xs.foldlM c a = .ok m ∧ ys.foldlM c m = .ok b := by
  rw [List.foldlM_append]
  exact bind_eq_ok

namespace Draft

inductive Takes (d : Draft) (r : Row) : Draft → Prop
  | module {rest : List Char} (hout : d.current = none) (hkey : keyword r = "module".toList) :
      d.Takes r { d with module := String.ofList rest }
  | global {name : List Char} (hout : d.current = none) (hkey : keyword r = "global".toList)
      (hname : isName name = true) : d.Takes r
        { d with program :=
          { d.program with globals := d.program.globals.insert (String.ofList name) } }
  | declare {name : String} {params : List Parameter} {signature : List Char}
      (hout : d.current = none) (hkey : keyword r = "declare".toList)
      (hsignature : signature? signature = .ok (name, params))
      (hnew : d.program.functionNamed? name = none) : d.Takes r
        { d with program := d.program.withFunction ⟨name, d.module, params, none⟩ }
  | header {name : String} {params : List Parameter} (hout : d.current = none)
      (hdeclares : Declares r name params) (hnew : d.program.functionNamed? name = none) :
      d.Takes r
        { d with
          program := d.program.withFunction ⟨name, d.module, params, none⟩
          current := some ⟨d.program.functions.size, r.line, []⟩ }
  | close {s : Section} (hin : d.current = some s) (htext : r.text = ['\x7d']) :
      d.Takes r { d with closed := d.closed ++ [s], current := none }
  | row {s : Section} (hin : d.current = some s) (htext : r.text ≠ ['\x7d']) :
      d.Takes r { d with current := some { s with rows := s.rows ++ [r] } }

theorem eq_of_declare (h : d.declare r signature = .ok (f, d')) :
    ∃ name params, signature? signature = .ok (name, params) ∧
      d.program.functionNamed? name = none ∧ f = d.program.functions.size ∧
      d' = { d with program := d.program.withFunction ⟨name, d.module, params, none⟩ } := by
  obtain ⟨⟨name, params⟩, hsignature, h⟩ := bind_eq_ok.mp h
  dsimp only at h
  split at h
  · exact nomatch h
  · rename_i hsome
    have hnew : d.program.functionNamed? name = none := by simpa using hsome
    rw [Program.perform_addFunction hnew] at h
    obtain ⟨rfl, rfl⟩ := Prod.mk.inj (Except.ok.inj h)
    exact ⟨name, params, at?_eq_ok hsignature, hnew, rfl, rfl⟩

theorem takes_of_outside (hout : d.current = none) (h : d.outside r = .ok d') : d.Takes r d' := by
  have hkey : ∀ {s : String}, String.ofList (firstWord r.text).1 = s → keyword r = s.toList :=
    fun heq => by rw [← heq, String.toList_ofList, keyword]
  unfold outside at h
  dsimp only at h
  split at h
  · rename_i heq
    split at h
    · exact nomatch h
    · obtain rfl := Except.ok.inj h
      exact .module hout (hkey heq)
  · rename_i heq
    split at h
    · exact nomatch h
    · rename_i name hname
      rw [Program.perform_addGlobal] at h
      obtain rfl := Except.ok.inj h
      exact .global hout (hkey heq) (Option.filter_eq_some_iff.mp hname).2
  · rename_i heq
    obtain ⟨⟨f, d₁⟩, hd, h⟩ := bind_eq_ok.mp h
    obtain rfl := Except.ok.inj h
    obtain ⟨name, params, hsignature, hnew, _, rfl⟩ := eq_of_declare hd
    exact .declare hout (hkey heq) hsignature hnew
  · rename_i heq
    split at h
    · exact nomatch h
    · rename_i signature hbrace
      obtain ⟨⟨f, d₁⟩, hd, h⟩ := bind_eq_ok.mp h
      obtain rfl := Except.ok.inj h
      obtain ⟨name, params, hsignature, hnew, rfl, rfl⟩ := eq_of_declare hd
      refine .header hout ⟨signature, Prod.ext (hkey heq) ?_, hsignature⟩ hnew
      exact dropLast?_eq_some_iff.mp hbrace
  · exact nomatch h

theorem takes_of_read (h : d.read r = .ok d') : d.Takes r d' := by
  unfold read at h
  split at h
  · rename_i s hin
    unfold inside at h
    split at h
    · rename_i htext
      obtain rfl := Except.ok.inj h
      exact .close hin htext
    · rename_i htext
      split at h
      · exact nomatch h
      · obtain rfl := Except.ok.inj h
        exact .row hin htext
  · rename_i hout
    exact takes_of_outside hout h

theorem Takes.functions (h : d.Takes r d') (hg : d.program.functions[f]? = some g) :
    d'.program.functions[f]? = some g := by
  have hpush : ∀ g', (d.program.functions.push g')[f]? = some g := fun g' => by
    have hlt := (Array.getElem?_eq_some_iff.mp hg).1
    rw [Array.getElem?_push, if_neg (Nat.ne_of_lt hlt), hg]
  cases h with
  | declare => exact hpush _
  | header => exact hpush _
  | _ => exact hg

section Placed

def Headed (p : Program) (s : Section) (header : Row) : Prop :=
  ∃ g, p.functions[s.function]? = some g ∧ Declares header g.name g.params

structure Placed (done : List Row) (d : Draft) : Prop where
  closed : ∀ s ∈ d.closed, ∃ header, Stands done header s.rows ∧ Headed d.program s header
  current : ∀ s ∈ d.current, ∃ before header, done = before ++ header :: s.rows ∧
    (∀ r ∈ s.rows, r.text ≠ ['\x7d']) ∧ Headed d.program s header

theorem Headed.takes (h : Headed d.program s header) (ht : d.Takes r d') :
    Headed d'.program s header := by
  obtain ⟨g, hg, hdeclares⟩ := h
  exact ⟨g, ht.functions hg, hdeclares⟩

theorem keyword_of_declares (h : Declares r name params) : keyword r = ['f', 'n'] := by
  obtain ⟨signature, hword, _⟩ := h
  rw [keyword, hword]

theorem Placed.read (h : Placed done d) (hread : d.read r = .ok d') : Placed (done ++ [r]) d' := by
  have ht := takes_of_read hread
  have hkept : ∀ s ∈ d.closed, ∃ header, Stands (done ++ [r]) header s.rows ∧
      Headed d'.program s header := fun s hs => by
    obtain ⟨header, hstands, hheaded⟩ := h.closed s hs
    exact ⟨header, hstands.append _, hheaded.takes ht⟩
  cases ht with
  | module hout => exact ⟨hkept, by simp [hout]⟩
  | global hout => exact ⟨hkept, by simp [hout]⟩
  | declare hout => exact ⟨hkept, by simp [hout]⟩
  | header hout hdeclares =>
      refine ⟨hkept, fun s hs => ?_⟩
      obtain rfl := Option.some.inj hs
      exact ⟨done, r, rfl, List.forall_mem_nil _, _, Array.getElem?_push_size, hdeclares⟩
  | close hin htext =>
      refine ⟨fun s hs => ?_, nofun⟩
      rcases List.mem_append.mp hs with hs | hs
      · exact hkept s hs
      · obtain rfl := List.mem_singleton.mp hs
        obtain ⟨before, header, rfl, hinner, g, hg, hdeclares⟩ := h.current _ hin
        refine ⟨header, ⟨⟨before, r, [], by simp, htext⟩, keyword_of_declares hdeclares, hinner⟩, ?_⟩
        exact ⟨g, hg, hdeclares⟩
  | row hin htext =>
      refine ⟨hkept, fun s hs => ?_⟩
      obtain rfl := Option.some.inj hs
      obtain ⟨before, header, rfl, hinner, hheaded⟩ := h.current _ hin
      refine ⟨before, header, by simp, fun r' hr' => ?_, hheaded⟩
      rcases List.mem_append.mp hr' with hr' | hr'
      · exact hinner r' hr'
      · exact List.mem_singleton.mp hr' ▸ htext

theorem placed_of_readAll {module : String}
    (h : rs.foldlM read ⟨∅, module, [], none⟩ = .ok d) : Placed rs d := by
  have hnone : Placed [] ⟨∅, module, [], none⟩ :=
    ⟨List.forall_mem_nil _, fun s hs => by simp at hs⟩
  exact foldlM_invariant [] (fun hd hread => hd.read hread) hnone h

end Placed

section Closed

structure Extends (d d' : Draft) : Prop where
  functions : ∀ {f : Nat} {g}, d.program.functions[f]? = some g →
    d'.program.functions[f]? = some g
  closed : d.closed <+: d'.closed
  current : ∀ s ∈ d.current, ∃ s' ∈ d'.sections, s.rows <+: s'.rows

theorem Takes.extends (h : d.Takes r d') : d.Extends d' where
  functions := h.functions
  closed := by
    cases h with
    | close => exact List.prefix_append ..
    | _ => exact List.prefix_refl _
  current s hs := by
    cases h with
    | close hin =>
        obtain rfl := Option.some.inj (hin.symm.trans hs)
        exact ⟨_, List.mem_append_left _ (List.mem_append_right _ (List.mem_singleton_self _)),
          List.prefix_refl _⟩
    | row hin =>
        obtain rfl := Option.some.inj (hin.symm.trans hs)
        exact ⟨_, List.mem_append_right _ (List.mem_singleton_self _), List.prefix_append ..⟩
    | _ hout => exact nomatch hout.symm.trans hs

theorem Extends.trans {d'' : Draft} (h : d.Extends d') (h' : d'.Extends d'') : d.Extends d'' where
  functions hg := h'.functions (h.functions hg)
  closed := h.closed.trans h'.closed
  current s hs := by
    obtain ⟨s', hs', hrows⟩ := h.current s hs
    rcases List.mem_append.mp hs' with hs' | hs'
    · exact ⟨s', List.mem_append_left _ (h'.closed.subset hs'), hrows⟩
    · obtain ⟨s'', hs'', hrows'⟩ := h'.current s' (Option.mem_toList.mp hs')
      exact ⟨s'', hs'', hrows.trans hrows'⟩

theorem Extends.refl (d : Draft) : d.Extends d where
  functions := id
  closed := List.prefix_refl _
  current s hs := ⟨s, List.mem_append_right _ (Option.mem_toList.mpr hs), List.prefix_refl _⟩

theorem extends_of_readAll (h : rest.foldlM read d = .ok d') : d.Extends d' := by
  induction rest generalizing d with
  | nil =>
      obtain rfl := Except.ok.inj h
      exact .refl _
  | cons r rest ih =>
      rw [List.foldlM_cons] at h
      obtain ⟨d₁, hr, h⟩ := bind_eq_ok.mp h
      exact (takes_of_read hr).extends.trans (ih h)

theorem mem_closed_of_rows {close : Row} (hin : d.current = some s)
    (hinner : ∀ r ∈ rows, r.text ≠ ['\x7d']) (hclose : close.text = ['\x7d'])
    (h : (rows ++ close :: rest).foldlM read d = .ok d') :
    { s with rows := s.rows ++ rows } ∈ d'.closed := by
  induction rows generalizing d s with
  | nil =>
      rw [List.nil_append, List.foldlM_cons] at h
      obtain ⟨d₁, hr, h⟩ := bind_eq_ok.mp h
      cases takes_of_read hr with
      | close hin' =>
          obtain rfl := Option.some.inj (hin'.symm.trans hin)
          exact (extends_of_readAll h).closed.subset (by simp)
      | row _ htext => exact absurd hclose htext
      | _ hout => exact nomatch hout.symm.trans hin
  | cons r rows ih =>
      rw [List.cons_append, List.foldlM_cons] at h
      obtain ⟨d₁, hr, h⟩ := bind_eq_ok.mp h
      cases takes_of_read hr with
      | close _ htext => exact absurd htext (hinner r (List.mem_cons_self ..))
      | row hin' =>
          obtain rfl := Option.some.inj (hin'.symm.trans hin)
          have hclosed := ih rfl (fun r' hr' => hinner r' (List.mem_cons_of_mem _ hr')) h
          rwa [List.append_assoc] at hclosed
      | _ hout => exact nomatch hout.symm.trans hin

theorem exists_close (hin : d.current = some s) (h : rest.foldlM read d = .ok d')
    (hend : d'.current = none) : ∃ rows close after, rest = rows ++ close :: after ∧
      close.text = ['\x7d'] ∧ ∀ r ∈ rows, r.text ≠ ['\x7d'] := by
  induction rest generalizing d s with
  | nil =>
      obtain rfl := Except.ok.inj h
      exact nomatch hend.symm.trans hin
  | cons r rest ih =>
      rw [List.foldlM_cons] at h
      obtain ⟨d₁, hr, h⟩ := bind_eq_ok.mp h
      cases takes_of_read hr with
      | close _ htext => exact ⟨[], r, rest, rfl, htext, List.forall_mem_nil _⟩
      | row _ htext =>
          obtain ⟨rows, close, after, rfl, hclose, hinner⟩ := ih rfl h
          exact ⟨r :: rows, close, after, rfl, hclose, List.forall_mem_cons.mpr ⟨htext, hinner⟩⟩
      | _ hout => exact nomatch hout.symm.trans hin

theorem exists_stands (hread : rs.foldlM read d = .ok d') (hend : d'.current = none)
    (hheader : header ∈ rs) (hkey : keyword header = ['f', 'n']) :
    ∃ rows, Stands rs header rows := by
  obtain ⟨before, after, rfl⟩ := List.append_of_mem hheader
  obtain ⟨d₁, _, hread⟩ := foldlM_append.mp hread
  rw [List.foldlM_cons] at hread
  obtain ⟨d₂, hr, hread⟩ := bind_eq_ok.mp hread
  have hin : ∃ s, d₂.current = some s := by
    cases takes_of_read hr with
    | module _ hkey' => exact absurd (hkey'.symm.trans hkey) (by decide)
    | global _ hkey' => exact absurd (hkey'.symm.trans hkey) (by decide)
    | declare _ hkey' => exact absurd (hkey'.symm.trans hkey) (by decide)
    | close _ htext =>
        rw [keyword, htext] at hkey
        exact absurd hkey (by decide)
    | row => exact ⟨_, rfl⟩
    | header => exact ⟨_, rfl⟩
  obtain ⟨s, hs⟩ := hin
  obtain ⟨rows, close, after', rfl, hclose, hinner⟩ := exists_close hs hread hend
  exact ⟨rows, ⟨before, close, after', rfl, hclose⟩, hkey, hinner⟩

theorem exists_closed_of_stands (hread : rs.foldlM read d = .ok d') (hend : d'.current = none)
    (hrows : ∀ s ∈ d'.closed, ∀ r ∈ s.rows, keyword r ≠ ['f', 'n']) (h : Stands rs header rows) :
    ∃ s ∈ d'.closed, s.rows = rows ∧ Headed d'.program s header := by
  obtain ⟨before, close, after, rfl, hclose⟩ := h.between
  obtain ⟨d₁, _, hread⟩ := foldlM_append.mp hread
  rw [List.foldlM_cons] at hread
  obtain ⟨d₂, hheader, hread⟩ := bind_eq_ok.mp hread
  have hlast := extends_of_readAll hread
  have hkey := h.keyword
  cases takes_of_read hheader with
  | module _ hkey' => exact absurd (hkey'.symm.trans hkey) (by decide)
  | global _ hkey' => exact absurd (hkey'.symm.trans hkey) (by decide)
  | declare _ hkey' => exact absurd (hkey'.symm.trans hkey) (by decide)
  | close _ htext =>
      rw [keyword, htext] at hkey
      exact absurd hkey (by decide)
  | @row s hin =>
      -- the header would be a row of the section that is open, and stay one
      obtain ⟨s', hs', hbegun⟩ := hlast.current _ rfl
      rw [sections, hend, Option.toList_none, List.append_nil] at hs'
      exact absurd hkey (hrows s' hs' header (hbegun.subset (by simp)))
  | header hout hdeclares hnew =>
      exact ⟨_, mem_closed_of_rows rfl h.inner hclose hread, rfl, _,
        hlast.functions Array.getElem?_push_size, hdeclares⟩

end Closed

end Draft

end Interproc.Source
