import Interproc.Proofs.Taint.Grammar

namespace Interproc.Taint

open Text

section Positions

variable {list : List Char} {os : List (List Char)} {ps d : Positions} {a : Option Positions}

structure Positions.Canonical (ps : Positions) : Prop where
  ascending : ∀ is, ps = .only is → is.Pairwise (· < ·)
  rereads : ps.isEmpty = false → positions? ps.text.toList = .ok ps

theorem Denotes.canonical (h : Denotes list ps) : ps.Canonical where
  ascending is his := by
    subst his
    cases h with
    | only _ _ _ hascending => exact hascending
  rereads _ := positions?_text h

theorem canonical_all : Positions.all.Canonical := Denotes.all.canonical

theorem canonical_none : (Positions.only []).Canonical where
  ascending is his := by
    obtain rfl := Positions.only.inj his
    exact .nil
  rereads h := nomatch h

structure Stored (os : List (List Char)) (d ps : Positions) : Prop extends ps.Canonical where
  unlisted : lists os = [] → ps = d
  contains_iff : ∀ list, (lists os).getLast? = some list →
    ∀ i, ps.contains i = true ↔ Listed list i

theorem LastArgs.stored (h : LastArgs os a) (hd : d.Canonical) : Stored os d (a.getD d) := by
  cases h with
  | none h =>
      refine ⟨hd, fun _ => rfl, fun list hlist => ?_⟩
      rw [h] at hlist
      exact nomatch hlist
  | @last list ps h hdenotes =>
      refine ⟨hdenotes.canonical, fun hnil => ?_, fun list' hlist' i => ?_⟩
      · rw [hnil] at h
        exact nomatch h
      · obtain rfl := Option.some.inj (h.symm.trans hlist')
        exact hdenotes.contains_iff

end Positions

section Entries

def Entry.kind : Entry → Kind
  | .source _ => .source
  | .sink _ => .sink

def Entry.name : Entry → String
  | .source f => f.name
  | .sink f => f.name

variable {e : Entry} {k k' : Kind} {name : String} {r : Registry} {ret : Bool} {a : Option Positions}

theorem Kind.kind_entry : (k.entry name a ret).kind = k := by cases k <;> rfl

theorem Kind.name_entry : (k.entry name a ret).name = name := by cases k <;> rfl

theorem Kind.word_injective (h : k.word = k'.word) : k = k' := by
  revert h
  cases k <;> cases k' <;> decide

def Registry.held? (r : Registry) (name : String) : Kind → Option Entry
  | .source => (r.source? name).map .source
  | .sink => (r.sink? name).map .sink

theorem Registry.held?_add : (r.add e).held? name k =
    if k = e.kind ∧ name = e.name then some e else r.held? name k := by
  have hsource (f : SourceFunction) : (r.addSource f).sink? name = r.sink? name := rfl
  have hsink (f : SinkFunction) : (r.addSink f).source? name = r.source? name := rfl
  cases e <;> cases k <;> simp only [held?, add, Entry.kind, Entry.name, source?_addSource,
    sink?_addSink, hsource, hsink, reduceCtorEq, false_and, true_and, if_false]
  all_goals split <;> rfl

end Entries

section Rows

variable {os : List (List Char)} {e : Entry} {k : Kind} {name : String} {r : Registry} {row : Row}
  {rs : List Row} {f : SpecFailure}

def Names (row : Row) (k : Kind) (name : String) (os : List (List Char)) : Prop :=
  words row.text = k.word :: name.toList :: os

def Unnamed (rs : List Row) (k : Kind) (name : String) : Prop :=
  ∀ row ∈ rs, ∀ os, ¬ Names row k name os

def LastNamed (rs : List Row) (k : Kind) (name : String) (os : List (List Char)) : Prop :=
  ∃ before row after, rs = before ++ row :: after ∧ Names row k name os ∧ Unnamed after k name

def FirstOffending (rs : List Row) (f : SpecFailure) : Prop :=
  ∃ before row after, rs = before ++ row :: after ∧ (∀ row ∈ before, Formed row.text) ∧
    ¬ Formed row.text ∧ f.line = row.line

namespace Registry

theorem extendRows_cons (h : entry? row.text = .ok e) :
    (r.extendRows (row :: rs)).registry = ((r.add e).extendRows rs).registry ∧
      (r.extendRows (row :: rs)).failure = ((r.add e).extendRows rs).failure := by
  rw [extendRows, h]
  exact ⟨rfl, rfl⟩

theorem extendRows_cons_error {c : SpecCause} (h : entry? row.text = .error c) :
    (r.extendRows (row :: rs)).failure = some ⟨row.line, c⟩ := by
  rw [extendRows, h]

theorem failure_eq_none_iff :
    (r.extendRows rs).failure = none ↔ ∀ row ∈ rs, Formed row.text := by
  induction rs generalizing r with
  | nil => simp [extendRows]
  | cons row rs ih =>
      rw [List.forall_mem_cons, formed_iff]
      cases he : entry? row.text with
      | error c => simp [extendRows_cons_error he]
      | ok e => simp [(extendRows_cons he).2, ih]

theorem firstOffending_of_failure (h : (r.extendRows rs).failure = some f) :
    FirstOffending rs f := by
  induction rs generalizing r with
  | nil => exact nomatch h
  | cons row rs ih =>
      cases he : entry? row.text with
      | error c =>
          obtain rfl := Option.some.inj ((extendRows_cons_error he).symm.trans h)
          refine ⟨[], row, rs, rfl, List.forall_mem_nil _, fun hformed => ?_, rfl⟩
          obtain ⟨e, hok⟩ := formed_iff.mp hformed
          exact nomatch he.symm.trans hok
      | ok e =>
          obtain ⟨before, bad, after, rfl, hbefore, hbad, hline⟩ := ih ((extendRows_cons he).2 ▸ h)
          exact ⟨row :: before, bad, after, rfl,
            List.forall_mem_cons.mpr ⟨formed_iff.mpr ⟨e, he⟩, hbefore⟩, hbad, hline⟩

theorem extendRows_append (after : List Row) (h : ∀ row ∈ rs, Formed row.text) : ∃ r' : Registry,
    (r.extendRows (rs ++ after)).registry = (r'.extendRows after).registry := by
  induction rs generalizing r with
  | nil => exact ⟨r, rfl⟩
  | cons row rs ih =>
      obtain ⟨hrow, hrows⟩ := List.forall_mem_cons.mp h
      obtain ⟨e, he⟩ := formed_iff.mp hrow
      obtain ⟨r', hr'⟩ := ih (r := r.add e) hrows
      exact ⟨r', (extendRows_cons he).1.trans hr'⟩

theorem names_of_entry? (h : entry? row.text = .ok e) : ∃ os, Names row e.kind e.name os ∧
    ∃ a, LastArgs os a ∧ e = e.kind.entry e.name a (decide (retOption ∈ os)) := by
  obtain ⟨k, name, os, a, hdescribes, ha, rfl⟩ := entry?_eq_ok_iff.mp h
  rw [Kind.kind_entry, Kind.name_entry]
  exact ⟨os, hdescribes.words, a, ha, rfl⟩

theorem held?_of_unnamed (h : ∀ row ∈ rs, Formed row.text) (hrs : Unnamed rs k name) :
    (r.extendRows rs).registry.held? name k = r.held? name k := by
  induction rs generalizing r with
  | nil => rfl
  | cons row rs ih =>
      obtain ⟨hrow, hrows⟩ := List.forall_mem_cons.mp h
      obtain ⟨hunnamed, hrest⟩ := List.forall_mem_cons.mp hrs
      obtain ⟨e, he⟩ := formed_iff.mp hrow
      have hother : ¬ (k = e.kind ∧ name = e.name) := by
        rintro ⟨rfl, rfl⟩
        obtain ⟨os, hos, _⟩ := names_of_entry? he
        exact hunnamed os hos
      rw [(extendRows_cons he).1, ih hrows hrest, held?_add, if_neg hother]

theorem held?_of_lastNamed (h : ∀ row ∈ rs, Formed row.text) (hrs : LastNamed rs k name os) :
    ∃ a, LastArgs os a ∧ (r.extendRows rs).registry.held? name k =
      some (k.entry name a (decide (retOption ∈ os))) := by
  obtain ⟨before, row, after, rfl, hnames, hunnamed⟩ := hrs
  obtain ⟨hbefore, hrest⟩ := List.forall_mem_append.mp h
  obtain ⟨hrow, hafter⟩ := List.forall_mem_cons.mp hrest
  obtain ⟨e, he⟩ := formed_iff.mp hrow
  obtain ⟨os', hos', a, ha, hentry⟩ := names_of_entry? he
  obtain ⟨hkind, hname, rfl⟩ : k = e.kind ∧ name = e.name ∧ os = os' := by
    have hwords := hnames.symm.trans hos'
    simp only [List.cons.injEq, String.toList_inj] at hwords
    exact ⟨Kind.word_injective hwords.1, hwords.2⟩
  obtain ⟨r', hr'⟩ := extendRows_append (r := r) (row :: after) hbefore
  refine ⟨a, ha, ?_⟩
  rw [hr', (extendRows_cons he).1, held?_of_unnamed hafter hunnamed, held?_add,
    if_pos ⟨hkind, hname⟩, hkind, hname, ← hentry]

structure Reads (r : Registry) (rs : List Row) (x : Extension) : Prop where
  accepts : x.failure = none ↔ ∀ row ∈ rs, Formed row.text
  refuses : ∀ f, x.failure = some f → FirstOffending rs f
  source : x.failure = none → ∀ name os, LastNamed rs .source name os →
    ∃ ps, Stored os (.only []) ps ∧
      x.registry.source? name = some ⟨name, ps, decide (retOption ∈ os)⟩
  source_kept : x.failure = none → ∀ name, Unnamed rs .source name →
    x.registry.source? name = r.source? name
  sink : x.failure = none → ∀ name os, LastNamed rs .sink name os →
    ∃ ps, Stored os .all ps ∧ x.registry.sink? name = some ⟨name, ps⟩
  sink_kept : x.failure = none → ∀ name, Unnamed rs .sink name →
    x.registry.sink? name = r.sink? name

theorem reads_extend (r : Registry) (text : String) :
    Reads r (rows text.toList) (r.extend text) where
  accepts := failure_eq_none_iff
  refuses _ h := firstOffending_of_failure h
  source h name os hnamed := by
    obtain ⟨a, ha, hheld⟩ := held?_of_lastNamed (r := r) (failure_eq_none_iff.mp h) hnamed
    obtain ⟨f, hf, hentry⟩ := Option.map_eq_some_iff.mp hheld
    exact ⟨_, ha.stored canonical_none, hf.trans (congrArg some (Entry.source.inj hentry))⟩
  source_kept h name hunnamed :=
    Option.map_injective (fun _ _ => Entry.source.inj)
      (held?_of_unnamed (failure_eq_none_iff.mp h) hunnamed)
  sink h name os hnamed := by
    obtain ⟨a, ha, hheld⟩ := held?_of_lastNamed (r := r) (failure_eq_none_iff.mp h) hnamed
    obtain ⟨f, hf, hentry⟩ := Option.map_eq_some_iff.mp hheld
    exact ⟨_, ha.stored canonical_all, hf.trans (congrArg some (Entry.sink.inj hentry))⟩
  sink_kept h name hunnamed :=
    Option.map_injective (fun _ _ => Entry.sink.inj)
      (held?_of_unnamed (failure_eq_none_iff.mp h) hunnamed)

example : ((∅ : Registry).extend "sink f args=4\nsink f args=2,+0,2 args=1,00").registry.sink? "f" =
    some ⟨"f", .only [0, 1]⟩ := by
  decide

end Registry

end Rows

end Interproc.Taint
