import Interproc.Proofs.Program.Statements
import Interproc.Proofs.Text.Decimal
import Interproc.Proofs.Text.Split
import Interproc.Taint.Specification
import Mathlib.Data.List.Induction

namespace Interproc.Taint

open Text Decimal

variable {cs list w : List Char} {os ws : List (List Char)} {ps : Positions} {a : Option Positions}
  {n : Nat} {ns : List Nat} {e : Entry}

section Lists

inductive Denotes : List Char → Positions → Prop
  | all : Denotes ['*'] .all
  | only {ws : List (List Char)} {ns is : List Nat} (hne : ws ≠ [])
      (hspells : List.Forall₂ Spells ws ns) (hmem : ∀ i, i ∈ is ↔ i ∈ ns)
      (hascending : is.Pairwise (· < ·)) : Denotes ([','].intercalate ws) (.only is)

theorem not_blank_of_spells {c : Char} (h : Spells w n) (hc : c ∈ w) :
    isBlank c = false ∧ c ≠ ',' ∧ c ≠ '*' := by
  rcases h.chars hc with hdigit | rfl
  · have hrange := Char.isDigit_iff_toNat.mp hdigit
    refine ⟨?_, ?_, ?_⟩
    · simp only [isBlank, Bool.or_eq_false_iff, decide_eq_false_iff_not, beq_eq_false_iff_ne]
      change 48 ≤ c.toNat ∧ c.toNat ≤ 57 at hrange
      omega
    all_goals
      rintro rfl
      exact absurd hrange (by decide)
  · decide

theorem position?_eq_ok_iff (h : Unbroken w) : position? w = .ok n ↔ Spells w n := by
  rw [position?, h.trim_eq, ← word?_eq_some_iff]
  split <;> simp_all

theorem pairwise_elements (s : OrdSet Nat) : s.elements.Pairwise (· < ·) :=
  s.ascending.imp Nat.compare_eq_lt.mp

theorem ofList_eq_only {is : List Nat} (hmem : ∀ i, i ∈ is ↔ i ∈ ns)
    (hascending : is.Pairwise (· < ·)) : Positions.ofList ns = .only is := by
  have hmem' : ∀ i, i ∈ (OrdSet.ofList ns).elements ↔ i ∈ is := fun i =>
    OrdSet.mem_ofList.trans (hmem i).symm
  exact congrArg Positions.only (ascending_ext (OrdSet.ofList ns).ascending
    (hascending.imp Nat.compare_eq_lt.mpr) hmem')

theorem exists_mem_of_forall₂ {α β : Type} {R : α → β → Prop} {xs : List α} {ys : List β}
    (h : List.Forall₂ R xs ys) : (∀ x ∈ xs, ∃ y ∈ ys, R x y) ∧ ∀ y ∈ ys, ∃ x ∈ xs, R x y := by
  induction h with
  | nil => exact ⟨List.forall_mem_nil _, List.forall_mem_nil _⟩
  | @cons x y xs ys h _ ih =>
      have hleft : ∀ x' ∈ xs, ∃ y' ∈ y :: ys, R x' y' := fun x' hx' =>
        (ih.1 x' hx').imp (fun _ hy' => hy'.imp_left (List.mem_cons_of_mem _))
      have hright : ∀ y' ∈ ys, ∃ x' ∈ x :: xs, R x' y' := fun y' hy' =>
        (ih.2 y' hy').imp (fun _ hx' => hx'.imp_left (List.mem_cons_of_mem _))
      exact ⟨List.forall_mem_cons.mpr ⟨⟨y, List.mem_cons_self .., h⟩, hleft⟩,
        List.forall_mem_cons.mpr ⟨⟨x, List.mem_cons_self .., h⟩, hright⟩⟩

theorem split_intercalate_spells (hne : ws ≠ []) (hspells : List.Forall₂ Spells ws ns) :
    split (fun c => c == ',') ([','].intercalate ws) = ws ∧ [','].intercalate ws ≠ ['*'] := by
  have hchars : ∀ w ∈ ws, ∀ c ∈ w, isBlank c = false ∧ c ≠ ',' ∧ c ≠ '*' := fun w hw c hc => by
    obtain ⟨n, _, hn⟩ := (exists_mem_of_forall₂ hspells).1 w hw
    exact not_blank_of_spells hn hc
  have hsplit : split (fun c => c == ',') ([','].intercalate ws) = ws :=
    split_intercalate rfl (fun w hw c hc => beq_eq_false_iff_ne.mpr (hchars w hw c hc).2.1) hne
  refine ⟨hsplit, fun heq => ?_⟩
  rw [heq] at hsplit
  exact (hchars ['*'] (hsplit ▸ List.mem_singleton_self _) '*' (List.mem_singleton_self _)).2.2 rfl

theorem positions?_of_denotes (h : Denotes cs ps) : positions? cs = .ok ps := by
  cases h with
  | all => rfl
  | @only ws ns is hne hspells hmem hascending =>
      obtain ⟨hsplit, hstar⟩ := split_intercalate_spells hne hspells
      have hread : ws.mapM position? = .ok ns := mapM_eq_ok_iff.mpr (hspells.imp (fun w n h =>
        (position?_eq_ok_iff (fun c hc => (not_blank_of_spells h hc).1)).mpr h))
      rw [positions?, if_neg hstar, hsplit, hread, ← ofList_eq_only hmem hascending]
      rfl

def Listed (cs : List Char) (i : Nat) : Prop :=
  cs = ['*'] ∨ ∃ w ∈ split (fun c => c == ',') cs, Spells w i

theorem Denotes.contains_iff {i : Nat} (h : Denotes cs ps) : ps.contains i = true ↔ Listed cs i := by
  cases h with
  | all => exact iff_of_true rfl (Or.inl rfl)
  | @only ws ns is hne hspells hmem hascending =>
      obtain ⟨hsplit, hstar⟩ := split_intercalate_spells hne hspells
      rw [Positions.contains, List.contains_iff_mem, hmem, Listed, or_iff_right hstar, hsplit]
      constructor
      · exact (exists_mem_of_forall₂ hspells).2 i
      · rintro ⟨w, hw, hi⟩
        obtain ⟨n, hn, hspelled⟩ := (exists_mem_of_forall₂ hspells).1 w hw
        exact hi.unique hspelled ▸ hn

theorem positions?_eq_ok_iff (h : Unbroken cs) : positions? cs = .ok ps ↔ Denotes cs ps := by
  refine ⟨fun hread => ?_, positions?_of_denotes⟩
  rw [positions?] at hread
  split at hread
  · rename_i heq
    obtain rfl := Except.ok.inj hread
    exact heq ▸ .all
  · cases hns : (split (fun c => c == ',') cs).mapM position? with
    | error c =>
        rw [hns] at hread
        exact nomatch hread
    | ok ns =>
        rw [hns] at hread
        obtain rfl := Except.ok.inj hread
        have hpieces : ∀ w ∈ split (fun c => c == ',') cs, Unbroken w :=
          fun w hw c hc => h c (mem_of_mem_split hw hc).1
        have hspells : List.Forall₂ Spells (split (fun c => c == ',') cs) ns :=
          ((List.forall₂_and_left _ _).mpr ⟨hpieces, mapM_eq_ok_iff.mp hns⟩).imp
            (fun _ _ hw => (position?_eq_ok_iff hw.1).mp hw.2)
        have hdenotes := Denotes.only split_ne_nil hspells (fun _ => OrdSet.mem_ofList)
          (pairwise_elements (OrdSet.ofList ns))
        rwa [intercalate_split] at hdenotes

theorem Denotes.isEmpty (h : Denotes cs ps) : ps.isEmpty = false := by
  cases h with
  | all => rfl
  | @only ws ns is hne hspells hmem hascending =>
      refine List.isEmpty_eq_false_iff.mpr (fun his => ?_)
      have hns : ns = [] := List.eq_nil_iff_forall_not_mem.mpr
        (fun n hn => List.not_mem_nil (his ▸ (hmem n).mpr hn))
      exact hne (List.forall₂_nil_right_iff.mp (hns ▸ hspells))

theorem positions?_text (h : Denotes cs ps) : positions? ps.text.toList = .ok ps := by
  refine positions?_of_denotes ?_
  have hempty := h.isEmpty
  cases h with
  | all => exact .all
  | @only ws ns is hne hspells hmem hascending =>
      have his : is ≠ [] := fun h => by simp [h, Positions.isEmpty] at hempty
      have htext : (Positions.only is).text.toList =
          [','].intercalate (is.map (fun n => (toString n).toList)) := by
        rw [Positions.text, String.toList_intercalate, List.map_map]
        rfl
      rw [htext]
      refine .only (by simpa using his) ?_ (fun _ => Iff.rfl) hascending
      refine List.forall₂_map_left_iff.mpr (List.forall₂_same.mpr (fun n hn => ?_))
      obtain ⟨w, _, hw⟩ := (exists_mem_of_forall₂ hspells).2 n ((hmem n).mp hn)
      exact spells_toString hw.lt

end Lists

section Options

def retOption : List Char := ['r', 'e', 't']

def argsOption (list : List Char) : List Char := 'a' :: 'r' :: 'g' :: 's' :: '=' :: list

def IsOption (w : List Char) : Prop :=
  w = retOption ∨ ∃ list ps, w = argsOption list ∧ Denotes list ps

def lists (os : List (List Char)) : List (List Char) := os.filterMap argsOption?

inductive LastArgs (os : List (List Char)) : Option Positions → Prop
  | none (h : lists os = []) : LastArgs os none
  | last {list : List Char} {ps : Positions} (h : (lists os).getLast? = some list)
      (hdenotes : Denotes list ps) : LastArgs os (some ps)

theorem argsOption?_eq_some_iff : argsOption? w = some list ↔ w = argsOption list := by
  constructor
  · intro h
    unfold argsOption? at h
    split at h
    · rw [← Option.some.inj h]
      rfl
    · exact nomatch h
  · rintro rfl
    rfl

theorem IsOption.denotes (h : IsOption (argsOption list)) : ∃ ps, Denotes list ps := by
  rcases h with h | ⟨list', ps, h, hdenotes⟩
  · simp [argsOption, retOption] at h
  · obtain rfl : list = list' := by simpa [argsOption] using h
    exact ⟨ps, hdenotes⟩

theorem exists_lastArgs (h : ∀ w ∈ os, IsOption w) : ∃ a, LastArgs os a := by
  cases hlast : (lists os).getLast? with
  | none => exact ⟨none, .none (List.getLast?_eq_none_iff.mp hlast)⟩
  | some list =>
      obtain ⟨w, hw, hlist⟩ := List.mem_filterMap.mp (List.mem_of_getLast? hlast)
      obtain ⟨ps, hps⟩ := (argsOption?_eq_some_iff.mp hlist ▸ h w hw).denotes
      exact ⟨some ps, .last hlast hps⟩

theorem lists_concat_ret (os : List (List Char)) : lists (os ++ [retOption]) = lists os := by
  simp [lists, argsOption?, retOption]

theorem lists_concat_args (os : List (List Char)) (list : List Char) :
    lists (os ++ [argsOption list]) = lists os ++ [list] := by
  simp [lists, argsOption?, argsOption]

theorem ret_mem_concat_args : retOption ∈ os ++ [argsOption list] ↔ retOption ∈ os := by
  simp [retOption, argsOption]

theorem LastArgs.congr {os' : List (List Char)} (h : LastArgs os a) (hos : lists os = lists os') :
    LastArgs os' a := by
  rcases h with h | ⟨h, hdenotes⟩
  · exact .none (hos ▸ h)
  · exact .last (hos ▸ h) hdenotes

theorem lastArgs_concat_ret : LastArgs (os ++ [retOption]) a ↔ LastArgs os a :=
  ⟨fun h => h.congr (lists_concat_ret os), fun h => h.congr (lists_concat_ret os).symm⟩

theorem lastArgs_concat_args : LastArgs (os ++ [argsOption list]) a ↔
    ∃ ps, Denotes list ps ∧ a = some ps := by
  have hlast : (lists (os ++ [argsOption list])).getLast? = some list := by
    rw [lists_concat_args, List.getLast?_concat]
  constructor
  · rintro (h | ⟨h, hdenotes⟩)
    · rw [h] at hlast
      exact nomatch hlast
    · obtain rfl := Option.some.inj (hlast.symm.trans h)
      exact ⟨_, hdenotes, rfl⟩
  · rintro ⟨ps, hdenotes, rfl⟩
    exact .last hlast hdenotes

namespace Options

variable {o o' : Options}

theorem read_args (h : Unbroken (argsOption list)) : o.read (argsOption list) = .ok o' ↔
    ∃ ps, Denotes list ps ∧ o' = { o with args := some ps } := by
  have hread : o.read (argsOption list) =
      (positions? list).map (fun ps => { o with args := some ps }) := rfl
  have hlist : Unbroken list := fun c hc => h c (by simp [argsOption, hc])
  simp only [hread, ← positions?_eq_ok_iff hlist]
  cases positions? list with
  | error c => simp [Except.map]
  | ok ps => simp [Except.map, eq_comm]

theorem isOption_of_read (hw : Unbroken w) (h : o.read w = .ok o') : IsOption w := by
  by_cases hret : w = retOption
  · exact Or.inl hret
  · cases hlist : argsOption? w with
    | none =>
        have hread : o.read w = .error (.unexpected (String.ofList w)) := by
          rw [read, hlist]
          exact if_neg hret
        exact nomatch hread.symm.trans h
    | some list =>
        obtain rfl := argsOption?_eq_some_iff.mp hlist
        obtain ⟨ps, hps, _⟩ := (read_args hw).mp h
        exact Or.inr ⟨list, ps, rfl, hps⟩

theorem foldlM_read (h : ∀ w ∈ os, Unbroken w) : os.foldlM read ⟨none, false⟩ = .ok o ↔
    (∀ w ∈ os, IsOption w) ∧ LastArgs os o.args ∧ o.ret = decide (retOption ∈ os) := by
  -- from the end, as a list of positions replaces those before it
  induction os using List.reverseRecOn generalizing o with
  | nil =>
      constructor
      · intro h
        obtain rfl := Except.ok.inj h
        exact ⟨List.forall_mem_nil _, .none rfl, rfl⟩
      · rintro ⟨_, hlast, hret⟩
        obtain ⟨args, ret⟩ := o
        rcases hlast with _ | ⟨hlast, _⟩
        · obtain rfl : ret = false := hret
          rfl
        · exact nomatch hlast
  | append_singleton os w ih =>
      have hos := fun {o : Options} => ih (o := o) (fun w hw => h w (List.mem_append_left _ hw))
      have hw := h w (List.mem_append_right _ (List.mem_singleton_self w))
      rw [List.foldlM_append, bind_eq_ok]
      simp only [List.foldlM_cons, List.foldlM_nil, bind_pure, List.forall_mem_append,
        List.forall_mem_singleton]
      constructor
      · rintro ⟨o₁, ho₁, hread⟩
        obtain ⟨hoptions, hlast, hret⟩ := hos.mp ho₁
        have hoption := isOption_of_read hw hread
        refine ⟨⟨hoptions, hoption⟩, ?_⟩
        rcases hoption with rfl | ⟨list, _, rfl, _⟩
        · obtain rfl := Except.ok.inj hread
          exact ⟨lastArgs_concat_ret.mpr hlast, by simp⟩
        · obtain ⟨ps, hps, rfl⟩ := (read_args hw).mp hread
          exact ⟨lastArgs_concat_args.mpr ⟨ps, hps, rfl⟩,
            hret.trans (decide_eq_decide.mpr ret_mem_concat_args.symm)⟩
      · rintro ⟨⟨hoptions, hoption⟩, hlast, hret⟩
        obtain ⟨args, ret⟩ := o
        dsimp only at hlast hret
        rcases hoption with rfl | ⟨list, _, rfl, _⟩
        · obtain rfl : ret = true := by simpa using hret
          exact ⟨⟨args, decide (retOption ∈ os)⟩,
            hos.mpr ⟨hoptions, lastArgs_concat_ret.mp hlast, rfl⟩, rfl⟩
        · obtain ⟨a, ha⟩ := exists_lastArgs hoptions
          obtain ⟨ps, hps, rfl⟩ := lastArgs_concat_args.mp hlast
          exact ⟨⟨a, ret⟩,
            hos.mpr ⟨hoptions, ha, hret.trans (decide_eq_decide.mpr ret_mem_concat_args)⟩,
            (read_args hw).mpr ⟨ps, hps, rfl⟩⟩

end Options

end Options

section Lines

inductive Kind where
  | source
  | sink
  deriving DecidableEq, Repr

namespace Kind

def word : Kind → List Char
  | source => "source".toList
  | sink => "sink".toList

def Fits : Kind → List (List Char) → Prop
  | source, os => retOption ∈ os ∨ ∃ list, argsOption list ∈ os
  | sink, os => retOption ∉ os

def entry (name : String) (args : Option Positions) (ret : Bool) : Kind → Entry
  | source => .source ⟨name, args.getD (.only []), ret⟩
  | sink => .sink ⟨name, args.getD .all⟩

end Kind

structure Describes (cs : List Char) (k : Kind) (name : String) (os : List (List Char)) : Prop where
  words : words cs = k.word :: name.toList :: os
  options : ∀ w ∈ os, IsOption w
  fits : k.Fits os

theorem mem_lists_iff : list ∈ lists os ↔ argsOption list ∈ os := by
  simp [lists, List.mem_filterMap, argsOption?_eq_some_iff]

theorem LastArgs.isEmpty_iff (h : LastArgs os a) :
    (a.getD (.only [])).isEmpty = false ↔ ∃ list, argsOption list ∈ os := by
  cases h with
  | none h => simp [Positions.isEmpty, ← mem_lists_iff, h]
  | @last list ps h hdenotes =>
      exact iff_of_true hdenotes.isEmpty ⟨list, mem_lists_iff.mp (List.mem_of_getLast? h)⟩

variable {o : Options} {name : String}

theorem guarded_eq_ok_iff {p : Prop} [Decidable p] {c : SpecCause} {e' : Entry} :
    (if p then .error c else .ok e' : Except SpecCause Entry) = .ok e ↔ ¬ p ∧ e = e' := by
  split
  · rename_i h
    exact iff_of_false (fun hok => nomatch hok) (fun hok => hok.1 h)
  · rename_i h
    exact ⟨fun hok => ⟨h, (Except.ok.inj hok).symm⟩, fun hok => congrArg Except.ok hok.2.symm⟩

theorem source?_eq_ok_iff (ha : LastArgs os o.args) (hret : o.ret = decide (retOption ∈ os)) :
    o.source? name = .ok e ↔ Kind.source.Fits os ∧ e = Kind.source.entry name o.args o.ret := by
  have hfits : Kind.source.Fits os ↔
      ¬ ((o.args.getD (.only [])).isEmpty && !o.ret) = true := by
    rw [Kind.Fits, ← ha.isEmpty_iff, hret]
    cases (o.args.getD (.only [])).isEmpty <;> simp
  rw [hfits]
  exact guarded_eq_ok_iff

theorem sink?_eq_ok_iff (hret : o.ret = decide (retOption ∈ os)) :
    o.sink? name = .ok e ↔ Kind.sink.Fits os ∧ e = Kind.sink.entry name o.args o.ret := by
  have hfits : Kind.sink.Fits os ↔ ¬ o.ret = true := by
    rw [hret, decide_eq_true_iff]
    rfl
  rw [hfits]
  exact guarded_eq_ok_iff

theorem unbroken_of_words {x y : List Char} (h : Text.words cs = x :: y :: os) :
    ∀ w ∈ os, Unbroken w := fun _ hw =>
  unbroken_of_mem_words (h ▸ List.mem_cons_of_mem _ (List.mem_cons_of_mem _ hw))

theorem entry?_eq_ok_iff : entry? cs = .ok e ↔ ∃ (k : Kind) (name : String) (os : List (List Char))
    (a : Option Positions), Describes cs k name os ∧ LastArgs os a ∧
      e = k.entry name a (decide (retOption ∈ os)) := by
  constructor
  · intro h
    unfold entry? at h
    split at h
    · exact nomatch h
    · exact nomatch h
    · rename_i kind name os hwords
      obtain ⟨o, ho, h⟩ := bind_eq_ok.mp h
      obtain ⟨hoptions, ha, hret⟩ := (Options.foldlM_read (unbroken_of_words hwords)).mp ho
      have hdescribes : ∀ k : Kind, kind = k.word → k.Fits os →
          Describes cs k (String.ofList name) os := fun k hk hfits =>
        ⟨by rw [hwords, hk, String.toList_ofList], hoptions, hfits⟩
      have hkind : ∀ {s : String}, String.ofList kind = s → kind = s.toList := fun heq => by
        rw [← heq, String.toList_ofList]
      split at h
      · rename_i heq
        obtain ⟨hfits, rfl⟩ := (source?_eq_ok_iff ha hret).mp h
        exact ⟨.source, _, os, o.args, hdescribes .source (hkind heq) hfits, ha, by rw [hret]⟩
      · rename_i heq
        obtain ⟨hfits, rfl⟩ := (sink?_eq_ok_iff hret).mp h
        exact ⟨.sink, _, os, o.args, hdescribes .sink (hkind heq) hfits, ha, by rw [hret]⟩
      · exact nomatch h
  · rintro ⟨k, name, os, a, ⟨hwords, hoptions, hfits⟩, ha, rfl⟩
    have ho : os.foldlM Options.read ⟨none, false⟩ = .ok ⟨a, decide (retOption ∈ os)⟩ :=
      (Options.foldlM_read (unbroken_of_words hwords)).mpr ⟨hoptions, ha, rfl⟩
    rw [ entry?, hwords]
    refine bind_eq_ok.mpr ⟨_, ho, ?_⟩
    rw [String.ofList_toList]
    cases k with
    | source => exact (source?_eq_ok_iff ha rfl).mpr ⟨hfits, rfl⟩
    | sink => exact (sink?_eq_ok_iff rfl).mpr ⟨hfits, rfl⟩

def Formed (cs : List Char) : Prop := ∃ k name os, Describes cs k name os

theorem formed_iff : Formed cs ↔ ∃ e, entry? cs = .ok e := by
  constructor
  · rintro ⟨k, name, os, h⟩
    obtain ⟨a, ha⟩ := exists_lastArgs h.options
    exact ⟨_, entry?_eq_ok_iff.mpr ⟨k, name, os, a, h, ha, rfl⟩⟩
  · rintro ⟨e, he⟩
    obtain ⟨k, name, os, _, h, _, _⟩ := entry?_eq_ok_iff.mp he
    exact ⟨k, name, os, h⟩

end Lines

end Interproc.Taint
