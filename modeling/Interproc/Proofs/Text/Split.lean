import Interproc.Text.Row
import Mathlib.Data.List.Basic

namespace Interproc.Text

variable {p : Char → Bool} {cs rest t w : List Char} {c : Char} {ts : List (List Char)}

def Unbroken (cs : List Char) : Prop := ∀ c ∈ cs, isBlank c = false

section Cut

theorem cut?_append (hw : ∀ x ∈ w, p x = false) (hc : p c = true) :
    cut? p (w ++ c :: rest) = some (w, rest) := by
  induction w with
  | nil => simp [cut?, hc]
  | cons d w ih =>
      have hd : p d = false := hw d (List.mem_cons_self ..)
      rw [List.cons_append, cut?, hd, ih (fun x hx => hw x (List.mem_cons_of_mem _ hx))]
      rfl

theorem cut?_eq_none (h : ∀ x ∈ cs, p x = false) : cut? p cs = none := by
  induction cs with
  | nil => rfl
  | cons d cs ih =>
      have hd : p d = false := h d (List.mem_cons_self ..)
      rw [cut?, hd, ih (fun x hx => h x (List.mem_cons_of_mem _ hx))]
      rfl

end Cut

section Trim

theorem trim_cons (hc : isBlank c = true) : trim (c :: cs) = trim cs := by
  have hdrop : dropBlanks (c :: cs) = dropBlanks cs := List.dropWhile_cons_of_pos hc
  rw [trim, hdrop, trim]

theorem trim_cons_of_not (hc : isBlank c = false) : ∃ ds, trim (c :: cs) = c :: ds := by
  have hdrop : dropBlanks (c :: cs) = c :: cs := List.dropWhile_cons_of_neg (by simp [hc])
  rw [trim, hdrop, List.reverse_cons]
  simp only [dropBlanks, List.dropWhile_append]
  split
  · exact ⟨[], by simp [hc]⟩
  · exact ⟨_, by rw [List.reverse_append, List.reverse_singleton, List.singleton_append]⟩

theorem trim_append (hc : isBlank c = true) : trim (cs ++ [c]) = trim cs := by
  simp only [trim, dropBlanks, List.dropWhile_append]
  split
  · rename_i hempty
    simp [List.isEmpty_iff.mp hempty, List.dropWhile_cons_of_pos hc]
  · rw [List.reverse_append, List.reverse_singleton, List.singleton_append,
      List.dropWhile_cons_of_pos hc]

theorem trim_eq_self (hhead : ∀ x ∈ cs.head?, isBlank x = false)
    (hlast : ∀ x ∈ cs.getLast?, isBlank x = false) : trim cs = cs := by
  have hfront : ∀ {ds : List Char}, (∀ x ∈ ds.head?, isBlank x = false) → dropBlanks ds = ds := by
    intro ds hds
    cases ds with
    | nil => rfl
    | cons d ds =>
        have hd : isBlank d = false := hds d rfl
        exact List.dropWhile_cons_of_neg (by simp [hd])
  rw [trim, hfront hhead, hfront (by simpa using hlast), List.reverse_reverse]

structure Tight (cs : List Char) : Prop where
  ne_nil : cs ≠ []
  head : ∀ c ∈ cs.head?, isBlank c = false
  last : ∀ c ∈ cs.getLast?, isBlank c = false

theorem Tight.trim_eq (h : Tight cs) : trim cs = cs := trim_eq_self h.head h.last

theorem Tight.append (h : Tight cs) (h' : Tight t) : Tight (cs ++ rest ++ t) where
  ne_nil := by simp [h.ne_nil]
  head c hc := by
    rw [List.append_assoc, List.head?_append_of_ne_nil _ h.ne_nil] at hc
    exact h.head c hc
  last c hc := by
    rw [List.getLast?_append_of_ne_nil _ h'.ne_nil] at hc
    exact h'.last c hc

theorem tight_intercalate (h : ∀ t ∈ ts, Tight t) (hne : ts ≠ []) : Tight (rest.intercalate ts) := by
  induction ts with
  | nil => exact absurd rfl hne
  | cons t ts ih =>
      have ht := h t (List.mem_cons_self ..)
      cases ts with
      | nil => rwa [List.intercalate_singleton]
      | cons t' ts =>
          rw [List.intercalate_cons_cons]
          exact ht.append (ih (fun x hx => h x (List.mem_cons_of_mem _ hx)) (List.cons_ne_nil _ _))

theorem Unbroken.tight (h : Unbroken cs) (hne : cs ≠ []) : Tight cs :=
  ⟨hne, fun x hx => h x (List.mem_of_mem_head? hx), fun x hx => h x (List.mem_of_getLast? hx)⟩

theorem Unbroken.trim_eq (h : Unbroken cs) : trim cs = cs :=
  trim_eq_self (fun x hx => h x (List.mem_of_mem_head? hx))
    (fun x hx => h x (List.mem_of_getLast? hx))

end Trim

section Words

theorem firstWord_append (hw : Unbroken w) (hc : isBlank c = true) :
    firstWord (w ++ c :: rest) = (w, trim rest) := by
  rw [firstWord, cut?_append hw hc]

theorem Unbroken.firstWord_eq (h : Unbroken w) : firstWord w = (w, []) := by
  rw [firstWord, cut?_eq_none h]

theorem firstWord_fst (cs : List Char) :
    (firstWord cs).1 = cs.takeWhile (fun c => !isBlank c) := by
  induction cs with
  | nil => rfl
  | cons d cs ih =>
      cases hd : isBlank d with
      | true => simp [firstWord, cut?, hd]
      | false =>
          rw [List.takeWhile_cons_of_pos (by simp [hd]), ← ih]
          simp only [firstWord, cut?, hd, Bool.false_eq_true, if_false]
          cases cut? isBlank cs <;> rfl

end Words

section Items

theorem split_of_forall (h : ∀ x ∈ cs, p x = false) : split p cs = [cs] := by
  induction cs with
  | nil => rfl
  | cons d cs ih =>
      have hd : p d = false := h d (List.mem_cons_self ..)
      rw [split, hd, ih (fun x hx => h x (List.mem_cons_of_mem _ hx))]
      rfl

theorem split_append (hw : ∀ x ∈ w, p x = false) (hc : p c = true) :
    split p (w ++ c :: rest) = w :: split p rest := by
  induction w with
  | nil => simp [split, hc]
  | cons d w ih =>
      have hd : p d = false := hw d (List.mem_cons_self ..)
      rw [List.cons_append, split, hd, ih (fun x hx => hw x (List.mem_cons_of_mem _ hx))]
      rfl

theorem split_ne_nil : split p cs ≠ [] := by
  cases cs with
  | nil => simp [split]
  | cons d cs =>
      rw [split]
      split
      · simp
      · split <;> simp

theorem split_intercalate (hc : p c = true) (hts : ∀ t ∈ ts, ∀ x ∈ t, p x = false)
    (hne : ts ≠ []) : split p ([c].intercalate ts) = ts := by
  induction ts with
  | nil => exact absurd rfl hne
  | cons t ts ih =>
      have ht := hts t (List.mem_cons_self ..)
      cases ts with
      | nil => rw [List.intercalate_singleton, split_of_forall ht]
      | cons t' ts =>
          rw [List.intercalate_cons_cons, List.append_assoc, List.singleton_append,
            split_append ht hc, ih (fun x hx => hts x (List.mem_cons_of_mem _ hx)) (by simp)]

theorem intercalate_split (c : Char) (cs : List Char) :
    [c].intercalate (split (fun d => d == c) cs) = cs := by
  induction cs with
  | nil => rfl
  | cons d cs ih =>
      obtain ⟨x, xs, hsplit⟩ := List.exists_cons_of_ne_nil (split_ne_nil : split (· == c) cs ≠ [])
      rw [hsplit] at ih
      rw [split, hsplit]
      split
      · rename_i hd
        rw [List.intercalate_cons_cons, ih, eq_of_beq hd]
        rfl
      · cases xs with
        | nil =>
            rw [List.intercalate_singleton] at ih ⊢
            rw [ih]
        | cons y ys =>
            rw [List.intercalate_cons_cons] at ih ⊢
            rw [List.cons_append, List.cons_append, ih]

theorem mem_of_mem_split (ht : t ∈ split p cs) (hx : c ∈ t) : c ∈ cs ∧ p c = false := by
  induction cs generalizing t with
  | nil =>
      rw [split, List.mem_singleton] at ht
      exact absurd (ht ▸ hx) List.not_mem_nil
  | cons d cs ih =>
      obtain ⟨y, ys, hsplit⟩ := List.exists_cons_of_ne_nil (split_ne_nil : split p cs ≠ [])
      have hold : ∀ {u}, u ∈ y :: ys → c ∈ u → c ∈ d :: cs ∧ p c = false := fun hu hc =>
        (ih (hsplit ▸ hu) hc).imp_left (List.mem_cons_of_mem _)
      rw [split, hsplit] at ht
      split at ht
      · rcases List.mem_cons.mp ht with rfl | ht
        · exact absurd hx List.not_mem_nil
        · exact hold ht hx
      · rename_i hd
        rcases List.mem_cons.mp ht with rfl | ht
        · rcases List.mem_cons.mp hx with rfl | hx
          · exact ⟨List.mem_cons_self .., by simpa using hd⟩
          · exact hold (List.mem_cons_self ..) hx
        · exact hold (List.mem_cons_of_mem _ ht) hx

theorem unbroken_of_mem_words (h : w ∈ words cs) : Unbroken w := fun _ hc =>
  (mem_of_mem_split (List.mem_filter.mp h).1 hc).2

theorem map_trim_split_cons (hblank : isBlank c = true) (hc : p c = false) :
    (split p (c :: cs)).map trim = (split p cs).map trim := by
  obtain ⟨x, xs, hsplit⟩ := List.exists_cons_of_ne_nil (split_ne_nil : split p cs ≠ [])
  rw [split, hc, hsplit]
  simp [trim_cons hblank]

structure Item (t : List Char) : Prop where
  ne_nil : t ≠ []
  unbroken : Unbroken t
  not_comma : ∀ c ∈ t, (c == ',') = false

theorem mem_intercalate {sep : List Char} (hc : c ∈ sep.intercalate ts) :
    c ∈ sep ∨ ∃ t ∈ ts, c ∈ t := by
  induction ts with
  | nil => exact absurd hc List.not_mem_nil
  | cons t ts ih =>
      cases ts with
      | nil =>
          rw [List.intercalate_singleton] at hc
          exact Or.inr ⟨t, List.mem_cons_self .., hc⟩
      | cons t' ts =>
          rw [List.intercalate_cons_cons, List.mem_append, List.mem_append] at hc
          rcases hc with (hc | hc) | hc
          · exact Or.inr ⟨t, List.mem_cons_self .., hc⟩
          · exact Or.inl hc
          · exact (ih hc).imp id (fun ⟨u, hu, hc⟩ => ⟨u, List.mem_cons_of_mem _ hu, hc⟩)

theorem items_intercalate (h : ∀ t ∈ ts, Item t) : items ([',', ' '].intercalate ts) = ts := by
  induction ts with
  | nil => rfl
  | cons t ts ih =>
      have ht : Item t := h t (List.mem_cons_self ..)
      cases ts with
      | nil =>
          rw [List.intercalate_singleton, items, split_of_forall ht.not_comma]
          simp [ht.unbroken.trim_eq, ht.ne_nil]
      | cons t' ts =>
          have hrest := ih (fun x hx => h x (List.mem_cons_of_mem _ hx))
          rw [items] at hrest
          rw [List.intercalate_cons_cons, List.append_assoc, List.cons_append, items,
            split_append ht.not_comma rfl, List.map_cons, List.cons_append, List.nil_append,
            map_trim_split_cons rfl rfl, ht.unbroken.trim_eq, List.filter_cons, hrest]
          simp [ht.ne_nil]

end Items

end Interproc.Text
