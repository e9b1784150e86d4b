import Interproc.Context.Arguments
import Interproc.Graph
import Interproc.Proofs.Solver.Recent

/-!
Contexts along calls that return. A call string loses the sites that its bound leaves no room for while
the calls are deepest, and nothing else. Of contexts made of arguments the previous ones last as long as
nothing is called, and the current ones as long as no callee calls anything.
-/
namespace Interproc

variable {N D C : Type}

inductive Crossing (N D : Type) where
  | enter (src dest : N) (incoming : D)
  | leave

/-- Whatever is entered is left again before its caller goes on. The number tells how many functions are
open at once. -/
inductive Nested : List (Crossing N D) → Nat → Prop
  | nil : Nested [] 0
  | call {es fs m n} (src dest : N) (incoming : D) (inner : Nested es m) (rest : Nested fs n) :
      Nested (.enter src dest incoming :: es ++ .leave :: fs) (max (m + 1) n)

def twiceIn (facts : D) : List (Crossing Nat D) :=
  [.enter 7 70 facts, .enter 8 80 facts, .leave, .leave, .enter 9 90 facts, .leave]

theorem twiceIn_nested (facts : D) : Nested (twiceIn facts) 2 :=
  .call 7 70 facts (.call 8 80 facts .nil .nil) (.call 9 90 facts .nil .nil)

namespace ContextKind

variable (k : ContextKind N D C)

def cross (c : C) : Crossing N D → C
  | .enter src dest incoming => k.enter c src dest incoming
  | .leave => k.leave c

def after (es : List (Crossing N D)) (c : C) : C := es.foldl k.cross c

theorem after_call (src dest : N) (incoming : D) (es fs : List (Crossing N D)) (c : C) :
    k.after (.enter src dest incoming :: es ++ .leave :: fs) c =
      k.after fs (k.leave (k.after es (k.enter c src dest incoming))) := by
  simp [after, cross]

/-- Of a context `kept d` is left along calls that are nested `d` levels deep. -/
structure Keeps (kept : Nat → C → C) : Prop where
  none : ∀ c, kept 0 c = c
  call : ∀ c src dest incoming d,
    k.leave (kept d (k.enter c src dest incoming)) = kept (d + 1) c
  rest : ∀ c m n, kept n (kept m c) = kept (max m n) c

variable {k}

theorem Keeps.after {kept : Nat → C → C} (hk : k.Keeps kept) {es : List (Crossing N D)} {d : Nat}
    (h : Nested es d) (c : C) : k.after es c = kept d c := by
  induction h generalizing c with
  | nil => exact (hk.none c).symm
  | call src dest incoming _ _ inner rest => rw [after_call, inner, hk.call, rest, hk.rest]

end ContextKind

namespace CallString

variable {K : Nat}

def kept (d : Nat) (c : CallString N K) : CallString N K :=
  ⟨c.sites.rtake (K - d), by
    rw [List.rtake, List.length_drop]
    omega⟩

@[simp] theorem sites_kept (d : Nat) (c : CallString N K) :
    (c.kept d).sites = c.sites.rtake (K - d) := rfl

theorem kept_zero (c : CallString N K) : c.kept 0 = c :=
  eq_of_sites (rtake_of_length_le c.length_le)

theorem kept_kept (c : CallString N K) (m n : Nat) : (c.kept m).kept n = c.kept (max m n) := by
  apply eq_of_sites
  have hroom : min (K - n) (K - m) = K - max m n := by omega
  rw [sites_kept, sites_kept, rtake_rtake, hroom, sites_kept]

theorem dropLast_rtake_concat (l : List N) (site : N) (n : Nat) :
    ((l ++ [site]).rtake n).dropLast = l.rtake (n - 1) := by
  cases n with
  | zero => simp
  | succ n => rw [List.rtake_concat_succ, List.dropLast_concat, Nat.add_sub_cancel]

theorem leave_kept_enter (c : CallString N K) (site : N) (d : Nat) :
    ((c.enter site).kept d).leave = c.kept (d + 1) := by
  apply eq_of_sites
  have hroom : min (K - d) K - 1 = K - (d + 1) := by omega
  show ((c.enter site).kept d).sites.dropLast = (c.kept (d + 1)).sites
  rw [sites_kept, sites_enter, rtake_rtake, dropLast_rtake_concat, hroom, sites_kept]

theorem kept_eq_self_iff {d : Nat} {c : CallString N K} :
    c.kept d = c ↔ c.sites.length + d ≤ K ∨ d = 0 ∨ c.sites = [] := by
  constructor
  · intro h
    have hlength : (c.kept d).sites.length = c.sites.length := by rw [h]
    rw [sites_kept, List.rtake, List.length_drop] at hlength
    rcases Nat.eq_zero_or_pos c.sites.length with hnil | hpos
    · exact Or.inr (Or.inr (List.eq_nil_of_length_eq_zero hnil))
    · have hle := c.length_le
      omega
  · rintro (h | rfl | h)
    · exact eq_of_sites (rtake_of_length_le (by omega))
    · exact kept_zero c
    · exact eq_of_sites (by simp [h])

theorem leave_of_nil {c : CallString N K} (h : c.sites = []) : c.leave = c :=
  eq_of_sites (by simp [leave, h])

variable [DecidableEq N] [Ord N] [Described N]

theorem keeps : (kind : ContextKind N D (CallString N K)).Keeps kept where
  none := kept_zero
  call c src _ _ d := leave_kept_enter c src d
  rest := kept_kept

theorem sites_after_nested {es : List (Crossing N D)} {d : Nat} (h : Nested es d)
    (c : CallString N K) :
    (kind.after es c).sites = c.sites.rtake (min c.sites.length (K - d)) ∧
    (kind.after es c = c ↔ c.sites.length + d ≤ K ∨ d = 0 ∨ c.sites = []) ∧
    ∀ c' : CallString N K, c'.sites = [] → kind.cross c' (.leave : Crossing N D) = c' := by
  rw [keeps.after h]
  refine ⟨?_, kept_eq_self_iff, fun _ => leave_of_nil⟩
  rw [sites_kept, Nat.min_comm, ← rtake_rtake, rtake_of_length_le (Nat.le_refl _)]

theorem sites_after_twiceIn : Nested (twiceIn ()) 2 ∧
    (kind.after (twiceIn ()) (⟨[1, 2], by decide⟩ : CallString Nat 3)).sites = [2] :=
  ⟨twiceIn_nested (), (sites_after_nested (twiceIn_nested ()) ⟨[1, 2], by decide⟩).1⟩

end CallString

namespace Arguments

variable [EmptyCollection D]

def kept : Nat → Arguments D → Arguments D
  | 0, c => c
  | 1, c => ⟨c.current, ∅⟩
  | _ + 2, _ => ⟨∅, ∅⟩

theorem kept_kept (c : Arguments D) (m n : Nat) : (c.kept m).kept n = c.kept (max m n) := by
  match m, n with
  | 0, n => rw [kept, Nat.zero_max]
  | m + 1, 0 => rw [kept, Nat.max_zero]
  | 1, 1 => rfl
  | m + 2, 1 => rw [Nat.max_eq_left (by omega)]; rfl
  | 1, n + 2 => rw [Nat.max_eq_right (by omega)]; rfl
  | m + 2, n + 2 => rw [Nat.add_max_add_right]; rfl

theorem leave_kept_enter (c : Arguments D) (incoming : D) (d : Nat) :
    ((c.enter incoming).kept d).leave = c.kept (d + 1) := by
  match d with
  | 0 | 1 | d + 2 => rfl

theorem keeps_of_enter {k : ContextKind N D (Arguments D)} (f : N → N → D → D)
    (henter : ∀ c src dest incoming, k.enter c src dest incoming = c.enter (f src dest incoming))
    (hleave : k.leave = leave) : k.Keeps kept where
  none _ := rfl
  call c src dest incoming d := by rw [henter, hleave, leave_kept_enter]
  rest := kept_kept

theorem after_nested :
    (∀ {D : Type} [EmptyCollection D] [DecidableEq D] [Ord D] [Described D]
      {es : List (Crossing N D)} {d : Nat}, Nested es d → ∀ c : Arguments D,
      kind.after es c = c.kept d) ∧
    ∀ {κ ν : Type} [Ord κ] [Std.TransOrd κ] [DecidableEq κ] [DecidableEq ν] [Ord ν] [Described κ]
      [Described ν] (ids : N → N → List κ) {es : List (Crossing N (OrdMap κ ν))} {d : Nat},
      Nested es d → ∀ c : Arguments (OrdMap κ ν), (selectingKind ids).after es c = c.kept d := by
  refine ⟨fun h c => ?_, fun ids es d h c => ?_⟩
  · exact (keeps_of_enter (fun _ _ incoming => incoming) (fun _ _ _ _ => rfl) rfl).after h c
  · exact (keeps_of_enter (fun src dest => select (ids src dest))
      (fun _ _ _ _ => rfl) rfl).after h c

def entryBits : BitMap := OrdMap.ofList [(80, 1), (90, 2)]

theorem after_twiceIn :
    (kind.after (twiceIn (OrdSet.single 5)) ⟨OrdSet.single 1, OrdSet.single 2⟩ :
      Arguments IntSet) = ⟨∅, ∅⟩ ∧
    (selectingKind (fun _ dest => [Int.ofNat dest])).after
      [.enter 9 90 entryBits, .leave] ⟨entryBits, entryBits⟩ = ⟨entryBits, ∅⟩ :=
  ⟨after_nested.1 (twiceIn_nested _) _,
    after_nested.2 _ (.call 9 90 entryBits .nil .nil) ⟨entryBits, entryBits⟩⟩

end Arguments

end Interproc
