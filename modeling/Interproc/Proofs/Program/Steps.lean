import Interproc.Proofs.Program.Sections

namespace Interproc

inductive BuildStep where
  | addGlobal (name : String)
  | addFunction (name module : String) (params : List Parameter)
  | beginBody (function : Nat)
  | push (i : Instruction)
  | setTargets (branch : Nat) (targets : List Nat)
  | endBody
  deriving DecidableEq, Repr

def BuildStep.build : BuildStep → Build Unit
  | addGlobal name => discard (Program.addGlobal name)
  | addFunction name module params => discard (Program.addFunction name module params)
  | beginBody f => Program.beginBody f
  | push i => discard (Program.push i)
  | setTargets n ts => Program.setTargets n ts
  | endBody => Program.endBody

namespace Program

open Source

variable {p q : Program} {f g n : Nat} {b : Span} {s : BuildStep} {r : Except BuildFault Unit}

def finished (p : Program) (f : Nat) (b : Span) : Program :=
  (p.sealed f).setBody f ⟨b.first, (p.sealed f).size⟩

/-- All that a step can come to: a fault that changes nothing, or a change. Only the end of a body
can be both, when a branch leaves the body. -/
inductive Effect (p : Program) : BuildStep → Except BuildFault Unit → Program → Prop
  | refused {s : BuildStep} (e : BuildFault) : p.Effect s (.error e) p
  | addGlobal (name : String) :
      p.Effect (.addGlobal name) (.ok ()) { p with globals := p.globals.insert name }
  | addFunction {name : String} (module : String) (params : List Parameter)
      (hnew : p.functionNamed? name = none) : p.Effect (.addFunction name module params) (.ok ())
        (p.withFunction ⟨name, module, params, none⟩)
  | beginBody {f : Nat} (hf : p.Awaits f) : p.Effect (.beginBody f) (.ok ()) (p.within f [])
  | push {f : Nat} {i : Instruction} (hopen : p.openBody = some f) (hi : i.Proper) :
      p.Effect (.push i) (.ok ())
        { p with instructions := p.instructions.push { i with function := f } }
  | setTargets {n : Nat} {i : Instruction} (ts : List Nat) (hi : p.instructions[n]? = some i)
      (hop : i.op = .branch) : p.Effect (.setTargets n ts) (.ok ())
        { p with instructions := p.instructions.setIfInBounds n { i with targets := ts } }
  | endBody {f : Nat} {b : Span} {r : Except BuildFault Unit} (hopen : p.openBody = some f)
      (hb : p.body? f = some b)
      (hstays : r = .ok () → (p.finished f b).strays ⟨b.first, (p.sealed f).size⟩ = []) :
      p.Effect .endBody r (p.finished f b)

section Effects

variable {α : Type} {c : Build α}

theorem run_of_perform {a : α} (h : perform p c = .ok (a, q)) : c.run.run p = (.ok a, q) := by
  unfold perform at h
  split at h
  · rename_i heq
    obtain ⟨rfl, rfl⟩ := Prod.mk.inj (Except.ok.inj h)
    exact heq
  · exact nomatch h

theorem run_discard_of_perform {a : α} (h : perform p c = .ok (a, q)) :
    (discard c).run.run p = (.ok (), q) :=
  run_of_perform (perform_discard h)

theorem run_discard_of_error {e : BuildFault} (h : c.run.run p = (.error e, q)) :
    (discard c).run.run p = (.error e, q) := by
  simp only [Functor.discard, Functor.mapConst, ExceptT.run, StateT.run, Function.comp_apply,
    ExceptT.map, ExceptT.mk, bind, StateT.bind] at h ⊢
  rw [h]
  rfl

theorem run_get {k : Program → Build α} : (get >>= k).run.run p = (k p).run.run p := rfl

theorem run_set {k : PUnit → Build α} : (set q >>= k).run.run p = (k ⟨⟩).run.run q := rfl

theorem body?_sealed : (p.sealed f).body? g = p.body? g := by
  simp only [sealed]
  split <;> rfl

def Yields (p : Program) (s : BuildStep) : Prop :=
  p.Effect s (s.build.run.run p).1 (s.build.run.run p).2

theorem yields_refused {e : BuildFault} (h : s.build.run.run p = (.error e, p)) : p.Yields s := by
  rw [Yields, h]
  exact .refused e

theorem yields_addFunction (name module : String) (params : List Parameter) :
    p.Yields (.addFunction name module params) := by
  cases h : p.functionNamed? name with
  | none =>
      rw [Yields, BuildStep.build, run_discard_of_perform (perform_addFunction h)]
      exact .addFunction module params h
  | some f =>
      refine yields_refused (e := .addedTwice name) (run_discard_of_error ?_)
      simp only [addFunction, run_get, h, Option.isSome_some, if_true]
      rfl

theorem yields_beginBody (f : Nat) : p.Yields (.beginBody f) := by
  cases hopen : p.openBody with
  | some g =>
      refine yields_refused (e := .bodyOpen) ?_
      simp only [BuildStep.build, beginBody, run_get, hopen, Option.isSome_some, if_true]
      rfl
  | none =>
      cases hg : p.functions[f]? with
      | none =>
          refine yields_refused (e := .outOfRange) ?_
          simp only [BuildStep.build, beginBody, run_get, hopen, hg, Option.isSome_none,
            Bool.false_eq_true, if_false]
          rfl
      | some g =>
          cases hb : g.body with
          | some b =>
              refine yields_refused (e := .bodyPresent) ?_
              simp only [BuildStep.build, beginBody, run_get, hopen, hg, hb, Option.isSome_none,
                Bool.false_eq_true, if_false, Option.isSome_some, if_true]
              rfl
          | none =>
              have hf : p.Awaits f :=
                ⟨hopen, (Array.getElem?_eq_some_iff.mp hg).1, by simp [body?, hg, hb]⟩
              rw [Yields, BuildStep.build, run_of_perform (perform_beginBody hf)]
              exact .beginBody hf

theorem yields_push (i : Instruction) : p.Yields (.push i) := by
  cases hopen : p.openBody with
  | none =>
      refine yields_refused (e := .noOpenBody) (run_discard_of_error ?_)
      simp only [push, run_get, hopen]
      rfl
  | some f =>
      cases hi : Instruction.fault? { i with function := f } with
      | none =>
          have hnumbered := Instruction.fault?_eq_none_iff.mp hi
          have hproper : i.Proper := ⟨hnumbered.shape, hnumbered.callee, hnumbered.targets⟩
          rw [Yields, BuildStep.build, run_discard_of_perform (perform_push hopen hproper)]
          exact .push hopen hproper
      | some e =>
          refine yields_refused (e := e) (run_discard_of_error ?_)
          simp only [push, run_get, hopen, hi]
          rfl

theorem yields_setTargets (n : Nat) (ts : List Nat) : p.Yields (.setTargets n ts) := by
  cases hi : p.instructions[n]? with
  | none =>
      refine yields_refused (e := .outOfRange) ?_
      simp only [BuildStep.build, setTargets, run_get, hi]
      rfl
  | some i =>
      by_cases hop : i.op = .branch
      · have hrun : (BuildStep.setTargets n ts).build.run.run p = (.ok (), { p with
            instructions := p.instructions.setIfInBounds n { i with targets := ts } }) := by
          simp only [BuildStep.build, setTargets, run_get, hi, hop, ne_eq, not_true_eq_false,
            if_false]
          rfl
        rw [Yields, hrun]
        exact .setTargets ts hi hop
      · refine yields_refused (e := .notABranch) ?_
        simp only [BuildStep.build, setTargets, run_get, hi, ne_eq, hop, not_false_eq_true, if_true]
        rfl

theorem yields_endBody : p.Yields .endBody := by
  cases hopen : p.openBody with
  | none =>
      refine yields_refused (e := .nothingToEnd) ?_
      simp only [BuildStep.build, endBody, run_get, hopen]
      rfl
  | some f =>
      cases hb : p.body? f with
      | none =>
          refine yields_refused (e := .outOfRange) ?_
          simp only [BuildStep.build, endBody, run_get, hopen, sealed_eq, body?_sealed, hb]
          rfl
      | some b =>
          cases hstrays : (p.finished f b).strays ⟨b.first, (p.sealed f).size⟩ with
          | nil =>
              have hrun := run_of_perform
                (perform_endBody_eq hopen (body?_sealed.trans hb) hstrays)
              rw [Yields, BuildStep.build, hrun]
              exact .endBody hopen hb (fun _ => hstrays)
          | cons n ns =>
              have hrun : BuildStep.endBody.build.run.run p =
                  (.error (.leaves n ((p.finished f b).nameOf f)), p.finished f b) := by
                simp only [finished] at hstrays
                simp only [BuildStep.build, endBody, run_get, hopen, sealed_eq, body?_sealed, hb,
                  run_set, hstrays]
                rfl
              rw [Yields, hrun]
              exact .endBody hopen hb (fun hok => by cases hok)

theorem effect (p : Program) (s : BuildStep) :
    p.Effect s (s.build.run.run p).1 (s.build.run.run p).2 := by
  cases s with
  | addGlobal name => exact .addGlobal name
  | addFunction name module params => exact yields_addFunction name module params
  | beginBody f => exact yields_beginBody f
  | push i => exact yields_push i
  | setTargets n ts => exact yields_setTargets n ts
  | endBody => exact yields_endBody

end Effects

end Program

end Interproc
