import Mathlib.Logic.Function.Iterate
import SvgPress.Pipeline

/-!
Running steps until nothing changes. A run that converged ended on a document that one more pass
leaves as it is, and it took a single pass exactly if it began on one. Passes that cannot fail are
applied as often as the run says.
-/

namespace SvgPress

theorem Logged.value_bind {α β : Type} (x : Logged α) (f : α → Logged β) :
    (x >>= f).value = (f x.value).value :=
  rfl

theorem Logged.value_pure {α : Type} (a : α) : (pure a : Logged α).value = a :=
  rfl

namespace Pipeline

variable {ε : Type} {f : Document → Except ε Document} {left done passes : Nat}
  {doc last : Document}

theorem converge_succ (f : Document → Except ε Document) (left done : Nat) (doc : Document) :
    converge f (left + 1) done doc = (f doc).bind fun next =>
      if next = doc then .ok (next, .converged (done + 1)) else converge f left (done + 1) next :=
  rfl

/-- What is true at the beginning and stays true in a pass is true in the end, and so is that
nothing changes any more. -/
theorem converged_of_invariant {p : Document → Prop}
    (hp : ∀ doc next, p doc → f doc = .ok next → p next)
    (hdoc : p doc) (h : converge f left done doc = .ok (last, .converged passes)) :
    p last ∧ f last = .ok last ∧ done < passes := by
  induction left generalizing done doc with
  | zero => cases h
  | succ left ih =>
      rw [converge_succ] at h
      cases hnext : f doc with
      | error fault =>
          rw [hnext] at h
          cases h
      | ok next =>
          rw [hnext, Except.bind] at h
          split at h
          · rename_i hsame
            cases h
            rw [← hsame] at hnext
            exact ⟨hsame ▸ hdoc, hsame ▸ hnext, Nat.lt_succ_self done⟩
          · obtain ⟨hlast, hfixed, hless⟩ := ih (hp doc next hdoc hnext) h
            exact ⟨hlast, hfixed, Nat.lt_of_succ_lt hless⟩

/-- A single pass is enough for the documents that it leaves as they are. -/
theorem converged_once_iff :
    converge f (left + 1) 0 doc = .ok (last, .converged 1) ↔ f doc = .ok doc ∧ last = doc := by
  rw [converge_succ]
  constructor
  · intro h
    cases hnext : f doc with
    | error fault =>
        rw [hnext] at h
        cases h
    | ok next =>
        rw [hnext, Except.bind] at h
        split at h
        · rename_i hsame
          cases h
          exact ⟨by rw [hsame], hsame⟩
        · have hless :=
              (converged_of_invariant (p := fun _ => True) (fun _ _ _ _ => trivial) trivial
            h).2.2
          exact absurd hless (Nat.lt_irrefl 1)
  · rintro ⟨hsame, rfl⟩
    rw [hsame, Except.bind, if_pos rfl]

/-- A pass that cannot fail is applied as often as the outcome says. -/
theorem converge_total {pass : Document → Document} (hpass : ∀ doc, f doc = .ok (pass doc))
    (left done : Nat) (doc : Document) : ∃ n outcome, converge f left done doc =
      .ok (pass^[n] doc, outcome) ∧ outcome.passes = done + n ∧ (left ≠ 0 → n ≠ 0) := by
  induction left generalizing done doc with
  | zero => exact ⟨0, .limitReached done, rfl, rfl, fun h => absurd rfl h⟩
  | succ left ih =>
      rw [converge_succ, hpass, Except.bind]
      split
      · exact ⟨1, .converged (done + 1), rfl, rfl, fun _ => Nat.one_ne_zero⟩
      · obtain ⟨n, outcome, hrun, hpasses, -⟩ := ih (done + 1) (pass doc)
        refine ⟨n + 1, outcome, hrun, ?_, fun _ => n.succ_ne_zero⟩
        rw [hpasses, Nat.add_assoc, Nat.add_comm 1]

/-- Where two passes are allowed, the document in the end is one after two passes: a run that ends
after the first has found that the next one changes nothing. -/
theorem converge_twice {ε : Type} {f : Document → Except ε Document} {pass : Document → Document}
    (hpass : ∀ doc, f doc = .ok (pass doc)) (left done : Nat) (doc : Document) :
    ∃ n outcome, converge f (left + 2) done doc = .ok (pass^[n] (pass (pass doc)), outcome) := by
  rw [converge_succ, hpass, Except.bind]
  split
  · rename_i hsame
    exact ⟨0, .converged (done + 1), by rw [Function.iterate_zero_apply, hsame, hsame]⟩
  · obtain ⟨n, outcome, hrun, -, hsome⟩ := converge_total hpass (left + 1) (done + 1) (pass doc)
    obtain ⟨k, rfl⟩ := Nat.exists_eq_succ_of_ne_zero (hsome (Nat.succ_ne_zero left))
    exact ⟨k, outcome, hrun⟩

/-- Steps that cannot fail are run at least once, and as often as the outcome says. -/
theorem settle_total {steps : List Step} {pass : Document → Document}
    (hpass : ∀ doc, once steps doc = .ok (pass doc)) (options : RunOptions) (doc : Document) :
    ∃ outcome, settle steps options doc = .ok (pass^[outcome.passes] doc, outcome) ∧
      outcome.passes ≠ 0 := by
  rw [settle]
  split
  · obtain ⟨n, outcome, hrun, hpasses, hsome⟩ :=
      converge_total hpass (max 1 options.maxPasses) 0 doc
    rw [Nat.zero_add] at hpasses
    rw [← hpasses] at hrun hsome
    exact ⟨outcome, hrun, hsome (Nat.ne_of_gt (Nat.le_max_left 1 _))⟩
  · refine ⟨.single, ?_, Nat.one_ne_zero⟩
    rw [hpass]
    rfl

theorem value_run (steps : List Step) (options : RunOptions) (doc : Document) :
    (run steps options doc).value = (settle steps options doc).map fun (last, outcome) =>
      ⟨last.write options.layout, outcome⟩ := by
  rw [run]
  cases settle steps options doc with
  | error fault => rfl
  | ok result =>
      obtain ⟨last, outcome⟩ := result
      cases outcome <;> rfl

end Pipeline

namespace Optimizer

/-- What an optimizer gives is what is written for the document on which it ends. -/
theorem optimize_ok_iff {optimizer : Optimizer} {path : Path} {source : String}
    {optimized : Optimized} :
    (optimizer.optimize path source).value = .ok optimized ↔
      ∃ doc last, Document.parse source = .ok doc ∧
        Pipeline.settle (Pipeline.stepsForFile optimizer.steps path).value optimizer.options doc =
          .ok (last, optimized.outcome) ∧
        optimized.markup = last.write optimizer.options.layout := by
  rw [optimize, Logged.value_bind]
  cases Document.parse source with
  | error fault => exact iff_of_false (fun h => by cases h) fun ⟨_, _, h, _⟩ => by cases h
  | ok doc =>
      simp only [Logged.value_bind, Pipeline.value_run, Except.ok.injEq, exists_and_left,
        exists_eq_left']
      cases Pipeline.settle (Pipeline.stepsForFile optimizer.steps path).value optimizer.options
          doc with
      | error fault => exact iff_of_false (fun h => by cases h) fun ⟨_, h, _⟩ => by cases h
      | ok result =>
          obtain ⟨last, outcome⟩ := result
          obtain ⟨markup, expected⟩ := optimized
          simp only [Except.map, Logged.value_pure, Except.ok.injEq, Optimized.mk.injEq,
            Prod.mk.injEq]
          constructor
          · rintro ⟨rfl, rfl⟩
            exact ⟨last, ⟨rfl, rfl⟩, rfl⟩
          · rintro ⟨_, ⟨rfl, rfl⟩, rfl⟩
            exact ⟨rfl, rfl⟩

end Optimizer

end SvgPress
