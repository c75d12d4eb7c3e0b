import SvgPress.Proofs.Pipeline.Convergence

/-!
How a run ends. What one pass does is said by rules of its own: the active steps are applied in
order, and the first that fails ends the pass. A run that repeats its passes ends with the first
document that a pass leaves as it is, with the first step that fails, or with the last pass that is
allowed, whichever comes first, and there is no other way for it to end.
-/

namespace SvgPress.Pipeline

/-- What one pass over some steps makes of a document. -/
inductive Passes : List Step → Document → Document → Prop where
  | nil (doc : Document) : Passes [] doc doc
  /-- A step that is not active is passed over. -/
  | idle {step : Step} {rest : List Step} {doc last : Document} (hidle : step.active = false)
      (hrest : Passes rest doc last) : Passes (step :: rest) doc last
  | active {step : Step} {rest : List Step} {doc next last : Document}
      (hactive : step.active = true) (hstep : step.apply doc = .ok next)
      (hrest : Passes rest next last) : Passes (step :: rest) doc last

/-- The fault of the first step that fails in a pass, under the label of that step. -/
inductive Fails : List Step → Document → RunFault → Prop where
  | idle {step : Step} {rest : List Step} {doc : Document} {fault : RunFault}
      (hidle : step.active = false) (hrest : Fails rest doc fault) : Fails (step :: rest) doc fault
  | here {step : Step} {rest : List Step} {doc : Document} {fault : PassFault}
      (hactive : step.active = true) (hstep : step.apply doc = .error fault) :
      Fails (step :: rest) doc ⟨step.label, fault⟩
  | later {step : Step} {rest : List Step} {doc next : Document} {fault : RunFault}
      (hactive : step.active = true) (hstep : step.apply doc = .ok next)
      (hrest : Fails rest next fault) : Fails (step :: rest) doc fault

/-- What so many passes make of a document. -/
inductive Repeats (steps : List Step) : Nat → Document → Document → Prop where
  | zero (doc : Document) : Repeats steps 0 doc doc
  | succ {n : Nat} {doc next last : Document} (hpass : Passes steps doc next)
      (hrest : Repeats steps n next last) : Repeats steps (n + 1) doc last

/-- Whether each of the first `n` passes that can be made changes something. -/
def Moves (steps : List Step) (n : Nat) (doc : Document) : Prop :=
  ∀ m < n, ∀ last, Repeats steps m doc last → ¬ Passes steps last last

/-! ### One pass -/

theorem once_idle {step : Step} {rest : List Step} (hidle : step.active = false) (doc : Document) :
    once (step :: rest) doc = once rest doc := by
  rw [once, List.filter_cons_of_neg (by simp [hidle]), once]

theorem once_active {step : Step} {rest : List Step} (hactive : step.active = true)
    (doc : Document) : once (step :: rest) doc =
      ((step.apply doc).mapError fun fault => ⟨step.label, fault⟩).bind (once rest) := by
  rw [once, List.filter_cons_of_pos hactive, List.foldlM_cons]
  rfl

theorem once_of_passes {steps : List Step} {doc last : Document} (h : Passes steps doc last) :
    once steps doc = .ok last := by
  induction h with
  | nil doc => rfl
  | idle hidle _ ih => rw [once_idle hidle, ih]
  | active hactive hstep _ ih =>
      rw [once_active hactive, hstep]
      exact ih

theorem once_of_fails {steps : List Step} {doc : Document} {fault : RunFault}
    (h : Fails steps doc fault) : once steps doc = .error fault := by
  induction h with
  | idle hidle _ ih => rw [once_idle hidle, ih]
  | here hactive hstep =>
      rw [once_active hactive, hstep]
      rfl
  | later hactive hstep _ ih =>
      rw [once_active hactive, hstep]
      exact ih

/-- A pass either reaches its end or comes to a step that fails. -/
theorem passes_or_fails (steps : List Step) (doc : Document) :
    (∃ last, Passes steps doc last) ∨ ∃ fault, Fails steps doc fault := by
  induction steps generalizing doc with
  | nil => exact .inl ⟨doc, .nil doc⟩
  | cons step rest ih =>
      cases hactive : step.active with
      | false =>
          exact (ih doc).imp (fun ⟨last, h⟩ => ⟨last, .idle hactive h⟩)
            fun ⟨fault, h⟩ => ⟨fault, .idle hactive h⟩
      | true =>
          cases hstep : step.apply doc with
          | error fault => exact .inr ⟨_, .here hactive hstep⟩
          | ok next =>
              exact (ih next).imp (fun ⟨last, h⟩ => ⟨last, .active hactive hstep h⟩)
                fun ⟨fault, h⟩ => ⟨fault, .later hactive hstep h⟩

theorem Passes.unique {steps : List Step} {doc last other : Document} (h : Passes steps doc last)
    (hother : Passes steps doc other) : other = last :=
  Except.ok.inj ((once_of_passes hother).symm.trans (once_of_passes h))

/-! ### Repeated passes -/

section Repeated

variable {steps : List Step} {n left done : Nat} {doc next last : Document}

theorem moves_zero (steps : List Step) (doc : Document) : Moves steps 0 doc :=
  fun m hm => absurd hm m.not_lt_zero

theorem Moves.succ (hpass : Passes steps doc next) (hmoves : next ≠ doc)
    (h : Moves steps n next) : Moves steps (n + 1) doc := by
  intro m hm last hrun
  cases hrun with
  | zero => exact fun hfixed => hmoves (hfixed.unique hpass)
  | succ hfirst hrest =>
      rw [hpass.unique hfirst] at hrest
      exact h _ (Nat.lt_of_succ_lt_succ hm) last hrest

theorem Repeats.snoc (hrun : Repeats steps n doc next) (hpass : Passes steps next last) :
    Repeats steps (n + 1) doc last := by
  induction hrun with
  | zero doc => exact .succ hpass (.zero last)
  | succ hfirst _ ih => exact .succ hfirst (ih hpass)

/-- Passes that all change something are made one after the other. -/
theorem converge_add (hrun : Repeats steps n doc last) (hmoves : Moves steps n doc)
    (left done : Nat) : converge (once steps) (n + left) done doc =
      converge (once steps) left (done + n) last := by
  induction hrun generalizing done with
  | zero doc => rw [Nat.zero_add, Nat.add_zero]
  | @succ n doc next last hpass hrest ih =>
      have hne : next ≠ doc := fun hsame =>
        hmoves 0 n.succ_pos doc (.zero doc) (by rwa [hsame] at hpass)
      have hlater : Moves steps n next := fun m hm mid hmid =>
        hmoves (m + 1) (Nat.succ_lt_succ hm) mid (.succ hpass hmid)
      rw [Nat.add_right_comm, converge_succ, once_of_passes hpass, Except.bind, if_neg hne,
        ih hlater, Nat.add_assoc, Nat.add_comm 1]

theorem converge_of_fixed (hn : n < left) (hrun : Repeats steps n doc last)
    (hfixed : Passes steps last last) (hmoves : Moves steps n doc) :
    converge (once steps) left done doc = .ok (last, .converged (done + n + 1)) := by
  obtain ⟨rest, rfl⟩ := Nat.exists_eq_add_of_lt hn
  rw [Nat.add_assoc, converge_add hrun hmoves, converge_succ, once_of_passes hfixed, Except.bind,
    if_pos rfl]

theorem converge_of_moves (hrun : Repeats steps left doc last) (hmoves : Moves steps left doc) :
    converge (once steps) left done doc = .ok (last, .limitReached (done + left)) :=
  converge_add hrun hmoves 0 done

theorem converge_of_fails {fault : RunFault} (hn : n < left) (hrun : Repeats steps n doc last)
    (hfails : Fails steps last fault) (hmoves : Moves steps n doc) :
    converge (once steps) left done doc = .error fault := by
  obtain ⟨rest, rfl⟩ := Nat.exists_eq_add_of_lt hn
  rw [Nat.add_assoc, converge_add hrun hmoves, converge_succ, once_of_fails hfails, Except.bind]

/-- Of some passes one is the first that leaves a document as it is, or one is the first that
fails, or all of them change something. -/
theorem fixed_or_fails_or_moves (steps : List Step) (n : Nat) (doc : Document) :
    (∃ m < n, ∃ last, Repeats steps m doc last ∧ Passes steps last last ∧ Moves steps m doc) ∨
      (∃ m < n, ∃ last fault,
        Repeats steps m doc last ∧ Fails steps last fault ∧ Moves steps m doc) ∨
      ∃ last, Repeats steps n doc last ∧ Moves steps n doc := by
  induction n generalizing doc with
  | zero => exact .inr (.inr ⟨doc, .zero doc, moves_zero steps doc⟩)
  | succ n ih =>
      rcases passes_or_fails steps doc with ⟨next, hpass⟩ | ⟨fault, hfails⟩
      · by_cases hsame : next = doc
        · rw [hsame] at hpass
          exact .inl ⟨0, n.succ_pos, doc, .zero doc, hpass, moves_zero steps doc⟩
        · rcases ih next with ⟨m, hm, last, hrun, hfixed, hmoves⟩ |
            ⟨m, hm, last, fault, hrun, hfails, hmoves⟩ | ⟨last, hrun, hmoves⟩
          · exact .inl ⟨m + 1, Nat.succ_lt_succ hm, last, .succ hpass hrun, hfixed,
              hmoves.succ hpass hsame⟩
          · exact .inr (.inl ⟨m + 1, Nat.succ_lt_succ hm, last, fault, .succ hpass hrun, hfails,
              hmoves.succ hpass hsame⟩)
          · exact .inr (.inr ⟨last, .succ hpass hrun, hmoves.succ hpass hsame⟩)
      · exact .inr (.inl ⟨0, n.succ_pos, doc, fault, .zero doc, hfails, moves_zero steps doc⟩)

end Repeated

/-! ### Runs -/

section Runs

variable {steps : List Step} {options : RunOptions} {doc last : Document}

theorem settle_single (h : options.multipass = false) :
    settle steps options doc = (once steps doc).map fun doc => (doc, .single) := by
  rw [settle, h]
  rfl

theorem settle_repeated (h : options.multipass = true) :
    settle steps options doc = converge (once steps) (max 1 options.maxPasses) 0 doc :=
  if_pos h

/-- A run that does not fail has made as many passes as it says. -/
theorem repeats_of_settle {outcome : Outcome}
    (h : settle steps options doc = .ok (last, outcome)) :
    Repeats steps outcome.passes doc last ∧
      ∀ n, outcome = .converged n → options.multipass = true ∧ Passes steps last last := by
  cases hmultipass : options.multipass with
  | false =>
      rw [settle_single hmultipass] at h
      rcases passes_or_fails steps doc with ⟨next, hpass⟩ | ⟨fault, hfails⟩
      · rw [once_of_passes hpass] at h
        cases h
        exact ⟨.succ hpass (.zero _), fun _ heq => by cases heq⟩
      · rw [once_of_fails hfails] at h
        cases h
  | true =>
      rw [settle_repeated hmultipass] at h
      rcases fixed_or_fails_or_moves steps (max 1 options.maxPasses) doc with
        ⟨n, hn, mid, hrun, hfixed, hmoves⟩ | ⟨n, hn, mid, fault, hrun, hfails, hmoves⟩ |
        ⟨mid, hrun, hmoves⟩
      · rw [converge_of_fixed hn hrun hfixed hmoves, Nat.zero_add] at h
        cases h
        exact ⟨hrun.snoc hfixed, fun _ _ => ⟨rfl, hfixed⟩⟩
      · rw [converge_of_fails hn hrun hfails hmoves] at h
        cases h
      · rw [converge_of_moves hrun hmoves, Nat.zero_add] at h
        cases h
        exact ⟨hrun, fun _ heq => by cases heq⟩

/-- How a run ends. A single pass gives its document or its first fault. Of repeated passes the
first that changes nothing ends the run; if none does, the last that is allowed ends it; and
otherwise one of them comes to a step that fails. Whenever there is markup, it is written for the
document after as many passes as the outcome says, and a run that converged ends on its own document
at once, with the same markup. -/
theorem run_ends (steps : List Step) (options : RunOptions) (doc : Document) :
    let limit := max 1 options.maxPasses
    let result := (run steps options doc).value
    (options.multipass = false →
      ((∃ optimized, result = .ok optimized) ↔ ∃ last, Passes steps doc last) ∧
      (∀ last, Passes steps doc last → result = .ok ⟨last.write options.layout, .single⟩) ∧
      ∀ fault, Fails steps doc fault → result = .error fault) ∧
    (options.multipass = true →
      (∀ n < limit, ∀ last, Repeats steps n doc last → Passes steps last last → Moves steps n doc →
        result = .ok ⟨last.write options.layout, .converged (n + 1)⟩) ∧
      (∀ last, Repeats steps limit doc last → Moves steps limit doc →
        result = .ok ⟨last.write options.layout, .limitReached limit⟩) ∧
      ((¬ ∃ n < limit, ∃ last, Repeats steps n doc last ∧ Passes steps last last) →
        (¬ ∃ last, Repeats steps limit doc last ∧ Moves steps limit doc) →
        ∃ n < limit, ∃ last fault,
          Repeats steps n doc last ∧ Fails steps last fault ∧ result = .error fault)) ∧
    ∀ optimized, result = .ok optimized → ∃ last, Repeats steps optimized.outcome.passes doc last ∧
      optimized.markup = last.write options.layout ∧
      ∀ n, optimized.outcome = .converged n →
        (run steps options last).value = .ok ⟨optimized.markup, .converged 1⟩ := by
  intro limit result
  have hresult : result = (settle steps options doc).map _ := value_run steps options doc
  refine ⟨fun hsingle => ?single, fun hrepeat => ?repeated, fun optimized hok => ?written⟩
  case single =>
    rw [settle_single hsingle] at hresult
    have hpasses (last : Document) (h : Passes steps doc last) :
        result = .ok ⟨last.write options.layout, .single⟩ := by
      rw [hresult, once_of_passes h]
      rfl
    have hfails (fault : RunFault) (h : Fails steps doc fault) : result = .error fault := by
      rw [hresult, once_of_fails h]
      rfl
    refine ⟨⟨?_, fun ⟨last, h⟩ => ⟨_, hpasses last h⟩⟩, hpasses, hfails⟩
    rintro ⟨optimized, hok⟩
    refine (passes_or_fails steps doc).resolve_right ?_
    rintro ⟨fault, h⟩
    rw [hfails fault h] at hok
    cases hok
  case repeated =>
    rw [settle_repeated hrepeat] at hresult
    refine ⟨?_, ?_, fun hfixed hmoves => ?_⟩
    · intro n hn last hrun hfixed hmoves
      rw [hresult, converge_of_fixed hn hrun hfixed hmoves, Nat.zero_add]
      rfl
    · intro last hrun hmoves
      rw [hresult, converge_of_moves hrun hmoves, Nat.zero_add]
      rfl
    · rcases fixed_or_fails_or_moves steps limit doc with ⟨n, hn, last, hrun, hlast, -⟩ |
        ⟨n, hn, last, fault, hrun, hfails, hbefore⟩ | ⟨last, hrun, hall⟩
      · exact absurd ⟨n, hn, last, hrun, hlast⟩ hfixed
      · refine ⟨n, hn, last, fault, hrun, hfails, ?_⟩
        rw [hresult, converge_of_fails hn hrun hfails hbefore]
        rfl
      · exact absurd ⟨last, hrun, hall⟩ hmoves
  case written =>
    rw [hresult] at hok
    cases hsettle : settle steps options doc with
    | error fault =>
        rw [hsettle] at hok
        cases hok
    | ok ended =>
        obtain ⟨last, outcome⟩ := ended
        rw [hsettle] at hok
        cases hok
        obtain ⟨hrun, hconverged⟩ := repeats_of_settle hsettle
        refine ⟨last, hrun, rfl, fun n heq => ?_⟩
        obtain ⟨hrepeat, hfixed⟩ := hconverged n heq
        rw [value_run, settle_repeated hrepeat, converge_of_fixed
          (Nat.lt_of_lt_of_le Nat.one_pos (Nat.le_max_left 1 _)) (.zero last) hfixed
          (moves_zero steps last)]
        rfl

end Runs

end SvgPress.Pipeline
