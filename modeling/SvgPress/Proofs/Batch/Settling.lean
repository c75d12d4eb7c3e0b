import Mathlib.Algebra.Ring.Nat
import Mathlib.Data.List.Induction
import SvgPress.Batch
import SvgPress.Proofs.Pipeline.Convergence

/-!
The result of a batch does not depend on how its tasks were scheduled. A result that comes in goes
to the slot of its task and nowhere else, so that the slots in the end tell for each task what it
reported, whenever that was. A task that is never heard of leaves its slot empty and counts as one
failure, under its own path even where that path was given twice.
-/

namespace SvgPress.Batch

/-- The failure of a task, if it has failed. -/
def failure? : FileResult → Option FileFailure
  | .ok _ => none
  | .error failure => some failure

/-- What the tasks for some paths come to, in the order of the paths: each has reported its outcome,
or it is lost and counts as aborted. -/
def ended (paths : List Path) (outcome : Nat → FileResult) (lost : Nat → Bool) : List FileResult :=
  paths.zipIdx.map fun (path, i) =>
    if lost i then .error (.aborted path "task panicked or was cancelled") else outcome i

/-- The batch that some results make up. -/
def ofResults (results : List FileResult) : Batch :=
  let files := results.filterMap Except.toOption
  ⟨files, results.filterMap failure?, (files.map (·.sourceSize)).sum,
    (files.map (·.compressedSize)).sum⟩

section Slots

variable {α : Type} (outcome : Nat → α)

theorem slots_append (count : Nat) (earlier later : List (Nat × α)) :
    slots count (earlier ++ later) =
      later.foldl (fun slots (i, a) => slots.set i (some a)) (slots count earlier) := by
  rw [slots, List.foldl_append]
  rfl

theorem length_slots (count : Nat) (settled : List (Nat × α)) :
    (slots count settled).length = count := by
  induction settled using List.reverseRecOn with
  | nil => exact List.length_replicate
  | append_singleton earlier last ih =>
      rw [slots_append, List.foldl_cons, List.foldl_nil, List.length_set, ih]

/-- Once some tasks have reported, in whatever order, the slot of a task holds its outcome if it is
one of them, and nothing otherwise. -/
theorem get_slots {count i : Nat} (order : List Nat) (hi : i < count) :
    (slots count (order.map fun i => (i, outcome i)))[i]? =
      some (if i ∈ order then some (outcome i) else none) := by
  induction order using List.reverseRecOn with
  | nil => simp [slots, hi]
  | append_singleton earlier last ih =>
      rw [List.map_append, slots_append, List.map_singleton, List.foldl_cons, List.foldl_nil]
      by_cases hlast : last = i
      · subst hlast
        rw [List.getElem?_set_self (by rw [length_slots]; exact hi), if_pos (by simp)]
      · rw [List.getElem?_set_ne hlast, ih]
        simp only [List.mem_append, List.mem_singleton, Ne.symm hlast, or_false]

/-- The slots in the end, for any order in which the tasks that are not lost report. -/
theorem slots_of_perm {count : Nat} {lost : Nat → Bool} {order : List Nat}
    (horder : order.Perm ((List.range count).filter fun i => !lost i)) :
    slots count (order.map fun i => (i, outcome i)) =
      (List.range count).map fun i => if lost i then none else some (outcome i) := by
  refine List.ext_getElem? fun i => ?_
  by_cases hi : i < count
  · have hmem : i ∈ order ↔ ¬ lost i := by
      rw [horder.mem_iff]
      simp [hi]
    rw [get_slots outcome order hi, List.getElem?_map, List.getElem?_range hi, Option.map_some]
    cases hlost : lost i <;> simp [hmem, hlost]
  · rw [List.getElem?_eq_none (by rw [length_slots]; omega), List.getElem?_eq_none (by simp; omega)]

end Slots

theorem value_add (results : List FileResult) (path : Path) (slot : Option FileResult) :
    ((ofResults results).add path slot).value =
      ofResults (results ++
        [slot.getD (.error (.aborted path "task panicked or was cancelled"))]) := by
  unfold add
  cases slot.getD (.error (.aborted path "task panicked or was cancelled")) with
  | ok file => simp [ofResults, failure?, Logged.value_pure, Except.toOption]
  | error failure =>
      have hnone : Except.toOption (.error failure : FileResult) = none := rfl
      simp [ofResults, failure?, Logged.value_bind, Logged.value_pure, hnone]

theorem value_add_all (results : List FileResult) (pairs : List (Path × Option FileResult)) :
    ((ofResults results).addAll pairs).value =
      ofResults (results ++ pairs.map fun (path, slot) =>
        slot.getD (.error (.aborted path "task panicked or was cancelled"))) := by
  induction pairs generalizing results with
  | nil => simp [addAll, Logged.value_pure]
  | cons pair pairs ih =>
      rw [addAll, Logged.value_bind, value_add, ih, List.map_cons, List.append_assoc,
        List.singleton_append]

theorem value_reduce (paths : List Path) (slots : List (Option FileResult)) :
    (reduce paths slots).value =
      ofResults ((paths.zip slots).map fun (path, slot) =>
        slot.getD (.error (.aborted path "task panicked or was cancelled"))) := by
  have hempty : empty = ofResults [] := rfl
  rw [reduce, Logged.value_bind, Logged.value_bind, Logged.value_pure, hempty, value_add_all,
    List.nil_append]

/-- No result is lost on the way to the batch. -/
theorem length_of_results (results : List FileResult) :
    (ofResults results).files.length + (ofResults results).failures.length = results.length := by
  induction results with
  | nil => rfl
  | cons result results ih =>
      cases result with
      | ok file =>
          simp only [ofResults, List.filterMap_cons, Except.toOption, failure?, List.length_cons]
            at ih ⊢
          omega
      | error failure =>
          simp only [ofResults, List.filterMap_cons, Except.toOption, failure?, List.length_cons]
            at ih ⊢
          omega

/-- The batch of a run is what its tasks came to, in whatever order they reported. -/
theorem value_reduce_slots {paths : List Path} {outcome : Nat → FileResult} (lost : Nat → Bool)
    {order : List Nat}
    (horder : order.Perm ((List.range paths.length).filter fun i => !lost i)) :
    (reduce paths (slots paths.length (order.map fun i => (i, outcome i)))).value =
      ofResults (ended paths outcome lost) := by
  have hzip : paths.zip (List.range paths.length) = paths.zipIdx := by
    rw [List.zipIdx_eq_zip_range', List.range_eq_range']
  rw [value_reduce, slots_of_perm outcome horder, List.zip_map_right, List.map_map, hzip, ended]
  congr 1
  refine List.map_congr_left fun (path, i) _ => ?_
  cases hlost : lost i <;> simp [hlost]

/-- The batch of some files is what their tasks come to, in any order in which they report. -/
theorem process_any_order (optimizer : Optimizer) (convert : Converter) (files : Files)
    {paths : List Path} {outcome : Nat → FileResult} {order : List Nat}
    (houtcome : ∀ i path, paths[i]? = some path →
      outcome i = (optimizer.task convert files path).value)
    (horder : order.Perm (List.range paths.length)) :
    (process optimizer convert files paths).value =
      (reduce paths (slots paths.length (order.map fun i => (i, outcome i)))).value := by
  have hsettled : (paths.zipIdx.map fun (path, i) =>
        (i, (optimizer.task convert files path).value)) =
      (List.range paths.length).map fun i => (i, outcome i) := by
    refine List.ext_getElem? fun i => ?_
    rw [List.getElem?_map, List.getElem?_map, List.getElem?_zipIdx]
    cases hpath : paths[i]? with
    | none =>
        have hlength : paths.length ≤ i := List.getElem?_eq_none_iff.mp hpath
        rw [List.getElem?_eq_none (by rw [List.length_range]; exact hlength)]
        rfl
    | some path =>
        obtain ⟨hi, -⟩ := List.getElem?_eq_some_iff.mp hpath
        simp [List.getElem?_range hi, houtcome i path hpath]
  let none_lost : Nat → Bool := fun _ => false
  have hall : (List.range paths.length).filter (fun i => !none_lost i) =
      List.range paths.length := by simp [none_lost]
  rw [process, Logged.value_bind, hsettled, value_reduce_slots none_lost (by rw [hall]),
    value_reduce_slots none_lost (by rw [hall]; exact horder)]

/-- Whichever tasks are lost and in whatever order the others report, the batch has the outcomes of
the tasks in the order of the input: the files that succeeded, the failures, among them one for each
lost task under its own path, and the sizes of these files in total. -/
theorem reduce_any_order (paths : List Path) (outcome : Nat → FileResult) (lost : Nat → Bool)
    (order : List Nat)
    (horder : order.Perm ((List.range paths.length).filter fun i => !lost i)) :
    let results := paths.zipIdx.map fun (path, i) =>
      if lost i then .error (.aborted path "task panicked or was cancelled") else outcome i
    let batch := (reduce paths (slots paths.length (order.map fun i => (i, outcome i)))).value
    batch.files = results.filterMap Except.toOption ∧
      batch.failures = results.filterMap failure? ∧
      batch.files.length + batch.failures.length = paths.length ∧
      batch.sourceTotal = (batch.files.map (·.sourceSize)).sum ∧
      batch.compressedTotal = (batch.files.map (·.compressedSize)).sum := by
  intro results batch
  have hbatch : batch = ofResults results := value_reduce_slots lost horder
  have hlength : results.length = paths.length := by simp [results]
  rw [hbatch]
  exact ⟨rfl, rfl, (length_of_results results).trans hlength, rfl, rfl⟩

/-- A file of some sizes that was processed. -/
def sampleFile (path : Path) (sourceSize compressedSize : Nat) : FileOutput :=
  ⟨path, ⟨""⟩, "A", sourceSize, compressedSize, "", .single, "<svg/>", "<svg />"⟩

/-- One path is given twice. The task for its second place is lost, and the last task reports
first. -/
theorem reduce_any_order_repeated :
    let paths : List Path := [⟨"a.svg"⟩, ⟨"b.svg"⟩, ⟨"a.svg"⟩, ⟨"c.svg"⟩]
    let outcome : Nat → FileResult := fun
      | 0 => .ok (sampleFile ⟨"a.svg"⟩ 10 6)
      | 1 => .error (.timedOut ⟨"b.svg"⟩ 200)
      | _ => .ok (sampleFile ⟨"c.svg"⟩ 30 7)
    let batch := (reduce paths (slots paths.length ([3, 0, 1].map fun i => (i, outcome i)))).value
    [3, 0, 1].Perm ((List.range 4).filter fun i => !(i == 2)) ∧
      batch.files = [sampleFile ⟨"a.svg"⟩ 10 6, sampleFile ⟨"c.svg"⟩ 30 7] ∧
      batch.failures = [.timedOut ⟨"b.svg"⟩ 200,
        .aborted ⟨"a.svg"⟩ "task panicked or was cancelled"] ∧
      batch.sourceTotal = 40 ∧ batch.compressedTotal = 13 := by
  intro paths outcome batch
  have horder : [3, 0, 1].Perm ((List.range 4).filter fun i => !(i == 2)) := by decide
  obtain ⟨hfiles, hfailures, -, hsource, hcompressed⟩ :=
    reduce_any_order paths outcome (· == 2) [3, 0, 1] horder
  refine ⟨horder, hfiles, hfailures, ?_, ?_⟩
  · rw [hsource, hfiles]
    rfl
  · rw [hcompressed, hfiles]
    rfl

end SvgPress.Batch
