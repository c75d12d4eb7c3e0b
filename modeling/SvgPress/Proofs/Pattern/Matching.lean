import Mathlib.Data.List.Perm.Subperm
import SvgPress.Text.Pattern

/-!
What patterns match. A pattern spans a piece of a text as its parts do, and a repetition spans so
many pieces in a row. The places that are computed for the end of a match are the ones where such a
piece ends: a search that stops early has found all places that more steps would lead to. So a
pattern between anchors matches a text just if it spans all of it.
-/

namespace SvgPress.Text.Pattern

theorem nodup_erase_dups : (places : List Nat) → places.eraseDups.Nodup
  | [] => List.nodup_nil
  | place :: places => by
      rw [List.eraseDups_cons, List.nodup_cons, List.mem_eraseDups, List.mem_filter]
      exact ⟨by simp, nodup_erase_dups _⟩
termination_by places => places.length
decreasing_by
  have := List.length_filter_le (fun other => !other == place) places
  rw [List.length_cons]
  omega

section Steps

variable {r : Nat → Nat → Prop} {step : List Nat → List Nat} {places : List Nat}

/-- So many steps of a relation from one place to another. -/
def Row (r : Nat → Nat → Prop) : Nat → Nat → Nat → Prop
  | 0, i, j => i = j
  | n + 1, i, j => ∃ k, r i k ∧ Row r n k j

theorem Row.closed {n i j : Nat} (h : Row r n i j) {P : Nat → Prop} (hP : ∀ i j, r i j → P i → P j)
    (hi : P i) : P j := by
  induction n generalizing i with
  | zero => exact h ▸ hi
  | succ n ih =>
      obtain ⟨k, hk, hrow⟩ := h
      exact ih hrow (hP i k hk hi)

theorem row_congr {r' : Nat → Nat → Prop} {P : Nat → Prop} (hP : ∀ i j, r i j → P i → P j)
    (hr : ∀ i j, P i → (r i j ↔ r' i j)) {n i j : Nat} (hi : P i) : Row r n i j ↔ Row r' n i j := by
  induction n generalizing i with
  | zero => rfl
  | succ n ih =>
      refine exists_congr fun k => ?_
      rw [← hr i k hi]
      exact and_congr_right fun hk => ih (hP i k hk hi)

/-- What a step does to a list of places: it leads to the places that the relation leads to. -/
structure Leads (r : Nat → Nat → Prop) (step : List Nat → List Nat) : Prop where
  mem : ∀ places j, j ∈ step places ↔ ∃ i ∈ places, r i j
  nodup : ∀ places, (step places).Nodup

theorem Leads.mem_iterate (h : Leads r step) (n : Nat) (places : List Nat) (j : Nat) :
    j ∈ iterate step n places ↔ ∃ i ∈ places, Row r n i j := by
  induction n generalizing places with
  | zero => simp [iterate, Row]
  | succ n ih =>
      have hnext : (∃ i ∈ step places, Row r n i j) ↔ ∃ i ∈ places, Row r (n + 1) i j := by
        constructor
        · rintro ⟨k, hk, hrow⟩
          obtain ⟨i, hi, hik⟩ := (h.mem places k).mp hk
          exact ⟨i, hi, k, hik, hrow⟩
        · rintro ⟨i, hi, k, hik, hrow⟩
          exact ⟨k, (h.mem places k).mpr ⟨i, hi, hik⟩, hrow⟩
      rw [iterate, ← hnext]
      split
      · rename_i hsame
        rw [beq_iff_eq] at hsame
        -- Places that one step leaves as they are, all steps do.
        have hfixed (n : Nat) : j ∈ places ↔ ∃ i ∈ places, Row r n i j := by
          induction n with
          | zero => simp [Row]
          | succ n ihn =>
              rw [ihn]
              constructor
              · rintro ⟨i, hi, hrow⟩
                rw [← hsame] at hi
                obtain ⟨i', hi', hr⟩ := (h.mem places i).mp hi
                exact ⟨i', hi', i, hr, hrow⟩
              · rintro ⟨i, hi, k, hr, hrow⟩
                exact ⟨k, hsame ▸ (h.mem places k).mpr ⟨i, hi, hr⟩, hrow⟩
        rw [hsame]
        exact hfixed n
      · exact ih _

theorem Leads.nodup_iterate (h : Leads r step) (n : Nat) (hplaces : places.Nodup) :
    (iterate step n places).Nodup := by
  induction n generalizing places with
  | zero => exact hplaces
  | succ n ih =>
      rw [iterate]
      split
      · exact hplaces
      · exact ih (h.nodup places)

/-- The places of one more round of a search. -/
theorem Leads.mem_next (h : Leads r step) {j : Nat} :
    j ∈ (places ++ step places).eraseDups ↔ j ∈ places ∨ ∃ i ∈ places, r i j := by
  rw [List.mem_eraseDups, List.mem_append, h.mem]

/-- A search that finds no more places has found all that can be reached. -/
theorem Leads.closed_of_length (h : Leads r step) (hplaces : places.Nodup)
    (hlength : (places ++ step places).eraseDups.length ≤ places.length) :
    ∀ i ∈ places, ∀ j, r i j → j ∈ places := by
  have hsub : places ⊆ (places ++ step places).eraseDups := fun i hi => h.mem_next.mpr (.inl hi)
  have hperm := (hplaces.subperm hsub).perm_of_length_le hlength
  exact fun i hi j hr => hperm.mem_iff.mpr (h.mem_next.mpr (.inr ⟨i, hi, hr⟩))

theorem mem_of_closed (hclosed : ∀ i ∈ places, ∀ j, r i j → j ∈ places) {i j k : Nat}
    (hi : i ∈ places)
    (hrow : Row r k i j) : j ∈ places :=
  hrow.closed (fun i j hr hi => hclosed i hi j hr) hi

theorem Leads.exists_row_next (h : Leads r step) {j n : Nat} :
    (∃ k, k ≤ n ∧ ∃ i ∈ (places ++ step places).eraseDups, Row r k i j) ↔
      ∃ k, k ≤ n + 1 ∧ ∃ i ∈ places, Row r k i j := by
  constructor
  · rintro ⟨k, hk, i, hi, hrow⟩
    rcases h.mem_next.mp hi with hi | ⟨i', hi', hr⟩
    · exact ⟨k, by omega, i, hi, hrow⟩
    · exact ⟨k + 1, by omega, i', hi', i, hr, hrow⟩
  · rintro ⟨k, hk, i, hi, hrow⟩
    cases k with
    | zero => exact ⟨0, by omega, i, h.mem_next.mpr (.inl hi), hrow⟩
    | succ k =>
        obtain ⟨i', hr, hrow⟩ := hrow
        exact ⟨k, by omega, i', h.mem_next.mpr (.inr ⟨i, hi, hr⟩), hrow⟩

/-- A search of so many rounds finds what at most so many steps lead to. -/
theorem Leads.mem_reach (h : Leads r step) (n : Nat) (hplaces : places.Nodup) (j : Nat) :
    j ∈ reach step n places ↔ ∃ k, k ≤ n ∧ ∃ i ∈ places, Row r k i j := by
  induction n generalizing places with
  | zero => simp [reach, Row]
  | succ n ih =>
      rw [reach]
      split
      · rename_i hsame
        have hclosed := h.closed_of_length hplaces (Nat.le_of_eq (beq_iff_eq.mp hsame))
        constructor
        · exact fun hj => ⟨0, Nat.zero_le _, j, hj, rfl⟩
        · rintro ⟨k, -, i, hi, hrow⟩
          exact mem_of_closed hclosed hi hrow
      · rw [ih (nodup_erase_dups _), h.exists_row_next]

/-- Where places are bounded, a search of enough rounds finds all that can be reached. -/
theorem Leads.reach_closed (h : Leads r step) {bound : Nat}
    (hbound : ∀ i j, r i j → i ≤ bound → j ≤ bound) {n : Nat} (hplaces : places.Nodup)
    (hlow : ∀ i ∈ places, i ≤ bound) (hn : bound < n + places.length) :
    ∀ i ∈ reach step n places, ∀ j, r i j → j ∈ reach step n places := by
  induction n generalizing places with
  | zero =>
      -- As many different places as there can be are all of them.
      have hsub : places ⊆ List.range (bound + 1) := fun i hi =>
        List.mem_range.mpr (Nat.lt_succ_of_le (hlow i hi))
      have hperm := (hplaces.subperm hsub).perm_of_length_le (by rw [List.length_range]; omega)
      intro i hi j hr
      refine hperm.mem_iff.mpr (List.mem_range.mpr (Nat.lt_succ_of_le ?_))
      exact hbound i j hr (hlow i hi)
  | succ n ih =>
      rw [reach]
      split
      · rename_i hsame
        exact h.closed_of_length hplaces (Nat.le_of_eq (beq_iff_eq.mp hsame))
      · rename_i hmore
        have hsub : places ⊆ (places ++ step places).eraseDups := fun i hi =>
          h.mem_next.mpr (.inl hi)
        have hlength := (hplaces.subperm hsub).length_le
        rw [beq_iff_eq] at hmore
        refine ih (nodup_erase_dups _) (fun i hi => ?_) (by omega)
        rcases h.mem_next.mp hi with hi | ⟨i', hi', hr⟩
        · exact hlow i hi
        · exact hbound i' i hr (hlow i' hi')

theorem Leads.mem_reach_all (h : Leads r step) {bound : Nat}
    (hbound : ∀ i j, r i j → i ≤ bound → j ≤ bound) {n : Nat} (hplaces : places.Nodup)
    (hlow : ∀ i ∈ places, i ≤ bound) (hn : bound < n + places.length) (j : Nat) :
    j ∈ reach step n places ↔ ∃ k, ∃ i ∈ places, Row r k i j := by
  constructor
  · intro hj
    obtain ⟨k, -, hk⟩ := (h.mem_reach n hplaces j).mp hj
    exact ⟨k, hk⟩
  · rintro ⟨k, i, hi, hrow⟩
    refine mem_of_closed (h.reach_closed hbound hplaces hlow hn) ?_ hrow
    exact (h.mem_reach n hplaces i).mpr ⟨0, Nat.zero_le n, i, hi, rfl⟩

end Steps

section Spans

variable {text : Array Char} {i j : Nat}

/-- Whether a pattern spans the piece of a text from one place to another. -/
def Spans (text : Array Char) : Pattern → Nat → Nat → Prop
  | .empty, i, j => i = j
  | .one set, i, j => j = i + 1 ∧ ∃ c, text[i]? = some c ∧ set.has c.toNat
  | .at place, i, j => i = j ∧ place.holds (if i = 0 then none else text[i - 1]?) text[i]?
  | .seq a b, i, j => ∃ k, Spans text a i k ∧ Spans text b k j
  | .alt a b, i, j => Spans text a i j ∨ Spans text b i j
  | .repeated a least most, i, j =>
    ∃ n, least ≤ n ∧ (∀ m, most = some m → n ≤ max least m) ∧ Row (Spans text a) n i j

/-- No match ends behind the end of the text. -/
theorem Spans.le_size {p : Pattern} (h : Spans text p i j) (hi : i ≤ text.size) :
    j ≤ text.size := by
  induction p generalizing i j with
  | empty => exact h ▸ hi
  | one set =>
      obtain ⟨rfl, c, hc, -⟩ := h
      exact (Array.getElem?_eq_some_iff.mp hc).1
  | «at» place => exact h.1 ▸ hi
  | seq a b iha ihb =>
      obtain ⟨k, ha, hb⟩ := h
      exact ihb hb (iha ha hi)
  | alt a b iha ihb => exact h.elim (iha · hi) (ihb · hi)
  | repeated a least most ih =>
      obtain ⟨n, -, -, hrow⟩ := h
      exact hrow.closed (fun i j h hi => ih h hi) hi

/-- One more match of a pattern from each of some places. -/
def once (text : Array Char) (a : Pattern) (places : List Nat) : List Nat :=
  (places.flatMap (a.ends text)).eraseDups

theorem leads_once (text : Array Char) (a : Pattern) :
    Leads (fun i j => j ∈ a.ends text i) (once text a) where
  mem := fun places j => by rw [once, List.mem_eraseDups, List.mem_flatMap]
  nodup := fun places => nodup_erase_dups _

theorem row_add {r : Nat → Nat → Prop} (m n : Nat) (i j : Nat) :
    Row r (m + n) i j ↔ ∃ k, Row r m i k ∧ Row r n k j := by
  induction m generalizing i with
  | zero => simp [Row]
  | succ m ih =>
      rw [Nat.succ_add, Row]
      simp only [ih, Row]
      constructor
      · rintro ⟨k, hr, l, hm, hn⟩
        exact ⟨l, ⟨k, hr, hm⟩, hn⟩
      · rintro ⟨l, ⟨k, hr, hm⟩, hn⟩
        exact ⟨k, hr, l, hm, hn⟩

/-- The places where a repetition ends, if those where one match ends are right. -/
theorem mem_ends_repeated {a : Pattern}
    (ha : ∀ i j, i ≤ text.size → (j ∈ a.ends text i ↔ Spans text a i j)) (least : Nat)
    (most : Option Nat) (hi : i ≤ text.size) :
    j ∈ (repeated a least most).ends text i ↔ Spans text (repeated a least most) i j := by
  have honce := leads_once text a
  have hbound (i j : Nat) (hr : j ∈ a.ends text i) (hi : i ≤ text.size) : j ≤ text.size :=
    ((ha i j hi).mp hr).le_size hi
  have hbegun (k : Nat) : k ∈ iterate (once text a) least [i] ↔
      Row (fun i j => j ∈ a.ends text i) least i k := by
    rw [honce.mem_iterate]
    simp only [List.mem_singleton, exists_eq_left]
  have hnodup : (iterate (once text a) least [i]).Nodup := honce.nodup_iterate least (by simp)
  -- The rounds of the search go on from the least number of matches.
  have hmore (n : Nat) : (∃ k ∈ iterate (once text a) least [i],
      Row (fun i j => j ∈ a.ends text i) n k j) ↔ Row (Spans text a) (least + n) i j := by
    rw [← row_congr hbound (fun i j hi => ha i j hi) hi, row_add]
    simp only [hbegun]
  cases most with
  | none =>
      have hends : (repeated a least none).ends text i =
          reach (once text a) (text.size + 1) (iterate (once text a) least [i]) := rfl
      have hlow (k : Nat) (hk : k ∈ iterate (once text a) least [i]) : k ≤ text.size :=
        ((hbegun k).mp hk).closed hbound hi
      rw [hends, Spans, honce.mem_reach_all hbound hnodup hlow (by omega)]
      simp only [hmore]
      constructor
      · rintro ⟨n, hn⟩
        exact ⟨least + n, Nat.le_add_right _ _, by simp, hn⟩
      · rintro ⟨n, hleast, -, hn⟩
        exact ⟨n - least, by rwa [Nat.add_sub_cancel' hleast]⟩
  | some most =>
      have hends : (repeated a least (some most)).ends text i =
          reach (once text a) (most - least) (iterate (once text a) least [i]) := rfl
      rw [hends, Spans, honce.mem_reach _ hnodup]
      simp only [hmore, Option.some.injEq, forall_eq']
      constructor
      · rintro ⟨n, hle, hn⟩
        exact ⟨least + n, Nat.le_add_right _ _, by omega, hn⟩
      · rintro ⟨n, hleast, hle, hn⟩
        exact ⟨n - least, by omega, by rwa [Nat.add_sub_cancel' hleast]⟩

/-- The places that are computed are those where a piece ends that the pattern spans. -/
theorem mem_ends_iff (p : Pattern) (hi : i ≤ text.size) : j ∈ p.ends text i ↔ Spans text p i j := by
  induction p generalizing i j with
  | empty =>
      rw [ends, Spans, List.mem_singleton, eq_comm]
  | one set =>
      rw [ends, Spans]
      cases text[i]? with
      | none => simp
      | some c => by_cases hc : set.has c.toNat <;> simp [hc]
  | «at» place =>
      rw [ends, Spans]
      by_cases hplace : place.holds (if i = 0 then none else text[i - 1]?) text[i]?
      · rw [if_pos hplace, List.mem_singleton]
        exact ⟨fun h => ⟨h.symm, hplace⟩, fun h => h.1.symm⟩
      · rw [if_neg hplace]
        exact iff_of_false List.not_mem_nil fun h => hplace h.2
  | seq a b iha ihb =>
      rw [ends, Spans, List.mem_eraseDups, List.mem_flatMap]
      refine exists_congr fun k => ?_
      rw [iha hi]
      exact and_congr_right fun ha => ihb (ha.le_size hi)
  | alt a b iha ihb =>
      rw [ends, Spans, List.mem_eraseDups, List.mem_append, iha hi, ihb hi]
  | repeated a least most ih => exact mem_ends_repeated (fun i j => ih) least most hi

theorem matches_in_iff (p : Pattern) (s : String) :
    p.matchesIn s ↔ ∃ i ≤ s.toList.length, ∃ j, Spans s.toList.toArray p i j := by
  rw [matchesIn, List.any_eq_true]
  simp only [List.mem_range, Nat.lt_succ_iff, List.size_toArray]
  refine exists_congr fun i => and_congr_right fun hi => ?_
  rw [Bool.not_eq_true', List.isEmpty_eq_false_iff_exists_mem]
  exact exists_congr fun j => mem_ends_iff p (by simpa using hi)

/-- Whether a pattern spans the whole of a text. -/
def SpansAll (p : Pattern) (s : String) : Prop :=
  Spans s.toList.toArray p 0 s.toList.length

/-- A pattern between anchors matches just the texts that it spans. -/
theorem anchored_iff (p : Pattern) (s : String) : p.anchored.matchesIn s ↔ p.SpansAll s := by
  rw [matches_in_iff, SpansAll]
  generalize htext : s.toList = cs
  have hsize : cs.toArray.size = cs.length := List.size_toArray ..
  constructor
  · rintro ⟨i, hi, j, k, ⟨rfl, hstart⟩, j', hspans, rfl, hend⟩
    have hfirst : i = 0 := by
      by_contra hne
      rw [if_neg hne] at hstart
      have hnone := Array.getElem?_eq_none_iff.mp (Option.isNone_iff_eq_none.mp hstart)
      omega
    have hlast := Array.getElem?_eq_none_iff.mp (Option.isNone_iff_eq_none.mp hend)
    have hle := hspans.le_size (by omega)
    have hj : j' = cs.length := by omega
    rwa [hfirst, hj] at hspans
  · intro hspans
    refine ⟨0, Nat.zero_le _, cs.length, 0, ⟨rfl, rfl⟩, cs.length, hspans, rfl, ?_⟩
    exact Option.isNone_iff_eq_none.mpr (Array.getElem?_eq_none_iff.mpr (by omega))

/-- A row of single characters goes from place to place. -/
theorem row_one_iff {set : CharSet} {n : Nat} : Row (Spans text (one set)) n i j ↔
    j = i + n ∧ ∀ k < n, ∃ c, text[i + k]? = some c ∧ set.has c.toNat := by
  induction n generalizing i with
  | zero =>
      rw [Row, Nat.add_zero, eq_comm]
      exact (and_iff_left fun k hk => absurd hk (Nat.not_lt_zero k)).symm
  | succ n ih =>
      rw [Row]
      constructor
      · rintro ⟨_, ⟨rfl, hfirst⟩, hrow⟩
        obtain ⟨rfl, hmore⟩ := ih.mp hrow
        refine ⟨by omega, fun k hk => ?_⟩
        cases k with
        | zero => exact hfirst
        | succ k =>
            have hnext := hmore k (Nat.lt_of_succ_lt_succ hk)
            rwa [Nat.add_right_comm] at hnext
      · rintro ⟨rfl, hall⟩
        refine ⟨i + 1, ⟨rfl, hall 0 (Nat.succ_pos n)⟩, ih.mpr ⟨by omega, fun k hk => ?_⟩⟩
        have hnext := hall (k + 1) (Nat.succ_lt_succ hk)
        rwa [Nat.add_right_comm]

/-- Any number of characters of a set spans the texts over that set. -/
theorem spans_all_repeated_one (set : CharSet) (s : String) :
    (repeated (one set) 0 none).SpansAll s ↔ ∀ c ∈ s.toList, set.has c.toNat := by
  rw [SpansAll, Spans]
  constructor
  · rintro ⟨n, -, -, hrow⟩ c hc
    obtain ⟨hn, hall⟩ := row_one_iff.mp hrow
    obtain ⟨k, hk, hget⟩ := List.mem_iff_getElem.mp hc
    obtain ⟨d, hd, hset⟩ := hall k (by omega)
    rw [Nat.zero_add, List.getElem?_toArray, List.getElem?_eq_getElem hk, hget] at hd
    cases hd
    exact hset
  · intro hall
    refine ⟨s.toList.length, Nat.zero_le _, by simp, row_one_iff.mpr ⟨(Nat.zero_add _).symm, ?_⟩⟩
    intro k hk
    refine ⟨s.toList[k], ?_, hall _ (List.getElem_mem hk)⟩
    rw [Nat.zero_add, List.getElem?_toArray, List.getElem?_eq_getElem hk]

end Spans

end SvgPress.Text.Pattern
