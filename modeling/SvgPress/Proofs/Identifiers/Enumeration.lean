import Mathlib.Data.List.Shortlex
import Mathlib.Order.Interval.Set.Defs
import SvgPress.Proofs.Identifiers.NewNames
import SvgPress.Proofs.Identifiers.Ownership

/-!
All short names in their order. Counting goes through every name of letters exactly once: the
shorter names come first, and those of one length as their letters do. A name of more than one
letter is the name of the number before its last letter, counted from zero, with that letter behind
it, so the order is the one of the names in front and, where these are the same, the one of the last
letters. A search for a name that need not be preserved goes on along this order and therefore ends.
-/

namespace SvgPress.Identifiers

/-- Whether a text is made of ASCII letters, at least one. -/
def IsShort (name : String) : Prop :=
  name.toList ≠ [] ∧ ∀ c ∈ name.toList, c.isAlpha

/-- Whether a letter comes before another. -/
def LetterBefore (c d : Char) : Prop :=
  letters.idxOf c < letters.idxOf d

/-- Whether a name comes before another: it is shorter, or as long and the first letter in which
they differ comes before the other one. -/
def Precedes (a b : String) : Prop :=
  List.Shortlex LetterBefore a.toList b.toList

/-! ### The name behind a name -/

section Order

/-- The letters of short names are the letters of ASCII. -/
theorem letter_iff {c : Char} : c ∈ letters ↔ c.isAlpha := by
  constructor
  · have hall : ∀ c ∈ letters, c.isAlpha := by decide
    exact hall c
  · intro h
    have hall : ∀ k < 128, (Char.ofNat k).isAlpha → Char.ofNat k ∈ letters := by decide
    have hbelow {d : Char} (hd : d.toNat < 128) (hle : c.val ≤ d.val) : c.toNat < 128 :=
      Nat.lt_of_le_of_lt (UInt32.le_iff_toNat_le.mp hle) hd
    have hsmall : c.toNat < 128 := by
      rcases Bool.or_eq_true_iff.mp h with hcapital | hsmall
      · exact hbelow (d := 'Z') (by decide) (of_decide_eq_true hcapital).2
      · exact hbelow (d := 'z') (by decide) (of_decide_eq_true (Bool.and_eq_true_iff.mp hsmall).2)
    have hc := hall c.toNat hsmall
    rw [Char.ofNat_toNat] at hc
    exact hc h

theorem letter_index {n : Nat} (h : n < 52) : letters.idxOf (letters.getD n 'a') = n := by
  have hn : n < letters.length := by rwa [letters_length]
  rw [List.getD_eq_getElem _ _ hn, letters_nodup.idxOf_getElem]

theorem letter_of_index {c : Char} (h : c ∈ letters) : letters.getD (letters.idxOf c) 'a' = c := by
  have hn : letters.idxOf c < letters.length := List.idxOf_lt_length_of_mem h
  rw [List.getD_eq_getElem _ _ hn, List.getElem_idxOf]

theorem index_lt {c : Char} (h : c ∈ letters) : letters.idxOf c < 52 := by
  rw [← letters_length]
  exact List.idxOf_lt_length_of_mem h

theorem letter_before_iff {i j : Nat} (hi : i < 52) (hj : j < 52) :
    LetterBefore (letters.getD i 'a') (letters.getD j 'a') ↔ i < j := by
  rw [LetterBefore, letter_index hi, letter_index hj]

instance letter_before_asymm : Std.Asymm LetterBefore where
  asymm _ _ := Nat.lt_asymm

theorem to_list_short_name (n : Nat) : (shortName n).toList = (shortNameReversed n).reverse := by
  rw [shortName, String.toList_ofList]

/-- The names of one letter. -/
theorem short_name_letter {i : Nat} (h : i < 52) :
    (shortName i).toList = [letters.getD i 'a'] := by
  rw [to_list_short_name, short_name_reversed_small h, List.reverse_singleton]

/-- One more letter behind a name. -/
theorem short_name_next (n : Nat) {i : Nat} (h : i < 52) :
    (shortName (52 * (n + 1) + i)).toList = (shortName n).toList ++ [letters.getD i 'a'] := by
  have hlarge : ¬ 52 * (n + 1) + i < 52 := by omega
  have hlow : (52 * (n + 1) + i) % 52 = i := by omega
  have hhigh : (52 * (n + 1) + i) / 52 - 1 = n := by omega
  rw [to_list_short_name, short_name_reversed_carry hlarge, hlow, hhigh, List.reverse_cons,
    to_list_short_name]

/-- A number is that of a letter, or that of a name with one more letter. -/
theorem number_cases (n : Nat) : n < 52 ∨ ∃ m i, i < 52 ∧ n = 52 * (m + 1) + i :=
  if h : n < 52 then .inl h else .inr ⟨n / 52 - 1, n % 52, by omega, by omega⟩

/-- Names in order stay so whatever letters come behind them. -/
theorem shortlex_concat {as bs : List Char} (h : List.Shortlex LetterBefore as bs) (c d : Char) :
    List.Shortlex LetterBefore (as ++ [c]) (bs ++ [d]) := by
  rcases List.shortlex_def.mp h with hlength | ⟨hlength, hlex⟩
  · refine .of_length_lt ?_
    rw [List.length_append, List.length_append]
    exact Nat.add_lt_add_right hlength 1
  · refine .of_lex (by rw [List.length_append, List.length_append, hlength]; rfl) ?_
    clear h
    induction hlex with
    | nil => cases hlength
    | cons _ ih => exact .cons (ih (Nat.succ.inj hlength))
    | rel hrel => exact .rel hrel

theorem precedes_of_lt {m n : Nat} (h : m < n) : Precedes (shortName m) (shortName n) := by
  induction n using Nat.strongRecOn generalizing m with
  | ind n ih =>
      rw [Precedes]
      rcases number_cases n with hn | ⟨n', j, hj, rfl⟩
      · have hm : m < 52 := Nat.lt_trans h hn
        rw [short_name_letter hm, short_name_letter hn, List.shortlex_singleton_iff,
          letter_before_iff hm hn]
        exact h
      · rw [short_name_next n' hj]
        rcases number_cases m with hm | ⟨m', i, hi, rfl⟩
        · refine .of_length_lt ?_
          have hpos := List.length_pos_iff.mpr (short_name_ne_nil n')
          rw [short_name_letter hm, List.length_append, List.length_singleton,
            List.length_singleton]
          omega
        · rw [short_name_next m' hi]
          rcases Nat.lt_or_ge m' n' with hfront | hfront
          · exact shortlex_concat (ih n' (by omega) hfront) _ _
          · obtain rfl : m' = n' := by omega
            refine .append_left ?_ _
            rw [List.shortlex_singleton_iff, letter_before_iff hi hj]
            omega

theorem precedes_asymm {a b : String} (h : Precedes a b) : ¬ Precedes b a :=
  (List.Shortlex.asymm (r := LetterBefore)).asymm _ _ h

/-- The order of the names is that of their numbers. -/
theorem precedes_iff_lt {m n : Nat} : Precedes (shortName m) (shortName n) ↔ m < n := by
  refine ⟨fun h => ?_, precedes_of_lt⟩
  rcases Nat.lt_trichotomy m n with hlt | rfl | hgt
  · exact hlt
  · exact absurd h (precedes_asymm h)
  · exact absurd h (precedes_asymm (precedes_of_lt hgt))

/-- Every name of letters is the name of a number: what is in front of its last letter is, and the
letter settles the rest. -/
theorem number_of_letters {cs : List Char} (hne : cs ≠ []) (h : ∀ c ∈ cs, c ∈ letters) :
    ∃ n, (shortName n).toList = cs := by
  induction cs using List.reverseRecOn with
  | nil => exact absurd rfl hne
  | append_singleton front last ih =>
      rw [List.forall_mem_append, List.forall_mem_singleton] at h
      by_cases hfront : front = []
      · refine ⟨letters.idxOf last, ?_⟩
        rw [short_name_letter (index_lt h.2), letter_of_index h.2, hfront, List.nil_append]
      · obtain ⟨n, hn⟩ := ih hfront h.1
        refine ⟨52 * (n + 1) + letters.idxOf last, ?_⟩
        rw [short_name_next n (index_lt h.2), hn, letter_of_index h.2]

theorem is_short_short_name (n : Nat) : IsShort (shortName n) :=
  ⟨short_name_ne_nil n, fun c hc => letter_iff.mp (short_name_letters n c hc)⟩

theorem number_of_short {name : String} (h : IsShort name) : ∃ n, shortName n = name := by
  obtain ⟨n, hn⟩ := number_of_letters h.1 fun c hc => letter_iff.mpr (h.2 c hc)
  exact ⟨n, String.toList_injective hn⟩

/-- The names of the numbers below a limit are the names before that of the limit, each once. -/
theorem bij_on_below (limit : Nat) : Set.BijOn shortName (Set.Iio limit)
    {name | IsShort name ∧ Precedes name (shortName limit)} := by
  refine ⟨fun n hn => ⟨is_short_short_name n, precedes_of_lt hn⟩,
    fun m _ n _ h => short_name_inj h, ?_⟩
  rintro name ⟨hshort, hbefore⟩
  obtain ⟨n, rfl⟩ := number_of_short hshort
  exact ⟨n, precedes_iff_lt.mp hbefore, rfl⟩

theorem bij_on_short : Set.BijOn shortName Set.univ {name | IsShort name} :=
  ⟨fun n _ => is_short_short_name n, fun _ _ _ _ h => short_name_inj h,
    fun _ h => (number_of_short h).imp fun _ hn => ⟨trivial, hn⟩⟩

end Order

/-! ### The search -/

section Search

variable {policy : Policy}

/-- A search for a name that is not preserved, by the number where it begins and the number where it
ends. It passes over names that are preserved, however many there are. -/
inductive Policy.Finds (policy : Policy) : Nat → Nat → Prop
  | free {n : Nat} : policy.namePrefix ++ shortName n ∉ policy.preserve → policy.Finds n n
  | passed {n m : Nat} : policy.namePrefix ++ shortName n ∈ policy.preserve →
      policy.Finds (n + 1) m → policy.Finds n m

/-- A search that has only preserved names before it ends at the first one that is free. -/
theorem finds_of_passed {n count : Nat}
    (hpassed : ∀ k, n ≤ k → k < n + count → policy.namePrefix ++ shortName k ∈ policy.preserve)
    (hfree : policy.namePrefix ++ shortName (n + count) ∉ policy.preserve) :
    policy.Finds n (n + count) := by
  induction count generalizing n with
  | zero => exact .free hfree
  | succ count ih =>
      have hnext : n + (count + 1) = n + 1 + count := by omega
      rw [hnext] at hpassed hfree ⊢
      exact .passed (hpassed n (Nat.le_refl n) (by omega))
        (ih (fun k hlow hhigh => hpassed k (by omega) hhigh) hfree)

/-- A search ends, after one name more than there are preserved ones at the latest, and the pass
takes the name at which it ends. -/
theorem search_ends (policy : Policy) (n : Nat) : ∃ m, policy.Finds n m ∧
    m ≤ n + policy.preserve.length ∧
    freshName policy policy.preserve.length n = (policy.namePrefix ++ shortName m, m + 1) := by
  obtain ⟨m, hm, hfresh, hfree, hpassed⟩ := fresh_name_free policy n
  obtain ⟨count, rfl⟩ := Nat.exists_eq_add_of_le hm
  have hcount : count ≤ policy.preserve.length :=
    count_le_of_taken (behind_prefix_injective policy.namePrefix) hpassed
  exact ⟨n + count, finds_of_passed hpassed hfree, by omega, hfresh⟩

/-- No more numbers are passed over than there are preserved names. -/
theorem le_free_below_add (policy : Policy) (n : Nat) :
    n ≤ policy.freeBelow n + policy.preserve.length := by
  let taken := fun k => policy.preserve.contains (policy.namePrefix ++ shortName k)
  have hsubset : ((List.range n).filter taken).map (fun k => policy.namePrefix ++ shortName k) ⊆
      policy.preserve := by
    intro name hname
    obtain ⟨k, hk, rfl⟩ := List.mem_map.mp hname
    exact List.contains_iff_mem.mp (List.mem_filter.mp hk).2
  have hnodup :=
    ((List.nodup_range (n := n)).filter taken).map (behind_prefix_injective policy.namePrefix)
  have hlength := (hnodup.subperm hsubset).length_le
  rw [List.length_map, ← List.countP_eq_length_filter] at hlength
  have hsplit := List.length_eq_countP_add_countP taken (l := List.range n)
  rw [List.length_range] at hsplit
  have hfree : policy.freeBelow n = (List.range n).countP fun k => ¬ taken k = true := by
    rw [Policy.freeBelow]
    congr 1
    funext k
    simp [taken]
  omega

theorem lookup_of_mem {renames : Renaming} (hkeys : (renames.map Prod.fst).Nodup)
    {pair : String × String} (h : pair ∈ renames) : renames.lookup pair.1 = some pair.2 := by
  obtain ⟨before, after, rfl⟩ := List.append_of_mem h
  refine List.lookup_eq_some_iff.mpr ⟨before, after, rfl, fun other hother => ?_⟩
  rw [List.map_append, List.nodup_append] at hkeys
  exact bne_iff_ne.mpr fun heq =>
    hkeys.2.2 other.1 (List.mem_map_of_mem hother) pair.1 (by simp) heq.symm

/-- What is given in one run: no name twice, none that is preserved, and none of a number larger
than the identifiers and the preserved names account for. -/
theorem given_names (hminify : policy.minify = true) (used ids : List String) :
    ((policy.assign used [] 0 ids).map Prod.snd).Nodup ∧
    ∀ new ∈ (policy.assign used [] 0 ids).map Prod.snd, new ∉ policy.preserve ∧
      ∃ k < ids.length + policy.preserve.length, new = policy.namePrefix ++ shortName k := by
  obtain ⟨m, hassigned⟩ := assigned hminify used ids
  have hnone : (([] : List (String × String)).map Prod.fst).Nodup := List.nodup_nil
  have hkeys : ((policy.assign used [] 0 ids).map Prod.fst).Nodup := assigned_nodup hnone ids
  constructor
  · refine hkeys.of_map.map_on fun pair hpair other hother heq => ?_
    have hfound := lookup_of_mem hkeys hpair
    rw [heq] at hfound
    exact Prod.ext (hassigned.distinct _ _ _ hfound (lookup_of_mem hkeys hother)) heq
  · intro new hnew
    obtain ⟨pair, hpair, rfl⟩ := List.mem_map.mp hnew
    obtain ⟨k, hk, hname, hfree⟩ := hassigned.short _ _ (lookup_of_mem hkeys hpair)
    refine ⟨hfree, k, ?_, hname⟩
    have hbefore : policy.freeBelow k < (policy.assign used [] 0 ids).length := by
      rw [hassigned.count, free_below_lt_iff (hname ▸ hfree)]
      exact hk
    have hlength : (policy.assign used [] 0 ids).length ≤ ids.length := by
      rw [length_given]
      exact (List.length_filter_le _ _).trans (List.dedup_sublist ids).length_le
    have hpassed := le_free_below_add policy k
    omega

end Search

/-- Counting goes through all short names once and in their order, also as far as a limit. So a
search for a name that is not preserved ends; in one run no name is given twice, and the numbers
that are used stay below what the identifiers and preserved names account for; and behind prefixes
that end in a hyphen the same name has the same prefix and the same number. -/
theorem short_names_enumerated :
    Set.BijOn shortName Set.univ {name | IsShort name} ∧
    (∀ limit, Set.BijOn shortName (Set.Iio limit)
      {name | IsShort name ∧ Precedes name (shortName limit)}) ∧
    (∀ m n, Precedes (shortName m) (shortName n) ↔ m < n) ∧
    (∀ (policy : Policy) (n : Nat), ∃ m, policy.Finds n m ∧ m ≤ n + policy.preserve.length ∧
      freshName policy policy.preserve.length n = (policy.namePrefix ++ shortName m, m + 1)) ∧
    (∀ policy : Policy, policy.minify = true → ∀ used ids : List String,
      ((policy.assign used [] 0 ids).map Prod.snd).Nodup ∧
      ∀ new ∈ (policy.assign used [] 0 ids).map Prod.snd, new ∉ policy.preserve ∧
        ∃ k < ids.length + policy.preserve.length, new = policy.namePrefix ++ shortName k) ∧
    ∀ (lead lead' : String) (m n : Nat), lead.toList.getLast? = some '-' →
      lead'.toList.getLast? = some '-' → lead ++ shortName m = lead' ++ shortName n →
        lead = lead' ∧ m = n := by
  refine ⟨bij_on_short, bij_on_below, fun _ _ => precedes_iff_lt, search_ends,
    fun policy hminify => given_names hminify, fun lead lead' m n hlead hlead' heq => ?_⟩
  obtain ⟨front, hfront⟩ := List.getLast?_eq_some_iff.mp hlead
  obtain ⟨front', hfront'⟩ := List.getLast?_eq_some_iff.mp hlead'
  have hsame : lead = lead' :=
    IsOwn.lead_eq hfront hfront' ⟨m, rfl⟩ ⟨n, heq⟩
  subst hsame
  exact ⟨rfl, behind_prefix_injective lead heq⟩

/-- A name that is preserved is passed over, and the next two are given. -/
theorem short_names_enumerated_icon :
    let policy : Policy := ⟨true, true, "icon-", ["icon-a"], [], false⟩
    let names := (policy.assign ["x", "y"] [] 0 ["x", "y"]).map Prod.snd
    policy.minify = true ∧ names = ["icon-b", "icon-c"] ∧ names.Nodup ∧ "icon-b" ∉ policy.preserve ∧
      "icon-".toList.getLast? = some '-' ∧ "icon-" ++ shortName 53 = "icon-ab" ∧
      ("icon-" = "icon-" ∧ 53 = 53) := by
  intro policy names
  obtain ⟨-, -, -, -, hgiven, hprefix⟩ := short_names_enumerated
  have hnames : names = ["icon-b", "icon-c"] := by decide +kernel
  obtain ⟨hnodup, hfree⟩ := hgiven policy rfl ["x", "y"] ["x", "y"]
  have hfirst : "icon-b" ∈ names := hnames ▸ List.mem_cons_self
  have hend : "icon-".toList.getLast? = some '-' := by decide
  exact ⟨rfl, hnames, hnodup, (hfree "icon-b" hfirst).1, hend, by decide +kernel,
    hprefix "icon-" "icon-" 53 53 hend hend rfl⟩

end SvgPress.Identifiers
