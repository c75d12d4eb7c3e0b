import SvgPress.Proofs.Json.Members

/-!
Canonical forms of values. Members that are put in order of their keys stay where they are when they
are put again, so a canonical form is its own canonical form.
-/

namespace SvgPress.Json

variable {o changes : Object} {key : String} {value : Value} {m : String × Value}

namespace Object

theorem mem_merge (h : m ∈ o.merge changes) : m ∈ o ∨ m ∈ changes := by
  induction changes generalizing o with
  | nil => exact .inl h
  | cons change changes ih =>
      obtain ⟨k, v⟩ := change
      rcases ih (show m ∈ (o.put k v).merge changes from h) with h | h
      · rcases mem_put h with rfl | h
        · exact .inr List.mem_cons_self
        · exact .inl h
      · exact .inr (List.mem_cons_of_mem _ h)

/-- A key behind all others is put at the end. -/
theorem put_of_last (h : ∀ m ∈ o, m.1 < key) (value : Value) :
    o.put key value = o ++ [(key, value)] := by
  induction o with
  | nil => rfl
  | cons m o ih =>
      obtain ⟨k, v⟩ := m
      rw [List.forall_mem_cons] at h
      rw [put, if_neg h.1.ne', if_neg h.1.asymm, ih h.2]
      rfl

theorem merge_of_ordered (h : (o ++ changes).IsOrdered) : o.merge changes = o ++ changes := by
  induction changes generalizing o with
  | nil => exact (List.append_nil o).symm
  | cons change changes ih =>
      obtain ⟨k, v⟩ := change
      have hlast : ∀ m ∈ o, m.1 < k := by
        rw [IsOrdered, List.map_append, List.pairwise_append] at h
        exact fun m hm => h.2.2 m.1 (List.mem_map_of_mem hm) k List.mem_cons_self
      have hsplit : o ++ (k, v) :: changes = o ++ [(k, v)] ++ changes := by simp
      show (o.put k v).merge changes = _
      rw [put_of_last hlast, hsplit]
      exact ih (hsplit ▸ h)

end Object

namespace Value

theorem canonical_items_eq_map (vs : List Value) : canonicalItems vs = vs.map canonical := by
  induction vs with
  | nil => rfl
  | cons v vs ih => rw [canonicalItems, ih, List.map_cons]

theorem canonical_members_eq_map (ms : List (String × Value)) :
    canonicalMembers ms = ms.map fun m => (m.1, m.2.canonical) := by
  induction ms with
  | nil => rfl
  | cons m ms ih => rw [canonicalMembers, ih, List.map_cons]

theorem mem_canonical_members {ms : List (String × Value)} {m : String × Value}
    (h : m ∈ Object.merge [] (canonicalMembers ms)) : ∃ n ∈ ms, m.2 = n.2.canonical := by
  rcases Object.mem_merge h with h | h
  · cases h
  · rw [canonical_members_eq_map] at h
    obtain ⟨n, hn, rfl⟩ := List.mem_map.mp h
    exact ⟨n, hn, rfl⟩

end Value

namespace Object

/-- Whether an object is as it is kept: keys in order, and every value in canonical form. -/
structure IsCanonical (o : Object) : Prop where
  ordered : o.IsOrdered
  values : ∀ m ∈ o, m.2.canonical = m.2

theorem canonical_nil : IsCanonical [] :=
  ⟨List.Pairwise.nil, by simp⟩

theorem IsCanonical.put (h : o.IsCanonical) (key : String) (hvalue : value.canonical = value) :
    (o.put key value).IsCanonical := by
  refine ⟨ordered_put h.ordered key value, fun m hm => ?_⟩
  rcases mem_put hm with rfl | hm
  · exact hvalue
  · exact h.values m hm

theorem IsCanonical.merge (h : o.IsCanonical) (hchanges : ∀ m ∈ changes, m.2.canonical = m.2) :
    (o.merge changes).IsCanonical := by
  induction changes generalizing o with
  | nil => exact h
  | cons change changes ih =>
      rw [List.forall_mem_cons] at hchanges
      exact ih (h.put change.1 hchanges.1) hchanges.2

/-- Members that are canonical are what they were after they are set one by one. -/
theorem IsCanonical.merge_members (h : o.IsCanonical) :
    Object.merge [] (Value.canonicalMembers o) = o := by
  have hsame : Value.canonicalMembers o = o := by
    rw [Value.canonical_members_eq_map]
    refine Eq.trans (List.map_congr_left fun m hm => ?_) (List.map_id o)
    rw [h.values m hm]
    rfl
  rw [hsame]
  exact merge_of_ordered h.ordered

end Object

namespace Value

mutual

theorem canonical_canonical : (v : Value) → v.canonical.canonical = v.canonical
  | .array items => by rw [canonical, canonical, canonical_items_canonical_items items]
  | .object members => by
      have hkept : Object.IsCanonical (Object.merge [] (canonicalMembers members)) :=
        Object.canonical_nil.merge (canonical_canonical_members members)
      rw [canonical, canonical, hkept.merge_members]
  | .null => rfl
  | .bool _ => rfl
  | .number _ => rfl
  | .string _ => rfl

theorem canonical_items_canonical_items : (vs : List Value) →
    canonicalItems (canonicalItems vs) = canonicalItems vs
  | [] => rfl
  | v :: vs => by
      rw [canonicalItems, canonicalItems, canonical_canonical v, canonical_items_canonical_items vs]

theorem canonical_canonical_members : (ms : List (String × Value)) →
    ∀ m ∈ canonicalMembers ms, m.2.canonical = m.2
  | [] => by simp [canonicalMembers]
  | (_, v) :: ms => List.forall_mem_cons.mpr ⟨canonical_canonical v, canonical_canonical_members ms⟩

end

end Value

end SvgPress.Json
