import SvgPress.Json.Decoder
import SvgPress.Proofs.Faults

/-!
What can be said of everything that a decoder reads. A list holds what its item decoder reads, and a
record is its empty form changed by what its field decoders read, so that a property of the parts is
a property of the whole.
-/

namespace SvgPress.Json

variable {α β σ : Type}

/-- Whether everything that a decoder reads has a property. -/
def Decoder.Gives (d : Decoder α) (P : α → Prop) : Prop :=
  ∀ depth cs a rest, d depth cs = .ok (a, rest) → P a

variable {d : Decoder α} {P : α → Prop} {Q : σ → Prop}

theorem all_of_items {item : List Char → Except Fault (α × List Char)}
    (hitem : ∀ cs a rest, item cs = .ok (a, rest) → P a) {budget : Nat} {first : Bool}
    {acc as : List α} {cs rest : List Char} (hacc : ∀ a ∈ acc, P a)
    (h : items item budget first acc cs = .ok (as, rest)) : ∀ a ∈ as, P a := by
  induction budget generalizing first acc cs with
  | zero => cases h
  | succ budget ih =>
      rw [items] at h
      obtain ⟨entry, -, h⟩ := bind_ok h
      cases entry with
      | closed behind =>
          cases h
          intro a ha
          exact hacc a (List.mem_reverse.mp ha)
      | more behind =>
          obtain ⟨⟨a, behind⟩, ha, h⟩ := bind_ok h
          exact ih (List.forall_mem_cons.mpr ⟨hitem _ _ _ ha, hacc⟩) h

theorem invariant_of_members {member : String → σ → List Char → Except Fault (σ × List Char)}
    (hmember : ∀ key s cs next rest, Q s → member key s cs = .ok (next, rest) → Q next)
    {budget : Nat} {first : Bool} {s final : σ} {cs rest : List Char} (hs : Q s)
    (h : members member budget first s cs = .ok (final, rest)) : Q final := by
  induction budget generalizing first s cs with
  | zero => cases h
  | succ budget ih =>
      rw [members] at h
      obtain ⟨entry, -, h⟩ := bind_ok h
      cases entry with
      | closed behind =>
          cases h
          exact hs
      | more behind =>
          obtain ⟨⟨key, behind⟩, -, h⟩ := bind_ok h
          obtain ⟨⟨next, behind⟩, hnext, h⟩ := bind_ok h
          exact ih (hmember _ _ _ _ _ hs hnext) h

namespace Decoder

theorem Gives.map {f : α → β} {R : β → Prop} (h : d.Gives fun a => R (f a)) :
    (d.map f).Gives R := by
  intro depth cs b rest hread
  obtain ⟨⟨a, behind⟩, ha, hb⟩ := map_ok hread
  cases hb
  exact h depth cs a rest ha

theorem Gives.array (h : d.Gives P) : d.array.Gives fun as => ∀ a ∈ as, P a := by
  intro depth cs as rest hread
  rw [Decoder.array] at hread
  split at hread
  · cases hread
  · split at hread
    · cases hread
    · exact all_of_items (h _) (by simp) hread
  · cases hread

end Decoder

/-- Whether the change that a field makes keeps a property of the record. -/
def RecordField.Keeps (field : RecordField σ) (Q : σ → Prop) : Prop :=
  field.read.Gives fun change => ∀ s, Q s → Q (change s)

/-- Whether the change keeps it where the field is read at one depth. -/
def RecordField.KeepsAt (field : RecordField σ) (depth : Nat) (Q : σ → Prop) : Prop :=
  ∀ cs change rest, field.read depth cs = .ok (change, rest) → ∀ s, Q s → Q (change s)

/-- A field keeps what each of its values keeps. -/
theorem RecordField.Keeps.map {f : α → σ → σ} {names : List String} {inObject inArray : Bool}
    (h : d.Gives fun a => ∀ s, Q s → Q (f a s)) :
    RecordField.Keeps ⟨names, d.map f, inObject, inArray⟩ Q :=
  h.map

/-- Every decoder reads something. -/
theorem Decoder.Gives.of_forall (h : ∀ a, P a) : d.Gives P :=
  fun _ _ a _ _ => h a

namespace Decoder

variable {fields : List (RecordField σ)} {empty : σ}

theorem invariant_of_positional {depth : Nat} (hfields : ∀ field ∈ fields, field.KeepsAt depth Q)
    {first : Bool} {s final : σ} {cs rest : List Char} (hs : Q s)
    (h : positional depth fields first s cs = .ok (final, rest)) : Q final := by
  induction fields generalizing first s cs with
  | nil =>
      rw [positional] at h
      split at h
      · cases h
      · cases h
        exact hs
      · cases h
  | cons field fields ih =>
      rw [positional] at h
      obtain ⟨entry, -, h⟩ := bind_ok h
      cases entry with
      | closed behind =>
          simp only at h
          split at h
          · cases h
            exact hs
          · cases h
      | more behind =>
          obtain ⟨⟨change, behind⟩, hread, h⟩ := bind_ok h
          rw [List.forall_mem_cons] at hfields
          exact ih hfields.2 (hfields.1 _ _ _ hread s hs) h

theorem invariant_of_record_member {depth : Nat}
    (hfields : ∀ field ∈ fields, field.KeepsAt depth Q) {key : String}
    {state next : σ × List (List String)} {cs rest : List Char} (hs : Q state.1)
    (h : recordMember depth fields key state cs = .ok (next, rest)) : Q next.1 := by
  rw [recordMember] at h
  split at h
  · obtain ⟨behind, -, h⟩ := bind_ok h
    obtain ⟨⟨_, behind⟩, -, h⟩ := bind_ok h
    cases h
    exact hs
  · rename_i field hfind
    split at h
    · cases h
    · obtain ⟨behind, -, h⟩ := bind_ok h
      obtain ⟨⟨change, behind⟩, hread, h⟩ := bind_ok h
      cases h
      exact hfields field (List.mem_of_find?_eq_some hfind) _ _ _ hread state.1 hs

/-- What the empty record has and every field keeps, the record that is read has. -/
theorem invariant_of_record {depth : Nat} {s : σ} {cs rest : List Char} (hempty : Q empty)
    (hfields : ∀ field ∈ fields, field.KeepsAt (depth - 1) Q)
    (h : record fields empty depth cs = .ok (s, rest)) : Q s := by
  rw [Decoder.record] at h
  split at h
  · cases h
  · split at h
    · cases h
    · exact invariant_of_positional hfields hempty h
  · split at h
    · cases h
    · obtain ⟨⟨⟨final, seen⟩, behind⟩, hmembers, h⟩ := bind_ok h
      have hfinal : Q (final, seen).1 :=
        invariant_of_members (fun _ _ _ _ _ => invariant_of_record_member hfields) hempty hmembers
      simp only at h
      split at h
      · cases h
        exact hfinal
      · cases h
  · cases h

theorem Gives.record (hempty : Q empty) (hfields : ∀ field ∈ fields, field.Keeps Q) :
    (record fields empty).Gives Q :=
  fun depth _ _ _ => invariant_of_record hempty fun field hfield => hfields field hfield (depth - 1)

end Decoder

/-! ### Readers at one depth -/

theorem Decoder.optional_ok {o : Option α} {depth : Nat} {cs rest : List Char}
    (h : Decoder.optional d depth cs = .ok (o, rest)) :
    o = none ∨ ∃ a ds, o = some a ∧ d depth ds = .ok (a, rest) := by
  rw [Decoder.optional] at h
  split at h
  · obtain ⟨_, -, hpair⟩ := map_ok h
    cases hpair
    exact .inl rfl
  · obtain ⟨⟨a, behind⟩, hread, hpair⟩ := map_ok h
    cases hpair
    exact .inr ⟨a, _, rfl, hread⟩

theorem Decoder.array_ok {as : List α} {depth : Nat} {cs rest : List Char}
    (hd : ∀ cs a rest, d (depth - 1) cs = .ok (a, rest) → P a)
    (h : Decoder.array d depth cs = .ok (as, rest)) : ∀ a ∈ as, P a := by
  rw [Decoder.array] at h
  split at h
  · cases h
  · split at h
    · cases h
    · exact all_of_items hd (by simp) h
  · cases h

/-- A field that may be null keeps what it keeps when it is set and when it is not. -/
theorem RecordField.keeps_optional {f : Option α → σ → σ} {names : List String}
    {inObject inArray : Bool} {depth : Nat} (hnone : ∀ s, Q s → Q (f none s))
    (hsome : ∀ cs a rest, d depth cs = .ok (a, rest) → ∀ s, Q s → Q (f (some a) s)) :
    RecordField.KeepsAt ⟨names, (Decoder.optional d).map f, inObject, inArray⟩ depth Q := by
  intro cs change rest h
  obtain ⟨⟨o, behind⟩, hread, hpair⟩ := map_ok h
  cases hpair
  rcases Decoder.optional_ok hread with rfl | ⟨a, ds, rfl, ha⟩
  · exact hnone
  · exact hsome ds a _ ha

theorem of_decode {text : String} {a : α} (hd : d.Gives P) (h : decode d text = .ok a) : P a := by
  rw [decode] at h
  obtain ⟨⟨b, behind⟩, hread, h⟩ := bind_ok h
  simp only at h
  split at h
  · cases h
    exact hd _ _ _ _ hread
  · cases h

end SvgPress.Json
