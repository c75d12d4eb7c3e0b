import SvgPress.Proofs.Json.Members
import SvgPress.Proofs.Json.Parts

/-!
Typed reading of a text whose value is known. A reader that asks for a type goes over the same parts
of the text as the reader of values of any kind, and what it makes of them depends on the value
alone: one lemma for each way to put readers together.
-/

namespace SvgPress.Json

variable {α β σ : Type}

/-- Whether a reader takes every text of a value for the same. -/
def Decoder.Takes (d : Decoder α) (v : Value) (a : α) : Prop :=
  ∀ depth cs rest, Decoder.raw depth cs = .ok (v, rest) → d depth cs = .ok (a, rest)

namespace Decoder

variable {d : Decoder α} {v : Value} {a : α}

/-- It is enough to look at what stands in the text. -/
theorem takes_of_reading
    (h : ∀ depth cs rest, Reading depth cs v rest → d (depth + 1) cs = .ok (a, rest)) :
    d.Takes v a := by
  intro depth cs rest hraw
  cases depth with
  | zero => cases hraw
  | succ depth => exact h depth cs rest (reading_of_raw hraw)

theorem Takes.map (h : d.Takes v a) (f : α → β) : (d.map f).Takes v (f a) := by
  intro depth cs rest hraw
  rw [Decoder.map, h depth cs rest hraw]
  rfl

theorem takes_string (s : String) : Decoder.string.Takes (.string s) s := by
  refine takes_of_reading fun depth cs rest h => ?_
  cases h with
  | string hskip hread =>
      rw [Decoder.string, hskip]
      exact hread

theorem takes_bool (b : Bool) : Decoder.bool.Takes (.bool b) b := by
  refine takes_of_reading fun depth cs rest h => ?_
  cases h with
  | yes hskip hread =>
      simp only [Decoder.bool, hskip, hread]
      rfl
  | no hskip hread =>
      simp only [Decoder.bool, hskip, hread]
      rfl

theorem takes_natural (n : Nat) : Decoder.natural.Takes (.ofNat n) n := by
  refine takes_of_reading fun depth cs rest h => ?_
  cases h with
  | negative hskip hread =>
      have hneg := Number.neg_of_read hread
      omega
  | number hskip hdigit hread =>
      rw [Decoder.natural, hskip]
      simp only [hdigit, if_true, hread]
      rfl

theorem takes_value (v : Value) : Decoder.value.Takes v v.canonical := by
  intro depth cs rest hraw
  rw [Decoder.value, hraw]
  rfl

theorem takes_array {vs : List Value} {as : List α} (h : List.Forall₂ d.Takes vs as) :
    d.array.Takes (.array vs) as := by
  refine takes_of_reading fun depth cs rest hreading => ?_
  cases hreading with
  | array hskip hdepth hread =>
      have hrun := (hread.replace (h.imp fun _ _ hitem => hitem depth)).run
        (lt_of_skip_gap hskip (h.length_eq ▸ hread.length fun _ _ _ => length_of_raw)) []
      simp only [Decoder.array, hskip]
      rw [if_neg (by omega)]
      exact hrun

theorem foldl_put_canonical (o : Object) (ms : List (String × Value)) :
    ms.foldl (fun o m => o.put m.1 m.2.canonical) o = o.merge (Value.canonicalMembers ms) := by
  induction ms generalizing o with
  | nil => rfl
  | cons m ms ih => exact ih (o.put m.1 m.2.canonical)

theorem takes_object (ms : List (String × Value)) :
    Decoder.object.Takes (.object ms) (Object.merge [] (Value.canonicalMembers ms)) := by
  refine takes_of_reading fun depth cs rest h => ?_
  cases h with
  | object hskip hdepth hread =>
      have hlength := hread.length fun _ _ _ => length_of_raw
      simp only [Decoder.object, hskip]
      rw [if_neg (by omega), ← foldl_put_canonical]
      refine hread.run (leads_foldl _ [] ms)
        (fun (o : Object) key v t ds value after hstep hcolon hmember => ?_)
        (lt_of_skip_gap hskip hlength)
      rw [bind_of_ok hcolon, hstep]
      exact bind_of_ok (takes_value v depth value after hmember) _

/-! ### Values that may be null -/

theorem takes_optional_null : (Decoder.optional d).Takes .null none := by
  refine takes_of_reading fun depth cs rest h => ?_
  cases h with
  | null hskip hread =>
      simp only [Decoder.optional, hskip, hread]
      rfl

theorem takes_optional (h : d.Takes v a) (hv : v ≠ .null) :
    (Decoder.optional d).Takes v (some a) := by
  refine takes_of_reading fun depth cs rest hreading => ?_
  have hd := h (depth + 1) (skipGap cs) rest (raw_skip_gap (raw_iff.mpr hreading))
  rw [Decoder.optional]
  split
  · rename_i body hskip
    -- only `null` begins with this letter
    cases hreading with
    | null => exact absurd rfl hv
    | number hskip' hdigit =>
        rw [hskip] at hskip'
        cases hskip'
        cases hdigit
    | yes hskip' | no hskip' | string hskip' | negative hskip' | array hskip' | object hskip' =>
        rw [hskip] at hskip'
        cases hskip'
  · rw [hd]
    rfl

theorem takes_of_option {f : β → Value} {g : β → α} (h : ∀ b, d.Takes (f b) (g b))
    (hf : ∀ b, f b ≠ .null) (o : Option β) :
    (Decoder.optional d).Takes (.ofOption f o) (o.map g) := by
  cases o with
  | none => exact takes_optional_null
  | some b => exact takes_optional (h b) (hf b)

/-! ### Records -/

variable {fields : List (RecordField σ)} {empty : σ}

/-- What a field is changed to by a member. -/
structure Sets (fields : List (RecordField σ)) (m : String × Value)
    (change : List String × (σ → σ)) : Prop where
  field : ∃ field, fields.find? (·.names.contains m.1) = some field ∧ field.names = change.1 ∧
    field.read.Takes m.2 change.2

/-- An optional member is taken for a change where it is there. -/
theorem sets_option {o : Option α} {m : α → String × Value} {change : α → List String × (σ → σ)}
    (h : ∀ a ∈ o, Sets fields (m a) (change a)) :
    List.Forall₂ (Sets fields) (o.map m).toList (o.map change).toList := by
  cases o with
  | none => exact .nil
  | some a => exact .cons (h a rfl) .nil

/-- The step of a record's reader, where the names of the fields that were set are kept. -/
def SetsNext (fields : List (RecordField σ)) (state : σ × List (List String)) (m : String × Value)
    (next : σ × List (List String)) : Prop :=
  ∃ change, Sets fields m change ∧ change.1 ∉ state.2 ∧
    next = (change.2 state.1, change.1 :: state.2)

theorem leads_of_sets {ms : List (String × Value)} {changes : List (List String × (σ → σ))}
    (h : List.Forall₂ (Sets fields) ms changes) (hdistinct : (changes.map Prod.fst).Nodup) (s : σ)
    {seen : List (List String)} (hseen : ∀ change ∈ changes, change.1 ∉ seen) :
    ∃ after, Leads (SetsNext fields) (s, seen) ms
      (changes.foldl (fun s change => change.2 s) s, after) := by
  induction h generalizing s seen with
  | nil => exact ⟨seen, .nil⟩
  | @cons m change ms changes hset _ ih =>
      rw [List.map_cons, List.nodup_cons] at hdistinct
      rw [List.forall_mem_cons] at hseen
      have hnext : ∀ other ∈ changes, other.1 ∉ change.1 :: seen := by
        intro other hother
        rw [List.mem_cons, not_or]
        refine ⟨fun hsame => hdistinct.1 ?_, hseen.2 other hother⟩
        rw [← hsame]
        exact List.mem_map_of_mem hother
      obtain ⟨after, hleads⟩ := ih hdistinct.2 (change.2 s) hnext
      exact ⟨after, .cons ⟨change, hset, hseen.1, rfl⟩ hleads⟩

theorem record_member_of_sets {depth : Nat} {state next : σ × List (List String)} {key : String}
    {v : Value} {cs value after : List Char} (h : SetsNext fields state (key, v) next)
    (hcolon : colon cs = .ok value) (hread : raw depth value = .ok (v, after)) :
    recordMember depth fields key state cs = .ok (next, after) := by
  obtain ⟨change, ⟨field, hfind, hnames, htakes⟩, hseen, rfl⟩ := h
  have hfind : fields.find? (·.names.contains key) = some field := hfind
  have hnew : state.2.contains field.names = false := by
    rw [hnames, Bool.eq_false_iff, Ne, List.contains_iff_mem]
    exact hseen
  rw [← hnames]
  simp only [recordMember, hfind, hnew, Bool.false_eq_true, if_false]
  rw [bind_of_ok hcolon]
  exact bind_of_ok (htakes depth value after hread) _

/-- A record is taken for its empty form with one change after the other, if no field is set
twice. -/
theorem takes_record (hfields : ∀ field ∈ fields, field.optionalInObject)
    {ms : List (String × Value)} {changes : List (List String × (σ → σ))}
    (h : List.Forall₂ (Sets fields) ms changes) (hdistinct : (changes.map Prod.fst).Nodup) :
    (Decoder.record fields empty).Takes (.object ms)
      (changes.foldl (fun s change => change.2 s) empty) := by
  refine takes_of_reading fun depth cs rest hreading => ?_
  cases hreading with
  | @object body _ _ hskip hdepth hread =>
      have hnone : ∀ change ∈ changes, change.1 ∉ ([] : List (List String)) := by simp
      obtain ⟨seen, hleads⟩ := leads_of_sets h hdistinct empty hnone
      have hrun : members (recordMember depth fields) cs.length true (empty, []) body =
          .ok ((changes.foldl (fun s change => change.2 s) empty, seen), rest) :=
        hread.run hleads (fun _ _ _ _ _ _ _ => record_member_of_sets)
          (lt_of_skip_gap hskip (hread.length fun _ _ _ => length_of_raw))
      have hall :
          (fields.all fun field => field.optionalInObject || seen.contains field.names) = true := by
        rw [List.all_eq_true]
        intro field hfield
        rw [hfields field hfield, Bool.true_or]
      simp only [Decoder.record, hskip]
      rw [if_neg (by omega)]
      refine (bind_of_ok hrun _).trans ?_
      exact if_pos hall

end Decoder

/-- A whole text of a value is read as what the value is taken for. -/
theorem decode_of_takes {d : Decoder α} {v : Value} {a : α} (h : d.Takes v a) {text : String}
    (hraw : decode Decoder.raw text = .ok v) : decode d text = .ok a := by
  obtain ⟨⟨w, rest⟩, hread, hend⟩ := bind_ok hraw
  simp only at hend
  split at hend
  · rename_i hempty
    cases hend
    rw [decode, h _ _ _ hread]
    exact if_pos hempty
  · cases hend

end SvgPress.Json
