import SvgPress.Pass.AttributeRemoval
import SvgPress.Proofs.Faults
import SvgPress.Proofs.Markup.Tree
import SvgPress.Proofs.Pass.PathTokens

/-!
What the passes over numbers write. Text is read as numbers by rules that know the words for
infinity and for no number, and a numeral can be too large for a number; both come back as a word.
So a value that is written is made of numerals exactly if every number read in it is finite.
-/

namespace SvgPress

open Decimal Numerals

/-- A text of numerals, with spaces, units and path commands beside them. -/
inductive IsNumeric : List Char → Prop
  | nil : IsNumeric []
  | numeral {cs rest : List Char} : IsNumeral cs → IsNumeric rest → IsNumeric (cs ++ rest)
  | space {rest : List Char} : IsNumeric rest → IsNumeric (' ' :: rest)
  | unit {unit : String} {rest : List Char} :
      unit ∈ units → IsNumeric rest → IsNumeric (unit.toList ++ rest)
  | command {letter : Char} {rest : List Char} :
      letter ∈ PathData.commands → IsNumeric rest → IsNumeric (letter :: rest)

/-- A value of numerals, in which no word stands for a number. -/
structure IsProper (value : String) : Prop where
  numeric : IsNumeric value.toList
  noInfinity : ¬ "inf".toList <:+: value.toList
  noNan : ¬ "NaN".toList <:+: value.toList

/-- Two letters that only the words for what is no finite number have. -/
def IsTelltale (c : Char) : Prop :=
  c = 'f' ∨ c = 'N'

theorem IsNumeric.not_telltale {cs : List Char} (h : IsNumeric cs) :
    ∀ c ∈ cs, ¬ IsTelltale c := by
  induction h with
  | nil => simp
  | numeral hcs _ ih =>
      intro c hc
      rcases List.mem_append.mp hc with hc | hc
      · rintro (rfl | rfl)
        · rcases hcs.char 'f' hc with hdigit | hpoint | hsign
          · cases hdigit
          · cases hpoint
          · cases hsign
        · rcases hcs.char 'N' hc with hdigit | hpoint | hsign
          · cases hdigit
          · cases hpoint
          · cases hsign
      · exact ih c hc
  | space _ ih => exact List.forall_mem_cons.mpr ⟨by simp [IsTelltale], ih⟩
  | @unit unit _ hunit _ ih =>
      have hall : ∀ unit ∈ units, ∀ c ∈ unit.toList, ¬ (c = 'f' ∨ c = 'N') := by decide
      intro c hc
      rcases List.mem_append.mp hc with hc | hc
      · exact hall unit hunit c hc
      · exact ih c hc
  | @command letter _ hletter _ ih =>
      have hall : ∀ c ∈ PathData.commands, ¬ (c = 'f' ∨ c = 'N') := by decide
      exact List.forall_mem_cons.mpr ⟨hall letter hletter, ih⟩

/-- A text that is numeric when all numbers in it are finite, and tells when one is not. -/
theorem proper_iff {value : String} {numbers : List Binary64}
    (hnumeric : (∀ x ∈ numbers, x.isFinite) → IsNumeric value.toList)
    (htells : ∀ x ∈ numbers, x.isFinite = false → ∃ c ∈ value.toList, IsTelltale c) :
    IsProper value ↔ ∀ x ∈ numbers, x.isFinite := by
  constructor
  · intro h x hx
    by_contra hinfinite
    obtain ⟨c, hc, htells⟩ := htells x hx (by simpa using hinfinite)
    exact h.numeric.not_telltale c hc htells
  · intro h
    have hplain := (hnumeric h).not_telltale
    refine ⟨hnumeric h, fun hinside => ?_, fun hinside => ?_⟩
    · exact hplain 'f' (hinside.subset (by decide)) (.inl rfl)
    · exact hplain 'N' (hinside.subset (by decide)) (.inr rfl)

/-- What is no finite number is written as a word. -/
theorem telltale_plain {x : Binary64} (h : x.isFinite = false) : ∃ c ∈ plain x, IsTelltale c := by
  cases x with
  | finite => cases h
  | infinite negative =>
      refine ⟨'f', ?_, .inl rfl⟩
      cases negative <;> decide
  | nan => exact ⟨'N', by decide, .inr rfl⟩

/-- No style has a say in the words. -/
theorem write_eq_plain {x : Binary64} (h : x.isFinite = false) (style : Style) :
    style.write x = plain x := by
  obtain ⟨precision, stripZero⟩ := style
  cases x with
  | finite => cases h
  | infinite negative => cases negative <;> cases stripZero <;> rfl
  | nan => cases stripZero <;> rfl

theorem telltale_write {x : Binary64} (h : x.isFinite = false) (style : Style) :
    ∃ c ∈ style.write x, IsTelltale c :=
  write_eq_plain h style ▸ telltale_plain h

theorem numeral_plain_of_finite {x : Binary64} (h : x.isFinite) : IsNumeral (plain x) := by
  cases x with
  | infinite | nan => cases h
  | finite negative s e =>
      have hpositional (n : Nat) (k : Int) : IsUnsigned (positional n k) := by
        unfold positional
        split
        · refine .whole (by simp [digits_ne_nil]) fun c hc => ?_
          rcases List.mem_append.mp hc with hc | hc
          · exact digits_digit n c hc
          · rw [(List.mem_replicate.mp hc).2]
            rfl
        · exact place_text_unsigned n _
      rw [plain]
      split
      · exact IsUnsigned.signed (.whole (by simp) (by simp)) negative
      · exact (hpositional _ _).signed negative

namespace Numerals

/-- The numbers that are read in the value of an attribute. -/
def numbersIn (a : Attribute) : List Binary64 :=
  let value := (Text.trim a.value).toList
  if a.name = "viewBox" then (Text.splitRuns isSeparator value).filterMap Decimal.read?
  else (takeNumber? value).toList.map (·.1)

/-- The text that is written for the value of an attribute, if one is. -/
def written? (style : Style) (dropPixels : Bool) (a : Attribute) : Option String :=
  if a.name = "viewBox" then cleanList? style a.value
  else if attributes.contains a.name then cleanLength? style dropPixels a.value
  else none

theorem clean_eq_written (style : Style) (dropPixels : Bool) (a : Attribute) :
    clean style dropPixels a = (written? style dropPixels a).getD a.value := by
  unfold clean written?
  split
  · rfl
  · split <;> rfl

/-- A length is a number and a unit, or a number alone. -/
theorem clean_length_text {style : Style} {dropPixels : Bool} {value text : String}
    (h : cleanLength? style dropPixels value = some text) :
    ∃ x rest unit, takeNumber? (Text.trim value).toList = some (x, rest) ∧
      (unit = "" ∨ unit ∈ units) ∧ text.toList = style.write x ++ unit.toList := by
  unfold cleanLength? at h
  obtain ⟨⟨x, rest⟩, htake, h⟩ := Option.bind_eq_some_iff.mp h
  dsimp only at h
  split at h
  · rename_i hunit
    refine ⟨x, rest, if String.ofList rest = "px" && dropPixels then "" else String.ofList rest,
      htake, ?_, ?_⟩
    · split
      · exact .inl rfl
      · simpa using hunit
    · rw [← Option.some.inj h, String.toList_append, String.toList_ofList]
  · cases h

theorem cleanup_ok {params : Params} {doc out : Document} (h : cleanup.apply params doc = .ok out) :
    ∃ style dropPixels, out = doc.mapTags (·.mapValues (clean style dropPixels)) := by
  unfold cleanup at h
  obtain ⟨precision, -, h⟩ := bind_ok h
  obtain ⟨stripZero, -, h⟩ := bind_ok h
  obtain ⟨dropPixels, -, h⟩ := bind_ok h
  exact ⟨⟨precision, stripZero⟩, dropPixels, (Except.ok.inj h).symm⟩

theorem proper_length {style : Style} {dropPixels : Bool} {value text : String}
    (h : cleanLength? style dropPixels value = some text) :
    IsProper text ↔
      ∀ x ∈ (takeNumber? (Text.trim value).toList).toList.map (·.1), x.isFinite := by
  obtain ⟨x, rest, unit, htake, hunit, htext⟩ := clean_length_text h
  rw [htake]
  refine proper_iff (fun hfinite => ?_) fun y hy hinfinite => ?_
  · have hnumeral := numeral_write_of_finite style (hfinite x (by simp))
    rw [htext]
    refine .numeral hnumeral ?_
    rcases hunit with rfl | hunit
    · exact .nil
    · rw [← List.append_nil unit.toList]
      exact .unit hunit .nil
  · obtain rfl : y = x := by simpa using hy
    obtain ⟨c, hc, htells⟩ := telltale_write hinfinite style
    exact ⟨c, htext ▸ List.mem_append_left _ hc, htells⟩

/-- Numerals with single spaces between them. -/
theorem numeric_intercalate {texts : List (List Char)} (h : ∀ cs ∈ texts, IsNumeral cs) :
    IsNumeric ([' '].intercalate texts) := by
  induction texts with
  | nil => exact .nil
  | cons cs texts ih =>
      obtain ⟨hcs, htexts⟩ := List.forall_mem_cons.mp h
      cases texts with
      | nil =>
          have hsingle : [' '].intercalate [cs] = cs ++ [] := by simp [List.intercalate]
          rw [hsingle]
          exact .numeral hcs .nil
      | cons next texts =>
          have hcons : [' '].intercalate (cs :: next :: texts) =
              cs ++ ' ' :: [' '].intercalate (next :: texts) := by simp [List.intercalate]
          rw [hcons]
          exact .numeral hcs (.space (ih htexts))

theorem mem_intercalate {texts : List (List Char)} {cs : List Char} (h : cs ∈ texts) {c : Char}
    (hc : c ∈ cs) : c ∈ [' '].intercalate texts := by
  induction texts with
  | nil => cases h
  | cons first texts ih =>
      cases texts with
      | nil =>
          obtain rfl : cs = first := by simpa using h
          simpa [List.intercalate] using hc
      | cons next texts =>
          have hcons : [' '].intercalate (first :: next :: texts) =
              first ++ ' ' :: [' '].intercalate (next :: texts) := by simp [List.intercalate]
          rw [hcons]
          rcases List.mem_cons.mp h with rfl | h
          · exact List.mem_append_left _ hc
          · exact List.mem_append_right _ (List.mem_cons_of_mem _ (ih h))

theorem proper_list {style : Style} {value text : String} (h : cleanList? style value = some text) :
    IsProper text ↔
      ∀ x ∈ (Text.splitRuns isSeparator (Text.trim value).toList).filterMap Decimal.read?,
        x.isFinite := by
  unfold cleanList? at h
  obtain ⟨numbers, hnumbers, h⟩ := Option.bind_eq_some_iff.mp h
  rw [filter_map_of_map_option hnumbers]
  have htext : text.toList = [' '].intercalate (numbers.map style.write) := by
    rw [← Option.some.inj h, String.toList_intercalate, List.map_map]
    simp [Function.comp_def]
  refine proper_iff (fun hfinite => ?_) fun x hx hinfinite => ?_
  · rw [htext]
    refine numeric_intercalate fun cs hcs => ?_
    obtain ⟨x, hx, rfl⟩ := List.mem_map.mp hcs
    exact numeral_write_of_finite style (hfinite x hx)
  · obtain ⟨c, hc, htells⟩ := telltale_write hinfinite style
    exact ⟨c, htext ▸ mem_intercalate (List.mem_map_of_mem hx) hc, htells⟩

/-- A written value is proper exactly if all numbers that were read are finite. -/
theorem proper_written {style : Style} {dropPixels : Bool} {a : Attribute} {text : String}
    (h : written? style dropPixels a = some text) :
    IsProper text ↔ ∀ x ∈ numbersIn a, x.isFinite := by
  unfold written? at h
  unfold numbersIn
  split at h
  · rename_i hbox
    rw [if_pos hbox]
    exact proper_list h
  · rename_i hbox
    rw [if_neg hbox]
    split at h
    · exact proper_length h
    · cases h

end Numerals

namespace PathData

/-- The number that a token is read as. -/
def Token.number? : Token → Option Binary64
  | .command _ => none
  | .number written => Decimal.read? written

/-- The numbers that are read in path data. -/
def numbersIn (data : List Char) : List Binary64 :=
  ((tokens? data).getD []).filterMap Token.number?

/-- The text that is written for the value of an attribute, if one is. -/
def written? (style : Style) (tag : Tag) (a : Attribute) : Option String :=
  if elements.contains tag.name ∧ a.name = "d" then
    (minify? style a.value.toList).map String.ofList
  else none

theorem convert_ok {params : Params} {doc out : Document} (h : convert.apply params doc = .ok out) :
    ∃ style, out = doc.mapTags (minifyTag style) := by
  unfold convert at h
  obtain ⟨precision, -, h⟩ := bind_ok h
  obtain ⟨stripZero, -, h⟩ := bind_ok h
  exact ⟨⟨precision, stripZero⟩, (Except.ok.inj h).symm⟩

theorem minify_tag_eq_written (style : Style) (tag : Tag) :
    minifyTag style tag = tag.mapValues fun a => (written? style tag a).getD a.value := by
  unfold minifyTag written?
  by_cases htag : elements.contains tag.name
  · rw [if_pos htag]
    refine congrArg tag.mapValues (funext fun a => ?_)
    by_cases hname : a.name = "d"
    · rw [if_pos hname, if_pos ⟨htag, hname⟩]
    · rw [if_neg hname, if_neg fun both => hname both.2]
      rfl
  · rw [if_neg htag]
    have hnot : tag.name ∉ elements := by simpa using htag
    simp [Tag.mapValues, hnot]

/-- Path data of finite numbers is written as numerals and commands. -/
theorem Spelled.numeric {style : Style} {earlier : Option (List Char)} {ts : List Token}
    {out : List Char} (h : Spelled style earlier ts out) : IsNumeric out := by
  induction h with
  | nil => exact .nil
  | command hletter _ ih => exact .command hletter ih
  | number _ hnumeral _ ih =>
      have hrest := IsNumeric.numeral hnumeral ih
      unfold gap
      split
      · exact .space hrest
      · exact hrest

/-- Every number that was read is written. -/
theorem mem_write {style : Style} {ts : List Token} {earlier : Option (List Char)}
    {out : List Char} (h : write style earlier ts = some out) {x : Binary64}
    (hx : x ∈ ts.filterMap Token.number?) {c : Char} (hc : c ∈ style.write x) : c ∈ out := by
  induction ts generalizing earlier out with
  | nil => cases hx
  | cons t ts ih =>
      cases t with
      | command letter =>
          obtain ⟨more, hmore, rfl⟩ := write_command h
          exact List.mem_cons_of_mem letter (ih hmore hx)
      | number written =>
          obtain ⟨y, more, hread, hmore, rfl⟩ := write_number h
          have hnumber : Token.number? (.number written) = some y := hread
          rw [List.filterMap_cons, hnumber] at hx
          refine List.mem_append_right _ ?_
          rcases List.mem_cons.mp hx with rfl | hx
          · exact List.mem_append_left more hc
          · exact List.mem_append_right _ (ih hmore hx)

theorem proper_written {style : Style} {tag : Tag} {a : Attribute} {text : String}
    (h : written? style tag a = some text) :
    IsProper text ↔ ∀ x ∈ numbersIn a.value.toList, x.isFinite := by
  unfold written? at h
  split at h
  · obtain ⟨out, hminify, rfl⟩ := Option.map_eq_some_iff.mp h
    obtain ⟨ts, htokens, hwrite⟩ := Option.bind_eq_some_iff.mp hminify
    have hnumbers : numbersIn a.value.toList = ts.filterMap Token.number? := by
      rw [numbersIn, htokens, Option.getD_some]
    rw [hnumbers]
    refine proper_iff (fun hfinite => ?_) fun x hx hinfinite => ?_
    · rw [String.toList_ofList]
      refine (spelled_write (known_tokens htokens) (fun t ht => ?_) hwrite).numeric
      cases t with
      | command letter => rfl
      | number written =>
          rw [Token.isFinite, Option.all_eq_true]
          intro x hread
          exact hfinite x (List.mem_filterMap.mpr ⟨.number written, ht, hread⟩)
    · obtain ⟨c, hc, htells⟩ := telltale_write hinfinite style
      refine ⟨c, ?_, htells⟩
      rw [String.toList_ofList]
      exact mem_write hwrite hx hc
  · cases h

end PathData

namespace AttributeRemoval

/-- The width and the height of a tag, as far as they are read as numbers. -/
def sizes (tag : Tag) : List Binary64 :=
  ((tag.attribute? "width").bind pixels?).toList ++ ((tag.attribute? "height").bind pixels?).toList

/-- The view box that is made of the width and the height, if one is. -/
def madeViewBox? (tag : Tag) : Option String :=
  if tag.hasAttribute "viewBox" then none
  else
    match (tag.attribute? "width").bind pixels?, (tag.attribute? "height").bind pixels? with
    | some width, some height =>
      some ("0 0 " ++ String.ofList (plain width) ++ " " ++ String.ofList (plain height))
    | _, _ => none

/-- Nothing is written but the view box. -/
theorem mem_without_size {tag : Tag} {a : Attribute} (h : a ∈ (withoutSize tag).attributes) :
    a ∈ tag.attributes ∨ (a.name = "viewBox" ∧ madeViewBox? tag = some a.value) := by
  have hremove {attributes : Attributes}
      (h : a ∈ (attributes.remove "width").remove "height") : a ∈ attributes :=
    List.mem_of_mem_eraseP (List.mem_of_mem_eraseP h)
  by_cases hbox : tag.hasAttribute "viewBox"
  · have hsame : withoutSize tag = (tag.removeAttribute "width").removeAttribute "height" :=
      if_pos hbox
    rw [hsame] at h
    exact .inl (hremove h)
  · cases hwidth : (tag.attribute? "width").bind pixels? with
    | none =>
        have hsame : withoutSize tag = tag := by
          simp only [withoutSize, hbox, hwidth, Bool.false_eq_true, if_false]
        rw [hsame] at h
        exact .inl h
    | some width =>
        cases hheight : (tag.attribute? "height").bind pixels? with
        | none =>
            have hsame : withoutSize tag = tag := by
              simp only [withoutSize, hbox, hwidth, hheight, Bool.false_eq_true, if_false]
            rw [hsame] at h
            exact .inl h
        | some height =>
            have hsame : withoutSize tag = ((tag.setAttribute "viewBox" ("0 0 " ++
                String.ofList (plain width) ++ " " ++ String.ofList (plain height))).removeAttribute
                  "width").removeAttribute "height" := by
              simp only [withoutSize, hbox, hwidth, hheight, Bool.false_eq_true, if_false]
            have hmade : madeViewBox? tag = some ("0 0 " ++ String.ofList (plain width) ++ " " ++
                String.ofList (plain height)) := by
              simp only [madeViewBox?, hbox, hwidth, hheight, Bool.false_eq_true, if_false]
            rw [hsame] at h
            rcases Attributes.mem_set (hremove h) with hold | rfl
            · exact .inl hold
            · exact .inr ⟨rfl, hmade⟩

theorem proper_view_box {tag : Tag} {text : String} (h : madeViewBox? tag = some text) :
    IsProper text ↔ ∀ x ∈ sizes tag, x.isFinite := by
  unfold madeViewBox? at h
  split at h
  · cases h
  · split at h
    · rename_i width height hwidth hheight
      have hsizes : sizes tag = [width, height] := by
        rw [sizes, hwidth, hheight]
        rfl
      have htext : text.toList = ['0'] ++ ' ' :: (['0'] ++ ' ' :: (plain width ++
          ' ' :: (plain height ++ []))) := by
        rw [← Option.some.inj h]
        simp
      rw [hsizes]
      refine proper_iff (fun hfinite => ?_) fun x hx hinfinite => ?_
      · have hzero : IsNumeral ['0'] := .positive (.whole (by simp) (by simp))
        have hwide := numeral_plain_of_finite (hfinite width (by simp))
        have hhigh := numeral_plain_of_finite (hfinite height (by simp))
        rw [htext]
        exact .numeral hzero (.space (.numeral hzero (.space (.numeral hwide
          (.space (.numeral hhigh .nil))))))
      · obtain ⟨c, hc, htells⟩ := telltale_plain hinfinite
        refine ⟨c, ?_, htells⟩
        rw [htext]
        have hxs : x = width ∨ x = height := by simpa using hx
        rcases hxs with rfl | rfl
        · simp [hc]
        · simp [hc]
    · cases h

end AttributeRemoval

/-- What the three passes over numbers write. Every value that cleaning numbers, minifying path data
or making a view box writes consists of numerals, beside units, separators and commands, and holds
no word for what is no finite number, exactly if all numbers that were read for it are finite. -/
theorem number_passes_write (params : Params) (doc out : Document) :
    (cleanup.apply params doc = .ok out → ∃ style dropPixels,
      out = doc.mapTags
        (·.mapValues fun a => (Numerals.written? style dropPixels a).getD a.value) ∧
      ∀ a text, Numerals.written? style dropPixels a = some text →
        (IsProper text ↔ ∀ x ∈ Numerals.numbersIn a, x.isFinite)) ∧
    (PathData.convert.apply params doc = .ok out → ∃ style,
      out = doc.mapTags
        (fun tag => tag.mapValues fun a => (PathData.written? style tag a).getD a.value) ∧
      ∀ tag a text, PathData.written? style tag a = some text →
        (IsProper text ↔ ∀ x ∈ PathData.numbersIn a.value.toList, x.isFinite)) ∧
    (AttributeRemoval.removeDimensions.apply params doc = .ok out →
      out = doc.mapRoot
        (fun tag children => .element (AttributeRemoval.withoutSize tag) children) ∧
      ∀ tag, (∀ a ∈ (AttributeRemoval.withoutSize tag).attributes, a ∈ tag.attributes ∨
          (a.name = "viewBox" ∧ AttributeRemoval.madeViewBox? tag = some a.value)) ∧
        ∀ text, AttributeRemoval.madeViewBox? tag = some text →
          (IsProper text ↔ ∀ x ∈ AttributeRemoval.sizes tag, x.isFinite)) := by
  refine ⟨fun h => ?_, fun h => ?_, fun h => ?_⟩
  · obtain ⟨style, dropPixels, rfl⟩ := cleanup_ok h
    refine ⟨style, dropPixels, ?_, fun a text htext => Numerals.proper_written htext⟩
    have hclean : clean style dropPixels =
        fun a => (Numerals.written? style dropPixels a).getD a.value :=
      funext (clean_eq_written style dropPixels)
    rw [hclean]
  · obtain ⟨style, rfl⟩ := PathData.convert_ok h
    refine ⟨style, ?_, fun tag a text htext => PathData.proper_written htext⟩
    rw [funext (PathData.minify_tag_eq_written style)]
  · cases h
    exact ⟨rfl, fun tag => ⟨fun a ha => AttributeRemoval.mem_without_size ha,
      fun text htext => AttributeRemoval.proper_view_box htext⟩⟩

theorem number_passes_write_sized :
    let tag : Tag := ⟨"svg", [⟨"width", "10px"⟩, ⟨"height", "0.5"⟩]⟩
    let boxed : Tag := ⟨"svg", [⟨"viewBox", "0 0 10 0.5"⟩]⟩
    AttributeRemoval.removeDimensions.apply [] ⟨[.element tag []]⟩ = .ok ⟨[.element boxed []]⟩ ∧
      IsProper "0 0 10 0.5" := by
  intro tag boxed
  have happly : AttributeRemoval.removeDimensions.apply [] ⟨[.element tag []]⟩ =
      .ok ⟨[.element boxed []]⟩ := by decide +kernel
  have hmade : AttributeRemoval.madeViewBox? tag = some "0 0 10 0.5" := by decide +kernel
  obtain ⟨-, -, hsize⟩ := number_passes_write [] ⟨[.element tag []]⟩ ⟨[.element boxed []]⟩
  refine ⟨happly, ((hsize happly).2 tag).2 _ hmade |>.mpr ?_⟩
  decide +kernel

/-- A numeral that is too large for a number comes back as a word. -/
theorem path_written_with_word :
    let doc : Document := ⟨[.element ⟨"svg", []⟩ [.element ⟨"path", [⟨"d", "M1e999 0"⟩]⟩ []]]⟩
    PathData.convert.apply [] doc =
        .ok ⟨[.element ⟨"svg", []⟩ [.element ⟨"path", [⟨"d", "Minf 0"⟩]⟩ []]]⟩ ∧
      "inf".toList <:+: "Minf 0".toList := by
  decide +kernel

end SvgPress
