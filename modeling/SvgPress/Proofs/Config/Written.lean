import SvgPress.Config.Basic
import SvgPress.Proofs.Json.Reading
import SvgPress.Proofs.Json.Retyping
import SvgPress.Proofs.Json.Texts
import SvgPress.Proofs.Number.Whole

/-!
Configurations that are written out. A configuration with all its defaults has a JSON form, and
whatever text that form is given, it is read as the same configuration with nothing to complain
about: what was coerced, raised or filled in is of the kind that is taken as it stands. That there
is such a text is owed to the parts having been read once, numbers from numerals and parameters from
a text that nests no deeper.
-/

namespace SvgPress

open Json

/-! ### What was read -/

/-- Whether the parameters of an entry can be written. -/
def PassSpec.IsWritable (depth : Nat) (spec : PassSpec) : Prop :=
  ∀ params ∈ spec.params, Object.IsWritable depth params

theorem PassSpec.decoder_ok {depth : Nat} {cs rest : List Char} {spec : PassSpec}
    (h : PassSpec.decoder depth cs = .ok (spec, rest)) : spec.IsWritable (depth - 2) := by
  refine Decoder.invariant_of_record (by simp [PassSpec.IsWritable]) ?_ h
  simp only [PassSpec.fields, List.forall_mem_cons]
  refine ⟨?_, ?_, ?_, ?_, by simp⟩
  · exact RecordField.keeps_optional (fun _ hs => hs) fun _ _ _ _ _ hs => hs
  · exact RecordField.keeps_optional (fun _ hs => hs) fun _ _ _ _ _ hs => hs
  · intro cs change rest hread
    obtain ⟨_, -, hpair⟩ := map_ok hread
    cases hpair
    exact fun _ hs => hs
  · refine RecordField.keeps_optional (fun _ _ => by simp [PassSpec.IsWritable])
      fun cs params rest hread s _ => ?_
    intro other hother
    cases hother
    exact Decoder.object_ok hread

namespace RawConfig

/-- What was read into a configuration can be written out again. -/
structure IsWritable (raw : RawConfig) : Prop where
  indent : ∀ n ∈ raw.indent, (Number.integer n).IsWritable
  maxPasses : ∀ n ∈ raw.maxPasses, (Number.integer n).IsWritable
  fileTimeoutMs : ∀ n ∈ raw.fileTimeoutMs, (Number.integer n).IsWritable
  plugins : ∀ specs ∈ raw.plugins, ∀ spec ∈ specs, spec.IsWritable 124

theorem is_writable {text : String} {raw : RawConfig} (h : decode decoder text = .ok raw) :
    raw.IsWritable := by
  obtain ⟨⟨config, rest⟩, hread, h⟩ := bind_ok h
  simp only at h
  split at h
  · cases h
    refine Decoder.invariant_of_record ⟨by simp, by simp, by simp, by simp⟩ ?_ hread
    simp only [fields, List.forall_mem_cons]
    refine ⟨?_, ?_, ?_, ?_, ?indent, ?_, ?maxPasses, ?plugins, ?_, ?fileTimeoutMs, ?_,
      ?_, ?_, by simp⟩
    case indent =>
      refine RecordField.keeps_optional (fun _ hs => ⟨by simp, hs.2, hs.3, hs.4⟩)
        fun _ n _ hn _ hs => ?_
      exact ⟨by simpa using Decoder.natural_ok hn, hs.2, hs.3, hs.4⟩
    case maxPasses =>
      refine RecordField.keeps_optional (fun _ hs => ⟨hs.1, by simp, hs.3, hs.4⟩)
        fun _ n _ hn _ hs => ?_
      exact ⟨hs.1, by simpa using Decoder.natural_ok hn, hs.3, hs.4⟩
    case plugins =>
      refine RecordField.keeps_optional (fun _ hs => ⟨hs.1, hs.2, hs.3, by simp⟩)
        fun _ n _ hn _ hs => ?_
      have hspecs := Decoder.array_ok (fun _ _ _ => PassSpec.decoder_ok) hn
      exact ⟨hs.1, hs.2, hs.3, by simpa using hspecs⟩
    case fileTimeoutMs =>
      refine RecordField.keeps_optional (fun _ hs => ⟨hs.1, hs.2, by simp, hs.4⟩)
        fun _ n _ hn _ hs => ?_
      exact ⟨hs.1, hs.2, by simpa using Decoder.natural_ok hn, hs.4⟩
    -- nothing is said of the other fields
    all_goals
      exact RecordField.keeps_optional (fun _ hs => ⟨hs.1, hs.2, hs.3, hs.4⟩)
        fun _ _ _ _ _ hs => ⟨hs.1, hs.2, hs.3, hs.4⟩
  · cases h

end RawConfig

/-! ### What is written -/

theorem PassSpec.takes_to_json {spec : PassSpec} (h : ∀ params ∈ spec.params, params.IsCanonical) :
    PassSpec.decoder.Takes spec.toJson spec := by
  obtain ⟨name, path, enabled, params⟩ := spec
  have hfields : ∀ field ∈ PassSpec.fields, field.optionalInObject := by decide
  have henabled : Decoder.Sets PassSpec.fields ("enabled", .bool enabled)
      (["enabled"], fun s => { s with enabled := enabled }) :=
    ⟨_, rfl, rfl, (Decoder.takes_bool enabled).map fun v (s : PassSpec) => { s with enabled := v }⟩
  have hname : ∀ s ∈ name, Decoder.Sets PassSpec.fields ("name", .string s)
      (["name"], fun spec => { spec with name := some s }) := fun s _ =>
    ⟨_, rfl, rfl, (Decoder.takes_optional (Decoder.takes_string s) nofun).map
      fun v (s : PassSpec) => { s with name := v }⟩
  have hpath : ∀ s ∈ path, Decoder.Sets PassSpec.fields ("path", .string s)
      (["path"], fun spec => { spec with path := some s }) := fun s _ =>
    ⟨_, rfl, rfl, (Decoder.takes_optional (Decoder.takes_string s) nofun).map
      fun v (s : PassSpec) => { s with path := v }⟩
  have hparams : ∀ o ∈ params, Decoder.Sets PassSpec.fields ("params", .object o)
      (["params"], fun spec => { spec with params := some o }) := fun o ho => by
    have htakes := Decoder.takes_object o
    rw [(h o ho).merge_members] at htakes
    exact ⟨_, rfl, rfl, (Decoder.takes_optional htakes nofun).map
      fun v (s : PassSpec) => { s with params := v }⟩
  have hsets := List.rel_append (List.rel_append (List.rel_append (.cons henabled .nil)
    (Decoder.sets_option hname)) (Decoder.sets_option hparams)) (Decoder.sets_option hpath)
  have htakes : PassSpec.decoder.Takes _ _ := Decoder.takes_record hfields hsets <| by
    cases name <;> cases path <;> cases params <;> simp
  cases name <;> cases params <;> cases path <;> exact htakes

theorem PassSpec.writable_to_json {spec : PassSpec} (h : spec.IsWritable 124) :
    Writable 126 spec.toJson := by
  refine .object fun m hm => ?_
  simp only [List.mem_append, List.mem_singleton, Option.mem_toList, Option.map_eq_some_iff] at hm
  rcases hm with ((rfl | ⟨s, -, rfl⟩) | ⟨params, hparams, rfl⟩) | ⟨s, -, rfl⟩
  · exact .bool _
  · exact .string _
  · exact .object (h params hparams).2
  · exact .string _

namespace Config

variable {config : Config} {raw : RawConfig}

/-- What a configuration with its defaults has in common with one that was read. -/
structure IsWritable (config : Config) : Prop where
  floatPrecision : ∀ n ∈ config.floatPrecision, n ≤ maxPrecision
  indent : (Number.integer config.indent).IsWritable
  maxPasses : (Number.integer config.maxPasses).IsWritable
  passes : config.maxPasses ≠ 0
  fileTimeoutMs : ∀ n ∈ config.fileTimeoutMs, (Number.integer n).IsWritable
  plugins : ∀ spec ∈ config.plugins, spec.IsWritable 124

theorem writable_small {n : Nat} (h : n ≤ Number.limit) : (Number.integer n).IsWritable :=
  ⟨false, Decimal.digits n, Number.numeral_digits h⟩

theorem precision_le {o : Option Value} : ∀ n ∈ (precisionOf o).value, n ≤ maxPrecision := by
  intro n hn
  unfold precisionOf at hn
  split at hn
  · cases hn
  · cases hn
  · split at hn
    · rename_i m hm
      cases hn
      rw [precision?] at hm
      split at hm
      · split at hm
        · rename_i hle
          cases hm
          exact hle
        · cases hm
      · cases hm
    · cases hn

theorem is_writable_of_raw (h : raw.IsWritable) : (ofRaw raw).value.IsWritable where
  floatPrecision := precision_le
  indent := by
    show (Number.integer (raw.indent.getD 2 : Nat)).IsWritable
    cases hindent : raw.indent with
    | none => exact writable_small (by decide)
    | some n => exact h.indent n hindent
  maxPasses := by
    show (Number.integer ((passCountOf raw.maxPasses).value : Nat)).IsWritable
    match hpasses : raw.maxPasses with
    | none => exact writable_small (by decide)
    | some 0 => exact writable_small (by decide)
    | some (n + 1) => exact h.maxPasses (n + 1) hpasses
  passes := by
    show (passCountOf raw.maxPasses).value ≠ 0
    match raw.maxPasses with
    | none => decide
    | some 0 => decide
    | some (n + 1) => exact Nat.succ_ne_zero n
  fileTimeoutMs := h.fileTimeoutMs
  plugins := by
    show ∀ spec ∈ raw.plugins.getD [], spec.IsWritable 124
    cases hplugins : raw.plugins with
    | none => simp
    | some specs => exact h.plugins specs hplugins

/-- A configuration as it is read from what was written for it. -/
def toRaw (config : Config) : RawConfig where
  enabled := some config.enabled
  full := some config.full
  floatPrecision := config.floatPrecision.map .ofNat
  prettyOutput := some config.prettyOutput
  indent := some config.indent
  multipass := some config.multipass
  maxPasses := some config.maxPasses
  plugins := some config.plugins
  debug := some config.debug
  fileTimeoutMs := config.fileTimeoutMs
  pluginsDir := config.pluginsDir.map Path.text
  outputFileName := some config.outputFileName
  componentExtension := some config.componentExtension

theorem takes_to_json (h : config.IsWritable) :
    RawConfig.decoder.Takes config.toJson config.toRaw := by
  have hfields : ∀ field ∈ RawConfig.fields, field.optionalInObject := by decide
  have hbool (b : Bool) : (Decoder.optional Decoder.bool).Takes (.bool b) (some b) :=
    Decoder.takes_optional (Decoder.takes_bool b) nofun
  have hstring (s : String) : (Decoder.optional Decoder.string).Takes (.string s) (some s) :=
    Decoder.takes_optional (Decoder.takes_string s) nofun
  have hnatural (n : Nat) : (Decoder.optional Decoder.natural).Takes (.ofNat n) (some n) :=
    Decoder.takes_optional (Decoder.takes_natural n) nofun
  have hprecision : (Decoder.optional Decoder.value).Takes (.ofOption .ofNat config.floatPrecision)
      (config.floatPrecision.map .ofNat) :=
    Decoder.takes_of_option (fun n => Decoder.takes_value (.ofNat n)) (fun _ => nofun) _
  have htimeout : (Decoder.optional Decoder.natural).Takes (.ofOption .ofNat config.fileTimeoutMs)
      config.fileTimeoutMs := by
    have htakes := Decoder.takes_of_option (g := id) Decoder.takes_natural (fun _ => nofun)
      config.fileTimeoutMs
    simpa using htakes
  have hplugins : (Decoder.optional (Decoder.array PassSpec.decoder)).Takes
      (.array (config.plugins.map PassSpec.toJson)) (some config.plugins) := by
    refine Decoder.takes_optional (Decoder.takes_array ?_) nofun
    rw [List.forall₂_map_left_iff, List.forall₂_same]
    exact fun spec hspec => PassSpec.takes_to_json fun params hparams =>
      (h.plugins spec hspec params hparams).1
  have hdir : (Decoder.optional Decoder.string).Takes
      (.ofOption (fun (p : Path) => .string p.text) config.pluginsDir)
      (config.pluginsDir.map Path.text) :=
    Decoder.takes_of_option (fun p : Path => Decoder.takes_string p.text) (fun _ => nofun) _
  have hset {α : Type} {names : List String} {key : String} {d : Decoder α}
      {set : Option α → RawConfig → RawConfig} {v : Value} {o : Option α}
      (hfind : RawConfig.fields.find? (·.names.contains key) = some (RawConfig.field names d set))
      (htakes : (Decoder.optional d).Takes v o) :
      Decoder.Sets RawConfig.fields (key, v) (names, set o) :=
    ⟨_, hfind, rfl, htakes.map set⟩
  have hsets : List.Forall₂ (Decoder.Sets RawConfig.fields)
      [("componentExtension", _), ("debug", _), ("enabled", _), ("fileTimeoutMs", _),
        ("floatPrecision", _), ("full", _), ("indent", _), ("maxPasses", _), ("multipass", _),
        ("outputFileName", _), ("plugins", _), ("pluginsDir", _), ("prettyOutput", _)] _ :=
    .cons (hset rfl (hstring config.componentExtension)) <| .cons (hset rfl (hbool config.debug)) <|
      .cons (hset rfl (hbool config.enabled)) <| .cons (hset rfl htimeout) <|
      .cons (hset rfl hprecision) <| .cons (hset rfl (hbool config.full)) <|
      .cons (hset rfl (hnatural config.indent)) <| .cons (hset rfl (hnatural config.maxPasses)) <|
      .cons (hset rfl (hbool config.multipass)) <|
        .cons (hset rfl (hstring config.outputFileName)) <|
      .cons (hset rfl hplugins) <| .cons (hset rfl hdir) <|
      .cons (hset rfl (hbool config.prettyOutput)) .nil
  exact Decoder.takes_record hfields hsets (by simp)

/-- What was written is read without a complaint. -/
theorem of_raw_to_raw (h : config.IsWritable) : ofRaw config.toRaw = ⟨config, []⟩ := by
  have hprecision : precisionOf (config.floatPrecision.map .ofNat) =
      ⟨config.floatPrecision, []⟩ := by
    cases hn : config.floatPrecision with
    | none => rfl
    | some n =>
        have hle := h.floatPrecision n hn
        have hsmall : n < 2 ^ 53 := Nat.lt_of_le_of_lt hle (by decide)
        have hnumber : numberOf (.ofNat n) = some (.ofInt n) := rfl
        have hread : precision? (.ofNat n) = some n := by
          rw [precision?, hnumber, Option.bind_some, Binary64.to_int_of_int hsmall]
          exact if_pos hle
        have hvalue : Value.ofNat n ≠ .null := fun hnull => by cases hnull
        rw [Option.map_some, precisionOf, hread]
        · rfl
        · exact hvalue
  have hpasses : passCountOf (some config.maxPasses) = ⟨config.maxPasses, []⟩ := by
    obtain ⟨n, hn⟩ := Nat.exists_eq_succ_of_ne_zero h.passes
    rw [hn]
    rfl
  have hdir : (config.pluginsDir.map Path.text).map Path.mk = config.pluginsDir := by
    cases config.pluginsDir <;> rfl
  show (do
    let floatPrecision ← precisionOf (config.floatPrecision.map .ofNat)
    let maxPasses ← passCountOf (some config.maxPasses)
    return { config with
      floatPrecision := floatPrecision
      maxPasses := maxPasses
      pluginsDir := (config.pluginsDir.map Path.text).map Path.mk }) = _
  rw [hprecision, hpasses, hdir]
  rfl

theorem writable_to_json (h : config.IsWritable) : Writable 128 config.toJson := by
  have hprecision : ∀ n ∈ config.floatPrecision, Writable 127 (.ofNat n) := fun n hn =>
    .number (writable_small (Nat.le_trans (h.floatPrecision n hn) (by decide)))
  have hplugins : ∀ v ∈ config.plugins.map PassSpec.toJson, Writable 126 v := by
    intro v hv
    obtain ⟨spec, hspec, rfl⟩ := List.mem_map.mp hv
    exact PassSpec.writable_to_json (h.plugins spec hspec)
  refine .object ?_
  simp only [List.forall_mem_cons]
  exact ⟨.string _, .bool _, .bool _, writable_option fun n hn => .number (h.fileTimeoutMs n hn),
    writable_option hprecision, .bool _, .number h.indent, .number h.maxPasses, .bool _, .string _,
    .array hplugins, writable_option fun p _ => .string p.text, .bool _, by simp⟩

/-- Whatever a text holds that can be read as a configuration, the configuration that comes of it
has a JSON form that can be written, and every text of that form is read as the same configuration,
without anything to complain about. -/
theorem written_read_back {text : String} {raw : RawConfig}
    (h : decode RawConfig.decoder text = .ok raw) :
    (∃ written, decode Decoder.raw written = .ok (ofRaw raw).value.toJson) ∧
      ∀ written, decode Decoder.raw written = .ok (ofRaw raw).value.toJson →
        ∃ again, decode RawConfig.decoder written = .ok again ∧
          ofRaw again = ⟨(ofRaw raw).value, []⟩ := by
  have hwritable := is_writable_of_raw (RawConfig.is_writable h)
  exact ⟨(writable_to_json hwritable).decodes, fun written hwritten =>
    ⟨_, decode_of_takes (takes_to_json hwritable) hwritten, of_raw_to_raw hwritable⟩⟩

/-- The first reading coerces the precision and raises the number of passes; what was written of it
is read as it stands. -/
theorem written_read_back_coerced :
    let text := "\x7b\"pretty\": false, \"floatPrecision\": \" 3.0 \", \"maxPasses\": 0, " ++
      "\"plugins\": [[\"removeAttrs\", null, false, \x7b\"b\": [0.1], \"a\": 1e3\x7d]]\x7d"
    ∃ raw, decode RawConfig.decoder text = .ok raw ∧ (ofRaw raw).log = [.passCountRaised] ∧
      (ofRaw raw).value.floatPrecision = some 3 ∧ (ofRaw raw).value.maxPasses = 1 ∧
      ∃ written again, decode Decoder.raw written = .ok (ofRaw raw).value.toJson ∧
        decode RawConfig.decoder written = .ok again ∧ ofRaw again = ⟨(ofRaw raw).value, []⟩ := by
  intro text
  have hmap : (decode RawConfig.decoder text).map (fun raw => ((ofRaw raw).log,
      (ofRaw raw).value.floatPrecision, (ofRaw raw).value.maxPasses)) =
        .ok ([.passCountRaised], some 3, 1) := by
    decide +kernel
  obtain ⟨raw, hraw, hfields⟩ := map_ok hmap
  simp only [Prod.mk.injEq] at hfields
  obtain ⟨⟨written, hwritten⟩, hagain⟩ := written_read_back hraw
  obtain ⟨again, hread, hsame⟩ := hagain written hwritten
  exact ⟨raw, hraw, hfields.1, hfields.2.1, hfields.2.2, written, again, hwritten, hread, hsame⟩

end Config

end SvgPress
