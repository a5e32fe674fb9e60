import ParquetFooter.Proofs.Assembly.Chunk
import ParquetFooter.Proofs.Reader
import Mathlib.Tactic.Common

/-! # What settings come to

A policy is made by settings that come in any order. Each of its three attributes is resolved on its
own: the last value that was set for exactly the path of a column counts, else the last value that
was set for all columns, else a default. Which of the two came first does not matter. The one thing
that is refused is a dictionary encoding for values without a dictionary, so the encodings that are
recorded of a column chunk name a dictionary only when there is one.
-/

namespace ParquetFooter

namespace Choice

/-- The encoding that a choice is about. -/
def encoding? : Choice → Option Encoding
  | .encoding chosen => some chosen
  | _ => none

/-- The compression that a choice is about. -/
def compression? : Choice → Option Compression
  | .compression chosen => some chosen
  | _ => none

/-- What a choice says about dictionaries. -/
def dictionary? : Choice → Option Bool
  | .dictionary enabled => some enabled
  | _ => none

/-- A dictionary encoding is chosen for values that are not in a dictionary. -/
def NamesDictionary (choice : Choice) : Prop :=
  choice = .encoding .plainDictionary ∨ choice = .encoding .rleDictionary

end Choice

/-- There are two encodings by a dictionary. -/
theorem Encoding.isDictionary_iff {encoding : Encoding} :
    encoding.isDictionary = true ↔ encoding = .plainDictionary ∨ encoding = .rleDictionary := by
  cases encoding <;> decide

/-- A choice of an encoding names a dictionary when the encoding is one by a dictionary. -/
theorem Choice.namesDictionary_iff {choice : Choice} {encoding : Encoding}
    (about : choice.encoding? = some encoding) :
    choice.NamesDictionary ↔ encoding.isDictionary = true := by
  cases choice with
  | encoding given =>
      obtain rfl := Option.some.inj about
      rw [NamesDictionary, Choice.encoding.injEq, Choice.encoding.injEq, Encoding.isDictionary_iff]
  | compression given => cases about
  | dictionary given => cases about

namespace Choices

/-- A dictionary encoding is the only choice that is refused. -/
theorem add_eq_error {choices : Choices} {choice : Choice} {breach : Breach} :
    choices.add choice = .error breach ↔
      choice.NamesDictionary ∧ breach = .dictionaryAsFallback := by
  cases choice with
  | encoding encoding =>
      rw [add, Choice.namesDictionary_iff rfl]
      by_cases refused : encoding.isDictionary
      · simp [refused, eq_comm]
      · simp [refused]
  | compression compression => simp [add, Choice.NamesDictionary]
  | dictionary enabled => simp [add, Choice.NamesDictionary]

/-- A choice that is added counts for what it is about, and leaves all else as it is. -/
theorem eq_of_add {choices added : Choices} {choice : Choice}
    (done : choices.add choice = .ok added) :
    added =
      { encoding := choice.encoding?.or choices.encoding
        compression := choice.compression?.or choices.compression
        dictionary := choice.dictionary?.or choices.dictionary } := by
  cases choice with
  | encoding encoding =>
      rw [add] at done
      split at done
      next => cases done
      next => exact (Except.ok.inj done).symm
  | compression compression => exact (Except.ok.inj done).symm
  | dictionary enabled => exact (Except.ok.inj done).symm

/-- What is held of some choices for one attribute, and what a choice says about it. -/
structure Attribute {α : Type} (held : Choices → Option α) (value? : Choice → Option α) : Prop where
  none : held .none = .none
  add : ∀ {choices choice added}, choices.add choice = .ok added →
    held added = (value? choice).or (held choices)

/-- Encodings are held as they are chosen. -/
theorem encoding_counts : Attribute Choices.encoding Choice.encoding? where
  none := rfl
  add done := congrArg Choices.encoding (eq_of_add done)

theorem compression_counts : Attribute Choices.compression Choice.compression? where
  none := rfl
  add done := congrArg Choices.compression (eq_of_add done)

theorem dictionary_counts : Attribute Choices.dictionary Choice.dictionary? where
  none := rfl
  add done := congrArg Choices.dictionary (eq_of_add done)

end Choices

/-- Adding a choice for a path is refused when the choice is. -/
theorem addChoice_eq_error {path : ColumnPath} {choice : Choice}
    {entries : List (ColumnPath × Choices)} {breach : Breach} :
    addChoice path choice entries = .error breach ↔
      choice.NamesDictionary ∧ breach = .dictionaryAsFallback := by
  induction entries with
  | nil => simp [addChoice, Except.bind_eq_error, Choices.add_eq_error, pure, Except.pure]
  | cons entry rest ih =>
      rw [addChoice]
      split
      next => simp [Except.bind_eq_error, Choices.add_eq_error, pure, Except.pure]
      next => simp [Except.bind_eq_error, ih, pure, Except.pure]

/-- A choice for a path is added to what there is for that path, and to nothing else. -/
theorem lookup_addChoice {path : ColumnPath} {choice : Choice}
    {entries changed : List (ColumnPath × Choices)}
    (done : addChoice path choice entries = .ok changed) :
    (∃ added, ((entries.lookup path).getD .none).add choice = .ok added ∧
      changed.lookup path = some added) ∧
    ∀ other ≠ path, changed.lookup other = entries.lookup other := by
  induction entries generalizing changed with
  | nil =>
      obtain ⟨added, fine, same⟩ := Except.bind_eq_ok.mp done
      obtain rfl := Except.ok.inj same
      refine ⟨⟨added, fine, List.lookup_cons_self⟩, fun other differs => ?_⟩
      rw [List.lookup_cons, beq_false_of_ne differs]
  | cons entry rest ih =>
      rw [addChoice] at done
      split at done
      next same =>
        obtain ⟨added, fine, same'⟩ := Except.bind_eq_ok.mp done
        obtain rfl := Except.ok.inj same'
        obtain rfl := same
        rw [List.lookup_cons_self, List.lookup_cons_self]
        refine ⟨⟨added, fine, rfl⟩, fun other differs => ?_⟩
        rw [List.lookup_cons, List.lookup_cons, beq_false_of_ne differs]
      next differs =>
        obtain ⟨later, fine, same⟩ := Except.bind_eq_ok.mp done
        obtain rfl := Except.ok.inj same
        obtain ⟨here, elsewhere⟩ := ih fine
        rw [List.lookup_cons, List.lookup_cons, beq_false_of_ne (Ne.symm differs)]
        refine ⟨here, fun other apart => ?_⟩
        rw [List.lookup_cons, List.lookup_cons, elsewhere other apart]

namespace Setting

/-- The choice that a setting makes for all columns. -/
def everywhere? : Setting → Option Choice
  | everywhere choice => some choice
  | _ => none

/-- The choice that a setting makes for exactly this path. -/
def column? (path : ColumnPath) : Setting → Option Choice
  | column other choice => if other = path then some choice else none
  | _ => none

/-- A dictionary encoding is chosen, for all columns or for one. -/
def NamesDictionary : Setting → Prop
  | everywhere choice | column _ choice => choice.NamesDictionary
  | _ => False

/-- A setting for all columns names a dictionary when its choice does. -/
theorem namesDictionary_of_everywhere? {setting : Setting} {choice : Choice}
    (inScope : everywhere? setting = some choice) (names : choice.NamesDictionary) :
    setting.NamesDictionary := by
  cases setting with
  | everywhere given => rwa [← Option.some.inj inScope] at names
  | _ => cases inScope

/-- A setting for one column names a dictionary when its choice does. -/
theorem namesDictionary_of_column? {path : ColumnPath} {setting : Setting} {choice : Choice}
    (inScope : column? path setting = some choice) (names : choice.NamesDictionary) :
    setting.NamesDictionary := by
  cases setting with
  | column other given =>
      rw [column?, Option.ite_none_right_eq_some] at inScope
      rwa [← Option.some.inj inScope.2] at names
  | _ => cases inScope

variable {α : Type}

/-- The last value of an attribute that is chosen by settings of some scope. -/
def last? (scope? : Setting → Option Choice) (value? : Choice → Option α)
    (settings : List Setting) : Option α :=
  (settings.filterMap fun setting => (scope? setting).bind value?).getLast?

/-- What settings choose for an attribute of a column: the last value for its path, or else the last
value for all columns. -/
def resolved? (settings : List Setting) (value? : Choice → Option α) (path : ColumnPath) :
    Option α :=
  (last? (column? path) value? settings).or (last? everywhere? value? settings)

/-- The last choice among some settings is that of the first setting only if there is no later
one. -/
theorem last?_cons (scope? : Setting → Option Choice) (value? : Choice → Option α)
    (setting : Setting) (settings : List Setting) :
    last? scope? value? (setting :: settings) =
      (last? scope? value? settings).or ((scope? setting).bind value?) := by
  unfold last?
  rw [List.filterMap_cons]
  cases (scope? setting).bind value? with
  | none => rw [Option.or_none]
  | some value =>
      rw [List.getLast?_cons]
      cases (settings.filterMap fun setting => (scope? setting).bind value?).getLast? <;> rfl

end Setting

namespace Policy

open Setting

variable {α : Type} {policy next : Policy} {setting : Setting} {settings : List Setting}

/-- A setting is refused when it names a dictionary, and for nothing else. -/
theorem set_eq_error {breach : Breach} :
    policy.set setting = .error breach ↔
      setting.NamesDictionary ∧ breach = .dictionaryAsFallback := by
  cases setting with
  | everywhere choice =>
      simp [set, Except.bind_eq_error, Choices.add_eq_error, NamesDictionary, pure, Except.pure]
  | column path choice =>
      simp [set, Except.bind_eq_error, addChoice_eq_error, NamesDictionary, pure, Except.pure]
  | _ => simp [set, NamesDictionary]

/-- Settings are refused for a dictionary encoding and for nothing else. -/
theorem foldlM_set_eq_error {breach : Breach} :
    settings.foldlM set policy = .error breach ↔
      (∃ setting ∈ settings, setting.NamesDictionary) ∧ breach = .dictionaryAsFallback := by
  induction settings generalizing policy with
  | nil => simp [pure, Except.pure]
  | cons setting settings ih =>
      rw [List.foldlM_cons, Except.bind_eq_error, set_eq_error]
      simp only [ih, List.mem_cons, exists_eq_or_imp]
      cases done : policy.set setting with
      | ok next =>
          have fine : ¬ setting.NamesDictionary := fun names => by
            have refused : policy.set setting = .error .dictionaryAsFallback :=
              set_eq_error.mpr ⟨names, rfl⟩
            rw [done] at refused
            cases refused
          simp [fine]
      | error cause => simp [(set_eq_error.mp done).1]

/-- What is held for all columns changes by a choice for all columns only. -/
theorem everywhere_set {held : Choices → Option α} {value? : Choice → Option α}
    (counts : Choices.Attribute held value?) (done : policy.set setting = .ok next) :
    held next.everywhere = ((everywhere? setting).bind value?).or (held policy.everywhere) := by
  cases setting with
  | everywhere choice =>
      obtain ⟨added, fine, same⟩ := Except.bind_eq_ok.mp done
      obtain rfl := Except.ok.inj same
      exact counts.add fine
  | column path choice =>
      obtain ⟨changed, fine, same⟩ := Except.bind_eq_ok.mp done
      obtain rfl := Except.ok.inj same
      rfl
  | _ =>
      obtain rfl := Except.ok.inj done
      rfl

/-- What is held for a path changes by a choice for this path only. -/
theorem lookup_set {held : Choices → Option α} {value? : Choice → Option α}
    (counts : Choices.Attribute held value?) (path : ColumnPath)
    (done : policy.set setting = .ok next) :
    (next.columns.lookup path).bind held =
      ((column? path setting).bind value?).or ((policy.columns.lookup path).bind held) := by
  cases setting with
  | everywhere choice =>
      obtain ⟨added, fine, same⟩ := Except.bind_eq_ok.mp done
      obtain rfl := Except.ok.inj same
      rfl
  | column other choice =>
      obtain ⟨changed, fine, same⟩ := Except.bind_eq_ok.mp done
      obtain rfl := Except.ok.inj same
      obtain ⟨⟨added, chosen, here⟩, elsewhere⟩ := lookup_addChoice fine
      by_cases exactly : other = path
      · subst exactly
        have before : held ((policy.columns.lookup other).getD .none) =
            (policy.columns.lookup other).bind held := by
          cases policy.columns.lookup other with
          | none => exact counts.none
          | some choices => rfl
        rw [here, column?, if_pos rfl, Option.bind_some, Option.bind_some, counts.add chosen,
          before]
      · rw [elsewhere path (Ne.symm exactly), column?, if_neg exactly]
        rfl
  | _ =>
      obtain rfl := Except.ok.inj done
      rfl

/-- What is read of a policy, when every setting either replaces it or leaves it, is what the last
setting that replaced it has put there. -/
theorem eq_of_foldlM_set {read : Policy → Option α} {scope? : Setting → Option Choice}
    {value? : Choice → Option α}
    (step : ∀ {policy next setting}, policy.set setting = .ok next →
      read next = ((scope? setting).bind value?).or (read policy))
    (done : settings.foldlM set policy = .ok next) :
    read next = (last? scope? value? settings).or (read policy) := by
  induction settings generalizing policy with
  | nil =>
      obtain rfl := Except.ok.inj done
      rfl
  | cons setting settings ih =>
      rw [List.foldlM_cons] at done
      obtain ⟨middle, first, others⟩ := Except.bind_eq_ok.mp done
      rw [ih others, step first, last?_cons, Option.or_assoc]

/-- An attribute of a column is what the settings choose for it. -/
theorem chosen?_eq {held : Choices → Option α} {value? : Choice → Option α}
    (counts : Choices.Attribute held value?) (made : ofSettings settings = .ok policy)
    (path : ColumnPath) : policy.chosen? held path = resolved? settings value? path := by
  have everywhere := eq_of_foldlM_set (everywhere_set counts) made
  have column := eq_of_foldlM_set (lookup_set counts path) made
  rw [chosen?, resolved?, column, everywhere]
  simp [default, counts.none]

/-- Where a policy was made, no setting names a dictionary. -/
theorem not_namesDictionary (made : ofSettings settings = .ok policy) :
    ∀ setting ∈ settings, ¬ setting.NamesDictionary := by
  intro setting member names
  have refused : ofSettings settings = .error .dictionaryAsFallback :=
    foldlM_set_eq_error.mpr ⟨⟨setting, member, names⟩, rfl⟩
  rw [made] at refused
  cases refused

/-- What was chosen last in some scope is no dictionary encoding, as its setting was not refused. -/
theorem isDictionary_of_last? {scope? : Setting → Option Choice} {encoding : Encoding}
    (names : ∀ {setting choice}, scope? setting = some choice → choice.NamesDictionary →
      setting.NamesDictionary)
    (made : ofSettings settings = .ok policy)
    (chosen : last? scope? Choice.encoding? settings = some encoding) :
    encoding.isDictionary = false := by
  obtain ⟨setting, member, named⟩ := List.mem_filterMap.mp (List.mem_of_getLast? chosen)
  obtain ⟨choice, inScope, about⟩ := Option.bind_eq_some_iff.mp named
  have free : ¬ choice.NamesDictionary :=
    fun named => not_namesDictionary made setting member (names inScope named)
  rwa [Choice.namesDictionary_iff about, Bool.not_eq_true] at free

/-- No dictionary encoding gets into a policy. -/
theorem isDictionary_encoding? (made : ofSettings settings = .ok policy) {path : ColumnPath}
    {encoding : Encoding} (chosen : policy.encoding? path = some encoding) :
    encoding.isDictionary = false := by
  rw [encoding?, chosen?_eq Choices.encoding_counts made, resolved?,
    Option.or_eq_some_iff] at chosen
  rcases chosen with own | ⟨-, common⟩
  · exact isDictionary_of_last? namesDictionary_of_column? made own
  · exact isDictionary_of_last? namesDictionary_of_everywhere? made common

/-- No type has an encoding by a dictionary as its usual one. -/
theorem isDictionary_usualEncoding (policy : Policy) (type : PhysicalType) :
    (policy.usualEncoding type).isDictionary = false := by
  unfold usualEncoding
  split <;> rfl

/-- What stands behind a dictionary is never an encoding by a dictionary. -/
theorem isDictionary_directEncoding (made : ofSettings settings = .ok policy) (path : ColumnPath)
    (type : PhysicalType) : (policy.directEncoding path type).isDictionary = false := by
  unfold directEncoding
  cases chosen : policy.encoding? path with
  | some encoding => exact isDictionary_encoding? made chosen
  | none => exact policy.isDictionary_usualEncoding type

/-- What is recorded of the encodings of a column chunk. -/
structure Records (policy : Policy) (column : Column Primitive) (fallback : Bool)
    (encodings : List Encoding) : Prop where
  first : encodings.head? = some .rle
  dictionary : (∃ encoding ∈ encodings, encoding.isDictionary = true) ↔
    policy.hasDictionary column.path = true
  last : policy.hasDictionary column.path = false ∨ fallback = true →
    encodings.getLast? = some (policy.directEncoding column.path column.node.physicalType)
  direct : (policy.directEncoding column.path column.node.physicalType).isDictionary = false

/-- The encodings of a column chunk record what the policy says. -/
theorem records_encodings (made : ofSettings settings = .ok policy) (column : Column Primitive)
    (fallback : Bool) :
    policy.Records column fallback
      (policy.encodings column.path column.node.physicalType fallback) where
  first := rfl
  dictionary := by
    cases dictionary : policy.hasDictionary column.path with
    | true =>
        -- Both versions name the encoding of the indices, the first one for the pages as well.
        have named : policy.dictionaryIndexEncoding ∈
            policy.encodings column.path column.node.physicalType fallback := by
          unfold encodings dictionaryPageEncoding dictionaryIndexEncoding
          cases policy.version <;> simp [dictionary]
        refine iff_of_true ⟨_, named, ?_⟩ rfl
        unfold dictionaryIndexEncoding
        cases policy.version <;> rfl
    | false =>
        have only : policy.encodings column.path column.node.physicalType fallback =
            [.rle, policy.directEncoding column.path column.node.physicalType] := by
          simp [encodings, dictionary]
        have direct := isDictionary_directEncoding made column.path column.node.physicalType
        rw [only]
        refine iff_of_false ?_ Bool.false_ne_true
        rintro ⟨encoding, member, named⟩
        rcases List.mem_cons.mp member with rfl | member
        · cases named
        · obtain rfl := List.mem_singleton.mp member
          exact Bool.false_ne_true (direct.symm.trans named)
  last := by
    intro named
    have ends : (!policy.hasDictionary column.path || fallback) = true := by
      rcases named with none | given
      · rw [none]
        rfl
      · rw [given, Bool.or_true]
    rw [encodings, if_pos ends, List.getLast?_append]
    rfl
  direct := isDictionary_directEncoding made column.path column.node.physicalType

/-- What a policy says of every column is what the settings have chosen for it. A further choice for
one path is not seen by any other. -/
structure Resolves (policy : Policy) (settings : List Setting) : Prop where
  encoding : ∀ path, policy.encoding? path = resolved? settings Choice.encoding? path
  direct : ∀ path type, policy.directEncoding path type =
    (resolved? settings Choice.encoding? path).getD (policy.usualEncoding type)
  compression : ∀ path, policy.compression path =
    (resolved? settings Choice.compression? path).getD .uncompressed
  dictionary : ∀ path, policy.hasDictionary path =
    (resolved? settings Choice.dictionary? path).getD true
  elsewhere : ∀ path other choice changed, other ≠ path →
    policy.set (.column other choice) = .ok changed →
    changed.encoding? path = policy.encoding? path ∧
      changed.compression path = policy.compression path ∧
      changed.hasDictionary path = policy.hasDictionary path
  recorded : ∀ column edits summary, policy.Records column summary.dictionaryFallback
    ((ChunkAssembly.start policy column).complete edits (some summary)).metadata.encodings

/-- A further choice for one path is not seen by another one. -/
theorem chosen?_set_of_ne {held : Choices → Option α} {value? : Choice → Option α}
    (counts : Choices.Attribute held value?) {path other : ColumnPath} (apart : other ≠ path)
    {choice : Choice} (done : policy.set (.column other choice) = .ok next) :
    next.chosen? held path = policy.chosen? held path := by
  rw [chosen?, chosen?, lookup_set counts path done, everywhere_set counts done, column?,
    if_neg apart]
  rfl

/-- A policy says of every column what its settings have chosen. -/
theorem resolves (made : ofSettings settings = .ok policy) : policy.Resolves settings where
  encoding := chosen?_eq Choices.encoding_counts made
  direct path type := by
    rw [directEncoding, encoding?, chosen?_eq Choices.encoding_counts made]
  compression path := by rw [compression, chosen?_eq Choices.compression_counts made]
  dictionary path := by rw [hasDictionary, chosen?_eq Choices.dictionary_counts made]
  elsewhere path other choice changed apart done := by
    refine ⟨chosen?_set_of_ne Choices.encoding_counts apart done, ?_, ?_⟩
    · rw [compression, compression, chosen?_set_of_ne Choices.compression_counts apart done]
    · rw [hasDictionary, hasDictionary, chosen?_set_of_ne Choices.dictionary_counts apart done]
  recorded column edits summary := by
    have encodings : ((ChunkAssembly.start policy column).complete edits
        (some summary)).metadata.encodings =
        policy.encodings column.path column.node.physicalType summary.dictionaryFallback := by
      rw [ChunkAssembly.complete, ChunkAssembly.foldl_edit]
      rfl
    rw [encodings]
    exact records_encodings made column summary.dictionaryFallback

/-- **Settings are resolved attribute by attribute.** Settings are refused exactly when one of them
chooses a dictionary encoding for values without a dictionary. Otherwise every attribute of every
column is the last value for its path, else the last value for all columns, else the default; and
the encodings recorded of a finished chunk start with that of the levels, name a dictionary exactly
when the column has one, and end with the direct encoding where there is no dictionary or it was
given up. A path is a list of names: one name with a dot in it is not the same as two names. -/
theorem ofSettings_resolves (settings : List Setting) :
    (∀ breach, ofSettings settings = .error breach ↔
      (∃ setting ∈ settings, setting.NamesDictionary) ∧ breach = .dictionaryAsFallback) ∧
    (∀ policy, ofSettings settings = .ok policy → policy.Resolves settings) ∧
    ∀ outer inner : String,
      (⟨[outer ++ "." ++ inner]⟩ : ColumnPath).text = (⟨[outer, inner]⟩ : ColumnPath).text ∧
        (⟨[outer ++ "." ++ inner]⟩ : ColumnPath) ≠ ⟨[outer, inner]⟩ := by
  refine ⟨fun breach => foldlM_set_eq_error, fun policy made => resolves made, ?_⟩
  intro outer inner
  constructor
  · rfl
  · simp

/-- Settings for all columns and for one, in turns. -/
def mixedSettings : List Setting :=
  [ .column ⟨["a", "b"]⟩ (.encoding .deltaBinaryPacked), .everywhere (.encoding .byteStreamSplit),
    .column ⟨["a", "b"]⟩ (.compression .zstd), .version .v2, .everywhere (.compression .snappy),
    .column ⟨["a.b"]⟩ (.dictionary false), .column ⟨["a", "b"]⟩ (.compression .gzip),
    .everywhere (.compression .lz4Raw) ]

/-- The mixed settings are resolved for two paths with the same text; with a dictionary encoding
behind them they are refused. -/
theorem ofSettings_resolves_mixed :
    ∃ policy, ofSettings mixedSettings = .ok policy ∧ policy.Resolves mixedSettings ∧
      policy.encoding? ⟨["a", "b"]⟩ = some .deltaBinaryPacked ∧
      policy.encoding? ⟨["a.b"]⟩ = some .byteStreamSplit ∧
      policy.compression ⟨["a", "b"]⟩ = .gzip ∧ policy.compression ⟨["a.b"]⟩ = .lz4Raw ∧
      policy.hasDictionary ⟨["a", "b"]⟩ = true ∧ policy.hasDictionary ⟨["a.b"]⟩ = false ∧
      ofSettings (mixedSettings ++ [.column ⟨["c"]⟩ (.encoding .rleDictionary)]) =
        .error .dictionaryAsFallback := by
  obtain ⟨policy, made⟩ : ∃ policy, ofSettings mixedSettings = .ok policy := ⟨_, rfl⟩
  have resolved := (ofSettings_resolves mixedSettings).2.1 policy made
  refine ⟨policy, made, resolved, ?_, ?_, ?_, ?_, ?_, ?_, ?_⟩
  · rw [resolved.encoding]; decide
  · rw [resolved.encoding]; decide
  · rw [resolved.compression]; decide
  · rw [resolved.compression]; decide
  · rw [resolved.dictionary]; decide
  · rw [resolved.dictionary]; decide
  · apply ((ofSettings_resolves _).1 _).mpr
    exact ⟨⟨_, List.mem_append_right _ (List.mem_singleton.mpr rfl), .inr rfl⟩, rfl⟩

end Policy

end ParquetFooter
