import ParquetFooter.Proofs.Wire.Header
import ParquetFooter.Wire.Fields

/-! # Walking over fields

The bytes of a record are those of its `Item`s, each behind its header, and of the stop. A walk over
them hands every header to the step, in order, as long as no header wraps and the step takes exactly
the payload of each item. What every step preserves holds at the end of a walk over any input, and
the walk streams when every step does: the clock does not show.
-/

namespace ParquetFooter.Wire

/-- A field of a record as it is written. -/
structure Item where
  type : WireType
  id : Int16
  /-- The bytes behind the header. -/
  payload : Bytes

/-- The bytes of items, after one with id `last`, and of the stop. -/
def encodeItems : Int16 → List Item → Bytes
  | _, [] => FieldHeader.encodeStop
  | last, item :: items =>
    FieldHeader.encode item.type item.id last ++ item.payload ++ encodeItems item.id items

/-- Every header of the items, after one with id `last`, is read back. -/
def Legible : Int16 → List Item → Prop
  | _, [] => True
  | last, item :: items =>
    (item.type ≠ .stop ∧ ¬ FieldHeader.Wraps item.id last) ∧ Legible item.id items

variable {σ : Type}

/-- The step leads from one state to another over items, taking the payload of each. -/
inductive Walk (step : σ → FieldHeader → Reader σ) : σ → List Item → σ → Prop
  | done {state : σ} : Walk step state [] state
  | field {state next final : σ} {item : Item} {items : List Item} :
      Reader.Reads (step state ⟨item.type, item.id⟩) item.payload next →
      Walk step next items final → Walk step state (item :: items) final

variable {step : σ → FieldHeader → Reader σ}

/-- A header takes a byte or more. -/
theorem FieldHeader.length_encode_pos (type : WireType) (id last : Int16) :
    0 < (encode type id last).length := by
  rw [encode]
  split <;> exact Nat.succ_pos _

/-- Every item takes at least the byte of its header. -/
theorem length_lt_encodeItems (last : Int16) (items : List Item) :
    items.length < (encodeItems last items).length := by
  induction items generalizing last with
  | nil => exact Nat.succ_pos _
  | cons item items ih =>
      have header := FieldHeader.length_encode_pos item.type item.id last
      have others := ih item.id
      simp only [encodeItems, List.length_append, List.length_cons]
      omega

/-- Items take no fewer bytes than the payload of each. -/
theorem length_payload_le {item : Item} {items : List Item} (member : item ∈ items)
    (last : Int16) : item.payload.length ≤ (encodeItems last items).length := by
  induction items generalizing last with
  | nil => exact nomatch member
  | cons head items ih =>
      rw [encodeItems, List.length_append, List.length_append]
      rcases List.mem_cons.mp member with rfl | member
      · omega
      · exact Nat.le_add_left_of_le (ih member head.id)

/-- A walk over the bytes of items, with an entry of the clock for each of them and for the stop. -/
theorem foldFieldsFor_encodeItems {start final : σ} {items : List Item} {last : Int16}
    (walk : Walk step start items final) (legible : Legible last items) {clock : Bytes}
    (enough : items.length < clock.length) :
    Reader.Reads (foldFieldsFor step clock last start) (encodeItems last items) final := by
  induction walk generalizing last clock with
  | done =>
      cases clock with
      | nil => exact absurd enough (Nat.lt_irrefl 0)
      | cons tick clock => exact fun _ => rfl
  | @field state next final item items takes walk ih =>
      obtain ⟨⟨field, direct⟩, legible⟩ := legible
      cases clock with
      | nil => exact absurd enough (Nat.not_lt_zero _)
      | cons tick clock =>
          rw [encodeItems, List.append_assoc]
          refine (FieldHeader.read_encode field direct).bind ?_
          rw [if_neg field]
          exact takes.bind (ih legible (Nat.lt_of_succ_lt_succ enough))

/-- Items that are walked over are read off their bytes, up to the stop. -/
theorem foldFields_encodeItems {start final : σ} {items : List Item}
    (walk : Walk step start items final) (legible : Legible 0 items) :
    Reader.Reads (foldFields step start) (encodeItems 0 items) final := by
  intro rest
  have enough : items.length < (encodeItems 0 items ++ rest).length := by
    rw [List.length_append]
    exact Nat.lt_of_lt_of_le (length_lt_encodeItems 0 items) (Nat.le_add_right _ _)
  exact foldFieldsFor_encodeItems walk legible enough rest

/-- A walk ends at the first item that its step refuses, whatever stands behind the header. -/
theorem foldFieldsFor_refused {start middle : σ} {items : List Item} {refused : Item}
    {last : Int16} {fault : Fault} (walk : Walk step start items middle)
    (legible : Legible last (items ++ [refused]))
    (refuses : ∀ input, step middle ⟨refused.type, refused.id⟩ input = .error fault)
    (others : List Item) (rest : Bytes) {clock : Bytes} (enough : items.length < clock.length) :
    foldFieldsFor step clock last start
      (encodeItems last (items ++ refused :: others) ++ rest) = .error fault := by
  induction walk generalizing last clock with
  | done =>
      obtain ⟨⟨field, direct⟩, -⟩ := legible
      cases clock with
      | nil => exact absurd enough (Nat.lt_irrefl 0)
      | cons tick clock =>
          rw [List.nil_append, encodeItems, List.append_assoc, List.append_assoc]
          apply Reader.bind_eq_error.mpr
          refine .inr ⟨_, _, FieldHeader.read_encode field direct _, ?_⟩
          rw [if_neg field]
          exact Reader.bind_eq_error.mpr (.inl (refuses _))
  | @field state next final item items takes walk ih =>
      obtain ⟨⟨field, direct⟩, legible⟩ := legible
      cases clock with
      | nil => exact absurd enough (Nat.not_lt_zero _)
      | cons tick clock =>
          rw [List.cons_append, encodeItems, List.append_assoc, List.append_assoc]
          apply Reader.bind_eq_error.mpr
          refine .inr ⟨_, _, FieldHeader.read_encode field direct _, ?_⟩
          rw [if_neg field]
          apply Reader.bind_eq_error.mpr
          exact .inr ⟨next, _, takes _, ih legible refuses (Nat.lt_of_succ_lt_succ enough)⟩

/-- A step that refuses an item decides the outcome, whatever follows the item. -/
theorem foldFields_refused {start middle : σ} {items : List Item} {refused : Item} {fault : Fault}
    (walk : Walk step start items middle) (legible : Legible 0 (items ++ [refused]))
    (refuses : ∀ input, step middle ⟨refused.type, refused.id⟩ input = .error fault)
    (others : List Item) (rest : Bytes) :
    foldFields step start (encodeItems 0 (items ++ refused :: others) ++ rest) = .error fault := by
  apply foldFieldsFor_refused walk legible refuses others rest
  have fields := length_lt_encodeItems 0 (items ++ refused :: others)
  rw [List.length_append] at fields ⊢
  omega

/-- What every step preserves holds at the end of a bounded walk over any input. -/
theorem foldFieldsFor_invariant {good : σ → Prop}
    (each : ∀ {state header input next rest}, good state →
      step state header input = .ok (next, rest) → good next)
    {clock input rest : Bytes} {last : Int16} {start final : σ} (initial : good start)
    (run : foldFieldsFor step clock last start input = .ok (final, rest)) : good final := by
  induction clock generalizing last start input with
  | nil => exact nomatch run
  | cons tick clock ih =>
      obtain ⟨header, middle, _, run⟩ := Reader.bind_eq_ok.mp run
      split at run
      next stop =>
        obtain ⟨rfl, rfl⟩ := Prod.mk.inj (Except.ok.inj run)
        exact initial
      next field =>
        obtain ⟨next, behind, stepped, run⟩ := Reader.bind_eq_ok.mp run
        exact ih (each initial stepped) run

/-- What every step keeps holds of the state that is read. -/
theorem foldFields_invariant {good : σ → Prop}
    (each : ∀ {state header input next rest}, good state →
      step state header input = .ok (next, rest) → good next)
    {input rest : Bytes} {start final : σ} (initial : good start)
    (run : foldFields step start input = .ok (final, rest)) : good final :=
  foldFieldsFor_invariant each initial run

/-- What a walk takes it takes with every clock that has an entry for each of the bytes. -/
theorem foldFieldsFor_ok (each : ∀ state header, (step state header).Streams)
    {clock input rest : Bytes} {last : Int16} {start final : σ}
    (run : foldFieldsFor step clock last start input = .ok (final, rest)) :
    ∃ taken, input = taken ++ rest ∧ ∀ {other : Bytes}, taken.length ≤ other.length →
      Reader.Reads (foldFieldsFor step other last start) taken final := by
  induction clock generalizing last start input with
  | nil => exact nomatch run
  | cons tick clock ih =>
      obtain ⟨header, middle, headed, continued⟩ := Reader.bind_eq_ok.mp run
      obtain ⟨front, rfl, headReads⟩ := (FieldHeader.read_streams last).ok headed
      have positive := List.length_pos_iff.mpr (FieldHeader.ne_nil_of_reads headReads)
      split at continued
      next stop =>
        obtain ⟨rfl, rfl⟩ := Prod.mk.inj (Except.ok.inj continued)
        -- One entry of the clock is used, and the header has a byte for it.
        refine ⟨front, rfl, fun {other} enough => ?_⟩
        cases other with
        | nil => exact absurd enough (Nat.not_le_of_lt positive)
        | cons tock other =>
            refine headReads.bind_nil ?_
            rw [if_pos stop]
            exact Reader.Reads.pure _
      next field =>
        obtain ⟨next, behind, stepped, others⟩ := Reader.bind_eq_ok.mp continued
        obtain ⟨payload, rfl, stepReads⟩ := (each start header).ok stepped
        obtain ⟨back, rfl, othersRead⟩ := ih others
        refine ⟨front ++ (payload ++ back), by simp only [List.append_assoc], ?_⟩
        intro other enough
        rw [List.length_append, List.length_append] at enough
        cases other with
        | nil => exact absurd enough (by rw [List.length_nil]; omega)
        | cons tock other =>
            rw [List.length_cons] at enough
            refine headReads.bind ?_
            rw [if_neg field]
            exact stepReads.bind (othersRead (by omega))

/-- A fault of a walk that is not the end of the input stays with more input and a longer clock. -/
theorem foldFieldsFor_fault (each : ∀ state header, (step state header).Streams)
    {clock input : Bytes} {last : Int16} {start : σ} {fault : Fault}
    (run : foldFieldsFor step clock last start input = .error fault)
    (early : fault ≠ .endOfInput) (more : Bytes) {other : Bytes}
    (longer : clock.length ≤ other.length) :
    foldFieldsFor step other last start (input ++ more) = .error fault := by
  induction clock generalizing last start input other with
  | nil =>
      -- A clock that has run out counts as the end of the input.
      exact absurd (Except.error.inj run).symm early
  | cons tick clock ih =>
      cases other with
      | nil => exact absurd longer (Nat.not_succ_le_zero _)
      | cons tock other =>
          refine Reader.bind_eq_error.mpr ?_
          rcases Reader.bind_eq_error.mp run with stopped | ⟨header, middle, headed, continued⟩
          · exact .inl ((FieldHeader.read_streams last).fault stopped early more)
          · obtain ⟨front, rfl, headReads⟩ := (FieldHeader.read_streams last).ok headed
            rw [List.append_assoc]
            refine .inr ⟨header, middle ++ more, headReads _, ?_⟩
            split at continued
            next => exact nomatch continued
            next field =>
              rw [if_neg field]
              refine Reader.bind_eq_error.mpr ?_
              rcases Reader.bind_eq_error.mp continued with
                stopped | ⟨next, behind, stepped, others⟩
              · exact .inl ((each start header).fault stopped early more)
              · obtain ⟨payload, rfl, stepReads⟩ := (each start header).ok stepped
                rw [List.append_assoc]
                have stopped := ih others (Nat.le_of_succ_le_succ longer)
                exact .inr ⟨next, behind ++ more, stepReads _, stopped⟩

/-- Where no fields are read, the bytes are at fault, if that is so for every step. -/
theorem foldFieldsFor_content (each : ∀ state header, (step state header).Streams)
    {clock input : Bytes} {last : Int16} {start : σ} {fault : Fault}
    (run : foldFieldsFor step clock last start input = .error fault) : fault.OfContent := by
  induction clock generalizing last start input with
  | nil => exact Except.error.inj run ▸ trivial
  | cons tick clock ih =>
      rcases Reader.bind_eq_error.mp run with stopped | ⟨header, middle, -, continued⟩
      · exact (FieldHeader.read_streams last).content stopped
      · split at continued
        next => exact nomatch continued
        next =>
          rcases Reader.bind_eq_error.mp continued with stopped | ⟨next, behind, -, others⟩
          · exact (each start header).content stopped
          · exact ih others

/-- Fields stream when each step does. -/
theorem foldFields_streams (each : ∀ state header, (step state header).Streams) (start : σ) :
    (foldFields step start).Streams where
  ok run := by
    obtain ⟨taken, same, reads⟩ := foldFieldsFor_ok each run
    refine ⟨taken, same, fun more => reads ?_ more⟩
    rw [List.length_append]
    exact Nat.le_add_right _ _
  fault run early more := by
    refine foldFieldsFor_fault each run early more ?_
    rw [List.length_append]
    exact Nat.le_add_right _ _
  content run := foldFieldsFor_content each run

end ParquetFooter.Wire
