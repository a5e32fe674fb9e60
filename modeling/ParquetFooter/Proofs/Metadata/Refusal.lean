import ParquetFooter.Proofs.Metadata.Acceptance
import ParquetFooter.Proofs.Record.Truncation

/-! # Footers that are refused

Whatever is wrong with a footer lies in its bytes: they end too early, they are no record, or the
record has no schema or does not match it. No step of decoding asks for other bytes than those that
it was given.
-/

namespace ParquetFooter

open Record

namespace Node

/-- A leaf element that tells of no primitive is at fault itself. -/
theorem content_of_ofPrimitiveElement {element : SchemaElement} {type : PhysicalType}
    {fault : Fault} (refused : ofPrimitiveElement element type = .error fault) :
    fault.OfContent := by
  unfold ofPrimitiveElement at refused
  split at refused
  next => exact Except.error.inj refused ▸ trivial
  next =>
    rcases Except.bind_eq_error.mp refused with unmade | ⟨_, -, ended⟩
    · unfold PrimitiveSpec.make at unmade
      split at unmade
      next => exact Except.error.inj unmade ▸ trivial
      next => cases unmade
    · cases ended

/-- The same holds where other elements follow. -/
theorem content_of_leaf {element : SchemaElement} {type : PhysicalType}
    {rest : List SchemaElement} {fault : Fault}
    (refused : (do return (← ofPrimitiveElement element type, rest)) = .error fault) :
    fault.OfContent := by
  rcases Except.bind_eq_error.mp refused with unread | ⟨_, -, ended⟩
  · exact content_of_ofPrimitiveElement unread
  · exact nomatch ended

/-- An element that cannot announce children is at fault itself. -/
theorem content_of_childCount {atRoot : Bool} {element : SchemaElement} {fault : Fault}
    (refused : childCount atRoot element = .error fault) : fault.OfContent := by
  unfold childCount at refused
  dsimp only at refused
  split at refused
  next => exact Except.error.inj refused ▸ trivial
  next =>
    split at refused
    next => exact Except.error.inj refused ▸ trivial
    next => exact nomatch refused

/-- Where no tree is read, the elements are at fault. The induction is on the levels that are left;
the children of a group lie one level down. -/
theorem content_of_readTree {total levels : Nat} {atRoot : Bool} {elements : List SchemaElement}
    {fault : Fault} (refused : readTree total levels atRoot elements = .error fault) :
    fault.OfContent := by
  induction levels generalizing atRoot elements with
  | zero => exact Except.error.inj refused ▸ trivial
  | succ levels below =>
      cases elements with
      | nil => exact Except.error.inj refused ▸ trivial
      | cons element inner =>
          unfold readTree at refused
          dsimp only at refused
          split at refused
          next => exact content_of_leaf refused
          next => exact content_of_leaf refused
          next =>
            rcases Except.bind_eq_error.mp refused with uncounted | ⟨count, -, following⟩
            · exact content_of_childCount uncounted
            · rcases Except.bind_eq_error.mp following with unread | ⟨_, -, ended⟩
              · obtain ⟨middle, stopped⟩ := Reader.exists_of_times_eq_error unread
                exact below stopped
              · exact nomatch ended

/-- Where no list of trees is read, the elements are at fault. -/
theorem content_of_readTrees {total : Nat} {clock elements : List SchemaElement} {atRoot : Bool}
    {fault : Fault} (refused : readTrees total clock atRoot elements = .error fault) :
    fault.OfContent := by
  induction clock generalizing atRoot elements with
  | nil =>
      cases elements with
      | nil => exact nomatch refused
      | cons element inner => exact Except.error.inj refused ▸ trivial
  | cons tick clock ih =>
      cases elements with
      | nil => exact nomatch refused
      | cons element inner =>
          rcases Except.bind_eq_error.mp refused with unread | ⟨_, -, following⟩
          · exact content_of_readTree unread
          · rcases Except.bind_eq_error.mp following with unread | ⟨_, -, ended⟩
            · exact ih unread
            · exact nomatch ended

/-- Where no schema is read, the elements are at fault. -/
theorem content_of_ofElements {elements : List SchemaElement} {fault : Fault}
    (refused : ofElements elements = .error fault) : fault.OfContent := by
  rcases Except.bind_eq_error.mp refused with unread | ⟨trees, -, unrooted⟩
  · exact content_of_readTrees unread
  · split at unrooted
    next => exact nomatch unrooted
    next => exact Except.error.inj unrooted ▸ trivial
    next => exact Except.error.inj unrooted ▸ trivial

end Node

/-- A row group that does not match the schema is at fault itself. -/
theorem content_of_checkRowGroup {columns index : Nat} {rowGroup : RowGroup} {fault : Fault}
    (refused : checkRowGroup columns index rowGroup = .error fault) : fault.OfContent := by
  unfold checkRowGroup at refused
  split at refused
  next => exact Except.error.inj refused ▸ trivial
  next =>
    split at refused
    next => exact Except.error.inj refused ▸ trivial
    next => exact nomatch refused

/-- Where row groups do not match the schema, one of them is at fault. -/
theorem content_of_checkRowGroups {columns index : Nat} {rowGroups : List RowGroup}
    {fault : Fault} (refused : checkRowGroups columns index rowGroups = .error fault) :
    fault.OfContent := by
  induction rowGroups generalizing index with
  | nil => exact nomatch refused
  | cons rowGroup rest ih =>
      rcases Except.bind_eq_error.mp refused with unmatched | ⟨_, -, others⟩
      · exact content_of_checkRowGroup unmatched
      · exact ih others

namespace FileMetadata

/-- A record that is not accepted is at fault itself. -/
theorem content_of_ofRecord {record : Footer} {cause : Fault}
    (refused : ofRecord record = .error (.fault cause)) : cause.OfContent := by
  rcases Except.bind_eq_error.mp refused with unread | ⟨root, -, following⟩
  · exact Node.content_of_ofElements (liftM_fault_eq_fault.mp unread)
  · rcases Except.bind_eq_error.mp following with unmade | ⟨schema, -, following⟩
    · exact absurd unmade (liftM_breach_ne_fault _ _)
    · rcases Except.bind_eq_error.mp following with unmatched | ⟨_, -, ended⟩
      · exact content_of_checkRowGroups (liftM_fault_eq_fault.mp unmatched)
      · exact nomatch ended

/-- Bytes that are not decoded are at fault themselves. -/
theorem content_of_decode {bytes : Bytes} {cause : Fault}
    (refused : decode bytes = .error (.fault cause)) : cause.OfContent := by
  rcases Except.bind_eq_error.mp refused with undecoded | ⟨_, -, ended⟩
  · rcases Except.bind_eq_error.mp undecoded with unread | ⟨_, -, following⟩
    · exact Footer.content_of_decode (liftM_fault_eq_fault.mp unread)
    · rcases Except.bind_eq_error.mp following with unaccepted | ⟨_, -, ended⟩
      · exact content_of_ofRecord unaccepted
      · exact nomatch ended
  · exact nomatch ended

end FileMetadata

end ParquetFooter
