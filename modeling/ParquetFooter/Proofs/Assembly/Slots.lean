import ParquetFooter.Proofs.Assembly.RowGroup

/-! # Row groups after any calls

Calls to a row group may come in any order, and chunks that were handed out may be left unfinished.
Whatever the calls are, the slots in front of the next column hold the chunks that were handed out,
in the order of the columns and as they were left; the slots behind are empty. A finished chunk is
told by its offset alone, which nothing but its end ever sets, so a row group that is done has every
chunk finished.
-/

namespace ParquetFooter

open Record Calls

/-- A chunk that was handed out, and what was done with it. -/
structure HandedChunk where
  /-- The chunk as it was handed out. -/
  started : ChunkAssembly
  edits : List ChunkEdit
  /-- What was known when all its pages were written, if that came to pass. -/
  summary? : Option ChunkSummary
deriving DecidableEq

/-- Changes leave all but the file and the statistics as they are. -/
theorem ChunkAssembly.kept_foldl_edit (assembly : ChunkAssembly) (edits : List ChunkEdit) :
    (edits.foldl edit assembly).fileOffset = assembly.fileOffset ∧
    (edits.foldl edit assembly).metadata.type = assembly.metadata.type ∧
    (edits.foldl edit assembly).metadata.pathInSchema = assembly.metadata.pathInSchema ∧
    (edits.foldl edit assembly).metadata.compression = assembly.metadata.compression := by
  rw [foldl_edit]
  exact ⟨rfl, rfl, rfl, rfl⟩

namespace HandedChunk

/-- The record of a chunk as it was left. -/
def record (handed : HandedChunk) : ColumnChunk :=
  (handed.started.complete handed.edits handed.summary?).chunk

/-- The offset just behind a chunk that was finished, and 0 for one that was not. -/
def endOffset (handed : HandedChunk) : Int64 :=
  match handed.summary? with
  | some summary => summary.endOffset
  | none => 0

/-- The offset of a chunk that was handed out is its end. -/
theorem fileOffset_record {handed : HandedChunk} {policy : Policy} {column : Column Primitive}
    (started : handed.started = .start policy column) :
    handed.record.fileOffset = handed.endOffset := by
  obtain ⟨_, edits, summary?⟩ := handed
  subst started
  cases summary? with
  | none => exact (ChunkAssembly.kept_foldl_edit (.start policy column) edits).1
  | some summary => rfl

/-- The chunk that is handed out in answer to a call. -/
def ofAnswer? : RowGroupCall → Except Fault (Option ChunkAssembly) → Option HandedChunk
  | .column edits summary?, .ok (some started) => some ⟨started, edits, summary?⟩
  | _, _ => none

/-- No chunk is handed out by a call that fails. -/
theorem ofAnswer?_error (call : RowGroupCall) (fault : Fault) :
    ofAnswer? call (.error fault) = none := by
  cases call <;> rfl

theorem ofAnswer?_finish (written : Int64) (answer : Except Fault (Option ChunkAssembly)) :
    ofAnswer? (.finish written) answer = none := rfl

/-- A chunk that was handed out for a leaf fills a slot: it was started for that leaf, nothing else
changed the slot, and without its end it has no offset. -/
structure Fills (handed : HandedChunk) (policy : Policy) (leaf : Leaf) (slot : ColumnChunk) :
    Prop where
  started : handed.started = .start policy leaf.toColumn
  record : slot = handed.record
  described : ∃ metadata, slot.metadata = some metadata ∧
    metadata.type = leaf.node.physicalType ∧ metadata.pathInSchema = leaf.path.parts ∧
    metadata.compression = policy.compression leaf.path
  unfinished : handed.summary? = none → slot.fileOffset = 0

/-- The record of a chunk fills the slot of the leaf that it was handed out for. -/
theorem fills {handed : HandedChunk} {policy : Policy} {leaf : Leaf}
    (started : handed.started = .start policy leaf.toColumn) :
    handed.Fills policy leaf handed.record := by
  obtain ⟨_, edits, summary?⟩ := handed
  subst started
  obtain ⟨offset, type, path, compression⟩ :=
    ChunkAssembly.kept_foldl_edit (.start policy leaf.toColumn) edits
  cases summary? with
  | none => exact ⟨rfl, rfl, ⟨_, rfl, type, path, compression⟩, fun _ => offset⟩
  | some summary => exact ⟨rfl, rfl, ⟨_, rfl, type, path, compression⟩, nofun⟩

/-- An offset tells that a chunk was finished, as nothing but its end sets one. -/
theorem Fills.isSome_summary? {handed : HandedChunk} {policy : Policy} {leaf : Leaf}
    {slot : ColumnChunk} (fills : handed.Fills policy leaf slot) (positive : 0 < slot.fileOffset) :
    handed.summary?.isSome := by
  cases ended : handed.summary? with
  | some summary => rfl
  | none =>
      rw [fills.unfinished ended] at positive
      exact absurd positive (by decide)

end HandedChunk

namespace RowGroupAssembly

/-- The chunks that are handed out in the course of some calls, in their order. -/
def handedOut : RowGroupAssembly → List RowGroupCall → List HandedChunk
  | _, [] => []
  | assembly, call :: calls =>
    (HandedChunk.ofAnswer? call (assembly.step call).1).toList ++
      handedOut (assembly.step call).2 calls

variable {assembly : RowGroupAssembly} {written : Int64}

/-- Where a row group stands when some chunks were handed out. The sizes of a row group that is done
would pass its own check again. -/
structure Stands (schema : Schema) (policy : Policy) (numRows : Int64) (handed : List HandedChunk)
    (assembly : RowGroupAssembly) : Prop where
  sameSchema : assembly.schema = schema
  samePolicy : assembly.policy = policy
  numRows : assembly.record.numRows = numRows
  nextColumn : assembly.nextColumn = handed.length
  started : handed.map HandedChunk.started =
    (schema.leaves.take handed.length).map fun leaf => .start policy leaf.toColumn
  slots : assembly.record.columns = handed.map HandedChunk.record ++
    List.replicate (schema.numColumns - handed.length) .empty
  totalByteSize : assembly.stage ≠ .done → assembly.record.totalByteSize = 0
  done : assembly.stage = .done → assembly.check assembly.record.totalByteSize = .ok ()

/-- A row group with all its chunks: each was handed out and finished, and they make up its size. -/
structure Complete (assembly : RowGroupAssembly) (schema : Schema) (handed : List HandedChunk) :
    Prop where
  slots : ∀ slot ∈ assembly.record.columns, slot.metadata.isSome ∧ 0 < slot.fileOffset
  all : handed.length = schema.numColumns
  finished : ∀ chunk ∈ handed, chunk.summary?.isSome
  totalByteSize : assembly.record.totalByteSize.toInt =
    (assembly.record.compressedSizes.map Int64.toInt).sum

/-- What is seen of a row group of which some chunks were handed out. -/
structure Reflects (assembly : RowGroupAssembly) (schema : Schema) (policy : Policy)
    (numRows : Int64) (handed : List HandedChunk) : Prop where
  numRows : assembly.record.numRows = numRows
  slots : assembly.record.columns.length = schema.numColumns
  nextColumn : assembly.nextColumn = handed.length
  nextColumn_le : assembly.nextColumn ≤ schema.numColumns
  empty : ∀ position, assembly.nextColumn ≤ position → position < schema.numColumns →
    assembly.record.columns[position]? = some .empty
  filled : ∀ position < assembly.nextColumn, ∃ chunk leaf slot, handed[position]? = some chunk ∧
    schema.leaves[position]? = some leaf ∧ assembly.record.columns[position]? = some slot ∧
    chunk.Fills policy leaf slot
  totalByteSize : assembly.stage ≠ .done → assembly.record.totalByteSize = 0
  complete : assembly.stage = .done → assembly.Complete schema handed

namespace Stands

variable {schema : Schema} {policy : Policy} {numRows : Int64} {handed : List HandedChunk}

/-- A new row group stands with no chunk handed out. -/
theorem start : Stands schema policy numRows [] (start schema policy numRows) where
  sameSchema := rfl
  samePolicy := rfl
  numRows := rfl
  nextColumn := rfl
  started := rfl
  slots := rfl
  totalByteSize := fun _ => rfl
  done := nofun

/-- No more chunks are handed out than there are columns. -/
theorem length_le (stands : Stands schema policy numRows handed assembly) :
    handed.length ≤ schema.numColumns := by
  have lengths := congrArg List.length stands.started
  rw [List.length_map, List.length_map, List.length_take] at lengths
  unfold Schema.numColumns
  omega

/-- The next leaf has its chunk put behind those that were handed out before. -/
theorem putColumn (stands : Stands schema policy numRows handed assembly)
    (accepting : assembly.stage = .accepting) {leaf : Leaf}
    (here : assembly.schema.leaves[assembly.nextColumn]? = some leaf) {chunk : HandedChunk}
    (started : chunk.started = .start assembly.policy leaf.toColumn) :
    Stands schema policy numRows (handed ++ [chunk]) (assembly.putColumn chunk.record) := by
  rw [stands.sameSchema, stands.nextColumn] at here
  obtain ⟨inside, -⟩ := List.getElem?_eq_some_iff.mp here
  have short : (handed.map HandedChunk.record).length < schema.numColumns := by
    rw [List.length_map]
    exact inside
  refine ⟨stands.sameSchema, stands.samePolicy, stands.numRows, ?_, ?_, ?_, ?_, ?_⟩
  · rw [List.length_append, ← stands.nextColumn]
    rfl
  · rw [List.length_append, List.length_singleton, List.map_append, List.take_add_one, here,
      List.map_append, ← stands.started, List.map_singleton, started, stands.samePolicy]
    rfl
  · have slots := set_first_empty short chunk.record
    rw [List.length_map, ← stands.slots, ← stands.nextColumn] at slots
    rw [List.map_append, List.map_singleton, List.length_append]
    rw [List.length_append, List.length_map] at slots
    exact slots
  · exact stands.totalByteSize
  · intro done
    exact absurd (accepting.symm.trans done) nofun

/-- A finish that succeeds changes the size and the stage. -/
theorem done_of_check (stands : Stands schema policy numRows handed assembly)
    (checked : assembly.check written = .ok ()) :
    Stands schema policy numRows handed
      { assembly with
        record := { assembly.record with totalByteSize := written }
        stage := .done } :=
  { stands with
    totalByteSize := fun notDone => absurd rfl notDone
    done := fun _ => checked }

/-- A finish that fails changes the stage alone. -/
theorem rejected (stands : Stands schema policy numRows handed assembly)
    (accepting : assembly.stage = .accepting) :
    Stands schema policy numRows handed { assembly with stage := .rejected } :=
  { stands with
    totalByteSize := fun _ => stands.totalByteSize (by rw [accepting]; exact nofun)
    done := nofun }

/-- A call leaves a row group standing where the chunk that it was handed puts it. -/
theorem step (stands : Stands schema policy numRows handed assembly) (call : RowGroupCall) :
    Stands schema policy numRows
      (handed ++ (HandedChunk.ofAnswer? call (assembly.step call).1).toList)
      (assembly.step call).2 := by
  by_cases accepting : assembly.stage = .accepting
  · cases call with
    | column edits summary? =>
        cases here : assembly.schema.leaves[assembly.nextColumn]? with
        | none =>
            rw [step_column_of_full accepting here, HandedChunk.ofAnswer?_error]
            rwa [Option.toList_none, List.append_nil]
        | some leaf =>
            rw [step_column_of_leaf accepting here]
            exact stands.putColumn accepting here rfl
    | finish written =>
        rw [HandedChunk.ofAnswer?_finish, Option.toList_none, List.append_nil]
        cases checked : assembly.check written with
        | ok =>
            rw [step_finish_of_check accepting checked]
            exact stands.done_of_check checked
        | error fault =>
            rw [step_finish_of_fault accepting checked]
            exact stands.rejected accepting
  · rw [step_of_closed accepting, HandedChunk.ofAnswer?_error, Option.toList_none, List.append_nil]
    exact stands

/-- Induction over the calls: the chunks that were handed out are carried along. -/
theorem after (stands : Stands schema policy numRows handed assembly) (calls : List RowGroupCall) :
    Stands schema policy numRows (handed ++ handedOut assembly calls)
      (after RowGroupAssembly.step assembly calls) := by
  induction calls generalizing assembly handed with
  | nil =>
      rw [handedOut, List.append_nil]
      exact stands
  | cons call calls ih =>
      rw [handedOut, ← List.append_assoc]
      exact ih (stands.step call)

theorem length_columns (stands : Stands schema policy numRows handed assembly) :
    assembly.record.columns.length = schema.numColumns := by
  rw [stands.slots, List.length_append, List.length_map, List.length_replicate]
  exact Nat.add_sub_cancel' stands.length_le

/-- The slots behind the chunks that were handed out are empty. -/
theorem empty (stands : Stands schema policy numRows handed assembly) {position : Nat}
    (behind : handed.length ≤ position) (inside : position < schema.numColumns) :
    assembly.record.columns[position]? = some .empty := by
  rw [← List.length_map HandedChunk.record] at behind
  rw [stands.slots, List.getElem?_append_right behind, List.getElem?_replicate, if_pos]
  rw [List.length_map] at behind ⊢
  omega

/-- The slot of a chunk that was handed out. -/
theorem filled (stands : Stands schema policy numRows handed assembly) {position : Nat}
    {chunk : HandedChunk} (here : handed[position]? = some chunk) :
    ∃ leaf, schema.leaves[position]? = some leaf ∧
      assembly.record.columns[position]? = some chunk.record ∧
      chunk.Fills policy leaf chunk.record := by
  obtain ⟨inside, -⟩ := List.getElem?_eq_some_iff.mp here
  have started : some chunk.started =
      schema.leaves[position]?.map fun leaf => .start policy leaf.toColumn := by
    have same := congrArg (·[position]?) stands.started
    rwa [List.getElem?_map, here, List.getElem?_map, List.getElem?_take_of_lt inside] at same
  obtain ⟨leaf, leafHere, same⟩ := Option.map_eq_some_iff.mp started.symm
  refine ⟨leaf, leafHere, ?_, HandedChunk.fills same.symm⟩
  rw [← List.length_map HandedChunk.record] at inside
  rw [stands.slots, List.getElem?_append_left inside, List.getElem?_map, here]
  rfl

/-- Every chunk was started for a column of the schema. -/
theorem exists_started (stands : Stands schema policy numRows handed assembly)
    {chunk : HandedChunk} (member : chunk ∈ handed) :
    ∃ leaf ∈ schema.leaves, chunk.started = .start policy leaf.toColumn := by
  have same : chunk.started ∈ handed.map HandedChunk.started := List.mem_map_of_mem member
  rw [stands.started] at same
  obtain ⟨leaf, taken, same⟩ := List.mem_map.mp same
  exact ⟨leaf, List.mem_of_mem_take taken, same.symm⟩

/-- A row group that is done passed its check with every column started. -/
theorem complete (stands : Stands schema policy numRows handed assembly)
    (done : assembly.stage = .done) : assembly.Complete schema handed := by
  obtain ⟨started, positive, summed⟩ := check_eq_ok.mp (stands.done done)
  have all : handed.length = schema.numColumns := by
    rw [← stands.nextColumn, started]
    exact stands.length_columns
  refine ⟨?_, all, ?_, toInt_of_runningSum? summed⟩
  · intro slot member
    obtain ⟨position, inside, rfl⟩ := List.mem_iff_getElem.mp member
    rw [stands.length_columns, ← all] at inside
    obtain ⟨leaf, -, slotHere, fills⟩ := stands.filled (List.getElem?_eq_getElem inside)
    obtain ⟨_, slotIs⟩ := List.getElem?_eq_some_iff.mp slotHere
    obtain ⟨metadata, given, -⟩ := fills.described
    rw [slotIs, given]
    exact ⟨rfl, positive _ (List.mem_of_getElem? slotHere)⟩
  · intro chunk member
    obtain ⟨position, here⟩ := List.getElem?_of_mem member
    obtain ⟨leaf, -, slotHere, fills⟩ := stands.filled here
    exact fills.isSome_summary? (positive _ (List.mem_of_getElem? slotHere))

/-- A row group that stands reflects the chunks that were handed out. -/
theorem reflects (stands : Stands schema policy numRows handed assembly) :
    assembly.Reflects schema policy numRows handed where
  numRows := stands.numRows
  slots := stands.length_columns
  nextColumn := stands.nextColumn
  nextColumn_le := stands.nextColumn ▸ stands.length_le
  empty := fun _ behind inside => stands.empty (stands.nextColumn ▸ behind) inside
  filled := by
    intro position inside
    rw [stands.nextColumn] at inside
    have here := List.getElem?_eq_getElem inside
    obtain ⟨leaf, leafHere, slotHere, fills⟩ := stands.filled here
    exact ⟨_, leaf, _, here, leafHere, slotHere, fills⟩
  totalByteSize := stands.totalByteSize
  complete := stands.complete

end Stands

/-- **The slots of a row group show what was handed out.** Whatever calls are made to a row group,
in whatever order: it has a slot for every column and the number of rows that it was started with.
The chunks that were handed out fill the slots in front of the next column, each in its place and as
it was left, and the other slots are empty. A size is recorded only when the row group is done, and
then every chunk was finished and the size is the exact sum of the sizes of the chunks. -/
theorem after_reflects (schema : Schema) (policy : Policy) (numRows : Int64)
    (calls : List RowGroupCall) :
    (after step (start schema policy numRows) calls).Reflects schema policy numRows
      (handedOut (start schema policy numRows) calls) :=
  (Stands.start.after calls).reflects

/-- A leaf for keys of twelve bytes. -/
def oneLeaf : Primitive :=
  ⟨"key", some .required, .fixedLenByteArray, 12, none⟩

/-- A schema of one column. -/
def oneColumn : Schema where
  root := .group ⟨"schema", none, none⟩ [.primitive oneLeaf]
  leaves := [⟨⟨oneLeaf, ⟨["key"]⟩, 0, 0⟩, 0⟩]

/-- A row group is done when its only chunk is finished, and calls that come too late change
nothing. -/
example :
    let calls : List RowGroupCall :=
      [.column [.filePath "part-0"] (some ⟨3, none, none, 4, 24, 30, false⟩), .finish 24,
        .column [] none, .finish 7]
    let assembly := after step (start oneColumn .default 3) calls
    assembly.stage = .done ∧ assembly.record.totalByteSize = 24 := by decide

end RowGroupAssembly

end ParquetFooter
