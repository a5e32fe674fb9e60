import ParquetFooter.Proofs.Assembly.File
import ParquetFooter.Proofs.Assembly.Slots
import ParquetFooter.Proofs.Metadata.Acceptance
import ParquetFooter.Proofs.Schema.Nesting

/-! # When a file can be finished

Whatever calls are made to a file, its row groups keep a slot for every column, and those that are
done have metadata in each. So the checks that a finished footer goes through, which are those of a
reader, can only fail for what lies outside the row groups: one of them is not done, their rows do
not add up, or the schema cannot be read again. If the primitives of the schema were made from
specifications, it can be, unless it nests too deeply.
-/

namespace ParquetFooter

open Record Calls

/-- The number of rows of the row group that a call appends. -/
def FileCall.appended? : FileCall → Option Int64
  | .append numRows => some numRows
  | .rowGroup _ => none

namespace FileAssembly

/-- A file has a row group for each of these numbers of rows, in their order, and each row group
stands where the calls to it have put it. -/
structure Collects (schema : Schema) (policy : Policy) (counts : List Int64)
    (file : FileAssembly) : Prop where
  sameSchema : file.schema = schema
  samePolicy : file.policy = policy
  counts : file.rowGroups.map (·.record.numRows) = counts
  stands : ∀ rowGroup ∈ file.rowGroups, ∃ numRows handed,
    rowGroup.Stands schema policy numRows handed

namespace Collects

variable {schema : Schema} {policy : Policy} {counts : List Int64} {file : FileAssembly}

theorem start : Collects schema policy [] (start schema policy) where
  sameSchema := rfl
  samePolicy := rfl
  counts := rfl
  stands := List.forall_mem_nil _

/-- An appended row group is the last one. -/
theorem append (collects : Collects schema policy counts file) (numRows : Int64) :
    Collects schema policy (counts ++ [numRows]) (file.append numRows) := by
  have appended : (file.append numRows).rowGroups =
      file.rowGroups ++ [.start schema policy numRows] := by
    rw [← collects.sameSchema, ← collects.samePolicy]
    rfl
  refine ⟨collects.sameSchema, collects.samePolicy, ?_, ?_⟩
  · rw [appended, List.map_append, collects.counts]
    rfl
  · rw [appended, List.forall_mem_append, List.forall_mem_singleton]
    exact ⟨collects.stands, numRows, [], .start⟩

/-- A call to the last row group changes neither its number of rows nor another row group. -/
theorem withCurrent (collects : Collects schema policy counts file) {rowGroup : RowGroupAssembly}
    (last : file.current = some rowGroup) (call : RowGroupCall) :
    Collects schema policy counts (file.withCurrent (rowGroup.step call).2) := by
  have before : file.rowGroups = file.earlier ++ [rowGroup] := by rw [rowGroups, last]; rfl
  have behind : (file.withCurrent (rowGroup.step call).2).rowGroups =
      file.earlier ++ [(rowGroup.step call).2] := rfl
  have stands := collects.stands
  rw [before, List.forall_mem_append, List.forall_mem_singleton] at stands
  obtain ⟨earlier, numRows, handed, current⟩ := stands
  have next := current.step call
  refine ⟨collects.sameSchema, collects.samePolicy, ?_, ?_⟩
  · rw [← collects.counts, before, behind, List.map_append, List.map_append, List.map_singleton,
      List.map_singleton, next.numRows, current.numRows]
  · rw [behind, List.forall_mem_append, List.forall_mem_singleton]
    exact ⟨earlier, numRows, _, next⟩

/-- Only appended row groups are added to the numbers of rows. -/
theorem step (collects : Collects schema policy counts file) (call : FileCall) :
    Collects schema policy (counts ++ call.appended?.toList) (file.step call).2 := by
  cases call with
  | append numRows => exact collects.append numRows
  | rowGroup call =>
      rw [FileCall.appended?, Option.toList_none, List.append_nil]
      cases last : file.current with
      | none =>
          simp only [FileAssembly.step, last]
          exact collects
      | some rowGroup =>
          simp only [FileAssembly.step, last]
          exact collects.withCurrent last call

/-- The numbers of rows are those of the row groups that were appended, in order. -/
theorem after (collects : Collects schema policy counts file) (calls : List FileCall) :
    Collects schema policy (counts ++ calls.filterMap FileCall.appended?)
      (after FileAssembly.step file calls) := by
  induction calls generalizing counts file with
  | nil => rwa [List.filterMap_nil, List.append_nil]
  | cons call calls ih =>
      have others := ih (collects.step call)
      rw [List.append_assoc] at others
      cases appended : call.appended? with
      | none =>
          rw [appended] at others
          rwa [List.filterMap_cons_none appended]
      | some numRows =>
          rw [appended] at others
          rwa [List.filterMap_cons_some appended]

theorem length (collects : Collects schema policy counts file) :
    file.rowGroups.length = counts.length := by
  rw [← collects.counts, List.length_map]

/-- Row groups that are done pass the checks of a reader. -/
theorem checkRowGroups (collects : Collects schema policy counts file)
    (done : file.doneCount = file.rowGroups.length) :
    checkRowGroups schema.numColumns 0 (file.rowGroups.map (·.record)) = .ok () := by
  rw [doneCount, List.countP_eq_length] at done
  rw [checkRowGroups_eq_ok, List.forall_mem_map]
  intro rowGroup member
  obtain ⟨numRows, handed, stands⟩ := collects.stands rowGroup member
  have complete := stands.complete (of_decide_eq_true (done rowGroup member))
  exact ⟨stands.length_columns, fun chunk inside => (complete.slots chunk inside).1⟩

end Collects

/-- Without a footer a file is not finished. -/
theorem finish_of_footer_error {file : FileAssembly} {failure : Failure}
    (failed : file.footer = .error failure) : file.finish = .error failure := by
  rw [finish, failed]
  rfl

/-- A file with a footer is finished if that is accepted. -/
theorem finish_of_footer {file : FileAssembly} {record : Footer} (made : file.footer = .ok record) :
    file.finish = FileMetadata.ofRecord record := by
  rw [finish, made]
  rfl

/-- While row groups are not done there is no footer. -/
theorem footer_of_unfinished {file : FileAssembly}
    (unfinished : file.doneCount ≠ file.rowGroups.length) :
    file.footer = .error (.fault (.incomplete file.rowGroups.length file.doneCount)) := by
  rw [footer]
  exact if_pos unfinished

/-- Where the rows cannot be counted there is no footer. -/
theorem footer_of_overflow {file : FileAssembly}
    (done : file.doneCount = file.rowGroups.length)
    (overflow : runningSum? (file.rowGroups.map (·.record.numRows)) = none) :
    file.footer = .error (.fault (.inconsistent .rowCountOverflow)) := by
  rw [doneCount] at done
  rw [footer]
  simp only [done, overflow, ne_eq, not_true_eq_false, if_false]
  rfl

/-- Why a file cannot be finished whose row groups have these numbers of rows, and of which so many
are done. -/
def refusal? (root : Node) (counts : List Int64) (done : Nat) : Option Fault :=
  if done ≠ counts.length then some (.incomplete counts.length done)
  else if Overflows counts then some (.inconsistent .rowCountOverflow)
  else if ∃ entry ∈ root.withDepths 0, 128 < entry.1 then some (.defect (.schemaNesting 128))
  else none

/-- What `refusal?` says comes to pass, and where it says nothing the file is finished. -/
theorem Collects.finish {root : Node} {schema : Schema} {policy : Policy} {counts : List Int64}
    {file : FileAssembly} (collects : Collects schema policy counts file)
    (described : Schema.ofNode root = .ok schema)
    (made : ∀ entry ∈ root.withDepths 0, entry.2.Made)
    (few : ∀ entry ∈ root.withDepths 0, entry.2.FewChildren) :
    (∃ fault, refusal? root counts file.doneCount = some fault ∧
      file.finish = .error (.fault fault)) ∨
    (refusal? root counts file.doneCount = none ∧ ∃ metadata, file.finish = .ok metadata) := by
  unfold refusal?
  rw [← collects.length]
  by_cases done : file.doneCount = file.rowGroups.length
  case neg =>
    rw [if_pos done]
    exact .inl ⟨_, rfl, finish_of_footer_error (footer_of_unfinished done)⟩
  rw [if_neg (not_not_intro done)]
  by_cases overflow : Overflows counts
  · rw [if_pos overflow]
    rw [← collects.counts, ← runningSum?_eq_none_iff] at overflow
    exact .inl ⟨_, rfl, finish_of_footer_error (footer_of_overflow done overflow)⟩
  rw [if_neg overflow]
  rw [← collects.counts, ← runningSum?_eq_none_iff] at overflow
  obtain ⟨total, counted⟩ := Option.ne_none_iff_exists'.mp overflow
  have flat : file.schema.root.flatten = .ok root.listing := by
    rw [collects.sameSchema, (Schema.group_of_ofNode described).1]
    exact Schema.flatten_of_ofNode described
  rw [finish_of_footer (footer_of_done done counted flat)]
  -- The footer is made. What is left is its reader, which refuses a schema only for its depth.
  by_cases deep : ∃ entry ∈ root.withDepths 0, 128 < entry.1
  · rw [if_pos deep]
    refine .inl ⟨_, rfl, ?_⟩
    rw [FileMetadata.ofRecord, Schema.ofElements_listing_of_deep described made few deep]
    rfl
  · rw [if_neg deep]
    refine .inr ⟨rfl, ?_⟩
    have shallow : ∀ entry ∈ root.withDepths 0, entry.1 ≤ 128 :=
      fun entry member => Nat.le_of_not_lt fun bound => deep ⟨entry, member, bound⟩
    obtain ⟨again, reread, read, remade, columns⟩ :=
      Schema.exists_reread described made few shallow
    have checked := collects.checkRowGroups done
    rw [← columns] at checked
    exact ⟨_, FileMetadata.ofRecord_eq_ok.mpr ⟨again, reread, read, remade, checked, rfl⟩⟩

/-- **When a file can be finished.** Let the primitives of a schema come from specifications, and
make whatever calls to a file: when some of its row groups are not done, finishing says how many of
them are; otherwise, when a sum of their rows leaves the 64 bit range on the way, it says so;
otherwise, when a node lies more than 128 levels below the root of the schema, it refuses the schema
for that; and otherwise it succeeds. Nothing else can go wrong. -/
theorem finish_outcome {root : Node} {schema : Schema} (described : Schema.ofNode root = .ok schema)
    (made : ∀ entry ∈ root.withDepths 0, entry.2.Made)
    (few : ∀ entry ∈ root.withDepths 0, entry.2.FewChildren) (policy : Policy)
    (calls : List FileCall) :
    let file := after step (start schema policy) calls
    let counts := calls.filterMap FileCall.appended?
    file.rowGroups.map (·.record.numRows) = counts ∧
    (∀ failure, file.finish = .error failure ↔
      ∃ fault, refusal? root counts file.doneCount = some fault ∧ failure = .fault fault) ∧
    ((∃ metadata, file.finish = .ok metadata) ↔ refusal? root counts file.doneCount = none) ∧
    ((∀ count ∈ counts, 0 ≤ count) →
      (Overflows counts ↔ ¬ InRange (counts.map Int64.toInt).sum)) := by
  intro file counts
  have collects : Collects schema policy counts file := Collects.start.after calls
  have outcome := collects.finish described made few
  refine ⟨collects.counts, ?_, ?_, overflows_iff_of_nonneg⟩
  · intro failure
    rcases outcome with ⟨fault, refused, failed⟩ | ⟨fine, metadata, finished⟩
    · rw [refused, failed]
      simp [eq_comm]
    · rw [fine, finished]
      simp
  · rcases outcome with ⟨fault, refused, failed⟩ | ⟨fine, metadata, finished⟩
    · rw [refused, failed]
      simp
    · rw [fine, finished]
      simp

/-- Groups that lie one in another. -/
def nestedGroups : Nat → Node
  | 0 => .group ⟨"innermost", some .optional, none⟩ []
  | levels + 1 => .group ⟨"outer", some .required, none⟩ [nestedGroups levels]

/-- Groups without a primitive have no leaves. -/
theorem leaves_nestedGroups (levels : Nat) (position : Position) :
    (nestedGroups levels).leaves position = .ok [] := by
  induction levels generalizing position with
  | zero => rfl
  | succ levels ih =>
      simp only [nestedGroups, Node.leaves, Node.leavesAll, ih]
      rfl

/-- The calls that write a row group of one column. -/
def oneRowGroup (numRows : Int64) : List FileCall :=
  [.append numRows, .rowGroup (.column [] (some ⟨3, none, none, 4, 24, 30, false⟩)),
    .rowGroup (.finish 24)]

/-- A file of one column is finished, unless a row group is left open or the rows are too many; and
a file whose schema nests 129 levels deep is not. -/
theorem finish_outcome_sample :
    let file := after step (start RowGroupAssembly.oneColumn .default)
    let root := Node.group ⟨"root", none, none⟩ [nestedGroups 128]
    Schema.ofNode RowGroupAssembly.oneColumn.root = .ok RowGroupAssembly.oneColumn ∧
    (∀ entry ∈ RowGroupAssembly.oneColumn.root.withDepths 0, entry.2.Made) ∧
    (∀ entry ∈ RowGroupAssembly.oneColumn.root.withDepths 0, entry.2.FewChildren) ∧
    (∃ metadata, (file (oneRowGroup 3)).finish = .ok metadata) ∧
    (file (oneRowGroup 3 ++ [.append 5])).finish = .error (.fault (.incomplete 2 1)) ∧
    (file (oneRowGroup Int64.maxValue ++ oneRowGroup 1)).finish =
      .error (.fault (.inconsistent .rowCountOverflow)) ∧
    Schema.ofNode root = .ok ⟨root, []⟩ ∧ (∀ entry ∈ root.withDepths 0, entry.2.Made) ∧
    (∀ entry ∈ root.withDepths 0, entry.2.FewChildren) ∧
    (after step (start ⟨root, []⟩ .default) []).finish =
      .error (.fault (.defect (.schemaNesting 128))) := by
  have described : Schema.ofNode RowGroupAssembly.oneColumn.root = .ok RowGroupAssembly.oneColumn :=
    rfl
  have made : ∀ entry ∈ RowGroupAssembly.oneColumn.root.withDepths 0, entry.2.Made := by decide
  have few : ∀ entry ∈ RowGroupAssembly.oneColumn.root.withDepths 0, entry.2.FewChildren := by
    decide
  have deepMade : ∀ entry ∈ (Node.group ⟨"root", none, none⟩ [nestedGroups 128]).withDepths 0,
      entry.2.Made := by decide +kernel
  have deepFew : ∀ entry ∈ (Node.group ⟨"root", none, none⟩ [nestedGroups 128]).withDepths 0,
      entry.2.FewChildren := by decide +kernel
  intro file root
  have deepDescribed : Schema.ofNode root = .ok ⟨root, []⟩ := by
    rw [Schema.ofNode, Node.leavesFrom, leaves_nestedGroups]
    rfl
  have outcome := finish_outcome described made few .default
  refine ⟨described, made, few, (outcome _).2.2.1.mpr ?_, ((outcome _).2.1 _).mpr ⟨_, ?_, rfl⟩,
    ((outcome _).2.1 _).mpr ⟨_, ?_, rfl⟩, deepDescribed, deepMade, deepFew,
    ((finish_outcome deepDescribed deepMade deepFew .default []).2.1 _).mpr ⟨_, ?_, rfl⟩⟩
  all_goals decide +kernel

/-- That the primitives were made is needed: a schema whose leaf has a type of a fixed length and no
length is not read again, though every row group is done and nothing else stands in the way. -/
theorem finish_of_lengthless :
    ∃ schema, Schema.ofNode Node.lengthless = .ok schema ∧
      (∀ entry ∈ Node.lengthless.withDepths 0, entry.2.FewChildren) ∧
      refusal? Node.lengthless ((oneRowGroup 3).filterMap FileCall.appended?)
        (after step (start schema .default) (oneRowGroup 3)).doneCount = none ∧
      (after step (start schema .default) (oneRowGroup 3)).finish =
        .error (.fault (.defect (.fixedLength (-1) "a"))) :=
  ⟨_, rfl, by decide, by decide +kernel, rfl⟩

end FileAssembly

end ParquetFooter
