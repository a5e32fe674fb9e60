/-!
# Stages of a row group

A row group that is being written accepts columns until it is finished. Finishing closes it, with
success or without, and nothing opens it again.
-/

namespace ParquetFooter

/-- How far the assembly of a row group has come. -/
inductive Stage where
  /-- Columns are accepted. -/
  | accepting
  /-- Finished: the row group can become part of a file. -/
  | done
  /-- Finishing failed: the row group is lost. -/
  | rejected
deriving DecidableEq, Repr

/-- The name of a stage in messages. -/
def Stage.name : Stage → String
  | accepting => "Open"
  | done => "Done"
  | rejected => "Rejected"

end ParquetFooter
