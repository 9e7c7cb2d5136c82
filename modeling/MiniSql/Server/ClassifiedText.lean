import MiniSql.Runtime.Comments
import MiniSql.Runtime.StatementByStatement
import MiniSql.Server.LockChoice
import MiniSql.Server.SelectAgreement

/-!
# What the classifier skips

`sql_service_classify_operation` looks for the keyword behind whitespace, comments and
semicolons, but `sql_service_execute` hands the whole text to the parser, which skips
whitespace only. A comment or a semicolon in front of a statement is classified and then
not understood, while the script runner blanks the one and cuts at the other. Behind the
prefix the two front ends differ again: the runner has its own scans for comments,
semicolons and quotes.
-/

namespace MiniSql.Server

open Index Query MiniSql.Runtime

/-! ## The prefix -/

/-- What is left behind the prefix begins with none of what is skipped. -/
theorem skipSqlPrefix_stops (sqlText : Bytes) :
    isspace (peek (skipSqlPrefix sqlText)) = false ∧
      ¬ (peek (skipSqlPrefix sqlText) = hyphen ∧ peek (skipSqlPrefix sqlText).tail = hyphen) ∧
      peek (skipSqlPrefix sqlText) ≠ semicolon := by
  fun_induction skipSqlPrefix sqlText with
  | case1 sqlText hnil => decide
  | case2 sqlText c rest hcons hcomment ih => exact ih
  | case3 sqlText rest hcons hcomment ih => exact ih
  | case4 sqlText c rest hcons hcomment hsemi =>
    have hstop : isspace (peek (sqlText.dropWhile isspace)) = false := dropWhile_stop isspace_zero
    rw [hcons] at hstop
    exact ⟨hstop, hcomment, hsemi⟩

/-- The piece behind the prefix begins with the byte that ended it. -/
theorem firstPiece_nonblank {sqlText : Bytes} (hne : skipSqlPrefix sqlText ≠ []) :
    ¬ Spaces (firstPiece (skipSqlPrefix sqlText)) := by
  obtain ⟨hspace, hcomment, hsemi⟩ := skipSqlPrefix_stops sqlText
  generalize skipSqlPrefix sqlText = text at *
  cases text with
  | nil => exact absurd rfl hne
  | cons c rest =>
    have hkeep : Scan.code.keep c rest = c := by
      refine if_neg fun hstarts => hcomment ?_
      simpa [startsComment, peek] using hstarts
    intro hspaces
    rw [firstPiece, stripLineComments, hkeep, cut, if_neg fun hbreak => hsemi hbreak.2] at hspaces
    exact absurd (hspaces c List.mem_cons_self) (by simpa [peek] using hspace)

/-! ## The two front ends -/

/-- The object of a row that was printed. -/
def printedObject (schema : Storage.Schema) : Printed → Option Bytes
  | .row fields => some (objectText schema fields)
  | .header _ => none
  | .insertDone => none

/-- The objects of the rows that were printed under a header. -/
def printedObjects : List Printed → List Bytes
  | .header schema :: rows => rows.filterMap (printedObject schema)
  | _ => []

/-- The payload that says what the executor printed for a query. -/
def printedPayload (query : Query) (printed : List Printed) : Bytes :=
  match query.type with
  | .select => selectPayload (query.tableName.getD []) (printedObjects printed)
  | .insert => insertPayload query printed

/-- What the service answers where the executor came to this outcome: the payload of what
was printed, or of the error. -/
def answer (sqlText : Bytes) (outcome : Db × List Printed × Except SqlError Unit) :
    Db × SqlServiceResult :=
  (outcome.1, serviceResult
    (outcome.2.2.map fun _ => printedPayload (parseSqlText sqlText .zero).1 outcome.2.1))

end MiniSql.Server
