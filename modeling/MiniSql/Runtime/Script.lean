import MiniSql.Query.Executor
import MiniSql.Query.StatementText
import MiniSql.Storage.Trim

/-!
# Scripts: `src/runtime/main.c`

`execute_sql_script` blanks the line comments of a text, cuts it at the semicolons
outside quotes and runs the pieces one after the other. Both scans have their own
notion of a quote: any quote byte opens one. The executor is a parameter, so that a
statement about a script is a statement about the queries that it is called with. The
text is a C string.
-/

namespace MiniSql.Runtime

open Query

def isQuote (c : UInt8) : Bool := c == singleQuote || c == doubleQuote

def blank : UInt8 := 0x20

/-! ## Comments -/

/-- Where the scan of `strip_line_comments` is. -/
inductive Scan
  | code
  | quoted (quote : UInt8)
  | comment
  deriving DecidableEq, Repr

/-- A comment begins here. -/
def startsComment (c : UInt8) (rest : Bytes) : Bool := c == hyphen && peek rest == hyphen

/-- The state behind a byte, given what follows it. -/
def Scan.next (scan : Scan) (c : UInt8) (rest : Bytes) : Scan :=
  match scan with
  | .quoted quote => if c = quote then .code else .quoted quote
  | .comment => if c = newline then .code else .comment
  | .code => if isQuote c then .quoted c else if startsComment c rest then .comment else .code

/-- What becomes of a byte. -/
def Scan.keep (scan : Scan) (c : UInt8) (rest : Bytes) : UInt8 :=
  match scan with
  | .quoted _ => c
  | .comment => if c = newline then c else blank
  | .code => if startsComment c rest then blank else c

def stripLineComments (scan : Scan) : Bytes → Bytes
  | [] => []
  | c :: rest => scan.keep c rest :: stripLineComments (scan.next c rest) rest

/-! ## Statements -/

/-- The quote that is open behind a byte. -/
def nextQuote (quote : Option UInt8) (c : UInt8) : Option UInt8 :=
  match quote with
  | some q => if c = q then none else some q
  | none => if isQuote c then some c else none

/-- The piece up to the next semicolon outside quotes, and the pieces behind it. -/
def cut (quote : Option UInt8) : Bytes → Bytes × List Bytes
  | [] => ([], [])
  | c :: rest =>
    if quote = none ∧ c = semicolon then ([], (cut none rest).1 :: (cut none rest).2)
    else (c :: (cut (nextQuote quote c) rest).1, (cut (nextQuote quote c) rest).2)

def pieces (quote : Option UInt8) (text : Bytes) : List Bytes := (cut quote text).1 :: (cut quote text).2

def trimStatement (text : Bytes) : Bytes := Storage.trim text

def sqlEmpty : SqlError := sqlSetError [ascii "sql must not be empty"]

/-- `execute_query`: the state afterwards, and what was printed or the reason for 0. -/
abbrev Execute (σ : Type) := Query → σ → Option (σ × Except SqlError (List Printed))

/-- What a script comes to: the state, what was printed, and 1 or the reason for 0. -/
abbrev Outcome (σ : Type) := Option (σ × List Printed × Except SqlError Unit)

def Outcome.behind {σ : Type} (printed : List Printed) (outcome : Outcome σ) : Outcome σ :=
  outcome.map fun (s, later, result) => (s, printed ++ later, result)

variable {σ : Type}

/-- The loop of `execute_sql_script` over the pieces. -/
def runPieces (execute : Execute σ) (executedAny : Bool) : List Bytes → σ → Outcome σ
  | [], s => some (s, [], if executedAny then .ok () else .error sqlEmpty)
  | piece :: pieces, s =>
    if trimStatement piece = [] then runPieces execute executedAny pieces s
    else
      match parseSqlText (trimStatement piece) .zero with
      | (_, .error e) => some (s, [], .error e)
      | (query, .ok _) =>
        match execute query s with
        | none => none
        | some (s, .error e) => some (s, [], .error e)
        | some (s, .ok printed) => (runPieces execute true pieces s).behind printed

def executeSqlScript (execute : Execute σ) (sqlText : Bytes) (s : σ) : Outcome σ :=
  runPieces execute false (pieces none (stripLineComments .code sqlText)) s

/-! ## What a script executes -/

/-- Queries are executed in their order up to the first one that fails; `last` is the
result if none does. -/
def runQueries (execute : Execute σ) (last : Except SqlError Unit) : List Query → σ → Outcome σ
  | [], s => some (s, [], last)
  | query :: queries, s =>
    match execute query s with
    | none => none
    | some (s, .error e) => some (s, [], .error e)
    | some (s, .ok printed) => (runQueries execute last queries s).behind printed

/-- The queries of the pieces up to the first one that is refused, and the result. -/
def plan (executedAny : Bool) : List Bytes → List Query × Except SqlError Unit
  | [] => ([], if executedAny then .ok () else .error sqlEmpty)
  | piece :: pieces =>
    if trimStatement piece = [] then plan executedAny pieces
    else
      match parseSqlText (trimStatement piece) .zero with
      | (_, .error e) => ([], .error e)
      | (query, .ok _) => (query :: (plan true pieces).1, (plan true pieces).2)

def scriptPlan (sqlText : Bytes) : List Query × Except SqlError Unit :=
  plan false (pieces none (stripLineComments .code sqlText))

theorem runPieces_eq (execute : Execute σ) (executedAny : Bool) (pieces : List Bytes) (s : σ) :
    runPieces execute executedAny pieces s =
      runQueries execute (plan executedAny pieces).2 (plan executedAny pieces).1 s := by
  induction pieces generalizing executedAny s with
  | nil => rfl
  | cons piece pieces ih =>
    rw [runPieces, plan]
    split
    · exact ih executedAny s
    · rcases parseSqlText (trimStatement piece) .zero with ⟨query, e | _⟩
      · rfl
      · simp only [runQueries]
        rcases execute query s with _ | ⟨s', e | printed⟩
        · rfl
        · rfl
        · exact congrArg (Outcome.behind printed) (ih true s')

/-- A script executes the queries of its plan. -/
theorem executeSqlScript_eq (execute : Execute σ) (sqlText : Bytes) (s : σ) :
    executeSqlScript execute sqlText s =
      runQueries execute (scriptPlan sqlText).2 (scriptPlan sqlText).1 s :=
  runPieces_eq execute false _ s

/-- The executor that notes its queries. -/
def note : Execute (List Query) := fun query noted => some (noted ++ [query], .ok [])

theorem runQueries_note (last : Except SqlError Unit) (queries noted : List Query) :
    runQueries note last queries noted = some (noted ++ queries, [], last) := by
  induction queries generalizing noted with
  | nil => simp [runQueries]
  | cons query queries ih => simp [runQueries, note, ih, Outcome.behind]

/-- What is executed decides about the plan. -/
theorem runQueries_eq_iff {last last' : Except SqlError Unit} {queries queries' : List Query} :
    (∀ (σ : Type) (execute : Execute σ) (s : σ),
      runQueries execute last queries s = runQueries execute last' queries' s) ↔
      (queries, last) = (queries', last') := by
  constructor
  · intro h
    have hnoted := h _ note []
    rw [runQueries_note, runQueries_note] at hnoted
    simpa using hnoted
  · intro h σ execute s
    cases h
    rfl

end MiniSql.Runtime
