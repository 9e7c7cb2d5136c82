import MiniSql.Text

/-!
# Table files: `src/storage/storage.c`

A table file is its bytes. `readCsvRows` cuts it with `fgets` into buffers of at
most 8191 bytes and parses each nonblank one as a row; `appendCsvRow` writes one
quoted line at the end. Allocation and file I/O succeed.
-/

namespace MiniSql.Storage

abbrev Row := List Bytes

/-- The text without the whitespace around it. -/
def trim (text : Bytes) : Bytes :=
  ((text.dropWhile isspace).reverse.dropWhile isspace).reverse

def trimField (text : Bytes) : Bytes := trim text

def unterminatedField : SqlError := sqlSetError [ascii "unterminated quoted CSV field"]

/-- The loop of `parse_csv_line`, with the field being collected in `buffer`. -/
def csvFields (inQuotes : Bool) (buffer : Bytes) : Bytes → Except SqlError (List Bytes)
  | [] => if inQuotes then .error unterminatedField else .ok [trimField buffer]
  | ch :: line =>
    if inQuotes then
      if ch = doubleQuote then
        match line with
        | [] => csvFields false buffer []
        | next :: rest =>
          -- a doubled quote is a quote of the value
          if next = doubleQuote then csvFields true (buffer ++ [doubleQuote]) rest
          else csvFields false buffer (next :: rest)
      else csvFields true (buffer ++ [ch]) line
    else if ch = doubleQuote then csvFields true buffer line
    else if ch = comma then
      match csvFields false [] line with
      | .error e => .error e
      | .ok fields => .ok (trimField buffer :: fields)
    else csvFields false (buffer ++ [ch]) line

def parseCsvLine (line : Bytes) (expectedFields : Nat) : Except SqlError Row :=
  match csvFields false [] line with
  | .error e => .error e
  | .ok fields =>
    if fields.length ≠ expectedFields then .error (sqlSetError [ascii "row field count mismatch"])
    else .ok fields

def writeCsvField (value : Bytes) : Bytes :=
  doubleQuote :: value.flatMap (fun c => if c = doubleQuote then [c, c] else [c]) ++ [doubleQuote]

/-- The line that `append_csv_row` writes, newline included. -/
def csvLine (fields : Row) : Bytes :=
  [comma].intercalate (fields.map writeCsvField) ++ [newline]

/-- `append_csv_row` on the contents of the file. -/
def appendCsvRow (file : Bytes) (fields : Row) : Except SqlError Bytes :=
  if fields.isEmpty then .error (sqlSetError [ascii "append_csv_row received invalid arguments"])
  else .ok (file ++ csvLine fields)

/-- `fgets` into a buffer with room for `size` bytes: the bytes up to and with
the next newline, and what is left of the file. -/
def fgets : Nat → Bytes → Bytes × Bytes
  | 0, file => ([], file)
  | _ + 1, [] => ([], [])
  | size + 1, c :: file =>
    if c = newline then ([c], file)
    else ((c :: (fgets size file).1), (fgets size file).2)

/-- `sizeof(line_buffer)` without the terminating NUL. -/
def lineSize : Nat := 8191

theorem fgets_shorter (size : Nat) (c : UInt8) (file : Bytes) :
    (fgets (size + 1) (c :: file)).2.length < (c :: file).length := by
  induction size generalizing c file with
  | zero => by_cases h : c = newline <;> simp [fgets, h]
  | succ size ih =>
    by_cases h : c = newline
    · simp [fgets, h]
    · cases file with
      | nil => simp [fgets, h]
      | cons d file =>
        have := ih d file
        simp only [fgets, h, if_false, List.length_cons] at this ⊢
        omega

/-- The buffers that the loop of `read_csv_rows` reads. -/
def fileLines (file : Bytes) : List Bytes :=
  match file with
  | [] => []
  | c :: rest => (fgets lineSize (c :: rest)).1 :: fileLines (fgets lineSize (c :: rest)).2
termination_by file.length
decreasing_by exact fgets_shorter _ c rest

def isLineEnd (c : UInt8) : Bool := c == newline || c == carriageReturn

/-- A buffer up to its first NUL, without the line end. -/
def stripLine (buffer : Bytes) : Bytes := ((cString buffer).reverse.dropWhile isLineEnd).reverse

def readLines (expectedFields : Nat) : List Bytes → Except SqlError (List Row)
  | [] => .ok []
  | buffer :: buffers =>
    if (stripLine buffer).isEmpty then readLines expectedFields buffers
    else
      match parseCsvLine (stripLine buffer) expectedFields with
      | .error e => .error e
      | .ok fields =>
        match readLines expectedFields buffers with
        | .error e => .error e
        | .ok rows => .ok (fields :: rows)

/-- `read_csv_rows` on the contents of the file. -/
def readCsvRows (file : Bytes) (expectedFields : Nat) : Except SqlError (List Row) :=
  readLines expectedFields (fileLines file)

end MiniSql.Storage
