import MiniSql.Lib.Scan
import MiniSql.Server.RequestHandler

/-!
# Parsing a request

`http_parse_request` on the text before the first NUL of the raw request. A position
of the text is its offset. The request line ends at the first CRLF or LF, and the body
begins behind the first CRLFCRLF or LFLF.
-/

namespace MiniSql.Server

/-- `strstr`, for a needle that is not empty. -/
def strstr (text needle : Bytes) : Option Nat := (Scan.find [needle] text).map Prod.fst

def strchr (text : Bytes) (c : UInt8) : Option Nat := strstr text [c]

def crlf : Bytes := ascii "\r\n"

def findRequestLineEnd (rawRequest : Bytes) : Option Nat :=
  match strstr rawRequest crlf, strchr rawRequest newline with
  | some crlf, some lf => if crlf < lf then some crlf else some lf
  | some crlf, none => some crlf
  | none, lf => lf

def findBodyStart (rawRequest : Bytes) : Option Nat :=
  match strstr rawRequest (crlf ++ crlf), strstr rawRequest (ascii "\n\n") with
  | some crlf, some lf => if crlf < lf then some (crlf + 4) else some (lf + 2)
  | some crlf, none => some (crlf + 4)
  | none, some lf => some (lf + 2)
  | none, none => none

def copyRequestToken (destSize : Nat) (token label : Bytes) : Except SqlError Bytes :=
  if token.length = 0 then .error (sqlSetError [label, ascii " must not be empty"])
  else if token.length ≥ destSize then .error (sqlSetError [label, ascii " is too long"])
  else .ok token

def isBlank (c : UInt8) : Bool := c == 0x20 || c == 0x09

/-- The method and the path of a request line. -/
def parseRequestLine (line : Bytes) : Except SqlError (Bytes × Bytes) := do
  let method ← copyRequestToken 16 (line.takeWhile fun c => !isBlank c) (ascii "HTTP method")
  let pathStart := (line.dropWhile fun c => !isBlank c).dropWhile isBlank
  let path ← copyRequestToken 128 (pathStart.takeWhile fun c => !isBlank c) (ascii "HTTP path")
  return (method, path)

/-- The request line, with the method and the path. -/
def parseFirstLine (rawRequest : Bytes) : Except SqlError (Bytes × Bytes) :=
  if rawRequest = [] then .error (sqlSetError [ascii "raw HTTP request must not be empty"])
  else
    match findRequestLineEnd rawRequest with
    | none => .error (sqlSetError [ascii "HTTP request line must end with newline"])
    | some lineEnd => parseRequestLine (rawRequest.take lineEnd)

/-- An empty body is none. -/
def copyBody (body : Bytes) : Option Bytes := if body = [] then none else some body

def requestBody (rawRequest : Bytes) : Option Bytes :=
  match findBodyStart rawRequest with
  | none => none
  | some bodyStart => copyBody (rawRequest.drop bodyStart)

def httpParseRequest (rawRequest : Bytes) : Except SqlError HttpRequest :=
  (parseFirstLine rawRequest).map fun line => ⟨line.1, line.2, requestBody rawRequest⟩

theorem copyBody_getD (body : Bytes) : (copyBody body).getD [] = body := by
  unfold copyBody
  split
  · rename_i h
    rw [h]
    rfl
  · rfl

end MiniSql.Server
