import MiniSql.Server.SqlService

/-!
# Requests to responses: `src/server/request/request_handler.c`

A request is checked and classified before any lock is taken; then its text is
executed under the read or the write lock. The handler has its service and its
guard, and allocations succeed, so the responses with status 500 do not occur.
-/

namespace MiniSql.Server

open Index

/-- `HttpRequest`: `body` has `body_length` bytes and a NUL behind them. -/
structure HttpRequest where
  method : Bytes
  path : Bytes
  body : Option Bytes
  deriving DecidableEq, Repr

structure HttpResponse where
  statusCode : Nat
  contentType : Bytes
  body : Bytes
  deriving DecidableEq, Repr

def setJsonResponse (statusCode : Nat) (body : Bytes) : HttpResponse :=
  ⟨statusCode, ascii "application/json; charset=utf-8", body⟩

def setJsonErrorResponse (statusCode : Nat) (message : Bytes) : HttpResponse :=
  setJsonResponse statusCode
    (ascii "\x7b\"ok\":false,\"error\":\x7b\"message\":" ++ sqlJsonQuote message ++ ascii "\x7d\x7d")

def isBlankText (text : Bytes) : Bool := text.all isspace

/-- The body as a C string. -/
def HttpRequest.sqlText (request : HttpRequest) : Bytes := cString (request.body.getD [])

/-- `request_handler_handle` up to the lock: the operation, or the response to a
request that is refused. -/
def requestOperation (request : HttpRequest) : Except HttpResponse SqlOperationKind :=
  if request.method ≠ ascii "POST" then
    .error (setJsonErrorResponse 405 (ascii "Only POST requests are supported."))
  else if peek request.path ≠ 0x2f then
    .error (setJsonErrorResponse 400 (ascii "Request path must start with '/'."))
  else if request.body = none ∨ isBlankText (request.body.getD []) then
    .error (setJsonErrorResponse 400 (ascii "Request body must contain SQL text."))
  else
    match sqlServiceClassifyOperation request.sqlText with
    | .error e => .error (setJsonErrorResponse 400 e.message)
    | .ok .unknown => .error (setJsonErrorResponse 400 (ascii "Unsupported SQL operation."))
    | .ok operation => .ok operation

def resultResponse (result : SqlServiceResult) : HttpResponse :=
  setJsonResponse (if result.ok then 200 else 400) result.payload

def requestHandlerHandle (request : HttpRequest) (db : Db) : Option (Db × HttpResponse) :=
  match requestOperation request with
  | .error response => some (db, response)
  | .ok _ => (sqlServiceExecute request.sqlText db).map (Prod.map id resultResponse)

end MiniSql.Server
