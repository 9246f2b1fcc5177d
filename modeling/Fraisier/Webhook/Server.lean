import Fraisier.Data.Split
import Fraisier.Webhook.Sign

/-!
# The webhook server

A connection brings one request: reads of some bytes each, and how it ends. The request is read,
verified and handed to a handler. The reads may be cut anywhere, but the cap on the header is
looked at between two of them.
-/

namespace Fraisier.Webhook

open Fraisier.Data

/-! ## Connections -/

/-- What one read brings. -/
structure Read where
  bytes : List UInt8
  ne : bytes ≠ []
  le : bytes.length ≤ 1024

/-- What a client does when it has sent what it sends: it ends the stream, the stream fails, or
nothing happens until the time to read is over. -/
inductive Ending where
  | closed
  | failed (error : String)
  | stalled
deriving DecidableEq

/-- What comes of a client. -/
structure Connection where
  reads : List Read
  ending : Ending

/-- The bytes of reads. -/
def received (reads : List Read) : List UInt8 :=
  reads.flatMap Read.bytes

/-- Why no request is read. -/
inductive ReadFailure where
  | message (message : String)
  | timedOut
deriving DecidableEq

/-- A request with its header names in lower case. -/
structure Request where
  method : String
  path : String
  headers : List (String × String)
  body : List UInt8
deriving DecidableEq

/-- A text with ASCII letters in lower case. -/
def toAsciiLowercase (text : String) : String :=
  String.ofList (text.toList.map Char.toLower)

def eqIgnoreAsciiCase (text other : String) : Bool :=
  toAsciiLowercase text = toAsciiLowercase other

/-- The first header of a name. -/
def Request.header (request : Request) (name : String) : Option String :=
  (request.headers.find? fun entry => eqIgnoreAsciiCase entry.1 name).map Prod.snd

/-! ## Reading a request -/

/-- What comes of a read when there is none left. -/
def Ending.read {α : Type} (closed : Except ReadFailure α) : Ending → Except ReadFailure α
  | .closed => closed
  | .failed error => .error (.message ("read error: " ++ error))
  | .stalled => .error .timedOut

/-- The most bytes of a header that are read without its end. -/
def maxHeaderBytes : Nat := 16 * 1024

/-- Read on until the header ends: its length, the bytes read so far, and the reads to come. -/
def readHead (ending : Ending) (buf : List UInt8) :
    List Read → Except ReadFailure (Nat × List UInt8 × List Read)
  | [] =>
      match position blankLine buf with
      | some headerEnd => .ok (headerEnd, buf, [])
      | none =>
          if maxHeaderBytes < buf.length then .error (.message "request headers too large")
          else ending.read (.error (.message "connection closed before the headers completed"))
  | read :: reads =>
      match position blankLine buf with
      | some headerEnd => .ok (headerEnd, buf, read :: reads)
      | none =>
          if maxHeaderBytes < buf.length then .error (.message "request headers too large")
          else readHead ending (buf ++ read.bytes) reads

/-- Read on until a body has its length. -/
def readBody (ending : Ending) (contentLength : Nat) (body : List UInt8) :
    List Read → Except ReadFailure (List UInt8)
  | [] => if body.length < contentLength then ending.read (.ok body) else .ok body
  | read :: reads =>
      if body.length < contentLength then
        readBody ending contentLength
          (body ++ read.bytes.take (min (contentLength - body.length) read.bytes.length)) reads
      else .ok body

/-- A header line at its first colon. -/
def headerOf (line : List Char) : Option (String × String) :=
  (splitOnce [':'] line).map fun parts =>
    (toAsciiLowercase (trim (String.ofList parts.1)), trim (String.ofList parts.2))

/-- A header as a request that has no body yet. -/
def parseHead (head : List UInt8) : Except ReadFailure Request :=
  match fromUtf8 head with
  | none => .error (.message "non-UTF-8 headers")
  | some text =>
      match splitCrlf text.toList with
      | [] => .error (.message "empty request")
      | requestLine :: lines =>
          match splitWhitespace (String.ofList requestLine) with
          | [] => .error (.message "missing request method")
          | method :: parts =>
              .ok { method := method
                    path := parts.head?.getD "/"
                    headers := lines.filterMap headerOf
                    body := [] }

/-- The length that the first header of the name gives, or none. -/
def contentLength (headers : List (String × String)) : Nat :=
  ((headers.find? fun entry => entry.1 = "content-length").bind fun entry =>
    parseUnsigned (2 ^ 64) entry.2).getD 0

/-- Read one request. -/
def readRequest (connection : Connection) (maxBody : Nat) : Except ReadFailure Request := do
  let (headerEnd, buf, reads) ← readHead connection.ending [] connection.reads
  let request ← parseHead (buf.take headerEnd)
  let length := contentLength request.headers
  if maxBody < length then
    .error (.message ("request body too large (" ++ toString length ++ " > " ++
      toString maxBody ++ " bytes)"))
  else
    let body ← readBody connection.ending length (buf.drop (headerEnd + 4)) reads
    return { request with body := body.take length }

/-! ## Serving a request -/

/-- Whether and how a server drains. It drains while the file of the flag exists. -/
structure Drain where
  flagPath : Option String
  retryAfterS : Nat
  refused : List String

/-- The parameters of a server, but for the time that a client has to send its request. -/
structure ServerConfig where
  secret : List UInt8
  toleranceSecs : Nat
  maxBodyBytes : Nat
  drain : Drain

def Drain.isDraining (drain : Drain) (pathExists : String → Bool) : Bool :=
  drain.flagPath.any pathExists

/-- What came of a connection. -/
inductive Served where
  | ok
  | health
  | rejected (rejection : Rejection)
  | badRequest (message : String)
  | handlerError (message : String)
  | draining
deriving DecidableEq

/-- A response. -/
structure Response where
  code : Nat
  reason : String
  retryAfter : Option Nat
  body : String
deriving DecidableEq

def respond (code : Nat) (reason body : String) : Response :=
  { code := code, reason := reason, retryAfter := none, body := body ++ "\n" }

/-- The body of a refusal, which names what is refused. -/
def Drain.refusalBody (drain : Drain) (quoted : String → String) : String :=
  "\x7b\"status\":\"draining\",\"retry_after_s\":" ++ toString drain.retryAfterS ++
    ",\"refused\":[" ++ ",".intercalate (drain.refused.map quoted) ++ "]\x7d"

def respondDraining (drain : Drain) (quoted : String → String) : Response :=
  { code := 503, reason := "Service Unavailable", retryAfter := some drain.retryAfterS
    body := drain.refusalBody quoted ++ "\n" }

/-- What happened on a connection: the bodies the handler was called with, the response, and the
outcome. -/
structure Serving where
  calls : List (List UInt8)
  response : Response
  served : Served

/-- What a server is run with: the keyed MAC, the files there are, how a text is quoted, and what
a handler returns for a body. -/
structure Host where
  mac : List UInt8 → List UInt8 → List UInt8
  pathExists : String → Bool
  quoted : String → String
  handle : List UInt8 → Except String String

/-- Serve the request of a connection. -/
def serveConnection (host : Host) (config : ServerConfig) (connection : Connection) (now : Nat) :
    Serving :=
  match readRequest connection config.maxBodyBytes with
  | .error (.message message) =>
      ⟨[], respond 400 "Bad Request" message, .badRequest message⟩
  | .error .timedOut =>
      ⟨[], respond 408 "Request Timeout" "request read timed out",
        .badRequest "request read timed out"⟩
  | .ok request =>
      if eqIgnoreAsciiCase request.method "GET" && request.path = "/healthz" then
        ⟨[], respond 200 "OK" "ok", .health⟩
      else if !(eqIgnoreAsciiCase request.method "POST") then
        ⟨[], respond 405 "Method Not Allowed" "POST required",
          .badRequest ("method " ++ request.method ++ " not allowed")⟩
      else
        match verify host.mac config.secret request.body (request.header timestampHeader)
            (request.header signatureHeader) now config.toleranceSecs with
        | .error rejection =>
            ⟨[], respond 401 "Unauthorized" rejection.message, .rejected rejection⟩
        | .ok () =>
            if config.drain.isDraining host.pathExists then
              ⟨[], respondDraining config.drain host.quoted, .draining⟩
            else
              match host.handle request.body with
              | .ok note => ⟨[request.body], respond 200 "OK" note, .ok⟩
              | .error message =>
                  ⟨[request.body], respond 500 "Internal Server Error" message,
                    .handlerError message⟩

end Fraisier.Webhook
