import Mathlib.Data.PNat.Defs

/-!
# The HTTP client

Source: `lib/http/src/client.koja`, with `method.koja`, `headers.koja` and `error.koja` beside it
and `read_string` of `lib/global/src/io/reader.koja`. Parsing the URL, connecting and parsing the
response are parameters; a socket is what its transport will answer.
-/
namespace Koja.Source.Stdlib.Http

inductive Method where
  | delete | get | head | options | patch | post | put

def Method.toString : Method → String
  | .delete => "DELETE"
  | .get => "GET"
  | .head => "HEAD"
  | .options => "OPTIONS"
  | .patch => "PATCH"
  | .post => "POST"
  | .put => "PUT"

structure Header where
  name : String
  value : String

structure Headers where
  entries : List Header

namespace Headers

def findFirst (lower : String) : List Header → Option String
  | [] => none
  | entry :: rest => if entry.name.toLower = lower then some entry.value else findFirst lower rest

def get (headers : Headers) (name : String) : Option String :=
  findFirst name.toLower headers.entries

/-- Source `has?`. -/
def has (headers : Headers) (name : String) : Bool := (headers.get name).isSome

end Headers

/-- Source `Error`. -/
inductive HttpError where
  | connectionFailed (message : String)
  | invalidUrl (message : String)
  | parseError (message : String)
  | timeout

inductive UriError where
  | invalidPercentEncoding (part : String)
  | invalidUri (part : String)
  | invalidUtf8

def uriErrorMessage (error : UriError) (url : String) : String :=
  match error with
  | .invalidPercentEncoding part => "invalid percent encoding '" ++ part ++ "' in URL: " ++ url
  | .invalidUri part => "invalid URI component '" ++ part ++ "' in URL: " ++ url
  | .invalidUtf8 => "URL is not valid UTF-8: " ++ url

/-- The errors of the transport, each with its `message()`. -/
inductive NetError where
  | socket (message : String)
  | io (message : String)
  | tls (message : String)
  | conversion

def netErrorMessage : NetError → String
  | .socket message | .io message | .tls message => message
  | .conversion => "response is not valid UTF-8"

/-- Source `Binary.to_string`. -/
def binaryToString (bytes : ByteArray) : Except NetError String :=
  (String.fromUTF8? bytes).elim (.error .conversion) .ok

/-! ## The socket -/

/-- What a read of `count` bytes may answer before the end of the stream. -/
abbrev Chunk (count : Nat) := {bytes : ByteArray // 0 < bytes.size ∧ bytes.size ≤ count}

/-- The count `read_all` reads with. -/
def readCount : Nat := 8192

structure Socket where
  /-- The answer to a write: an error, or the most bytes it accepts. -/
  accepts : Except NetError ℕ+
  /-- The answers to the reads, up to `ending`. -/
  incoming : List (Chunk readCount)
  /-- How the reads end: with an error, or at the end of the stream. -/
  ending : Option NetError
  /-- The bytes the peer was sent. -/
  delivered : ByteArray := .empty
  closes : Nat := 0

namespace Socket

variable (socket : Socket)

def write (data : ByteArray) : Except NetError Nat × Socket :=
  match socket.accepts with
  | .error e => (.error e, socket)
  | .ok most =>
    let count := min (most : Nat) data.size
    (.ok count, { socket with delivered := socket.delivered ++ data.extract 0 count })

def read : Except NetError ByteArray × Socket :=
  match socket.incoming with
  | chunk :: rest => (.ok chunk, { socket with incoming := rest })
  | [] => (socket.ending.elim (.ok .empty) .error, socket)

def readString : Except NetError String × Socket :=
  match socket.read with
  | (.error e, socket) => (.error e, socket)
  | (.ok bytes, socket) => (binaryToString bytes, socket)

def close : Socket := { socket with closes := socket.closes + 1 }

theorem readString_nil (done : socket.incoming = []) :
    socket.readString = (socket.ending.elim (.ok "") .error, socket) := by
  rw [readString, Socket.read, done]
  cases socket.ending with
  | none => rfl
  | some => rfl

theorem readString_cons {chunk : Chunk readCount} {rest : List (Chunk readCount)}
    (more : socket.incoming = chunk :: rest) :
    socket.readString = (binaryToString chunk, { socket with incoming := rest }) := by
  rw [readString, Socket.read, more]

theorem readString_shrinks {text : String} {after : Socket}
    (answer : socket.readString = (.ok text, after)) (more : ¬ text.isEmpty) :
    after.incoming.length < socket.incoming.length := by
  cases incoming : socket.incoming with
  | nil =>
    rw [readString_nil _ incoming] at answer
    cases ending : socket.ending <;> simp_all
  | cons chunk rest =>
    rw [readString_cons _ incoming] at answer
    simp [← (Prod.mk.inj answer).2]

end Socket

/-! ## The request -/

def writeHeaders (out : String) : List Header → String
  | [] => out
  | entry :: rest => writeHeaders (out ++ entry.name ++ ": " ++ entry.value ++ "\r\n") rest

def buildRequest (method : Method) (host path : String) (headers : Headers) (body : String) :
    String :=
  let out := method.toString ++ " " ++ path ++ " HTTP/1.1\r\n" ++ "Host: " ++ host ++ "\r\n"
  let out := if !body.isEmpty && !headers.has "Content-Length" then
    out ++ "Content-Length: " ++ body.utf8ByteSize.repr ++ "\r\n" else out
  let out := writeHeaders out headers.entries ++ "Connection: close\r\n\r\n"
  if body.isEmpty then out else out ++ body

def readAll (socket : Socket) (acc : String) : Except HttpError String × Socket :=
  match _answer : socket.readString with
  | (.error e, socket) =>
    (.error (.connectionFailed ("read failed: " ++ netErrorMessage e)), socket)
  | (.ok chunk, socket) =>
    if chunk.isEmpty then (.ok acc, socket.close) else readAll socket (acc ++ chunk)
termination_by socket.incoming.length
decreasing_by exact Socket.readString_shrinks _ _answer ‹_›

/-- The fields of a `URI` that `request` reads. -/
structure Uri where
  scheme : Option String
  host : Option String
  port : Option Int
  path : String
  query : Option String

/-- Where a request goes. -/
structure Peer where
  secure : Bool
  host : String
  port : Int
  target : String

section

variable {Response : Type} (parse : String → Except UriError Uri)
  (connect : Peer → Except NetError Socket) (parseResponse : String → Except HttpError Response)

def readResponse (socket : Socket) : Except HttpError Response × Socket :=
  match readAll socket "" with
  | (.error e, socket) => (.error e, socket)
  | (.ok data, socket) => (parseResponse data, socket)

/-- The checks of `request` on its URL. -/
def peerOf (url : String) : Except HttpError Peer := do
  let parsed ← (parse url).mapError fun e => .invalidUrl (uriErrorMessage e url)
  let some scheme := parsed.scheme
    | throw (.invalidUrl ("URL must be absolute and use http or https: " ++ url))
  if scheme ≠ "http" ∧ scheme ≠ "https" then
    throw (.invalidUrl ("unsupported URL scheme '" ++ scheme ++ "': " ++ url))
  let some host := parsed.host.filter (!·.isEmpty)
    | throw (.invalidUrl ("missing host in URL: " ++ url))
  let some port := parsed.port | throw (.invalidUrl ("missing port in URL: " ++ url))
  let path := if parsed.path.isEmpty then "/" else parsed.path
  let target := match parsed.query with
    | some query => path ++ "?" ++ query
    | none => path
  return ⟨scheme = "https", host, port, target⟩

/-- What `request` does once it is connected. -/
def exchange (raw : String) (socket : Socket) : Except HttpError Response × Socket :=
  -- the count of bytes written is not looked at
  match socket.write raw.toByteArray with
  | (.error e, socket) =>
    (.error (.connectionFailed ("write failed: " ++ netErrorMessage e)), socket)
  | (.ok _, socket) => readResponse parseResponse socket

/-- The outcome, with the socket as a connected call leaves it. -/
def request (method : Method) (url : String) (headers : Headers) (body : String) :
    Except HttpError Response × Option Socket :=
  match peerOf parse url with
  | .error e => (.error e, none)
  | .ok peer =>
    match connect peer with
    | .error e => (.error (.connectionFailed (netErrorMessage e)), none)
    | .ok socket =>
      let raw := buildRequest method peer.host peer.target headers body
      (exchange parseResponse raw socket).map id some

end

end Koja.Source.Stdlib.Http
