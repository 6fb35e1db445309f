import MiniNet.Buffer
import MiniNet.HttpTypes

/-!
# The incremental request parser

`HttpParser::parse` is a state machine over a buffer that may hold any part
of a request.  It either asks for more bytes, reports an error, or leaves a
complete request in `req`.  The request, the announced body length and the
byte counter of the header section survive between calls.

The long member functions are cut at the point where they have taken a whole
line off the buffer: what happens to the line is a function of its own.
-/

namespace MiniNet

open Bytes

namespace HttpParser

structure Error where
  status : Int
  code : Bytes
  detail : Bytes
  deriving DecidableEq

/-- The result of a call, together with the error it fills in. -/
inductive Result where
  | needMore
  | complete
  | error (err : Error)
  deriving DecidableEq

inductive State where
  | requestLine
  | headers
  | body
  | done
  deriving DecidableEq

def kMaxHeaderBytes : Nat := 8192

def kMaxBodyBytes : Nat := 8192

def lower (text : Bytes) : Bytes := text.map tolower

def trim (text : Bytes) : Bytes := (text.dropWhile isspace).rdropWhile isspace

def requestLineTooLarge : Error :=
  { status := 431
    code := lit "headers_too_large"
    detail := lit "请求行或请求头超过 8 KiB" }

def headersTooLarge : Error :=
  { status := 431
    code := lit "headers_too_large"
    detail := lit "请求头超过 8 KiB" }

def badRequest (detail : String) : Error :=
  { status := 400
    code := lit "bad_request"
    detail := lit detail }

end HttpParser

structure HttpParser where
  state : HttpParser.State := .requestLine
  req : HttpRequest := {}
  contentLength : Nat := 0
  headerBytes : Nat := 0
  deriving DecidableEq

namespace HttpParser

def reset (_ : HttpParser) : HttpParser := {}

/-! ## Complete lines -/

/-- `parseRequestLine` once the line is off the buffer. -/
def readRequestLine (req : HttpRequest) (line : Bytes) :
    Except Error HttpRequest :=
  let clean := trim line
  if clean = [] then .error (badRequest "请求行为空")
  else
    let words := do
      let (method, rest) ← token? clean
      let (target, rest) ← token? rest
      let (version, _) ← token? rest
      return (method, target, version)
    match words with
    | none =>
        .error (badRequest "请求行格式非法（应为 METHOD TARGET VERSION）")
    | some (method, target, version) =>
        if startsWith version (lit "HTTP/") = false then
          .error (badRequest "缺少 HTTP 版本")
        else if version.drop 5 ≠ lit "1.0" ∧ version.drop 5 ≠ lit "1.1" then
          .error
            { status := 505
              code := lit "unsupported_version"
              detail := lit "只支持 HTTP/1.0 与 HTTP/1.1" }
        else
          let keepAlive := decide (version = lit "HTTP/1.1")
          match cut? 63 target with
          | none => .ok { req with method, target, version, path := target, keepAlive }
          | some (path, query) =>
              .ok { req with method, target, version, path, query, keepAlive }

/-- `parseHeaders` on a non-empty header line. -/
def readHeaderLine (req : HttpRequest) (line : Bytes) :
    Except Error HttpRequest :=
  match cut? 58 line with
  | none => .error (badRequest "请求头缺少冒号")
  | some (name, value) =>
      .ok { req with headers := req.headers ++ [(lower (trim name), trim value)] }

/-- The first `Transfer-Encoding` header asks for chunked coding. -/
def isChunked (req : HttpRequest) : Bool :=
  match req.findHeader (lit "transfer-encoding") with
  | none => false
  | some value => (find? (lit "chunked") (lower value)).isSome

/-- `content_length_` after the headers: kept when there is no
`Content-Length`, otherwise the value of the first one. -/
def readContentLength (req : HttpRequest) (current : Nat) : Except Error Nat :=
  match req.findHeader (lit "content-length") with
  | none => .ok current
  | some value =>
      match strtol value with
      | none => .error (badRequest "Content-Length 非法")
      | some length =>
          if length < 0 then .error (badRequest "Content-Length 非法")
          else if length.toNat > kMaxBodyBytes then
            .error
              { status := 413
                code := lit "payload_too_large"
                detail := lit "请求体超过 8 KiB" }
          else .ok length.toNat

/-- `keep_alive` after the headers: the first `Connection` header may
override what the version implies. -/
def readConnection (req : HttpRequest) : Bool :=
  match req.findHeader (lit "connection") with
  | none => req.keepAlive
  | some value =>
      if lower (trim value) = lit "close" then false
      else if lower (trim value) = lit "keep-alive" then true
      else req.keepAlive

/-- `parseHeaders` on the blank line that ends the header section. -/
def finishHeaders (p : HttpParser) : Except Error HttpParser :=
  if isChunked p.req then
    .error
      { status := 501
        code := lit "unsupported_transfer_encoding"
        detail := lit "v1 暂不支持 chunked 请求体" }
  else
    match readContentLength p.req p.contentLength with
    | .error err => .error err
    | .ok contentLength =>
        .ok { p with
          contentLength
          req := { p.req with keepAlive := readConnection p.req } }

/-! ## The state machine -/

def parseRequestLine (p : HttpParser) (buf : Buffer) :
    Result × HttpParser × Buffer :=
  match buf.findEOL with
  | none =>
      let p := { p with headerBytes := buf.readableBytes }
      if p.headerBytes > kMaxHeaderBytes then
        (.error requestLineTooLarge, p, buf)
      else (.needMore, p, buf)
  | some eol =>
      let line := buf.stringAt buf.peek (eol - buf.peek)
      let buf := buf.retrieveUntil (eol + 1)
      let p := { p with headerBytes := p.headerBytes + (line.length + 1) }
      match readRequestLine p.req line with
      | .error err => (.error err, p, buf)
      | .ok req => (.complete, { p with req }, buf)

theorem readableBytes_retrieveUntil_lt {buf : Buffer} {eol : Nat}
    (located : buf.findEOL = some eol) :
    (buf.retrieveUntil (eol + 1)).readableBytes < buf.readableBytes := by
  rcases buf.findEOL_cases with ⟨absent, _⟩ | ⟨place, line, rest, found, cut, _, left⟩
  · rw [absent] at located
    cases located
  · obtain rfl : place = eol := Option.some.inj (found.symm.trans located)
    obtain ⟨_, queue⟩ := cut?_eq_some_iff.mp cut
    rw [← Buffer.length_readable, ← Buffer.length_readable, left, queue]
    simp only [List.length_append, List.length_cons]
    omega

def parseHeaders (p : HttpParser) (buf : Buffer) :
    Result × HttpParser × Buffer :=
  match _located : buf.findEOL with
  | none =>
      let p := { p with headerBytes := p.headerBytes + buf.readableBytes }
      if p.headerBytes > kMaxHeaderBytes then
        (.error headersTooLarge, p, buf)
      else (.needMore, p, buf)
  | some eol =>
      let raw := buf.stringAt buf.peek (eol - buf.peek)
      let rest := buf.retrieveUntil (eol + 1)
      let p := { p with headerBytes := p.headerBytes + (raw.length + 1) }
      if p.headerBytes > kMaxHeaderBytes then
        (.error headersTooLarge, p, rest)
      else if trim raw = [] then
        match finishHeaders p with
        | .error err => (.error err, p, rest)
        | .ok p => (.complete, p, rest)
      else
        match readHeaderLine p.req (trim raw) with
        | .error err => (.error err, p, rest)
        | .ok req => parseHeaders { p with req } rest
termination_by buf.readableBytes
decreasing_by exact readableBytes_retrieveUntil_lt ‹_›

def parseBody (p : HttpParser) (buf : Buffer) :
    Result × HttpParser × Buffer :=
  if buf.readableBytes < p.contentLength then (.needMore, p, buf)
  else
    let (body, buf) := buf.retrieveAsString p.contentLength
    (.complete, { p with req := { p.req with body } }, buf)

/-- How many states the loop of `parse` can still enter. -/
def State.stepsLeft : State → Nat
  | .requestLine => 3
  | .headers => 2
  | .body => 1
  | .done => 0

/-- `if (r != Result::Complete) return r;` and then the rest of the loop. -/
def andThen {β : Type} (outcome : Result × HttpParser × β)
    (next : HttpParser → β → Result × HttpParser × β) :
    Result × HttpParser × β :=
  match outcome with
  | (.complete, p, buf) => next p buf
  | (.needMore, p, buf) => (.needMore, p, buf)
  | (.error err, p, buf) => (.error err, p, buf)

section Loop

variable {β : Type}
  (requestLine headers body : HttpParser → β → Result × HttpParser × β)

/-- The loop of `parse`, over any way of handling its three stages. -/
def parseLoop (p : HttpParser) (buf : β) : Result × HttpParser × β :=
  match _stage : p.state with
  | .requestLine =>
      andThen (requestLine p buf) fun p buf =>
        parseLoop { p with state := .headers } buf
  | .headers =>
      andThen (headers p buf) fun p buf =>
        if p.contentLength = 0 then parseLoop { p with state := .done } buf
        else parseLoop { p with state := .body } buf
  | .body =>
      andThen (body p buf) fun p buf =>
        parseLoop { p with state := .done } buf
  | .done => (.complete, p, buf)
termination_by p.state.stepsLeft
decreasing_by all_goals simp [State.stepsLeft, *]

variable {p : HttpParser} (buf : β)

theorem parseLoop_requestLine (stage : p.state = .requestLine) :
    parseLoop requestLine headers body p buf =
      andThen (requestLine p buf) fun p buf =>
        parseLoop requestLine headers body { p with state := .headers } buf := by
  rw [parseLoop]
  split <;> simp_all

theorem parseLoop_headers (stage : p.state = .headers) :
    parseLoop requestLine headers body p buf =
      andThen (headers p buf) fun p buf =>
        if p.contentLength = 0 then
          parseLoop requestLine headers body { p with state := .done } buf
        else
          parseLoop requestLine headers body { p with state := .body } buf := by
  rw [parseLoop]
  split <;> simp_all

theorem parseLoop_body (stage : p.state = .body) :
    parseLoop requestLine headers body p buf =
      andThen (body p buf) fun p buf =>
        parseLoop requestLine headers body { p with state := .done } buf := by
  rw [parseLoop]
  split <;> simp_all

theorem parseLoop_done (stage : p.state = .done) :
    parseLoop requestLine headers body p buf = (.complete, p, buf) := by
  rw [parseLoop]
  split <;> simp_all

end Loop

def parse : HttpParser → Buffer → Result × HttpParser × Buffer :=
  parseLoop parseRequestLine parseHeaders parseBody

/-! ## The header loop, one turn at a time -/

theorem parseHeaders_of_none {p : HttpParser} {buf : Buffer}
    (absent : buf.findEOL = none) :
    parseHeaders p buf =
      let p := { p with headerBytes := p.headerBytes + buf.readableBytes }
      if p.headerBytes > kMaxHeaderBytes then
        (.error headersTooLarge, p, buf)
      else (.needMore, p, buf) := by
  rw [parseHeaders]
  split
  · rfl
  · rename_i located
    rw [absent] at located
    cases located

theorem parseHeaders_of_some {p : HttpParser} {buf : Buffer} {eol : Nat}
    (located : buf.findEOL = some eol) :
    parseHeaders p buf =
      let raw := buf.stringAt buf.peek (eol - buf.peek)
      let rest := buf.retrieveUntil (eol + 1)
      let p := { p with headerBytes := p.headerBytes + (raw.length + 1) }
      if p.headerBytes > kMaxHeaderBytes then
        (.error headersTooLarge, p, rest)
      else if trim raw = [] then
        match finishHeaders p with
        | .error err => (.error err, p, rest)
        | .ok p => (.complete, p, rest)
      else
        match readHeaderLine p.req (trim raw) with
        | .error err => (.error err, p, rest)
        | .ok req => parseHeaders { p with req } rest := by
  rw [parseHeaders]
  split
  · rename_i absent
    rw [absent] at located
    cases located
  · rename_i place found
    obtain rfl : place = eol := Option.some.inj (found.symm.trans located)
    rfl

end HttpParser

end MiniNet
