import MiniNet.Lib.Bytes

/-!
# Requests and responses

The two value types that travel between the parser, the server and the
application, and the wire form of a response.
-/

namespace MiniNet

open Bytes

structure HttpRequest where
  method : Bytes := []
  target : Bytes := []
  path : Bytes := []
  query : Bytes := []
  version : Bytes := []
  headers : List (Bytes × Bytes) := []
  body : Bytes := []
  keepAlive : Bool := true
  deriving DecidableEq

/-- The value of the first header with this (lower-case) name. -/
def HttpRequest.findHeader (req : HttpRequest) (key : Bytes) : Option Bytes :=
  (req.headers.find? (·.1 == key)).map (·.2)

structure HttpResponse where
  status : Int := 200
  contentType : Bytes := lit "text/plain; charset=utf-8"
  body : Bytes := []
  extraHeaders : List (Bytes × Bytes) := []
  keepAlive : Bool := true
  deriving DecidableEq

namespace HttpResponse

def setJson (resp : HttpResponse) (text : Bytes) : HttpResponse :=
  { resp with
    contentType := lit "application/json; charset=utf-8"
    body := text }

def reason (code : Int) : Bytes :=
  if code = 200 then lit "OK"
  else if code = 201 then lit "Created"
  else if code = 302 then lit "Found"
  else if code = 400 then lit "Bad Request"
  else if code = 404 then lit "Not Found"
  else if code = 405 then lit "Method Not Allowed"
  else if code = 408 then lit "Request Timeout"
  else if code = 413 then lit "Payload Too Large"
  else if code = 431 then lit "Request Header Fields Too Large"
  else if code = 500 then lit "Internal Server Error"
  else if code = 501 then lit "Not Implemented"
  else if code = 505 then lit "HTTP Version Not Supported"
  else lit "Unknown"

/-- One header line: name, colon, space, value and the line end. -/
def headerLine (header : Bytes × Bytes) : Bytes :=
  header.1 ++ lit ": " ++ header.2 ++ crlf

/-- The response as it is put on the wire.  The first two lines go through a
256-character array, the others through string concatenation. -/
def serialize (resp : HttpResponse) : Bytes :=
  snprintf 256 (lit "HTTP/1.1 " ++ decimalInt resp.status ++ lit " " ++
      reason resp.status ++ crlf) ++
    snprintf 256 (lit "Content-Length: " ++ decimal resp.body.length ++ crlf) ++
    (lit "Content-Type: " ++ resp.contentType ++ crlf) ++
    (if resp.keepAlive then lit "Connection: keep-alive" ++ crlf
      else lit "Connection: close" ++ crlf) ++
    resp.extraHeaders.flatMap headerLine ++
    crlf ++
    resp.body

end HttpResponse

end MiniNet
