import MiniNet.HttpTypes
import MiniNet.ShortUrlService.Tables

/-!
# The application: routes, JSON bodies and links

`ShortUrlApp::handle` maps a request to an operation of the store and fills in
the response.  The request body goes through a small JSON reader that looks
for one string field.  The clock and the text of the metrics page come from
outside and are inputs of the call.  `handle` has no result when `shorten`
does not end.
-/

namespace MiniNet

open Bytes

namespace ShortUrlApp

/-! ## JSON -/

def hexDigit (c : UInt8) : Option Nat :=
  if 48 ≤ c ∧ c ≤ 57 then some (c.toNat - 48)
  else if 97 ≤ c ∧ c ≤ 102 then some (c.toNat - 97 + 10)
  else if 65 ≤ c ∧ c ≤ 70 then some (c.toNat - 65 + 10)
  else none

/-- The value of the first four characters, if they are hexadecimal digits. -/
def hex4 (text : Bytes) : Option Nat :=
  if text.length < 4 then none
  else (text.take 4).foldlM (fun v c => (hexDigit c).map (v * 16 + ·)) 0

def appendUtf8 (out : Bytes) (cp : Nat) : Bytes :=
  if cp ≤ 0x7F then out ++ [UInt8.ofNat cp]
  else if cp ≤ 0x7FF then
    out ++ [UInt8.ofNat (0xC0 ||| cp >>> 6), UInt8.ofNat (0x80 ||| cp &&& 0x3F)]
  else if cp ≤ 0xFFFF then
    out ++ [UInt8.ofNat (0xE0 ||| cp >>> 12),
      UInt8.ofNat (0x80 ||| (cp >>> 6) &&& 0x3F), UInt8.ofNat (0x80 ||| cp &&& 0x3F)]
  else
    out ++ [UInt8.ofNat (0xF0 ||| cp >>> 18),
      UInt8.ofNat (0x80 ||| (cp >>> 12) &&& 0x3F),
      UInt8.ofNat (0x80 ||| (cp >>> 6) &&& 0x3F), UInt8.ofNat (0x80 ||| cp &&& 0x3F)]

/-- What a backslash and one character stand for. -/
def unescaped (c : UInt8) : UInt8 :=
  if c = 110 then 10
  else if c = 116 then 9
  else if c = 114 then 13
  else if c = 98 then 8
  else if c = 102 then 12
  else c

/-- The second half of a surrogate pair, if `rest` starts with one. -/
def lowSurrogate? (cp : Nat) (rest : Bytes) : Option Nat :=
  if 0xD800 ≤ cp ∧ cp ≤ 0xDBFF then
    match rest with
    | 92 :: 117 :: more =>
        (hex4 more).filter fun low => 0xDC00 ≤ low ∧ low ≤ 0xDFFF
    | _ => none
  else none

/-- The characters of a string literal up to its closing quote. -/
def readString (text value : Bytes) : Except Bytes Bytes :=
  match text with
  | [] => .error (lit "字符串没有结束引号")
  | 34 :: _ => .ok value
  | 92 :: 117 :: rest =>
      match hex4 rest with
      | none => .error (lit "\\u 转义不完整")
      | some cp =>
          match lowSurrogate? cp (rest.drop 4) with
          | some low =>
              readString (rest.drop 10)
                (appendUtf8 value (0x10000 + (cp - 0xD800) <<< 10 + (low - 0xDC00)))
          | none => readString (rest.drop 4) (appendUtf8 value cp)
  | 92 :: c :: rest => readString rest (value ++ [unescaped c])
  | c :: rest => readString rest (value ++ [c])
termination_by text.length
decreasing_by all_goals simp only [List.length_cons, List.length_drop]; omega

def jsonSpace (c : UInt8) : Bool := c == 32 || c == 9 || c == 13 || c == 10

/-- The string field `key` of a flat JSON object, or a complaint. -/
def jsonExtractString (body key : Bytes) : Except Bytes Bytes :=
  let first := (body.dropWhile jsonSpace).head?
  let last := (body.rdropWhile jsonSpace).getLast?
  if first ≠ some 123 ∨ last ≠ some 125 then
    .error (lit "请求体不是合法的 JSON 对象")
  else
    let needle := lit "\"" ++ key ++ lit "\""
    match find? needle body with
    | none => .error (lit "缺少字段 " ++ key)
    | some k =>
        match cut? 58 (body.drop (k + needle.length)) with
        | none => .error (lit "字段格式非法")
        | some (_, rest) =>
            match rest.dropWhile (fun c => c == 32 || c == 9) with
            | 34 :: text => readString text []
            | _ => .error (lit "字段 " ++ key ++ lit " 必须是字符串")

/-! ## Responses -/

/-- The complaint about a url, if there is one. -/
def validUrl (url : Bytes) : Except Bytes Unit :=
  if url = [] then .error (lit "url 不能为空")
  else if url.length > 2048 then .error (lit "url 超过 2048 字节")
  else if !startsWith url (lit "http://") && !startsWith url (lit "https://") then
    .error (lit "只支持 http:// 或 https:// 开头的链接")
  else .ok ()

def badRequest (resp : HttpResponse) (code detail : Bytes) : HttpResponse :=
  { resp with status := 400 }.setJson
    (lit "\x7b\"error\":\"" ++ code ++ lit "\",\"detail\":\"" ++ detail ++
      lit "\"\x7d")

def notFound (resp : HttpResponse) : HttpResponse :=
  { resp with status := 404 }.setJson
    (lit "\x7b\"error\":\"not_found\",\"detail\":\"短码不存在\"\x7d")

/-- The answer of every route to a method it does not serve. -/
def methodNotAllowed (resp : HttpResponse) (allow detail : String) :
    HttpResponse :=
  { resp with
      status := 405
      extraHeaders := resp.extraHeaders ++ [(lit "Allow", lit allow)] }.setJson
    (lit "\x7b\"error\":\"method_not_allowed\",\"detail\":\"" ++ lit detail ++
      lit "\"\x7d")

def created (resp : HttpResponse) (host code url : Bytes) : HttpResponse :=
  { resp with status := 201 }.setJson
    (lit "\x7b\"code\":\"" ++ code ++ lit "\",\"short\":\"http://" ++ host ++
      lit "/" ++ code ++ lit "\",\"url\":\"" ++ url ++ lit "\"\x7d")

def redirect (resp : HttpResponse) (url : Bytes) : HttpResponse :=
  { resp with
    status := 302
    body := []
    extraHeaders := resp.extraHeaders ++
      [(lit "Location", url), (lit "Cache-Control", lit "no-store")] }

end ShortUrlApp

structure ShortUrlApp where
  host : Bytes
  service : ShortUrlService := {}

namespace ShortUrlApp

/-! ## Routes -/

/-- What a call of `handle` finds outside the application. -/
structure Env where
  now : Int := 0
  metricsSource : Option Bytes := none
  deriving DecidableEq

def handleShorten (app : ShortUrlApp) (env : Env) (req : HttpRequest)
    (resp : HttpResponse) : Option (ShortUrlApp × HttpResponse) :=
  match jsonExtractString req.body (lit "url") with
  | .error err => some (app, badRequest resp (lit "invalid_url") err)
  | .ok url =>
      match validUrl url with
      | .error err => some (app, badRequest resp (lit "invalid_url") err)
      | .ok () =>
          (app.service.shorten url env.now).map fun (service, code) =>
            ({ app with service }, created resp app.host code url)

def handleRedirect (app : ShortUrlApp) (code : Bytes) (resp : HttpResponse) :
    ShortUrlApp × HttpResponse :=
  if !ShortUrlService.validCode code then
    (app, badRequest resp (lit "invalid_code") (lit "短码只允许 1-8 位字母数字"))
  else
    match app.service.lookup code with
    | (service, none) => ({ app with service }, notFound resp)
    | (service, some entry) => ({ app with service }, redirect resp entry.url)

def handleStats (app : ShortUrlApp) (code : Bytes) (resp : HttpResponse) :
    HttpResponse :=
  if !ShortUrlService.validCode code then
    badRequest resp (lit "invalid_code") (lit "短码只允许 1-8 位字母数字")
  else
    match app.service.stats code with
    | none => notFound resp
    | some entry =>
        resp.setJson (snprintf 512
          (lit "\x7b\"code\":\"" ++ cStr code ++ lit "\",\"url\":\"" ++
            cStr entry.url ++ lit "\",\"hits\":" ++ decimal entry.hits.toNat ++
            lit ",\"created_at\":" ++ decimalInt entry.createdAt ++ lit "\x7d"))

def statsPrefix : Bytes := lit "/api/stats/"

def handle (app : ShortUrlApp) (env : Env) (req : HttpRequest)
    (resp : HttpResponse) : Option (ShortUrlApp × HttpResponse) :=
  if req.path = lit "/healthz" then
    if req.method ≠ lit "GET" then
      some (app, methodNotAllowed resp "GET" "/healthz 只支持 GET")
    else some (app, { resp with body := lit "ok" })
  else if req.path = lit "/metrics" then
    if req.method ≠ lit "GET" then
      some (app, methodNotAllowed resp "GET" "/metrics 只支持 GET")
    else
      some (app, { resp with
        contentType := lit "text/plain; charset=utf-8"
        body := env.metricsSource.getD [] })
  else if req.path = lit "/api/shorten" then
    if req.method ≠ lit "POST" then
      some (app, methodNotAllowed resp "POST" "/api/shorten 只支持 POST")
    else handleShorten app env req resp
  else if startsWith req.path statsPrefix then
    if req.method ≠ lit "GET" then
      some (app, methodNotAllowed resp "GET" "该接口只支持 GET")
    else some (app, handleStats app (req.path.drop statsPrefix.length) resp)
  else if req.path.head? = some 47 ∧ req.path.length > 1 then
    if req.method ≠ lit "GET" then
      some (app, methodNotAllowed resp "GET" "短链跳转只支持 GET")
    else some (handleRedirect app (req.path.drop 1) resp)
  else some (app, notFound resp)

/-- A request as `onMessage` hands it over: the response is new, except that
it has the keep-alive flag. -/
structure Visit where
  req : HttpRequest
  keepAlive : Bool := true
  env : Env := {}
  deriving DecidableEq

def visit (app : ShortUrlApp) (v : Visit) : Option (ShortUrlApp × HttpResponse) :=
  handle app v.env v.req { keepAlive := v.keepAlive }

end ShortUrlApp

end MiniNet
