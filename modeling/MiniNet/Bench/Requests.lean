import MiniNet.HttpParser.Rendering

/-!
# The requests of the benchmark

In HTTP mode a connection sends one request again and again.  Its path and its
body come from patterns in which `%d` stands for the number of the connection,
so that connections can ask for different things.  The parser reads from such
a request what the options say.
-/

namespace MiniNet

open Bytes

namespace Bench

/-- `%d` becomes the number of the connection, and `%%` one percent sign. -/
def expandPlaceholder (connIndex : Nat) : Bytes → Bytes
  | [] => []
  | 37 :: 100 :: rest => decimal connIndex ++ expandPlaceholder connIndex rest
  | 37 :: 37 :: rest => 37 :: expandPlaceholder connIndex rest
  -- any other percent sign stays as it is
  | c :: rest => c :: expandPlaceholder connIndex rest

/-- How often the number of the connection is put into a pattern. -/
def placeholders : Bytes → Nat
  | [] => 0
  | 37 :: 100 :: rest => placeholders rest + 1
  | 37 :: 37 :: rest => placeholders rest
  | _ :: rest => placeholders rest

/-! ## Patterns -/

theorem mem_expandPlaceholder {connIndex : Nat} {pattern : Bytes} {c : UInt8}
    (member : c ∈ expandPlaceholder connIndex pattern) : c ∈ pattern ∨ isdigit c = true := by
  fun_induction expandPlaceholder connIndex pattern with
  | case1 => cases member
  | case2 rest ih =>
      rcases List.mem_append.mp member with number | later
      · exact .inr (isdigit_of_mem_decimal number)
      · exact (ih later).imp (fun among => by simp [among]) id
  | case3 rest ih =>
      rcases List.mem_cons.mp member with rfl | later
      · exact .inl (List.mem_cons_self ..)
      · exact (ih later).imp (fun among => by simp [among]) id
  | case4 head rest _ _ ih =>
      rcases List.mem_cons.mp member with rfl | later
      · exact .inl (List.mem_cons_self ..)
      · exact (ih later).imp (List.mem_cons_of_mem _) id

theorem expandPlaceholder_ne_nil {connIndex : Nat} {pattern : Bytes} (some_octet : pattern ≠ []) :
    expandPlaceholder connIndex pattern ≠ [] := by
  fun_cases expandPlaceholder connIndex pattern with
  | case1 => exact absurd rfl some_octet
  | case2 rest =>
      intro empty
      exact decimal_ne_nil connIndex (List.append_eq_nil_iff.mp empty).1
  | case3 rest => exact List.cons_ne_nil _ _
  | case4 head rest => exact List.cons_ne_nil _ _

theorem word_expandPlaceholder {pattern : Bytes} (word : Word pattern) (connIndex : Nat) :
    Word (expandPlaceholder connIndex pattern) := by
  refine ⟨expandPlaceholder_ne_nil word.1, fun c member => ?_⟩
  rcases mem_expandPlaceholder member with among | digit
  · exact word.2 c among
  · exact isspace_of_isdigit digit

/-- The expansions for two connections differ in length by the lengths of the numbers. -/
theorem length_expandPlaceholder (i j : Nat) (pattern : Bytes) :
    (expandPlaceholder i pattern).length + placeholders pattern * (decimal j).length =
      (expandPlaceholder j pattern).length + placeholders pattern * (decimal i).length := by
  fun_induction placeholders pattern with
  | case1 => simp only [expandPlaceholder, Nat.zero_mul]
  | case2 rest ih =>
      simp only [expandPlaceholder, List.length_append, Nat.add_mul, Nat.one_mul]
      omega
  | case3 rest ih =>
      simp only [expandPlaceholder, List.length_cons]
      omega
  | case4 head rest noNumber noPercent ih =>
      rw [expandPlaceholder, expandPlaceholder, List.length_cons, List.length_cons]
      · omega
      all_goals assumption

theorem eq_of_expandPlaceholder {i j : Nat} {pattern : Bytes}
    (sameLength : (decimal i).length = (decimal j).length) (some_number : 0 < placeholders pattern)
    (same : expandPlaceholder i pattern = expandPlaceholder j pattern) : i = j := by
  fun_induction placeholders pattern with
  | case1 => cases some_number
  | case2 rest ih =>
      have numbers := (List.append_inj same sameLength).1
      have values := congrArg decimalValue numbers
      rwa [decimalValue_decimal, decimalValue_decimal] at values
  | case3 rest ih => exact ih some_number (List.cons.inj same).2
  | case4 head rest noNumber noPercent ih =>
      rw [expandPlaceholder, expandPlaceholder] at same
      · exact ih some_number (List.cons.inj same).2
      all_goals assumption

/-- Connections send different texts where the pattern asks for the number. -/
theorem expandPlaceholder_injective {pattern : Bytes} (some_number : 0 < placeholders pattern) :
    Function.Injective (expandPlaceholder · pattern) := by
  intro i j same
  have lengths := length_expandPlaceholder i j pattern
  rw [congrArg List.length same] at lengths
  have sameLength : (decimal j).length = (decimal i).length :=
    Nat.eq_of_mul_eq_mul_left some_number (Nat.add_left_cancel lengths)
  exact eq_of_expandPlaceholder sameLength.symm some_number same

/-! ## The request of a connection -/

/-- What the requests are made of. -/
structure RequestOptions where
  host : Bytes
  port : Nat
  method : Bytes
  path : Bytes
  body : Bytes

namespace RequestOptions

def hostHeader (opts : RequestOptions) : Bytes := opts.host ++ lit ":" ++ decimal opts.port

def buildHttpRequest (opts : RequestOptions) (connIndex : Nat) : Bytes :=
  let path := expandPlaceholder connIndex opts.path
  let body := expandPlaceholder connIndex opts.body
  opts.method ++ lit " " ++ path ++ lit " HTTP/1.1\r\n" ++
    lit "Host: " ++ opts.hostHeader ++ lit "\r\n" ++
    lit "User-Agent: mini-net-echo_bench/1.0\r\n" ++
    lit "Accept: */*\r\n" ++
    lit "Connection: keep-alive\r\n" ++
    (if body = [] then []
      else
        lit "Content-Type: application/json\r\n" ++
          lit "Content-Length: " ++ decimal body.length ++ lit "\r\n") ++
    lit "\r\n" ++ body

/-- The request in its parts. -/
def message (opts : RequestOptions) (connIndex : Nat) : HttpParser.Message where
  method := opts.method
  target := expandPlaceholder connIndex opts.path
  version := lit "HTTP/1.1"
  headers :=
    [(lit "Host", opts.hostHeader), (lit "User-Agent", lit "mini-net-echo_bench/1.0"),
      (lit "Accept", lit "*/*"), (lit "Connection", lit "keep-alive")] ++
      if expandPlaceholder connIndex opts.body = [] then []
      else
        [(lit "Content-Type", lit "application/json"),
          (lit "Content-Length", decimal (expandPlaceholder connIndex opts.body).length)]
  body := expandPlaceholder connIndex opts.body

theorem render_message (opts : RequestOptions) (connIndex : Nat) :
    (opts.message connIndex).render = opts.buildHttpRequest connIndex := by
  have version : lit " HTTP/1.1\r\n" = lit " " ++ (lit "HTTP/1.1" ++ crlf) := by decide
  have host : lit "Host: " = lit "Host" ++ lit ": " := by decide
  have agent : lit "User-Agent: mini-net-echo_bench/1.0\r\n" =
      lit "User-Agent" ++ (lit ": " ++ (lit "mini-net-echo_bench/1.0" ++ crlf)) := by decide
  have accept : lit "Accept: */*\r\n" =
      lit "Accept" ++ (lit ": " ++ (lit "*/*" ++ crlf)) := by decide
  have connection : lit "Connection: keep-alive\r\n" =
      lit "Connection" ++ (lit ": " ++ (lit "keep-alive" ++ crlf)) := by decide
  have type : lit "Content-Type: application/json\r\n" =
      lit "Content-Type" ++ (lit ": " ++ (lit "application/json" ++ crlf)) := by decide
  have length : lit "Content-Length: " = lit "Content-Length" ++ lit ": " := by decide
  have line : lit "\r\n" = crlf := by decide
  rw [buildHttpRequest, version, host, agent, accept, connection, type, length, line,
    HttpParser.Message.render, HttpParser.Message.headerSection, HttpParser.Message.requestLine,
    message]
  split <;>
    simp only [List.flatMap_append, List.flatMap_cons, List.flatMap_nil, List.append_nil,
      HttpResponse.headerLine, List.append_assoc]

/-- The method, the path and the host are such as the parser can tell apart, and the
request is within its limits. -/
structure Sendable (opts : RequestOptions) (connIndex : Nat) : Prop where
  method_word : Word opts.method
  path_word : Word opts.path
  host_word : Word opts.host
  section_fits : (opts.message connIndex).headerSection.length ≤ 8192
  body_fits : (expandPlaceholder connIndex opts.body).length ≤ 8192

theorem word_hostHeader {opts : RequestOptions} (word : Word opts.host) :
    Word opts.hostHeader := by
  refine ⟨?_, fun c member => ?_⟩
  · intro empty
    exact word.1 (List.append_eq_nil_iff.mp (List.append_eq_nil_iff.mp empty).1).1
  · rcases List.mem_append.mp member with front | digit
    · rcases List.mem_append.mp front with name | colon
      · exact word.2 c name
      · cases List.mem_singleton.mp colon
        decide
    · exact isspace_of_isdigit (isdigit_of_mem_decimal digit)

theorem plainHeader_of_word {name value : Bytes} (nameWord : Word name) (noColon : 58 ∉ name)
    (valueWord : Word value) : HttpParser.PlainHeader (name, value) := by
  have trimmed {text : Bytes} (word : Word text) : HttpParser.trim text = text :=
    HttpParser.trim_eq_self_iff.mpr
      ⟨fun c first => word.2 c (List.mem_of_mem_head? first),
        fun c last => word.2 c (List.mem_of_mem_getLast? last)⟩
  have oneLine {text : Bytes} (word : Word text) : cr ∉ text ∧ lf ∉ text :=
    ⟨fun member => absurd (word.2 cr member) (by decide),
      fun member => absurd (word.2 lf member) (by decide)⟩
  exact ⟨nameWord.1, noColon, trimmed nameWord, trimmed valueWord, oneLine nameWord,
    oneLine valueWord⟩

theorem word_decimal (value : Nat) : Word (decimal value) :=
  ⟨decimal_ne_nil value, fun _ member => isspace_of_isdigit (isdigit_of_mem_decimal member)⟩

theorem headers_plain {opts : RequestOptions} (word : Word opts.host) (connIndex : Nat) :
    ∀ header ∈ (opts.message connIndex).headers, HttpParser.PlainHeader header := by
  have host : HttpParser.PlainHeader (lit "Host", opts.hostHeader) :=
    plainHeader_of_word (by decide) (by decide) (word_hostHeader word)
  have fixed : ∀ header ∈ [(lit "User-Agent", lit "mini-net-echo_bench/1.0"),
      (lit "Accept", lit "*/*"), (lit "Connection", lit "keep-alive"),
      (lit "Content-Type", lit "application/json")], HttpParser.PlainHeader header := by decide
  have length (value : Nat) : HttpParser.PlainHeader (lit "Content-Length", decimal value) :=
    plainHeader_of_word (by decide) (by decide) (word_decimal value)
  intro header member
  simp only [message] at member
  split at member
  · grind
  · grind

theorem no_coding (opts : RequestOptions) (connIndex : Nat) :
    (opts.message connIndex).valuesOf (lit "transfer-encoding") = [] := by
  rw [HttpParser.Message.valuesOf, message]
  split <;> rfl

theorem one_length (opts : RequestOptions) (connIndex : Nat)
    (some_octet : (opts.message connIndex).body ≠ []) :
    ∃ value, (opts.message connIndex).valuesOf (lit "content-length") = [value] ∧
      HttpParser.Denotes value (opts.message connIndex).body.length := by
  refine ⟨decimal (opts.message connIndex).body.length, ?_, decimal_ne_nil _,
    fun _ member => isdigit_of_mem_decimal member, decimalValue_decimal _⟩
  have present : expandPlaceholder connIndex opts.body ≠ [] := some_octet
  rw [HttpParser.Message.valuesOf, message, if_neg present]
  rfl

theorem no_length (opts : RequestOptions) (connIndex : Nat)
    (empty : (opts.message connIndex).body = []) :
    (opts.message connIndex).valuesOf (lit "content-length") = [] := by
  have absent : expandPlaceholder connIndex opts.body = [] := empty
  rw [HttpParser.Message.valuesOf, message, if_pos absent]
  rfl

def clientRequest (opts : RequestOptions) (connIndex : Nat)
    (sendable : opts.Sendable connIndex) : HttpParser.ClientRequest where
  toMessage := opts.message connIndex
  method_word := sendable.method_word
  target_word := word_expandPlaceholder sendable.path_word connIndex
  version_known := .inr rfl
  headers_plain := headers_plain sendable.host_word connIndex
  no_coding := no_coding opts connIndex
  one_length := one_length opts connIndex
  no_length := no_length opts connIndex
  section_fits := sendable.section_fits
  body_fits := sendable.body_fits

theorem keepAlive_message (opts : RequestOptions) (connIndex : Nat) :
    (opts.message connIndex).keepAlive = true := by
  have only : (opts.message connIndex).valuesOf (lit "connection") = [lit "keep-alive"] := by
    rw [HttpParser.Message.valuesOf, message]
    split <;> rfl
  rw [HttpParser.Message.keepAlive, only]
  rfl

/-- The server reads the request of a connection as the options mean it, and keeps
the connection open. -/
theorem parse_buildHttpRequest {opts : RequestOptions} {connIndex : Nat} {buf : Buffer}
    {more : Bytes} (sendable : opts.Sendable connIndex)
    (queue : buf.readable = opts.buildHttpRequest connIndex ++ more) :
    ∃ q rest, HttpParser.parse {} buf = (.complete, q, rest) ∧ rest.readable = more ∧
      q.req.method = opts.method ∧ q.req.target = expandPlaceholder connIndex opts.path ∧
      q.req.body = expandPlaceholder connIndex opts.body ∧ q.req.keepAlive = true := by
  rw [← render_message] at queue
  obtain ⟨q, rest, called, left, req⟩ := (opts.clientRequest connIndex sendable).complete queue
  refine ⟨q, rest, called, left, ?_⟩
  rw [req]
  exact ⟨rfl, rfl, rfl, keepAlive_message opts connIndex⟩

def postNumber : RequestOptions where
  host := lit "h"
  port := 80
  method := lit "POST"
  path := lit "/u"
  body := lit "%d%%"

theorem parse_buildHttpRequest_postNumber :
    let buf := (Buffer.create 1024).append (postNumber.buildHttpRequest 7 ++ lit "GET")
    ∃ q rest, HttpParser.parse {} buf = (.complete, q, rest) ∧ rest.readable = lit "GET" ∧
      q.req.method = lit "POST" ∧ q.req.target = lit "/u" ∧ q.req.body = lit "7%" ∧
      q.req.keepAlive = true := by
  intro buf
  have sendable : postNumber.Sendable 7 :=
    ⟨by decide, by decide, by decide, by decide +kernel, by decide⟩
  have queue : buf.readable = postNumber.buildHttpRequest 7 ++ lit "GET" := by simp [buf]
  exact parse_buildHttpRequest sendable queue

/-- Connections whose path or body is numbered do not send the same request. -/
theorem eq_of_buildHttpRequest {opts : RequestOptions} {i j : Nat} (first : opts.Sendable i)
    (second : opts.Sendable j) (numbered : 0 < placeholders opts.path ∨ 0 < placeholders opts.body)
    (same : opts.buildHttpRequest i = opts.buildHttpRequest j) : i = j := by
  have queue : ((Buffer.create 1024).append (opts.buildHttpRequest i)).readable =
      opts.buildHttpRequest i ++ [] := by simp
  obtain ⟨q, _, called, _, _, target, body, _⟩ := parse_buildHttpRequest first queue
  obtain ⟨p, _, calledSame, _, _, targetSame, bodySame, _⟩ :=
    parse_buildHttpRequest second (queue.trans (by rw [same]))
  cases called.symm.trans calledSame
  rcases numbered with path | text
  · exact expandPlaceholder_injective path (target.symm.trans targetSame)
  · exact expandPlaceholder_injective text (body.symm.trans bodySame)

end RequestOptions

end Bench

end MiniNet
