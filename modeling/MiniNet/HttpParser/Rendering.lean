import MiniNet.HttpParser.Framing

/-!
# Requests as a client writes them

A client writes the request line, one line for each header, a blank line and
the body.  `ClientRequest.complete` says that the parser reads from this what
the client meant, and nothing of what follows.
-/

namespace MiniNet

open Bytes

namespace HttpParser

/-- What a client puts into a request. -/
structure Message where
  method : Bytes
  target : Bytes
  version : Bytes
  headers : List (Bytes × Bytes)
  body : Bytes
  deriving DecidableEq

namespace Message

def requestLine (message : Message) : Bytes :=
  message.method ++ lit " " ++ message.target ++ lit " " ++ message.version

def headerSection (message : Message) : Bytes :=
  message.requestLine ++ crlf ++ message.headers.flatMap HttpResponse.headerLine ++ crlf

def render (message : Message) : Bytes := message.headerSection ++ message.body

/-- The values of the headers with this name, in any letter case. -/
def valuesOf (message : Message) (name : Bytes) : List Bytes :=
  (message.headers.filter (lower ·.1 == name)).map (·.2)

/-- HTTP/1.1 keeps the connection open and HTTP/1.0 does not, unless the
first `Connection` header says otherwise. -/
def keepAlive (message : Message) : Bool :=
  match message.valuesOf (lit "connection") with
  | [] => message.version == lit "HTTP/1.1"
  | value :: _ =>
      if lower value = lit "close" then false
      else if lower value = lit "keep-alive" then true
      else message.version == lit "HTTP/1.1"

/-- The request the server is meant to see. -/
def request (message : Message) : HttpRequest :=
  { method := message.method
    target := message.target
    path := message.target.takeWhile (· != 63)
    query := (message.target.dropWhile (· != 63)).drop 1
    version := message.version
    headers := message.headers.map fun (name, value) => (lower name, value)
    body := message.body
    keepAlive := message.keepAlive }

end Message

/-- The name and the value of a header can be told from the line. -/
structure PlainHeader (header : Bytes × Bytes) : Prop where
  named : header.1 ≠ []
  noColon : 58 ∉ header.1
  name_trimmed : trim header.1 = header.1
  value_trimmed : trim header.2 = header.2
  name_oneLine : cr ∉ header.1 ∧ lf ∉ header.1
  value_oneLine : cr ∉ header.2 ∧ lf ∉ header.2

instance (header : Bytes × Bytes) : Decidable (PlainHeader header) :=
  decidable_of_iff
    (header.1 ≠ [] ∧ 58 ∉ header.1 ∧ trim header.1 = header.1 ∧ trim header.2 = header.2 ∧
      (cr ∉ header.1 ∧ lf ∉ header.1) ∧ cr ∉ header.2 ∧ lf ∉ header.2)
    ⟨fun ⟨named, noColon, name, value, inName, inValue⟩ =>
        ⟨named, noColon, name, value, inName, inValue⟩,
      fun plain => ⟨plain.named, plain.noColon, plain.name_trimmed, plain.value_trimmed,
        plain.name_oneLine, plain.value_oneLine⟩⟩

/-- A request that is within the limits and whose parts can be told apart. -/
structure ClientRequest extends Message where
  method_word : Word method
  target_word : Word target
  version_known : version = lit "HTTP/1.0" ∨ version = lit "HTTP/1.1"
  headers_plain : ∀ header ∈ headers, PlainHeader header
  no_coding : toMessage.valuesOf (lit "transfer-encoding") = []
  one_length : body ≠ [] →
    ∃ value, toMessage.valuesOf (lit "content-length") = [value] ∧
      Denotes value body.length
  no_length : body = [] → toMessage.valuesOf (lit "content-length") = []
  section_fits : toMessage.headerSection.length ≤ 8192
  body_fits : body.length ≤ 8192

/-! ## Trimming -/

theorem trim_eq_self_iff {text : Bytes} :
    trim text = text ↔
      (∀ c ∈ text.head?, isspace c = false) ∧ ∀ c ∈ text.getLast?, isspace c = false := by
  have front : text.dropWhile isspace = text ↔ ∀ c ∈ text.head?, isspace c = false := by
    refine ⟨?_, dropWhile_isspace⟩
    intro kept
    cases text with
    | nil => simp
    | cons c rest =>
        rw [List.dropWhile_eq_self_iff] at kept
        simpa using kept
  have back : text.rdropWhile isspace = text ↔
      ∀ c ∈ text.getLast?, isspace c = false := by
    rw [List.rdropWhile_eq_self_iff]
    cases text using List.reverseRecOn with
    | nil => simp
    | append_singleton rest c => simp
  rw [← front, ← back]
  constructor
  · intro trimmed
    have shorter := (List.rdropWhile_prefix isspace (l := text.dropWhile isspace)).length_le
    have shortest := (List.dropWhile_suffix isspace (l := text)).length_le
    have size := congrArg List.length trimmed
    unfold trim at size trimmed
    have kept : text.dropWhile isspace = text :=
      (List.dropWhile_suffix isspace).eq_of_length (by omega)
    rw [kept] at trimmed
    exact ⟨kept, trimmed⟩
  · rintro ⟨kept, last⟩
    rw [trim, kept, last]

theorem trim_space {c : UInt8} (space : isspace c = true) (text : Bytes) :
    trim (c :: text) = trim text := by
  rw [trim, trim, List.dropWhile_cons, if_pos space]

/-- Trimming stops at an octet that is not white space. -/
theorem rdropWhile_append_cons {mark : UInt8} (solid : isspace mark = false)
    (before after : Bytes) :
    (before ++ mark :: after).rdropWhile isspace =
      before ++ mark :: after.rdropWhile isspace := by
  induction after using List.reverseRecOn with
  | nil =>
      rw [List.rdropWhile_nil]
      exact List.rdropWhile_concat_neg _ _ _ (by simp [solid])
  | append_singleton after c ih =>
      rw [← List.cons_append, ← List.append_assoc, List.rdropWhile_concat,
        List.rdropWhile_concat, ih]
      split
      · rfl
      · simp

/-! ## Header lines -/

/-- The colon of a header line is found where the client put it. -/
theorem PlainHeader.trim_line {name value : Bytes} (plain : PlainHeader (name, value))
    (after : Bytes) :
    trim (name ++ 58 :: after) = name ++ 58 :: after.rdropWhile isspace := by
  obtain ⟨c, rest, rfl⟩ := List.exists_cons_of_ne_nil plain.named
  have solid := (trim_eq_self_iff.mp plain.name_trimmed).1 c rfl
  have kept : (c :: rest ++ 58 :: after).dropWhile isspace = c :: rest ++ 58 :: after :=
    dropWhile_isspace (by simp [solid])
  rw [trim, kept]
  exact rdropWhile_append_cons (by decide) _ _

/-- The white space around the value is taken off again. -/
theorem PlainHeader.trim_value {name value : Bytes} (plain : PlainHeader (name, value)) :
    trim ((32 :: value ++ [cr]).rdropWhile isspace) = value := by
  have trimmed : trim value = value := plain.value_trimmed
  rw [List.rdropWhile_concat_pos _ _ _ (by decide)]
  cases value using List.reverseRecOn with
  | nil => decide
  | append_singleton value c =>
      have solid := (trim_eq_self_iff.mp trimmed).2 c (by simp)
      have kept : (32 :: (value ++ [c])).rdropWhile isspace = 32 :: (value ++ [c]) := by
        rw [← List.cons_append]
        exact List.rdropWhile_concat_neg _ _ _ (by simp [solid])
      rw [kept, trim_space (by decide), trimmed]

theorem PlainHeader.fields {name value rest : Bytes} {fields : List (Bytes × Bytes)}
    (plain : PlainHeader (name, value)) (tail : Fields rest fields) :
    Fields (HttpResponse.headerLine (name, value) ++ rest)
      ((lower name, value) :: fields) := by
  have oneLine : lf ∉ name ++ 58 :: (32 :: value ++ [cr]) := by
    have inName : lf ∉ name := plain.name_oneLine.2
    have inValue : lf ∉ value := plain.value_oneLine.2
    simp only [List.mem_append, List.mem_cons, List.not_mem_nil, inName, inValue]
    decide
  have cleaned := plain.trim_line (32 :: value ++ [cr])
  have text : trim (name ++ 58 :: (32 :: value ++ [cr])) ≠ [] := by
    rw [cleaned]
    simp
  have colon : cut? 58 (trim (name ++ 58 :: (32 :: value ++ [cr]))) =
      some (name, (32 :: value ++ [cr]).rdropWhile isspace) := by
    rw [cleaned]
    exact cut?_append _ plain.noColon
  have read := Fields.line oneLine text colon tail
  have nameTrimmed : trim name = name := plain.name_trimmed
  have line : HttpResponse.headerLine (name, value) ++ rest =
      name ++ 58 :: (32 :: value ++ [cr]) ++ lf :: rest := by
    have separator : lit ": " = [58, 32] := by decide
    simp [HttpResponse.headerLine, separator, crlf]
  rwa [plain.trim_value, nameTrimmed, ← line] at read

theorem fields_flatMap {headers : List (Bytes × Bytes)}
    (plain : ∀ header ∈ headers, PlainHeader header) :
    Fields (headers.flatMap HttpResponse.headerLine)
      (headers.map fun (name, value) => (lower name, value)) := by
  induction headers with
  | nil => exact .nil
  | cons header headers ih =>
      have tail := ih fun later member => plain later (List.mem_cons_of_mem _ member)
      exact (plain header List.mem_cons_self).fields tail

/-! ## The request line -/

theorem trim_append_cr {text : Bytes} (trimmed : trim text = text) (some_octet : text ≠ []) :
    trim (text ++ [cr]) = text := by
  obtain ⟨c, rest, rfl⟩ := List.exists_cons_of_ne_nil some_octet
  obtain ⟨first, last⟩ := trim_eq_self_iff.mp trimmed
  have solid := first c rfl
  have kept : (c :: rest ++ [cr]).dropWhile isspace = c :: rest ++ [cr] :=
    dropWhile_isspace (by simp [solid])
  rw [trim, kept, List.rdropWhile_concat_pos _ _ _ (by decide)]
  rw [List.rdropWhile_eq_self_iff]
  intro nonempty
  have lastSolid := last _ (List.getLast?_eq_some_getLast nonempty)
  simp [lastSolid]

/-- Path and query are what stands before and after the first `?`. -/
theorem cut?_question (target : Bytes) :
    (cut? 63 target).getD (target, []) =
      (target.takeWhile (· != 63), (target.dropWhile (· != 63)).drop 1) := by
  have others : ∀ {text : Bytes}, 63 ∉ text → ∀ c ∈ text, (c != 63) = true := by
    intro text absent c member
    rw [bne_iff_ne]
    rintro rfl
    exact absent member
  cases found : cut? 63 target with
  | none =>
      have all := others (cut?_eq_none_iff.mp found)
      rw [List.takeWhile_eq_self_iff.mpr all, List.dropWhile_eq_nil_iff.mpr all]
      rfl
  | some parts =>
      obtain ⟨path, query⟩ := parts
      obtain ⟨absent, rfl⟩ := cut?_eq_some_iff.mp found
      have all := others absent
      rw [List.takeWhile_append_of_pos all, List.dropWhile_append_of_pos all]
      simp

namespace ClientRequest

/-- What is known of the request after its first line. -/
def firstLine (r : ClientRequest) : HttpRequest :=
  { method := r.method
    target := r.target
    path := r.request.path
    query := r.request.query
    version := r.version
    keepAlive := r.version == lit "HTTP/1.1" }

theorem version_word (r : ClientRequest) : Word r.version := by
  rcases r.version_known with known | known <;> rw [known] <;> decide

theorem requestLine_eq (r : ClientRequest) :
    r.requestLine = r.method ++ 32 :: (r.target ++ 32 :: r.version) := by
  have space : lit " " = [32] := by decide
  simp [Message.requestLine, space]

theorem requestLine_trimmed (r : ClientRequest) : trim r.requestLine = r.requestLine := by
  have method := r.method_word
  have version := r.version_word
  rw [trim_eq_self_iff, requestLine_eq]
  constructor
  · intro c first
    rw [List.head?_append_of_ne_nil _ method.1] at first
    exact method.2 c (List.mem_of_mem_head? first)
  · intro c last
    rw [← List.cons_append, ← List.append_assoc, ← List.singleton_append (l := r.version),
      ← List.append_assoc, List.getLast?_append_of_ne_nil _ version.1] at last
    exact version.2 c (List.mem_of_mem_getLast? last)

theorem lf_notMem_requestLine (r : ClientRequest) : lf ∉ r.requestLine ++ [cr] := by
  have notSpace : ∀ {text : Bytes}, Word text → lf ∉ text := by
    intro text word member
    have absurdity := word.2 lf member
    cases absurdity
  have method := notSpace r.method_word
  have target := notSpace r.target_word
  have version := notSpace r.version_word
  rw [requestLine_eq]
  simp only [List.mem_append, List.mem_cons, List.not_mem_nil, method, target, version]
  decide

theorem readRequestLine_eq (r : ClientRequest) :
    readRequestLine {} (r.requestLine ++ [cr]) = .ok r.firstLine := by
  have nonempty : r.requestLine ≠ [] := by
    rw [requestLine_eq]
    simp
  have cleaned := trim_append_cr r.requestLine_trimmed nonempty
  have first : token? r.requestLine =
      some (r.method, 32 :: (r.target ++ 32 :: r.version)) := by
    rw [requestLine_eq]
    exact token?_append r.method_word (by simp; decide)
  have second : token? (32 :: (r.target ++ 32 :: r.version)) =
      some (r.target, 32 :: r.version) := by
    rw [token?_space (by decide)]
    exact token?_append r.target_word (by simp; decide)
  have third : token? (32 :: r.version) = some (r.version, []) := by
    have last := @token?_append _ [] r.version_word (by simp)
    rw [List.append_nil] at last
    rw [token?_space (by decide), last]
  have known : startsWith r.version (lit "HTTP/") = true ∧
      ¬(r.version.drop 5 ≠ lit "1.0" ∧ r.version.drop 5 ≠ lit "1.1") := by
    rcases r.version_known with known | known <;> rw [known] <;> decide
  have parts := cut?_question r.target
  unfold readRequestLine
  simp only [cleaned, if_neg nonempty, first, second, third, Option.bind_eq_bind,
    Option.bind_some, Option.pure_def, known.1, if_neg known.2]
  cases found : cut? 63 r.target with
  | none =>
      rw [found] at parts
      simp only [Option.getD_none, Prod.mk.injEq] at parts
      simp [firstLine, Message.request, ← parts.1, ← parts.2, beq_eq_decide]
  | some halves =>
      obtain ⟨path, query⟩ := halves
      rw [found] at parts
      simp only [Option.getD_some, Prod.mk.injEq] at parts
      simp [firstLine, Message.request, ← parts.1, ← parts.2, beq_eq_decide]

/-! ## The header section -/

/-- What is known of the request at the blank line. -/
def head (r : ClientRequest) : HttpRequest :=
  { r.firstLine with headers := r.request.headers }

theorem read_head (r : ClientRequest) : Head r.headerSection r.head := by
  have lines := OpenHead.mk r.lf_notMem_requestLine r.readRequestLine_eq
    (fields_flatMap r.headers_plain)
  have whole := @Head.mk _ [cr] _ lines (by decide) (by decide)
  have bytes : r.requestLine ++ [cr] ++
      lf :: r.headers.flatMap HttpResponse.headerLine ++ ([cr] ++ [lf]) =
      r.headerSection := by
    simp [Message.headerSection, crlf]
  rwa [bytes] at whole

/-- A lookup in the request finds the first of the values the client sent. -/
theorem findHeader_head (r : ClientRequest) (key : Bytes) :
    r.head.findHeader key = (r.valuesOf key).head? := by
  have first : r.head.headers.find? (·.1 == key) =
      (r.headers.find? (lower ·.1 == key)).map fun (name, value) => (lower name, value) := by
    simp only [head, Message.request, List.find?_map]
    rfl
  rw [HttpRequest.findHeader, first, Message.valuesOf, List.head?_map, List.head?_filter,
    Option.map_map]
  rfl

theorem not_isChunked (r : ClientRequest) : isChunked r.head = false := by
  rw [isChunked, findHeader_head, r.no_coding]
  rfl

theorem readContentLength_eq (r : ClientRequest) :
    readContentLength r.head 0 = .ok r.body.length := by
  rw [readContentLength_eq_ok, findHeader_head]
  by_cases empty : r.body = []
  · left
    rw [r.no_length empty, empty]
    exact ⟨rfl, rfl⟩
  · right
    obtain ⟨value, only, nonempty, digits, number⟩ := r.one_length empty
    have small := r.body_fits
    refine ⟨value, by rw [only]; rfl, ?_, small⟩
    rw [strtol_of_digits nonempty digits, number]
    congr 1
    omega

theorem readConnection_eq (r : ClientRequest) : readConnection r.head = r.keepAlive := by
  rw [readConnection, findHeader_head, Message.keepAlive]
  cases sent : r.valuesOf (lit "connection") with
  | nil => rfl
  | cons value others =>
      have member : value ∈ r.valuesOf (lit "connection") := by
        rw [sent]
        exact List.mem_cons_self
      obtain ⟨header, among, rfl⟩ := List.mem_map.mp member
      have trimmed := (r.headers_plain header (List.mem_of_mem_filter among)).value_trimmed
      simp only [List.head?_cons, trimmed]
      rfl

/-- A call on a new parser reads the request that was rendered, and leaves
what follows it. -/
theorem complete (r : ClientRequest) {buf : Buffer} {more : Bytes}
    (queue : buf.readable = r.render ++ more) :
    ∃ q rest, parse {} buf = (.complete, q, rest) ∧ rest.readable = more ∧
      q.req = r.request := by
  rw [Message.render, List.append_assoc] at queue
  obtain ⟨q, rest, called, left, req⟩ := parse_complete r.read_head r.not_isChunked
    r.readContentLength_eq queue r.section_fits
  refine ⟨q, rest, called, left, ?_⟩
  rw [req, readConnection_eq]
  rfl

end ClientRequest

end HttpParser

end MiniNet
