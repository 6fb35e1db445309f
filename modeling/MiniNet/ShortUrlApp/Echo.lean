import MiniNet.Lib.JsonGrammar
import MiniNet.ShortUrlApp.Lookup
import MiniNet.ShortUrlApp.Tokens
import MiniNet.ShortUrlApp.Visits
import MiniNet.ShortUrlService.Numbers

/-!
# The answer to an accepted request

`handleShorten` puts its answer together without escaping anything.  The
answer is a JSON object from which the url can be read back exactly if the
host and the url need no escapes, with one exception: the reader takes the
code `url` for the key.
-/

namespace MiniNet

open Bytes Json Serial ShortUrlService

namespace ShortUrlApp

/-- The answer is 201 with a JSON object of three members, and the reader gets
the url back from it. -/
structure Echoes (resp : HttpResponse) (url : Bytes) : Prop where
  status : resp.status = 201
  object : ∃ keys, IsObject keys resp.body ∧
    keys.map inside = [lit "code", lit "short", lit "url"]
  back : jsonExtractString resp.body (lit "url") = .ok url

/-! ## Reading back -/

theorem length_appendUtf8_le (cp : Nat) : (appendUtf8 [] cp).length ≤ 4 := by
  unfold appendUtf8
  split
  · simp
  · split
    · simp
    · split <;> simp

/-- Decoding makes a text with escapes shorter. -/
theorem length_standsFor (tokens : List Token) :
    (standsFor tokens).length < (spelled tokens).length ∨
      (standsFor tokens).length = (spelled tokens).length ∧ Unmarked (spelled tokens) := by
  have escaped : ∀ upper value, (92 :: 117 :: hexText upper value).length = 6 :=
    fun _ _ => rfl
  induction tokens using standsFor.induct with
  | case1 =>
      refine .inr ⟨by rw [standsFor]; rfl, ?_⟩
      exact ⟨List.not_mem_nil, List.not_mem_nil⟩
  | case2 c plain tokens ih =>
      rw [standsFor, spelled_cons, Token.text, List.length_cons, List.singleton_append,
        List.length_cons]
      rcases ih with shorter | ⟨same, unmarked⟩
      · exact .inl (Nat.succ_lt_succ shorter)
      · refine .inr ⟨congrArg Nat.succ same, ?_, ?_⟩
        · exact List.not_mem_cons_of_ne_of_not_mem plain.1.symm unmarked.1
        · exact List.not_mem_cons_of_ne_of_not_mem plain.2.symm unmarked.2
  | case3 c notUnicode tokens ih =>
      left
      rw [standsFor, spelled_cons, List.length_append, List.length_cons]
      have two : (Token.escape c notUnicode).text.length = 2 := rfl
      rcases ih with shorter | ⟨same, _⟩ <;> omega
  | case4 upper value small tokens low paired ih =>
      left
      obtain ⟨_, _, upperLow, smallLow, more, rfl⟩ := lowHalf?_eq_some paired
      have atMost := length_appendUtf8_le (0x10000 + (value - 0xD800) <<< 10 + (low - 0xDC00))
      rw [standsFor]
      simp only [paired, List.tail_cons, spelled_cons, Token.text, List.length_append,
        escaped] at ih ⊢
      rcases ih with shorter | ⟨same, _⟩ <;> omega
  | case5 upper value small tokens alone ih =>
      left
      have atMost := length_appendUtf8_le value
      rw [standsFor]
      simp only [alone, spelled_cons, Token.text, List.length_append, escaped]
      rcases ih with shorter | ⟨same, _⟩ <;> omega

/-- A text that was not escaped is read back exactly if it has no marks. -/
theorem readString_eq_self_iff {text : Bytes} :
    readString (text ++ [34, 125]) [] = .ok text ↔ Unmarked text := by
  constructor
  · intro read
    obtain ⟨tokens, rest, split, same⟩ := readString_eq_ok_iff.mp read
    rw [List.nil_append] at same
    have sizes := congrArg List.length split
    simp only [List.length_append, List.length_cons, List.length_nil] at sizes
    have shown := length_standsFor tokens
    rw [← same] at shown
    have whole : (spelled tokens).length = text.length := by
      rcases shown with shorter | ⟨equal, _⟩
      · have rest_nil : rest = [] := List.eq_nil_of_length_eq_zero (by omega)
        have last := congrArg List.getLast? split
        simp [rest_nil] at last
      · exact equal.symm
    rw [(List.append_inj split whole.symm).1]
    rcases shown with shorter | ⟨_, unmarked⟩
    · omega
    · exact unmarked
  · rintro ⟨noQuote, noEscape⟩
    rw [readString_raw _ _ noQuote noEscape, readString, List.nil_append]

/-! ## The first occurrence of the key -/

theorem after?_unmarked {text tail : Bytes} (noQuote : 34 ∉ text)
    (ended : ∀ c ∈ tail.head?, c ≠ 117) :
    after? [34, 117, 114, 108, 34] (34 :: (text ++ 34 :: tail)) =
      if text = lit "url" then some tail else after? [34, 117, 114, 108, 34] tail := by
  have escaped : (34 :: text).IsChain Escaped := by
    refine List.isChain_cons.mpr ⟨?_, isChain_of_notMem noQuote⟩
    rintro c isHead rfl
    exact absurd (List.mem_of_mem_head? isHead) noQuote
  have carries : [34, 117, 114, 108] <:+ 34 :: text ↔ text = lit "url" := by
    rw [List.suffix_cons_iff]
    constructor
    · rintro (same | inside)
      · exact (List.cons.inj same).2.symm
      · exact absurd (inside.subset List.mem_cons_self) noQuote
    · rintro rfl
      exact .inl rfl
  rw [← List.cons_append, after?_escaped escaped ended]
  simp only [carries]

/-- The search in one member without marks. -/
theorem after?_flatMember {name text tail : Bytes} (noQuoteName : 34 ∉ name)
    (noQuote : 34 ∉ text) (ended : ∀ c ∈ tail.head?, c ≠ 117) :
    after? [34, 117, 114, 108, 34] (34 :: (name ++ 34 :: 58 :: 34 :: (text ++ 34 :: tail))) =
      if name = lit "url" then some (58 :: 34 :: (text ++ 34 :: tail))
      else if text = lit "url" then some tail
      else after? [34, 117, 114, 108, 34] tail := by
  have colon : after? [34, 117, 114, 108, 34] (58 :: 34 :: (text ++ 34 :: tail)) =
      after? [34, 117, 114, 108, 34] (34 :: (text ++ 34 :: tail)) :=
    @after?_skip 34 [117, 114, 108, 34] [58] (by decide) _
  have notKey : ∀ c ∈ (58 :: 34 :: (text ++ 34 :: tail)).head?, c ≠ 117 := by
    rintro c ⟨rfl⟩
    decide
  rw [after?_unmarked noQuoteName notKey, colon, after?_unmarked noQuote ended]

/-- The short link. -/
def shortLink (host code : Bytes) : Bytes := lit "http://" ++ host ++ lit "/" ++ code

/-- The members of the answer. -/
def answerMembers (host code url : Bytes) : List (Bytes × Bytes) :=
  [(lit "code", code), (lit "short", shortLink host code), (lit "url", url)]

theorem created_body (resp : HttpResponse) (host code url : Bytes) :
    (created resp host code url).body =
      123 :: (flatText (answerMembers host code url) ++ [125]) := by
  simp only [created, HttpResponse.setJson, answerMembers, shortLink, flatText,
    List.append_assoc, List.cons_append]
  rfl

theorem printable_of_alnum {code : Bytes} (alnum : ∀ c ∈ code, isalnum c = true) :
    Printable code := by
  have plain : ∀ n < 256, isalnum (UInt8.ofNat n) = true → isPlain (UInt8.ofNat n) = true := by
    decide +kernel
  refine printable_of_all (List.all_eq_true.mpr fun c member => ?_)
  have each := plain c.toNat c.toNat_lt
  rw [UInt8.ofNat_toNat] at each
  exact each (alnum c member)

theorem unmarked_shortLink {host code : Bytes} (unmarked : Unmarked host)
    (unmarkedCode : Unmarked code) : Unmarked (shortLink host code) := by
  simp only [Unmarked, shortLink, List.mem_append, not_or]
  exact ⟨⟨⟨⟨by decide, unmarked.1⟩, by decide⟩, unmarkedCode.1⟩,
    ⟨⟨by decide, unmarked.2⟩, by decide⟩, unmarkedCode.2⟩

theorem shortLink_ne (host code : Bytes) : shortLink host code ≠ lit "url" := by
  intro same
  have first : some (104 : UInt8) = some 117 := congrArg List.head? same
  exact absurd first (by decide)

/-- The answer behind the code. -/
def answerTail (host code url : Bytes) : Bytes :=
  44 :: 34 :: (lit "short" ++ 34 :: 58 :: 34 :: (shortLink host code ++
    34 :: 44 :: 34 :: (lit "url" ++ 34 :: 58 :: 34 :: (url ++ [34, 125]))))

theorem flatText_answerMembers (host code url : Bytes) :
    flatText (answerMembers host code url) ++ [125] =
      34 :: (lit "code" ++ 34 :: 58 :: 34 :: (code ++ 34 :: answerTail host code url)) := by
  simp only [answerMembers, flatText, answerTail, List.append_assoc, List.cons_append,
    List.nil_append]

theorem after?_answerTail {host code : Bytes} (unmarked : Unmarked (shortLink host code))
    (url : Bytes) :
    after? [34, 117, 114, 108, 34] (answerTail host code url) =
      some (58 :: 34 :: (url ++ [34, 125])) := by
  have comma : ∀ rest, after? [34, 117, 114, 108, 34] (44 :: rest) =
      after? [34, 117, 114, 108, 34] rest :=
    @after?_skip 34 [117, 114, 108, 34] [44] (by decide)
  have commaEnds : ∀ rest : Bytes, ∀ c ∈ (44 :: rest).head?, c ≠ 117 := by
    rintro rest c ⟨rfl⟩
    decide
  have colonEnds : ∀ rest : Bytes, ∀ c ∈ (58 :: rest).head?, c ≠ 117 := by
    rintro rest c ⟨rfl⟩
    decide
  have notShort : lit "short" ≠ lit "url" := by decide
  rw [answerTail, comma, after?_flatMember (by decide) unmarked.1 (commaEnds _),
    if_neg notShort, if_neg (shortLink_ne host code), comma,
    after?_unmarked (by decide) (colonEnds _), if_pos rfl]

/-- Behind the code, the next colon leads to the short link. -/
theorem field_answerTail {host code : Bytes} (unmarked : Unmarked (shortLink host code))
    (key url : Bytes) : field key (answerTail host code url) = .ok (shortLink host code) := by
  have front : answerTail host code url =
      (44 :: 34 :: (lit "short" ++ [34])) ++ 58 :: 34 :: (shortLink host code ++
        34 :: 44 :: 34 :: (lit "url" ++ 34 :: 58 :: 34 :: (url ++ [34, 125]))) := by
    simp only [answerTail, List.cons_append, List.append_assoc, List.nil_append]
  rw [front, field_skip _ _ (by decide), field_colon key rfl,
    readString_raw _ _ unmarked.1 unmarked.2, readString, List.nil_append]

/-- What the reader finds in the answer: the short link if the code is the
key, else the text behind the key. -/
theorem jsonExtractString_created {host code : Bytes} (unmarked : Unmarked host)
    (alnum : ∀ c ∈ code, isalnum c = true) (resp : HttpResponse) (url : Bytes) :
    jsonExtractString (created resp host code url).body (lit "url") =
      if code = lit "url" then .ok (shortLink host code)
      else readString (url ++ [34, 125]) [] := by
  have unmarkedCode := (printable_of_alnum alnum).unmarked
  have unmarkedLink := unmarked_shortLink unmarked unmarkedCode
  have ended : ∀ c ∈ (answerTail host code url).head?, c ≠ 117 := by
    rintro c ⟨rfl⟩
    decide
  have notCode : lit "code" ≠ lit "url" := by decide
  have found : after? [34, 117, 114, 108, 34]
      (123 :: (flatText (answerMembers host code url) ++ [125])) =
        if code = lit "url" then some (answerTail host code url)
        else some (58 :: 34 :: (url ++ [34, 125])) := by
    have brace := @after?_skip 34 [117, 114, 108, 34] [123] (by decide)
      (flatText (answerMembers host code url) ++ [125])
    rw [List.singleton_append] at brace
    rw [brace, flatText_answerMembers, after?_flatMember (by decide) unmarkedCode.1 ended,
      if_neg notCode, after?_answerTail unmarkedLink]
  rw [created_body]
  by_cases isKey : code = lit "url"
  · rw [if_pos isKey] at found ⊢
    rw [jsonExtractString_after found, field_answerTail unmarkedLink]
  · rw [if_neg isKey] at found ⊢
    rw [jsonExtractString_after found, field_colon _ rfl]

/-! ## The whole answer -/

theorem printable_shortLink_iff {host code : Bytes} (alnum : ∀ c ∈ code, isalnum c = true) :
    Printable (shortLink host code) ↔ Printable host := by
  have split : shortLink host code = lit "http:/" ++ 47 :: (host ++ 47 :: code) := by
    simp only [shortLink, List.append_assoc]
    rfl
  constructor
  · intro printable
    rw [split] at printable
    obtain ⟨_, behind⟩ := printable.cut (by decide)
    exact (behind.cut (by decide)).1
  · intro printable
    have scheme : Printable (lit "http://") := printable_of_all (by decide)
    have slash : Printable (lit "/") := printable_of_all (by decide)
    exact ((scheme.append printable).append slash).append (printable_of_alnum alnum)

/-- For a url without marks, the answer is an object exactly if the host and
the url are printable. -/
theorem isObject_created_iff {host code url : Bytes} (unmarked : Unmarked host)
    (alnum : ∀ c ∈ code, isalnum c = true) (unmarkedUrl : Unmarked url)
    (resp : HttpResponse) :
    (∃ keys, IsObject keys (created resp host code url).body ∧
        keys.map inside = [lit "code", lit "short", lit "url"]) ↔
      Printable host ∧ Printable url := by
  have unmarkedCode := (printable_of_alnum alnum).unmarked
  have unmarkedLink := unmarked_shortLink unmarked unmarkedCode
  have members : ∀ m ∈ answerMembers host code url, Unmarked m.1 ∧ Unmarked m.2 := by
    simp only [answerMembers, List.forall_mem_cons, List.not_mem_nil, false_implies,
      implies_true, and_true]
    exact ⟨⟨by decide, unmarkedCode⟩, ⟨by decide, unmarkedLink⟩, by decide, unmarkedUrl⟩
  have names : Printable (lit "code") ∧ Printable (lit "short") ∧ Printable (lit "url") :=
    ⟨printable_of_all (by decide), printable_of_all (by decide), printable_of_all (by decide)⟩
  rw [created_body]
  refine (isObject_flatText_iff members).trans ?_
  simp only [List.forall_mem_cons, List.not_mem_nil, false_implies, implies_true, and_true,
    names, printable_of_alnum alnum, printable_shortLink_iff alnum, true_and]

/-- The answer echoes the url exactly if nothing in it needs escapes and the
code is not the key, or else the url is the short link itself. -/
theorem echoes_created_iff {host code : Bytes} (unmarked : Unmarked host)
    (alnum : ∀ c ∈ code, isalnum c = true) (resp : HttpResponse) (url : Bytes) :
    Echoes (created resp host code url) url ↔
      Printable host ∧ Printable url ∧ (code = lit "url" → url = shortLink host code) := by
  have unmarkedLink := unmarked_shortLink unmarked (printable_of_alnum alnum).unmarked
  have back := jsonExtractString_created unmarked alnum resp url
  constructor
  · rintro ⟨_, object, read⟩
    rw [back] at read
    by_cases isKey : code = lit "url"
    · rw [if_pos isKey] at read
      have same := Except.ok.inj read
      have unmarkedUrl : Unmarked url := same ▸ unmarkedLink
      obtain ⟨printableHost, printable⟩ :=
        (isObject_created_iff unmarked alnum unmarkedUrl resp).mp object
      exact ⟨printableHost, printable, fun _ => same.symm⟩
    · rw [if_neg isKey] at read
      have unmarkedUrl := readString_eq_self_iff.mp read
      obtain ⟨printableHost, printable⟩ :=
        (isObject_created_iff unmarked alnum unmarkedUrl resp).mp object
      exact ⟨printableHost, printable, fun same => absurd same isKey⟩
  · rintro ⟨printableHost, printable, ifKey⟩
    refine ⟨rfl, ?_, ?_⟩
    · exact (isObject_created_iff unmarked alnum printable.unmarked resp).mpr
        ⟨printableHost, printable⟩
    · rw [back]
      by_cases isKey : code = lit "url"
      · rw [if_pos isKey, ← ifKey isKey]
      · rw [if_neg isKey, readString_eq_self_iff]
        exact printable.unmarked

/-! ## Every accepted request -/

theorem enumerated_run {host : Bytes} {visits : List Visit} {app : ShortUrlApp}
    {trace : List (Visit × HttpResponse)}
    (ran : Machine.run visit { host } visits = some (app, trace)) :
    Enumerated (accepted visits) app.service := by
  rw [← Machine.map_fst_run ran]
  have kept : Holds host trace app ∧
      Enumerated (accepted (trace.map Prod.fst)) app.service := by
    refine Machine.run_induct (motive := fun past app => Holds host past app ∧
      Enumerated (accepted (past.map Prod.fst)) app.service) ?_
      ⟨holds_empty host, enumerated_empty⟩ ran
    rintro past m v next resp ⟨holds, enumerated⟩ answered
    refine ⟨holds.visit answered, ?_⟩
    rw [List.map_append, List.map_singleton, accepted_concat]
    cases visit_visited answered with
    | link asked shortened =>
        rw [asked]
        exact enumerated.shorten holds.1 shortened
    | @redirect code entry service asked found =>
        have after := enumerated.lookup holds.1 code
        rw [found] at after
        rw [asked]
        simpa using after
    | plain asked _ =>
        rw [asked]
        simpa using enumerated
  exact kept.2

/-- The one number whose code is the key. -/
theorem base62_eq_url_iff {n : Nat} (inRange : n ≤ 2 ^ 64) :
    base62 (UInt64.ofNat n) = lit "url" ↔ n = 2 ^ 64 - 17572 := by
  constructor
  · intro same
    have values := congrArg codeValue same
    rw [codeValue_base62, UInt64.toNat_add, UInt64.toNat_ofNat',
      show codeValue (lit "url") = 82428 by decide,
      show UInt64.toNat 100000 = 100000 from rfl] at values
    omega
  · rintro rfl
    decide +kernel

/-- An accepted request is answered, and its url echoed, exactly if the host
and the url need no escapes and the url is among the first `2 ^ 64`, and not
the one whose code is the key. -/
theorem echoes_iff {host url : Bytes} {visits : List Visit} {app : ShortUrlApp}
    {trace : List (Visit × HttpResponse)} {v : Visit}
    (ran : Machine.run visit { host } visits = some (app, trace))
    (unmarked : Unmarked host) (asked : acceptedUrl v.req = some url) :
    (∃ later resp, visit app v = some (later, resp) ∧ Echoes resp url) ↔
      Printable host ∧ Printable url ∧ serial (accepted visits) url ≤ 2 ^ 64 ∧
        (serial (accepted visits) url = 2 ^ 64 - 17572 →
          url = shortLink host (lit "url")) := by
  obtain ⟨consistent, rfl⟩ := consistent_run ran
  have enumerated := enumerated_run ran
  have returns := enumerated.exists_shorten_iff consistent url v.env.now
  have echoed : ∀ service code, app.service.shorten url v.env.now = some (service, code) →
      (Echoes (created { keepAlive := v.keepAlive } app.host code url) url ↔
        Printable app.host ∧ Printable url ∧
          (serial (accepted visits) url = 2 ^ 64 - 17572 →
            url = shortLink app.host (lit "url"))) := by
    intro service code shortened
    have inRange := returns.mp ⟨service, code, shortened⟩
    have made := (enumerated.shorten consistent shortened).code url code
      (Extends.shorten shortened).2
    rw [serial_concat_self] at made
    have alnum : ∀ c ∈ code, isalnum c = true := by
      intro c member
      rw [made] at member
      exact isalnum_of_mem_digits member
    rw [echoes_created_iff unmarked alnum, ← base62_eq_url_iff inRange, ← made]
    refine and_congr_right fun _ => and_congr_right fun _ => ?_
    refine forall_congr' fun isKey => ?_
    rw [isKey]
  rw [visit_accepted app asked]
  constructor
  · rintro ⟨later, resp, answered, echoes⟩
    obtain ⟨⟨service, code⟩, shortened, same⟩ := Option.map_eq_some_iff.mp answered
    cases same
    obtain ⟨printableHost, printable, notKey⟩ := (echoed _ _ shortened).mp echoes
    exact ⟨printableHost, printable, returns.mp ⟨_, _, shortened⟩, notKey⟩
  · rintro ⟨printableHost, printable, inRange, notKey⟩
    obtain ⟨service, code, shortened⟩ := returns.mpr inRange
    rw [shortened]
    exact ⟨_, _, rfl, (echoed _ _ shortened).mpr ⟨printableHost, printable, notKey⟩⟩

/-- The request to shorten what this text between quotes stands for. -/
def shortenVisit (text : Bytes) : Visit :=
  { req := {
      method := lit "POST"
      path := lit "/api/shorten"
      body := lit "\x7b\"url\":\"" ++ text ++ lit "\"\x7d" } }

theorem echoes_iff_ascii :
    ∃ later resp, visit { host := lit "h" } (shortenVisit (lit "http://a/?b#c")) =
      some (later, resp) ∧ Echoes resp (lit "http://a/?b#c") := by
  have ran : Machine.run visit { host := lit "h" } [] = some ({ host := lit "h" }, []) := rfl
  have asked : acceptedUrl (shortenVisit (lit "http://a/?b#c")).req =
      some (lit "http://a/?b#c") := by
    decide +kernel
  have printableHost : Printable (lit "h") := printable_of_all (by decide)
  have printable : Printable (lit "http://a/?b#c") := printable_of_all (by decide)
  exact (echoes_iff ran printableHost.unmarked asked).mpr
    ⟨printableHost, printable, by decide, fun last => absurd last (by decide)⟩

/-- A url with a quote is read back only up to the quote. -/
theorem quote_not_echoed :
    ¬∀ (host url : Bytes) (visits : List Visit) (app : ShortUrlApp)
      (trace : List (Visit × HttpResponse)) (v : Visit),
      Machine.run visit { host } visits = some (app, trace) → Unmarked host →
        acceptedUrl v.req = some url →
        ∃ later resp, visit app v = some (later, resp) ∧ Echoes resp url := by
  intro echoed
  have asked : acceptedUrl (shortenVisit (lit "http://a\\\"b")).req =
      some (lit "http://a\"b") := by
    decide +kernel
  obtain ⟨later, resp, answered, echoes⟩ := echoed (lit "h") _ []
    { host := lit "h" } [] _ rfl (by decide) asked
  have cutShort : ((visit { host := lit "h" } (shortenVisit (lit "http://a\\\"b"))).map
      fun answer => jsonExtractString answer.2.body (lit "url")) =
        some (.ok (lit "http://a")) := by
    decide +kernel
  rw [answered, Option.map_some, echoes.back] at cutShort
  exact absurd (Except.ok.inj (Option.some.inj cutShort)) (by decide)

end ShortUrlApp

end MiniNet
