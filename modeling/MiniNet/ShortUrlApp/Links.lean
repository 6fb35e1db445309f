import MiniNet.ShortUrlApp.Json
import MiniNet.ShortUrlApp.Visits

/-!
# Which links resolve

A link is issued when a POST to `/api/shorten` is answered with 201, and it
resolves when a GET of its code redirects to the url.  The code of a url is
made from the url's serial number, so the condition for a link to resolve is
one on that number: the code must be short enough for the router, and it must
not be the name of one of the two pages that the router serves first.
-/

namespace MiniNet

open Bytes Serial ShortUrlService

namespace ShortUrlApp

/-- The code leads to the url, and its statistics can be read. -/
structure Resolves (app : ShortUrlApp) (code url : Bytes) : Prop where
  redirects : ∀ v, v.req.method = lit "GET" → v.req.path = lit "/" ++ code →
    ∃ later resp, visit app v = some (later, resp) ∧ resp.status = 302 ∧
      resp.extraHeaders.filter (·.1 = lit "Location") = [(lit "Location", url)]
  counts : ∀ v, v.req.method = lit "GET" → v.req.path = statsPrefix ++ code →
    ∃ later resp, visit app v = some (later, resp) ∧ resp.status = 200

/-- The number from which a code is made gives one that the router accepts
and does not take for a page of its own. -/
def Routable (n : Nat) : Prop :=
  n < 62 ^ 8 ∧ n ≠ codeValue (lit "healthz") ∧ n ≠ codeValue (lit "metrics")

/-! ## Routing of codes -/

private theorem slash_notMem {code : Bytes} (alnum : ∀ c ∈ code, isalnum c = true) :
    47 ∉ code := by
  intro member
  exact absurd (alnum 47 member) (by decide)

private theorem afterSlash (code page : Bytes)
    (same : lit "/" ++ code = lit "/" ++ page) : code = page :=
  List.append_cancel_left same

theorem visit_code {code : Bytes} (app : ShortUrlApp) {v : Visit}
    (alnum : ∀ c ∈ code, isalnum c = true) (nonempty : code ≠ [])
    (notHealth : code ≠ lit "healthz") (notMetrics : code ≠ lit "metrics")
    (get : v.req.method = lit "GET") (path : v.req.path = lit "/" ++ code) :
    visit app v = some (handleRedirect app code { keepAlive := v.keepAlive }) := by
  have health : lit "/" ++ code ≠ lit "/healthz" :=
    fun same => notHealth (afterSlash code (lit "healthz") same)
  have metrics : lit "/" ++ code ≠ lit "/metrics" :=
    fun same => notMetrics (afterSlash code (lit "metrics") same)
  have shorten : lit "/" ++ code ≠ lit "/api/shorten" := by
    intro same
    have tail := afterSlash code (lit "api/shorten") same
    exact slash_notMem alnum (tail ▸ by decide)
  have stats : startsWith (lit "/" ++ code) statsPrefix = false := by
    rw [← Bool.not_eq_true]
    intro starts
    obtain ⟨rest, same⟩ := List.isPrefixOf_iff_prefix.mp starts
    have tail := afterSlash (lit "api/stats/" ++ rest) code same
    exact slash_notMem alnum (tail ▸ List.mem_append_left rest (by decide))
  have route : (lit "/" ++ code).head? = some 47 ∧ (lit "/" ++ code).length > 1 := by
    refine ⟨rfl, ?_⟩
    have positive := List.length_pos_iff.mpr nonempty
    simp only [List.length_append]
    exact Nat.lt_add_of_pos_right positive
  rw [visit, handle, path, get, if_neg health, if_neg metrics, if_neg shorten,
    stats, if_neg Bool.false_ne_true, if_pos route, if_neg (not_not.mpr rfl)]
  rfl

theorem visit_stats (code : Bytes) (app : ShortUrlApp) {v : Visit}
    (get : v.req.method = lit "GET") (path : v.req.path = statsPrefix ++ code) :
    visit app v =
      some (app, handleStats app code { keepAlive := v.keepAlive }) := by
  have differs : ∀ page, (statsPrefix ++ code).take 8 ≠ page.take 8 →
      statsPrefix ++ code ≠ page := fun page front same => front (same ▸ rfl)
  have front : (statsPrefix ++ code).take 8 = lit "/api/sta" := rfl
  have health : statsPrefix ++ code ≠ lit "/healthz" :=
    differs _ (front ▸ by decide)
  have metrics : statsPrefix ++ code ≠ lit "/metrics" :=
    differs _ (front ▸ by decide)
  have shorten : statsPrefix ++ code ≠ lit "/api/shorten" :=
    differs _ (front ▸ by decide)
  have stats : startsWith (statsPrefix ++ code) statsPrefix = true :=
    List.isPrefixOf_iff_prefix.mpr ⟨code, rfl⟩
  rw [visit, handle, path, get, if_neg health, if_neg metrics, if_neg shorten,
    if_pos stats, if_neg (not_not.mpr rfl), List.drop_left]

private theorem digits_healthz : digits (codeValue (lit "healthz")) = lit "healthz" := by
  decide +kernel

private theorem digits_metrics : digits (codeValue (lit "metrics")) = lit "metrics" := by
  decide +kernel

private theorem digits_ne {n : Nat} {page : Bytes} (other : n ≠ codeValue page) :
    digits n ≠ page := by
  intro same
  exact other (by rw [← same, codeValue_digits])

private theorem digits_page {n : Nat} {page : Bytes} (same : n = codeValue page)
    (made : digits (codeValue page) = page) {app later : ShortUrlApp} {v : Visit}
    {resp : HttpResponse} (get : v.req.method = lit "GET")
    (path : v.req.path = lit "/" ++ digits n)
    (served : page = lit "healthz" ∨ page = lit "metrics")
    (answered : visit app v = some (later, resp)) : resp.status = 200 := by
  rw [same, made] at path
  rcases served with rfl | rfl
  · have route : v.req.path = lit "/healthz" := path
    rw [visit, handle, if_pos route, get, if_neg (not_not.mpr rfl)] at answered
    cases answered
    rfl
  · have route : v.req.path = lit "/metrics" := path
    have notHealth : lit "/metrics" ≠ lit "/healthz" := by decide
    rw [visit, handle, route, if_neg notHealth, if_pos rfl, get,
      if_neg (not_not.mpr rfl)] at answered
    cases answered
    rfl

theorem handleRedirect_invalid {code : Bytes} (invalid : validCode code = false)
    (app : ShortUrlApp) (resp : HttpResponse) :
    (handleRedirect app code resp).2.status = 400 := by
  rw [handleRedirect, invalid]
  rfl

theorem handleRedirect_stored {app : ShortUrlApp} {code : Bytes} {entry : Entry}
    (valid : validCode code = true)
    (stored : app.service.byCode.lookup code = some entry) (resp : HttpResponse) :
    (handleRedirect app code resp).2 = redirect resp entry.url := by
  rw [handleRedirect, valid]
  simp only [Bool.not_true, Bool.false_eq_true, if_false, ShortUrlService.lookup,
    stored]

theorem handleStats_stored {app : ShortUrlApp} {code : Bytes} {entry : Entry}
    (valid : validCode code = true)
    (stored : app.service.byCode.lookup code = some entry) (resp : HttpResponse) :
    (handleStats app code resp).status = resp.status := by
  rw [handleStats, valid, ShortUrlService.stats, stored]
  rfl

/-- A stored code resolves exactly when its number is routable. -/
theorem resolves_iff {app : ShortUrlApp} {n : Nat} {entry : Entry}
    (stored : app.service.byCode.lookup (digits n) = some entry) :
    Resolves app (digits n) entry.url ↔ Routable n := by
  have alnum : ∀ c ∈ digits n, isalnum c = true := fun c => isalnum_of_mem_digits
  have nonempty : digits n ≠ [] := by
    rw [digits]
    exact List.cons_ne_nil _ _
  constructor
  · intro resolves
    let get : Visit := { req := { method := lit "GET", path := lit "/" ++ digits n } }
    obtain ⟨later, resp, answered, status, _⟩ := resolves.redirects get rfl rfl
    have notPage : ∀ page, page = lit "healthz" ∨ page = lit "metrics" →
        digits (codeValue page) = page → n ≠ codeValue page := by
      intro page served made same
      have ok := digits_page same made rfl rfl served answered
      rw [ok] at status
      cases status
    have notHealth := notPage _ (.inl rfl) digits_healthz
    have notMetrics := notPage _ (.inr rfl) digits_metrics
    refine ⟨?_, notHealth, notMetrics⟩
    rw [← validCode_digits]
    by_contra invalid
    have routed := visit_code app alnum nonempty (digits_ne notHealth)
      (digits_ne notMetrics) (v := get) rfl rfl
    have refused := handleRedirect_invalid (Bool.eq_false_iff.mpr invalid) app
      { keepAlive := get.keepAlive }
    rw [← Option.some.inj (answered.symm.trans routed), status] at refused
    cases refused
  · rintro ⟨small, notHealth, notMetrics⟩
    have valid := (validCode_digits n).mpr small
    constructor
    · intro v get path
      have routed := visit_code app alnum nonempty (digits_ne notHealth)
        (digits_ne notMetrics) get path
      have shown := handleRedirect_stored valid stored { keepAlive := v.keepAlive }
      exact ⟨_, redirect { keepAlive := v.keepAlive } entry.url,
        by rw [routed, ← shown], rfl, rfl⟩
    · intro v get path
      refine ⟨_, _, visit_stats _ app get path, ?_⟩
      exact handleStats_stored valid stored _

/-! ## Issued links -/

/-- The answer to an accepted request determines the code. -/
theorem created_body_injective {resp resp' : HttpResponse}
    {host code code' url : Bytes}
    (same : (created resp host code url).body = (created resp' host code' url).body) :
    code = code' := by
  simp only [created, HttpResponse.setJson, List.append_assoc] at same
  have tails := List.append_cancel_left same
  have sizes := congrArg List.length tails
  simp only [List.length_append] at sizes
  exact (List.append_inj tails (by omega)).1

/-- The code that is told is stored, and it is made from the serial number of
the url. -/
theorem issued_code {visits : List Visit} {app later : ShortUrlApp} {v : Visit}
    {resp : HttpResponse} {url code : Bytes}
    (consistent : Consistent (accepted visits) app.service)
    (few : app.service.size < 62 ^ 8 - 100000)
    (decoded : jsonExtractString v.req.body (lit "url") = .ok url)
    (answered : visit app v = some (later, resp)) (status : resp.status = 201)
    (told : resp.body = (created {} app.host code url).body) :
    Consistent (accepted (visits ++ [v])) later.service ∧
      later.service.byUrl.lookup url = some code ∧
      code = digits (serial (accepted visits) url + 100000) := by
  obtain ⟨after, _, _⟩ := consistent_visit consistent answered
  cases visit_visited answered with
  | redirect _ _ => cases status
  | plain _ plain =>
      have otherwise := plain.status
      rw [status] at otherwise
      simp at otherwise
  | @link asked issued service accepts shortened =>
      have sameUrl : asked = url := by
        unfold acceptedUrl at accepts
        split at accepts
        · rw [decoded] at accepts
          dsimp only at accepts
          split at accepts <;> cases accepts
          rfl
        · cases accepts
      subst sameUrl
      obtain rfl := created_body_injective told
      obtain ⟨_, stored⟩ := Extends.shorten shortened
      have known : accepted (visits ++ [v]) = accepted visits ++ [asked] := by
        rw [accepted_concat, accepts]
        rfl
      have member : asked ∈ accepted (visits ++ [v]) := by simp [known]
      have atMost : service.size ≤ app.service.size + 1 := by
        rw [after.size, consistent.size, known, List.toFinset_append]
        exact Finset.card_union_le _ _
      have number : serial (accepted visits) asked ≤ service.size := by
        have inRange := serial_le_card member
        rwa [← after.size, known, serial_concat_self] at inRange
      have made := (after.numbered (by dsimp only; omega)).code asked issued stored
      rw [known, serial_concat_self, base62_ofNat (by omega)] at made
      exact ⟨after, stored, made⟩

/-- A link that is issued after some visits, while the codes are not used up,
resolves after whatever follows exactly when the serial number of its url
gives a routable code. -/
theorem issued_resolves_iff {host url code : Bytes} {visits : List Visit}
    {app later : ShortUrlApp} {trace : List (Visit × HttpResponse)} {v : Visit}
    {resp : HttpResponse}
    (ran : Machine.run visit { host } visits = some (app, trace))
    (few : app.service.size < 62 ^ 8 - 100000)
    (decoded : jsonExtractString v.req.body (lit "url") = .ok url)
    (answered : visit app v = some (later, resp)) (status : resp.status = 201)
    (told : resp.body = (created {} host code url).body) :
    (∀ more t trace, Machine.run visit later more = some (t, trace) →
        Resolves t code url) ↔
      Routable (serial (accepted visits) url + 100000) := by
  obtain ⟨consistent, sameHost⟩ := consistent_run ran
  obtain ⟨after, stored, made⟩ :=
    issued_code consistent few decoded answered status (sameHost ▸ told)
  subst made
  constructor
  · intro resolves
    obtain ⟨entry, found, rfl⟩ := (after.inverse _ _).mp stored
    exact (resolves_iff found).mp (resolves [] later [] rfl)
  · intro routable more t trace ranMore
    have grown := run_visit_extends after ranMore
    obtain ⟨entry, found, rfl⟩ := (after.inverse _ _).mp stored
    obtain ⟨still, foundStill, sameUrl, _⟩ := grown.byCode _ _ found
    exact sameUrl ▸ (resolves_iff foundStill).mpr routable

/-! ## Two links -/

/-- A family of different urls. -/
def linkUrl (i : Nat) : Bytes := lit "http://" ++ digits i

/-- The request to shorten one of them. -/
def linkVisit (i : Nat) : Visit :=
  { req := {
      method := lit "POST"
      path := lit "/api/shorten"
      body := lit "\x7b\"url\":\"" ++ linkUrl i ++ lit "\"\x7d" } }

theorem linkUrl_injective : Function.Injective linkUrl := by
  intro i j same
  rw [← codeValue_digits i, List.append_cancel_left same, codeValue_digits]

theorem jsonExtractString_url {url : Bytes} (noQuote : 34 ∉ url)
    (noEscape : 92 ∉ url) :
    jsonExtractString (lit "\x7b\"url\":\"" ++ url ++ lit "\"\x7d") (lit "url") =
      .ok url := by
  have braces : lit "\x7b\"url\":\"" ++ url ++ lit "\"\x7d" =
      123 :: (lit "\"url\":\"" ++ url ++ [34] ++ [125]) := by
    simp only [List.append_assoc]
    rfl
  have found : after? (34 :: (lit "url" ++ [34]))
      (123 :: (lit "\"url\":\"" ++ url ++ [34] ++ [125])) =
        some (58 :: 34 :: (url ++ 34 :: [125])) := by
    simp only [List.append_assoc]
    rfl
  rw [braces, jsonExtractString_after found]
  calc
    field (lit "url") (58 :: 34 :: (url ++ 34 :: [125])) =
        readString (url ++ 34 :: [125]) [] := rfl
    _ = readString (34 :: [125]) ([] ++ url) := readString_raw _ [] noQuote noEscape
    _ = .ok url := by rw [readString, List.nil_append]

theorem acceptedUrl_linkVisit {i : Nat} (small : i < 62 ^ 11) :
    jsonExtractString (linkVisit i).req.body (lit "url") = .ok (linkUrl i) ∧
      acceptedUrl (linkVisit i).req = some (linkUrl i) := by
  have noMark : ∀ mark, mark ∉ lit "http://" → isalnum mark = false →
      mark ∉ linkUrl i := by
    intro mark notScheme notAlnum member
    rcases List.mem_append.mp member with scheme | code
    · exact notScheme scheme
    · rw [isalnum_of_mem_digits code] at notAlnum
      cases notAlnum
  have decoded := jsonExtractString_url (noMark 34 (by decide) (by decide))
    (noMark 92 (by decide) (by decide))
  have short : (linkUrl i).length ≤ 2048 := by
    have size := (length_digits_le_iff i 10).mpr small
    rw [linkUrl, List.length_append]
    exact Nat.add_le_add (show (lit "http://").length ≤ 7 by decide) size |>.trans
      (by decide)
  have valid : validUrl (linkUrl i) = .ok () := by
    have nonempty : linkUrl i ≠ [] := nofun
    have scheme : startsWith (linkUrl i) (lit "http://") = true :=
      List.isPrefixOf_iff_prefix.mpr ⟨digits i, rfl⟩
    rw [validUrl, if_neg nonempty, if_neg (Nat.not_lt.mpr short), scheme]
    rfl
  refine ⟨decoded, ?_⟩
  rw [acceptedUrl, if_pos ⟨rfl, rfl⟩]
  simp only [linkVisit, decoded, valid]
  rfl

theorem issued_resolves_iff_first :
    ∃ later resp, visit { host := lit "h" } (linkVisit 0) = some (later, resp) ∧
      ∀ more t trace, Machine.run visit later more = some (t, trace) →
        Resolves t (lit "V0q") (linkUrl 0) := by
  have shown : (visit { host := lit "h" } (linkVisit 0)).map Prod.snd =
      some (created {} (lit "h") (lit "V0q") (linkUrl 0)) := by decide +kernel
  obtain ⟨⟨later, resp⟩, answered, rfl⟩ := Option.map_eq_some_iff.mp shown
  have routable : Routable (serial (accepted []) (linkUrl 0) + 100000) :=
    ⟨by decide, by decide, by decide⟩
  have ran : Machine.run visit { host := lit "h" } [] =
      some ({ host := lit "h" }, []) := rfl
  exact ⟨later, _, answered, (issued_resolves_iff ran (by decide)
    (acceptedUrl_linkVisit (by decide)).1 answered rfl rfl).mpr routable⟩

private theorem accepted_links {n : Nat} (small : n ≤ 62 ^ 11) :
    accepted ((List.range n).map linkVisit) = (List.range n).map linkUrl := by
  have each : ∀ i ∈ List.range n,
      acceptedUrl (linkVisit i).req = some (linkUrl i) := fun i inside =>
    (acceptedUrl_linkVisit (lt_of_lt_of_le (List.mem_range.mp inside) small)).2
  rw [accepted, List.filterMap_map, ← List.filterMap_eq_map]
  exact List.filterMap_congr each

private theorem serial_links (n : Nat) :
    serial ((List.range n).map linkUrl) (linkUrl n) = n + 1 := by
  have absent : linkUrl n ∉ (List.range n).map linkUrl := by
    rw [List.mem_map_of_injective linkUrl_injective]
    exact List.not_mem_range_self
  rw [← serial_concat_self, serial_append_self absent,
    List.toFinset_card_of_nodup (List.nodup_range.map linkUrl_injective),
    List.length_map, List.length_range]

/-- After enough different urls, the code of the next one is `healthz`. -/
private theorem link_not_resolved {n : Nat}
    (number : n + 100001 = codeValue (lit "healthz")) :
    ∃ app trace later resp,
      Machine.run visit { host := lit "h" } ((List.range n).map linkVisit) =
          some (app, trace) ∧
        app.service.size < 62 ^ 8 - 100000 ∧
        visit app (linkVisit n) = some (later, resp) ∧ resp.status = 201 ∧
        resp.body = (created {} (lit "h") (lit "healthz") (linkUrl n)).body ∧
        ¬Resolves later (lit "healthz") (linkUrl n) := by
  have bound : codeValue (lit "healthz") < 62 ^ 8 := by decide
  have steps : ((List.range n).map linkVisit).length = n := by
    rw [List.length_map, List.length_range]
  obtain ⟨app, trace, ran⟩ := run_visit_total (lit "h")
    ((List.range n).map linkVisit) (by rw [steps]; omega)
  obtain ⟨consistent, sameHost⟩ := consistent_run ran
  have few : app.service.size < 62 ^ 8 - 100000 := by
    have atMost : app.service.size ≤ n := by
      rw [consistent.size, accepted_links (by omega)]
      refine (List.toFinset_card_le _).trans_eq ?_
      rw [List.length_map, List.length_range]
    omega
  obtain ⟨later, resp, answered⟩ := exists_visit consistent (by omega) (linkVisit n)
  obtain ⟨decoded, accepts⟩ := acceptedUrl_linkVisit (show n < 62 ^ 11 by omega)
  refine ⟨app, trace, later, resp, ran, few, answered, ?_⟩
  cases visit_visited answered with
  | redirect asked _ =>
      rw [accepts] at asked
      cases asked
  | plain asked _ =>
      rw [accepts] at asked
      cases asked
  | @link url code service asked shortened =>
      cases accepts.symm.trans asked
      obtain ⟨after, stored, made⟩ :=
        issued_code consistent few decoded answered rfl rfl
      rw [accepted_links (by omega), serial_links, Nat.add_right_comm,
        Nat.add_assoc, number] at made
      obtain ⟨entry, found, sameUrl⟩ := (after.inverse _ _).mp stored
      refine ⟨rfl, ?_, ?_⟩
      · rw [made, digits_healthz, sameHost]
        rfl
      · intro resolves
        rw [made] at found
        rw [← sameUrl, ← digits_healthz] at resolves
        exact ((resolves_iff found).mp resolves).2.1 rfl

/-- The link for the url after 2004015961540 others is `healthz`, and a GET of
it shows the health page. -/
theorem healthz_link_not_resolved :
    ∃ app trace later resp,
      Machine.run visit { host := lit "h" }
          ((List.range 2004015961540).map linkVisit) = some (app, trace) ∧
        app.service.size < 62 ^ 8 - 100000 ∧
        visit app (linkVisit 2004015961540) = some (later, resp) ∧
        resp.status = 201 ∧
        resp.body =
          (created {} (lit "h") (lit "healthz") (linkUrl 2004015961540)).body ∧
        ¬Resolves later (lit "healthz") (linkUrl 2004015961540) :=
  link_not_resolved (by decide)

end ShortUrlApp

end MiniNet
