import MiniNet.ShortUrlApp.Links

/-!
# The statistics of a code

The statistics page formats its answer into an array of 512 characters, with
the url as a C string.  The answer is complete for the codes the router
accepts, as long as the text fits in the array and the url has no zero octet.
-/

namespace MiniNet

open Bytes ShortUrlService

namespace ShortUrlApp

/-- The text that shows an entry. -/
def statsText (code : Bytes) (entry : Entry) : Bytes :=
  lit "\x7b\"code\":\"" ++ code ++ lit "\",\"url\":\"" ++ entry.url ++
    lit "\",\"hits\":" ++ decimal entry.hits.toNat ++ lit ",\"created_at\":" ++
    decimalInt entry.createdAt ++ lit "\x7d"

/-- Every request for the statistics of the code is answered with the whole
text. -/
def StatsComplete (app : ShortUrlApp) (code : Bytes) (entry : Entry) : Prop :=
  ∀ v, v.req.method = lit "GET" → v.req.path = statsPrefix ++ code →
    ∃ later resp, visit app v = some (later, resp) ∧ resp.status = 200 ∧
      resp.body = statsText code entry

/-- The router accepts the code, the url has no zero octet, and the text with
its closing zero has at most 512 characters, of which 42 are the same for
every entry. -/
structure StatsFit (code : Bytes) (entry : Entry) : Prop where
  short : code.length ≤ 8
  noZero : 0 ∉ entry.url
  inside : code.length + entry.url.length + (decimal entry.hits.toNat).length +
    (decimalInt entry.createdAt).length + 42 < 512

/-! ## The formatted text -/

theorem cStr_eq_iff {text : Bytes} : cStr text = text ↔ 0 ∉ text := by
  rw [cStr, List.takeWhile_eq_self_iff]
  constructor
  · intro nonzero member
    exact absurd (nonzero 0 member) (by decide)
  · intro absent c member
    have nonzero : c ≠ 0 := fun same => absent (same ▸ member)
    simpa using nonzero

theorem length_cStr_le (text : Bytes) : (cStr text).length ≤ text.length :=
  (List.takeWhile_prefix _).length_le

theorem length_statsText (code : Bytes) (entry : Entry) :
    (statsText code entry).length =
      code.length + entry.url.length + (decimal entry.hits.toNat).length +
        (decimalInt entry.createdAt).length + 42 := by
  have sizes : (lit "\x7b\"code\":\"").length = 9 ∧ (lit "\",\"url\":\"").length = 9 ∧
      (lit "\",\"hits\":").length = 9 ∧ (lit ",\"created_at\":").length = 14 ∧
      (lit "\x7d").length = 1 := by
    decide
  simp only [statsText, List.length_append, sizes]
  omega

/-- Nothing is cut off exactly if the text fits in the array and the url is
a C string. -/
theorem snprintf_statsText_iff {code : Bytes} {entry : Entry} :
    snprintf 512 (statsText code { entry with url := cStr entry.url }) =
        statsText code entry ↔
      0 ∉ entry.url ∧ (statsText code entry).length < 512 := by
  rw [← cStr_eq_iff]
  constructor
  · intro whole
    have sizes := congrArg List.length whole
    have shorter := length_cStr_le entry.url
    rw [snprintf, List.length_take, length_statsText, length_statsText] at sizes
    rw [length_statsText]
    have same : (cStr entry.url).length = entry.url.length := by
      dsimp only at sizes
      omega
    refine ⟨(List.takeWhile_prefix _).eq_of_length same, ?_⟩
    dsimp only at sizes
    omega
  · rintro ⟨noZero, inside⟩
    rw [noZero]
    exact List.take_of_length_le (Nat.le_pred_of_lt inside)

theorem handleStats_eq {app : ShortUrlApp} {code : Bytes} {entry : Entry}
    (valid : validCode code = true) (noZero : 0 ∉ code)
    (stored : app.service.byCode.lookup code = some entry) (resp : HttpResponse) :
    handleStats app code resp =
      resp.setJson
        (snprintf 512 (statsText code { entry with url := cStr entry.url })) := by
  rw [handleStats, valid, ShortUrlService.stats, stored]
  simp only [statsText, cStr_eq_iff.mpr noZero]
  rfl

theorem handleStats_invalid {app : ShortUrlApp} {code : Bytes}
    (invalid : validCode code = false) (resp : HttpResponse) :
    (handleStats app code resp).status = 400 := by
  rw [handleStats, invalid]
  rfl

/-- The text shows its number of hits only once. -/
theorem hits_of_statsText {code code' : Bytes} {entry entry' : Entry}
    (same : statsText code entry = statsText code' entry') : entry.hits = entry'.hits := by
  have label : lit ",\"created_at\":" = lit ",\"created_at\"" ++ [58] := by decide
  have hits : lit "\",\"hits\":" = lit "\",\"hits\"" ++ [58] := by decide
  have digits (value : Nat) : 58 ∉ decimal value := fun member =>
    absurd (isdigit_of_mem_decimal member) (by decide)
  have after (value : Int) : 58 ∉ decimalInt value ++ lit "\x7d" := by
    have brace : 58 ∉ lit "\x7d" := by decide
    unfold decimalInt
    split <;> simp [digits, brace]
  have split (code : Bytes) (entry : Entry) : statsText code entry =
      ((lit "\x7b\"code\":\"" ++ code ++ lit "\",\"url\":\"" ++ entry.url ++ lit "\",\"hits\"" ++
        58 :: decimal entry.hits.toNat) ++ lit ",\"created_at\"") ++
          58 :: (decimalInt entry.createdAt ++ lit "\x7d") := by
    rw [statsText, label, hits]
    simp only [List.append_assoc, List.cons_append, List.nil_append]
  rw [split, split] at same
  have front := (append_cons_inj_of_notMem (after _) (after _) same).1
  have number := (append_cons_inj_of_notMem (digits _) (digits _)
    (List.append_cancel_right front)).2
  have value := congrArg decimalValue number
  rw [decimalValue_decimal, decimalValue_decimal] at value
  exact UInt64.toNat_inj.mp value

/-! ## Stored codes -/

/-- Every code under which something is stored was made from a number. -/
def Coded (s : ShortUrlService) : Prop := ∀ code ∈ s.byCode, ∃ n, code = digits n

theorem Coded.visit {app later : ShortUrlApp} {v : Visit} {resp : HttpResponse}
    (coded : Coded app.service) (answered : app.visit v = some (later, resp)) :
    Coded later.service := by
  cases visit_visited answered with
  | plain _ _ => exact coded
  | link _ shortened =>
      obtain ⟨_, rfl⟩ | ⟨_, _, counter, made, _, rfl⟩ := shorten_cases shortened
      · exact coded
      · intro code member
        rcases (AList.mem_insert _).mp member with rfl | old
        · exact ⟨_, made⟩
        · exact coded code old
  | @redirect code entry service _ found =>
      unfold ShortUrlService.lookup at found
      split at found
      · cases found
      · rename_i stored
        cases found
        intro other member
        rcases (AList.mem_insert _).mp member with rfl | old
        · exact coded _ (AList.lookup_isSome.mp (by rw [stored]; rfl))
        · exact coded other old

theorem coded_run {host : Bytes} {visits : List Visit} {app : ShortUrlApp}
    {trace : List (Visit × HttpResponse)}
    (ran : Machine.run visit { host } visits = some (app, trace)) :
    Coded app.service :=
  Machine.run_induct (motive := fun _ app => Coded app.service)
    (fun _ _ _ _ _ coded answered => coded.visit answered)
    (fun _ member => by cases member) ran

theorem validCode_digits_iff_length (n : Nat) :
    validCode (digits n) = true ↔ (digits n).length ≤ 8 := by
  rw [validCode_digits, length_digits_le_iff n 7]
  rfl

/-- A stored code is one for the router unless it is too long. -/
theorem Coded.valid_iff {s : ShortUrlService} (coded : Coded s) {code : Bytes}
    (stored : code ∈ s.byCode) : validCode code = true ↔ code.length ≤ 8 := by
  obtain ⟨n, rfl⟩ := coded code stored
  exact validCode_digits_iff_length n

/-! ## Complete answers -/

theorem statsComplete_digits_iff {app : ShortUrlApp} {n : Nat} {entry : Entry}
    (stored : app.service.byCode.lookup (digits n) = some entry) :
    StatsComplete app (digits n) entry ↔ StatsFit (digits n) entry := by
  have noZero : 0 ∉ digits n := fun member =>
    absurd (isalnum_of_mem_digits member) (by decide)
  have accepts := validCode_digits_iff_length n
  constructor
  · intro complete
    obtain ⟨later, resp, answered, status, body⟩ := complete
      { req := { method := lit "GET", path := statsPrefix ++ digits n } } rfl rfl
    rw [visit_stats _ app rfl rfl] at answered
    obtain ⟨rfl, rfl⟩ := Prod.mk.inj (Option.some.inj answered)
    have valid : validCode (digits n) = true := by
      by_contra invalid
      rw [handleStats_invalid (Bool.eq_false_iff.mpr invalid)] at status
      cases status
    rw [handleStats_eq valid noZero stored] at body
    obtain ⟨urlNoZero, inside⟩ := snprintf_statsText_iff.mp body
    rw [length_statsText] at inside
    exact ⟨accepts.mp valid, urlNoZero, inside⟩
  · rintro ⟨short, urlNoZero, inside⟩ v get path
    rw [← length_statsText] at inside
    refine ⟨app, _, visit_stats _ app get path, ?_, ?_⟩
    · rw [handleStats_eq (accepts.mpr short) noZero stored]
      rfl
    · rw [handleStats_eq (accepts.mpr short) noZero stored]
      exact snprintf_statsText_iff.mpr ⟨urlNoZero, inside⟩

/-- After any sequence of visits, the statistics of a stored code are shown
completely exactly if its code has at most eight characters, its url no zero
octet and the text room in the array. -/
theorem statsComplete_iff {host code : Bytes} {visits : List Visit}
    {app : ShortUrlApp} {trace : List (Visit × HttpResponse)} {entry : Entry}
    (ran : Machine.run visit { host } visits = some (app, trace))
    (stored : app.service.byCode.lookup code = some entry) :
    StatsComplete app code entry ↔ StatsFit code entry := by
  obtain ⟨n, rfl⟩ := coded_run ran code
    (AList.lookup_isSome.mp (by rw [stored]; rfl))
  exact statsComplete_digits_iff stored

/-- One link, stored at a given time and then followed twice. -/
def followed (url : Bytes) : List Visit :=
  [{ req := {
        method := lit "POST"
        path := lit "/api/shorten"
        body := lit "\x7b\"url\":\"" ++ url ++ lit "\"\x7d" }
     env := { now := 1700000000 } },
   { req := { method := lit "GET", path := lit "/V0q" } },
   { req := { method := lit "GET", path := lit "/V0q" } }]

theorem statsComplete_iff_followed :
    ∃ app trace entry,
      Machine.run visit { host := lit "h" } (followed (lit "http://a")) =
          some (app, trace) ∧
        app.service.byCode.lookup (lit "V0q") = some entry ∧ entry.hits = 2 ∧
        StatsComplete app (lit "V0q") entry := by
  let entry : Entry :=
    { url := lit "http://a", hits := 2, createdAt := 1700000000 }
  have shown : (Machine.run visit { host := lit "h" } (followed (lit "http://a"))).any
      (fun last => last.1.service.byCode.lookup (lit "V0q") = some entry) = true := by
    decide +kernel
  obtain ⟨⟨app, trace⟩, ran, found⟩ := (Option.any_eq_true _ _).mp shown
  have stored := of_decide_eq_true found
  have fit : StatsFit (lit "V0q") entry :=
    ⟨by decide, by decide, by decide +kernel⟩
  exact ⟨app, trace, entry, ran, stored, rfl, (statsComplete_iff ran stored).mpr fit⟩

/-- A url of 500 octets is stored, and its statistics are cut off. -/
theorem not_statsComplete_long :
    ∃ app trace entry,
      Machine.run visit { host := lit "h" }
          (followed (lit "http://" ++ List.replicate 493 97)) = some (app, trace) ∧
        app.service.byCode.lookup (lit "V0q") = some entry ∧
        validUrl entry.url = .ok () ∧ ¬StatsComplete app (lit "V0q") entry := by
  let entry : Entry :=
    { url := lit "http://" ++ List.replicate 493 97
      hits := 2
      createdAt := 1700000000 }
  have shown : (Machine.run visit { host := lit "h" }
      (followed (lit "http://" ++ List.replicate 493 97))).any
      (fun last => last.1.service.byCode.lookup (lit "V0q") = some entry) = true := by
    decide +kernel
  obtain ⟨⟨app, trace⟩, ran, found⟩ := (Option.any_eq_true _ _).mp shown
  have stored := of_decide_eq_true found
  have made : lit "V0q" = digits 100001 := by decide +kernel
  refine ⟨app, trace, entry, ran, stored, by decide +kernel, ?_⟩
  intro complete
  rw [made] at stored complete
  have inside := ((statsComplete_digits_iff stored).mp complete).inside
  exact absurd inside (by decide +kernel)

end ShortUrlApp

end MiniNet
