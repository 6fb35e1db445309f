import MiniNet.ShortUrlApp.Visits

/-!
# What a request changes in the store

The status of the response tells what the request has done to the store: a
redirect has counted one hit, a new link has been counted and, for a url that
was not known, stored, and every other response has changed nothing.
-/

namespace MiniNet

open Bytes ShortUrlService

namespace ShortUrlApp

/-! ## The two ways of changing the store -/

/-- One hit of a stored code is counted, and nothing else is changed. -/
structure Followed (code : Bytes) (s t : ShortUrlService) : Prop where
  byCode : ∃ entry, s.byCode.lookup code = some entry ∧
    ∀ c, t.byCode.lookup c =
      if c = code then some { entry with hits := entry.hits + 1 }
      else s.byCode.lookup c
  byUrl : t.byUrl = s.byUrl
  counter : t.counter = s.counter
  shortenTotal : t.shortenTotal = s.shortenTotal
  redirectTotal : t.redirectTotal = s.redirectTotal + 1

/-- A url that is already stored is counted, and nothing else is changed. -/
structure Reissued (url : Bytes) (s t : ShortUrlService) : Prop where
  known : url ∈ s.byUrl
  byCode : t.byCode = s.byCode
  byUrl : t.byUrl = s.byUrl
  counter : t.counter = s.counter
  shortenTotal : t.shortenTotal = s.shortenTotal + 1
  redirectTotal : t.redirectTotal = s.redirectTotal

/-- A new url is counted and stored without hits under a new code, which is
made from the counter, and nothing else is changed. -/
structure Issued (url code : Bytes) (now : Int) (s t : ShortUrlService) : Prop where
  newUrl : url ∉ s.byUrl
  newCode : code ∉ s.byCode
  byCode : ∀ c, t.byCode.lookup c =
    if c = code then some { url, hits := 0, createdAt := now } else s.byCode.lookup c
  byUrl : ∀ u, t.byUrl.lookup u = if u = url then some code else s.byUrl.lookup u
  counter : code = base62 t.counter
  shortenTotal : t.shortenTotal = s.shortenTotal + 1
  redirectTotal : t.redirectTotal = s.redirectTotal

private theorem lookup_insert_eq_ite {β : Type} (table : AList fun _ : Bytes => β)
    (key : Bytes) (value : β) (c : Bytes) :
    (table.insert key value).lookup c =
      if c = key then some value else table.lookup c := by
  split
  · rename_i same
    subst c
    exact AList.lookup_insert table
  · rename_i different
    exact AList.lookup_insert_ne different

theorem followed_of_lookup {s t : ShortUrlService} {code : Bytes} {entry : Entry}
    (found : s.lookup code = (t, some entry)) : Followed code s t := by
  unfold ShortUrlService.lookup at found
  split at found
  · cases found
  · rename_i stored present
    cases found
    exact
      { byCode := ⟨stored, present, lookup_insert_eq_ite _ _ _⟩
        byUrl := rfl
        counter := rfl
        shortenTotal := rfl
        redirectTotal := rfl }

theorem issued_of_shorten {s t : ShortUrlService} {url code : Bytes} {now : Int}
    (shortened : s.shorten url now = some (t, code)) :
    Reissued url s t ∨ Issued url code now s t := by
  obtain ⟨known, rfl⟩ | ⟨unknown, unused, counter, made, _, rfl⟩ :=
    shorten_cases shortened
  · left
    exact
      { known := AList.lookup_isSome.mp (by rw [known]; rfl)
        byCode := rfl
        byUrl := rfl
        counter := rfl
        shortenTotal := rfl
        redirectTotal := rfl }
  · right
    exact
      { newUrl := AList.lookup_eq_none.mp unknown
        newCode := unused
        byCode := lookup_insert_eq_ite _ _ _
        byUrl := lookup_insert_eq_ite _ _ _
        counter := made
        shortenTotal := rfl
        redirectTotal := rfl }

/-! ## Every request -/

private theorem status_handleStats (app : ShortUrlApp) (code : Bytes)
    (keepAlive : Bool) : (handleStats app code { keepAlive }).status ≠ 302 := by
  unfold handleStats
  split
  · exact (by decide : (400 : Int) ≠ 302)
  · split
    · exact (by decide : (404 : Int) ≠ 302)
    · exact (by decide : (200 : Int) ≠ 302)

private theorem status_handleShorten {app later : ShortUrlApp} {env : Env}
    {req : HttpRequest} {keepAlive : Bool} {resp : HttpResponse}
    (answered : handleShorten app env req { keepAlive } = some (later, resp)) :
    resp.status ≠ 302 := by
  unfold handleShorten at answered
  split at answered
  · cases answered
    exact (by decide : (400 : Int) ≠ 302)
  · split at answered
    · cases answered
      exact (by decide : (400 : Int) ≠ 302)
    · obtain ⟨_, _, same⟩ := Option.map_eq_some_iff.mp answered
      cases same
      exact (by decide : (201 : Int) ≠ 302)

/-- A redirect comes from the route of the codes. -/
private theorem handleRedirect_of_status {app later : ShortUrlApp} {v : Visit}
    {resp : HttpResponse} (answered : visit app v = some (later, resp))
    (status : resp.status = 302) :
    v.req.path.head? = some 47 ∧
      handleRedirect app (v.req.path.drop 1) { keepAlive := v.keepAlive } =
        (later, resp) := by
  have notAllowed : (405 : Int) ≠ 302 := by decide
  have fine : (200 : Int) ≠ 302 := by decide
  unfold visit handle at answered
  split at answered
  · split at answered <;> cases answered
    · exact absurd status notAllowed
    · exact absurd status fine
  · split at answered
    · split at answered <;> cases answered
      · exact absurd status notAllowed
      · exact absurd status fine
    · split at answered
      · split at answered
        · cases answered
          exact absurd status notAllowed
        · exact absurd status (status_handleShorten answered)
      · split at answered
        · split at answered <;> cases answered
          · exact absurd status notAllowed
          · exact absurd status (status_handleStats app _ v.keepAlive)
        · split at answered
          · rename_i route
            split at answered
            · cases answered
              exact absurd status notAllowed
            · exact ⟨route.1, Option.some.inj answered⟩
          · cases answered
            exact absurd status (by decide : (404 : Int) ≠ 302)

/-- What a request does to the store can be told from its response.  A
response other than 201 and 302 has left the store as it was; a 302 for a
code has counted one hit of it; and a 201 has counted a url, which was known
or has been stored under a new code. -/
theorem visit_frame {app later : ShortUrlApp} {v : Visit} {resp : HttpResponse}
    (answered : visit app v = some (later, resp)) :
    (resp.status ≠ 201 → resp.status ≠ 302 → later.service = app.service) ∧
      (resp.status = 302 → ∃ code, v.req.path = 47 :: code ∧
        Followed code app.service later.service) ∧
      (resp.status = 201 → ∃ url code, acceptedUrl v.req = some url ∧
        (Reissued url app.service later.service ∨
          Issued url code v.env.now app.service later.service)) := by
  refine ⟨?_, ?_, ?_⟩
  · intro notCreated notFound
    cases visit_visited answered with
    | link asked shortened => exact absurd rfl notCreated
    | redirect asked found => exact absurd rfl notFound
    | plain asked plain => rfl
  · intro status
    obtain ⟨slash, handled⟩ := handleRedirect_of_status answered status
    obtain ⟨code, path⟩ : ∃ code, v.req.path = 47 :: code := by
      cases path : v.req.path with
      | nil => simp [path] at slash
      | cons c code =>
          rw [path, List.head?_cons, Option.some.injEq] at slash
          exact ⟨code, by rw [slash]⟩
    refine ⟨code, path, ?_⟩
    rw [path, List.drop_one, List.tail_cons] at handled
    unfold handleRedirect at handled
    split at handled
    · cases handled
      exact absurd status (by decide : (400 : Int) ≠ 302)
    · split at handled
      · cases handled
        exact absurd status (by decide : (404 : Int) ≠ 302)
      · rename_i service entry found
        cases handled
        exact followed_of_lookup found
  · intro status
    cases visit_visited answered with
    | link asked shortened => exact ⟨_, _, asked, issued_of_shorten shortened⟩
    | redirect asked found => exact absurd status (by decide : (302 : Int) ≠ 201)
    | plain asked plain =>
        have other := plain.status
        omega

/-- A new link for `http://a`. -/
def postLink : Visit :=
  { req :=
      { method := lit "POST"
        path := lit "/api/shorten"
        body := lit "\x7b\"url\":\"http://a\"\x7d" } }

theorem visit_frame_postLink :
    ∃ later resp, visit { host := lit "h" } postLink = some (later, resp) ∧
      resp.status = 201 ∧
      ∃ url code, acceptedUrl postLink.req = some url ∧
        (Reissued url {} later.service ∨
          Issued url code postLink.env.now {} later.service) := by
  have created : (visit { host := lit "h" } postLink).any
      (fun answer => answer.2.status == 201) = true := by decide +kernel
  obtain ⟨⟨later, resp⟩, answered, status⟩ := (Option.any_eq_true _ _).mp created
  have created : resp.status = 201 := by simpa using status
  exact ⟨later, resp, answered, created, (visit_frame answered).2.2 created⟩

/-- The counter is changed too when a url is stored. -/
theorem postLink_counter :
    ∃ later resp, visit { host := lit "h" } postLink = some (later, resp) ∧
      resp.status = 201 ∧
      later.service.counter ≠ ({ host := lit "h" } : ShortUrlApp).service.counter := by
  have counted : (visit { host := lit "h" } postLink).any
      (fun answer => answer.2.status == 201 && answer.1.service.counter != 0) = true := by
    decide +kernel
  obtain ⟨⟨later, resp⟩, answered, both⟩ := (Option.any_eq_true _ _).mp counted
  rw [Bool.and_eq_true, beq_iff_eq, bne_iff_ne] at both
  exact ⟨later, resp, answered, both⟩

end ShortUrlApp

end MiniNet
