import MiniNet.Lib.JsonGrammar
import MiniNet.ShortUrlApp.Tokens
import MiniNet.ShortUrlApp.Visits

/-!
# Malformed bodies

Which request bodies are refused, compared with the grammar of JSON.  The
reader looks at the braces at both ends and at one string; a body that passes
these checks is accepted whatever else it contains.
-/

namespace MiniNet

open Bytes Json

namespace ShortUrlApp

/-- The body is a JSON object. -/
def WellFormed (body : Bytes) : Prop := ∃ keys, IsObject keys body

/-- Where the reader looks for the url, there are tokens that stand for a
valid one. -/
def Acceptable (body : Bytes) : Prop :=
  ∃ tokens, Placed body (lit "url") tokens ∧ validUrl (standsFor tokens) = .ok ()

/-- Whatever is stored, a request to shorten with this body is answered with
400 and the error `invalid_url`, and nothing changes. -/
def Refused (body : Bytes) : Prop :=
  ∀ (app : ShortUrlApp) (v : Visit), v.req.path = lit "/api/shorten" →
    v.req.method = lit "POST" → v.req.body = body →
    ∃ detail, visit app v =
      some (app, badRequest { keepAlive := v.keepAlive } (lit "invalid_url") detail)

/-- A body is refused exactly if it is not acceptable. -/
theorem refused_iff {body : Bytes} : Refused body ↔ ¬Acceptable body := by
  constructor
  · rintro refused ⟨tokens, placed, valid⟩
    obtain ⟨detail, answered⟩ := refused { host := [] }
      { req := { method := lit "POST", path := lit "/api/shorten", body } } rfl rfl rfl
    have decoded := jsonExtractString_eq_ok_iff.mpr ⟨tokens, placed, rfl⟩
    rw [visit_shorten _ rfl rfl, handleShorten] at answered
    simp only [decoded, valid, Option.map_eq_some_iff] at answered
    obtain ⟨_, _, same⟩ := answered
    have status : (201 : Int) = 400 := congrArg (·.2.status) same
    exact absurd status (by decide)
  · intro notAcceptable app v path post same
    rw [visit_shorten app path post, handleShorten, same]
    cases decoded : jsonExtractString body (lit "url") with
    | error err => exact ⟨err, rfl⟩
    | ok url =>
        obtain ⟨tokens, placed, rfl⟩ := jsonExtractString_eq_ok_iff.mp decoded
        cases valid : validUrl (standsFor tokens) with
        | error err => exact ⟨err, by simp only [valid]⟩
        | ok _ => exact absurd ⟨tokens, placed, valid⟩ notAcceptable

/-- A malformed body is refused exactly if it is not acceptable to the reader:
if it lacks a brace at one end, the quoted key, the colon, the string behind
it or its closing quote, has an escape `\u` without four digits, or stands
for no valid url. -/
theorem malformed_refused_iff {body : Bytes} :
    (¬WellFormed body → Refused body) ↔ WellFormed body ∨ ¬Acceptable body := by
  rw [refused_iff, ← or_iff_not_imp_left]

/-! ## A malformed body that is accepted -/

/-- Nothing but white space stands between the opening brace and the first
key or the closing brace. -/
theorem second_octet {keys : List (List Piece)} {c : UInt8} {rest : Bytes}
    (object : IsObject keys (123 :: c :: rest)) : isSpace c = true ∨ c = 34 ∨ c = 125 := by
  have head : ∀ {space : Space} {mark : UInt8} {more : Bytes},
      c :: rest = space.text ++ mark :: more → isSpace c = true ∨ c = mark := by
    intro space mark more same
    cases front : space.text with
    | nil =>
        rw [front] at same
        exact .inr (List.cons.inj same).1
    | cons first later =>
        rw [front] at same
        rw [(List.cons.inj same).1]
        exact .inl (space.white first (front ▸ List.mem_cons_self))
  generalize whole : 123 :: c :: rest = text at object
  cases object with
  | empty before space after =>
      obtain ⟨_, opened⟩ := Space.nil_of_append (by decide) whole.symm
      exact (head (List.cons.inj opened).2.symm).imp_right .inr
  | members before after inner =>
      obtain ⟨_, opened⟩ := Space.nil_of_append (by decide) whole.symm
      have behind := (List.cons.inj opened).2.symm
      cases inner with
      | last beforeKey afterKey beforeValue afterValue key value =>
          rw [List.append_assoc] at behind
          exact (head behind).imp_right .inl
      | more beforeKey afterKey beforeValue afterValue key value others =>
          rw [List.append_assoc] at behind
          exact (head behind).imp_right .inl

/-- A body with a stray letter behind its opening brace. -/
def strayBody : Bytes := lit "\x7bx\"url\":\"http://a\"\x7d"

theorem strayBody_acceptable : ¬WellFormed strayBody ∧ Acceptable strayBody := by
  constructor
  · rintro ⟨keys, object⟩
    have second := second_octet object
    exact absurd second (by decide)
  · have decoded : jsonExtractString strayBody (lit "url") = .ok (lit "http://a") := by
      decide +kernel
    obtain ⟨tokens, placed, same⟩ := jsonExtractString_eq_ok_iff.mp decoded
    exact ⟨tokens, placed, same ▸ by decide⟩

/-- It is shortened although it is no JSON object. -/
theorem malformed_not_refused : ¬∀ body, ¬WellFormed body → Refused body := by
  intro refused
  obtain ⟨malformed, acceptable⟩ := strayBody_acceptable
  exact refused_iff.mp (refused strayBody malformed) acceptable

end ShortUrlApp

end MiniNet
