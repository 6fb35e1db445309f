import MiniNet.HttpParser

/-!
# The errors of the parser

Whatever the bytes are, the error that `parse` reports is one of a fixed list.
-/

namespace MiniNet

open Bytes

namespace HttpParser

/-- All errors that `parse` reports. -/
def errors : List Error :=
  [requestLineTooLarge, headersTooLarge, badRequest "请求行为空",
    badRequest "请求行格式非法（应为 METHOD TARGET VERSION）", badRequest "缺少 HTTP 版本",
    { status := 505
      code := lit "unsupported_version"
      detail := lit "只支持 HTTP/1.0 与 HTTP/1.1" },
    badRequest "请求头缺少冒号",
    { status := 501
      code := lit "unsupported_transfer_encoding"
      detail := lit "v1 暂不支持 chunked 请求体" },
    badRequest "Content-Length 非法",
    { status := 413
      code := lit "payload_too_large"
      detail := lit "请求体超过 8 KiB" }]

/-- If the call reports an error, it is one of the list. -/
def Result.Known (result : Result) : Prop := ∀ err, result = .error err → err ∈ errors

@[simp]
theorem Result.known_error {err : Error} : Result.Known (.error err) ↔ err ∈ errors :=
  ⟨fun known => known err rfl, fun member err' same => by cases same; exact member⟩

@[simp]
theorem Result.known_complete : Result.complete.Known := fun _ same => by cases same

@[simp]
theorem Result.known_needMore : Result.needMore.Known := fun _ same => by cases same

/-! ## Complete lines -/

theorem mem_errors_of_readRequestLine {req : HttpRequest} {line : Bytes} {err : Error}
    (failed : readRequestLine req line = .error err) : err ∈ errors := by
  unfold readRequestLine at failed
  dsimp only at failed
  split at failed
  · cases failed
    simp [errors]
  · split at failed
    · cases failed
      simp [errors]
    · split at failed
      · cases failed
        simp [errors]
      · split at failed
        · cases failed
          simp [errors]
        · split at failed <;> cases failed

theorem mem_errors_of_readHeaderLine {req : HttpRequest} {line : Bytes} {err : Error}
    (failed : readHeaderLine req line = .error err) : err ∈ errors := by
  unfold readHeaderLine at failed
  split at failed <;> cases failed
  simp [errors]

theorem mem_errors_of_readContentLength {req : HttpRequest} {current : Nat} {err : Error}
    (failed : readContentLength req current = .error err) : err ∈ errors := by
  unfold readContentLength at failed
  split at failed
  · cases failed
  · split at failed
    · cases failed
      simp [errors]
    · split at failed
      · cases failed
        simp [errors]
      · split at failed <;> cases failed
        simp [errors]

theorem mem_errors_of_finishHeaders {p : HttpParser} {err : Error}
    (failed : finishHeaders p = .error err) : err ∈ errors := by
  unfold finishHeaders at failed
  split at failed
  · cases failed
    simp [errors]
  · split at failed
    · rename_i wrong
      cases failed
      exact mem_errors_of_readContentLength wrong
    · cases failed

/-! ## The stages -/

theorem known_parseRequestLine (p : HttpParser) (buf : Buffer) :
    (parseRequestLine p buf).1.Known := by
  unfold parseRequestLine
  split
  · dsimp only
    split
    · simp [errors]
    · exact Result.known_needMore
  · dsimp only
    split
    · rename_i wrong
      exact Result.known_error.mpr (mem_errors_of_readRequestLine wrong)
    · exact Result.known_complete

theorem known_parseHeaders (p : HttpParser) (buf : Buffer) :
    (parseHeaders p buf).1.Known := by
  induction p, buf using parseHeaders.induct with
  | case1 p buf absent p' large =>
      rw [parseHeaders_of_none absent]
      dsimp only
      rw [if_pos large]
      simp [errors]
  | case2 p buf absent p' fits =>
      rw [parseHeaders_of_none absent]
      dsimp only
      rw [if_neg fits]
      exact Result.known_needMore
  | case3 p buf eol located raw p' large =>
      rw [parseHeaders_of_some located]
      dsimp only
      rw [if_pos large]
      simp [errors]
  | case4 p buf eol located raw p' fits empty err failed =>
      rw [parseHeaders_of_some located]
      dsimp only
      rw [if_neg fits, if_pos empty, failed]
      exact Result.known_error.mpr (mem_errors_of_finishHeaders failed)
  | case5 p buf eol located raw p' fits empty q finished =>
      rw [parseHeaders_of_some located]
      dsimp only
      rw [if_neg fits, if_pos empty, finished]
      exact Result.known_complete
  | case6 p buf eol located raw p' fits text err failed =>
      rw [parseHeaders_of_some located]
      dsimp only
      rw [if_neg fits, if_neg text, failed]
      exact Result.known_error.mpr (mem_errors_of_readHeaderLine failed)
  | case7 p buf eol located raw rest p' fits text req read ih =>
      rw [parseHeaders_of_some located]
      dsimp only
      rw [if_neg fits, if_neg text, read]
      exact ih

theorem known_parseBody (p : HttpParser) (buf : Buffer) : (parseBody p buf).1.Known := by
  unfold parseBody
  split
  · exact Result.known_needMore
  · exact Result.known_complete

private theorem known_andThen {outcome : Result × HttpParser × Buffer}
    {next : HttpParser → Buffer → Result × HttpParser × Buffer} (first : outcome.1.Known)
    (later : ∀ p rest, (next p rest).1.Known) : (andThen outcome next).1.Known := by
  obtain ⟨result, p, rest⟩ := outcome
  cases result with
  | complete => exact later p rest
  | needMore => exact first
  | error err => exact first

theorem known_parse (p : HttpParser) (buf : Buffer) : (parse p buf).1.Known := by
  unfold parse
  induction p, buf using parseLoop.induct with
  | case1 p buf stage ih =>
      rw [parseLoop_requestLine _ _ _ _ stage]
      exact known_andThen (known_parseRequestLine p buf) ih
  | case2 p buf stage ihDone ihBody =>
      rw [parseLoop_headers _ _ _ _ stage]
      apply known_andThen (known_parseHeaders p buf)
      intro q rest
      split
      · exact ihDone q rest
      · exact ihBody q rest
  | case3 p buf stage ih =>
      rw [parseLoop_body _ _ _ _ stage]
      exact known_andThen (known_parseBody p buf) ih
  | case4 p buf stage =>
      rw [parseLoop_done _ _ _ _ stage]
      exact Result.known_complete

end HttpParser

end MiniNet
