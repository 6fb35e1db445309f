import MiniNet.HttpServer.Segmentation
import MiniNet.HttpParser.Sections

/-!
# What an open connection keeps

Between two messages an open connection keeps the unread bytes and what the
parser has read of the current request.  Both are bounded, for every handler
and every stream of chunks.
-/

namespace MiniNet

open Bytes

namespace HttpServer

/-- The connection stands in the middle of a request, within the limits. -/
def Retains (p : HttpParser) (buf : Buffer) : Prop :=
  buf.readable.length ≤ 8192 ∧ ∃ seen, HttpParser.Progress seen p ∧ seen.length ≤ 8192

theorem retains_new : Retains {} (Buffer.create 1024) := by
  refine ⟨by simp, [], HttpParser.progress_fresh, by simp⟩

section

variable {σ : Type} {handler : Option (Handler σ)}

/-- A loop that leaves the connection open has stopped for want of bytes. -/
theorem Serves.retains {state last : σ} {p q : HttpParser} {buf rest : Buffer}
    {calls : List Call} {shut : Bool} {seen : Bytes}
    (serves : Serves handler HttpParser.parse state p buf calls last q rest shut)
    (progress : HttpParser.Progress seen p) (open_ : shut = false) : Retains q rest := by
  induction serves generalizing seen with
  | @needMore state p q buf rest waiting =>
      have continues := progress.parse buf
      rw [waiting] at continues
      obtain ⟨taken, _, later, _, _, header, unread⟩ := continues
      exact ⟨unread, seen ++ taken, later, header⟩
  | error failed => cases open_
  | close finished answered closing => cases open_
  | next finished answered staying tail ih => exact ih HttpParser.progress_fresh open_

theorem onMessage_retains {session : Session σ} (data : Bytes)
    (retains : session.shut = false → Retains session.conn.parser session.conn.inBuf)
    (open_ : (onMessage handler session data).shut = false) :
    Retains (onMessage handler session data).conn.parser
      (onMessage handler session data).conn.inBuf := by
  unfold onMessage at open_ ⊢
  by_cases shut : session.shut = true
  · rw [if_pos shut] at open_ ⊢
    exact retains open_
  · rw [if_neg shut] at open_ ⊢
    obtain ⟨_, seen, progress, _⟩ := retains (Bool.not_eq_true _ ▸ shut)
    exact (serve_serves handler session.state
      { session.conn with inBuf := session.conn.inBuf.append data }).retains progress open_

/-- However the bytes arrive and whatever the handler does, an open connection
keeps at most 8192 unread bytes, and at most 8192 bytes of a header section
behind them. -/
theorem receive_retains (handler : Option (Handler σ)) (state : σ) (chunks : List Bytes)
    (open_ : (receive handler state chunks).shut = false) :
    Retains (receive handler state chunks).conn.parser
      (receive handler state chunks).conn.inBuf := by
  unfold receive at open_ ⊢
  induction chunks using List.reverseRecOn with
  | nil => exact retains_new
  | append_singleton chunks chunk ih =>
      rw [List.foldl_append] at open_ ⊢
      exact onMessage_retains chunk ih open_

end

end HttpServer

end MiniNet
