import MiniNet.Lib.Bytes

/-!
# The benchmark client

The receiving side of `echo_bench` in HTTP mode.  Bytes that arrive are
appended to `in`, and `drainHttp` takes complete responses off its front:
`in_off` says how much of `in` has been consumed.  What `drainHttp` makes of
the bytes is recorded as the calls of `onResponseComplete` and `failConn`.

The clock is a parameter, read once for every call of `nowNs`.
-/

namespace MiniNet

open Bytes

namespace Bench

def kMaxHeaderBytes : Nat := 64 * 1024

def kMaxLatencySamples : Nat := 4000000

def toLower (text : Bytes) : Bytes := text.map tolower

def trim (text : Bytes) : Bytes :=
  (text.dropWhile fun c => c == 32 || c == 9).rdropWhile fun c =>
    c == 32 || c == 9 || c == 13

/-- `std::string::find` from a position on. -/
def findFrom (needle text : Bytes) (pos : Nat) : Option Nat :=
  (find? needle (text.drop pos)).map (pos + ·)

/-- The value of `strtol`, cut down to 32 bits. -/
def atoi (text : Bytes) : Int := ((strtol text).getD 0).bmod (2 ^ 32)

def atoll (text : Bytes) : Int := (strtol text).getD 0

/-! ## One response -/

inductive ParseResult where
  | needMore
  | complete (status : Int) (inOff : Nat)
  | error (detail : Bytes)
  deriving DecidableEq

/-- What the header lines say about the body. -/
structure Framing where
  contentLength : Int := -1
  chunked : Bool := false
  deriving DecidableEq

/-- One header line between `p` and `e`. -/
def readHeader (text : Bytes) (p e : Nat) (framing : Framing) : Framing :=
  match findFrom [58] text p with
  | none => framing
  | some colon =>
      if colon < e then
        let key := toLower ((text.drop p).take (colon - p))
        let val := trim ((text.drop (colon + 1)).take (e - colon - 1))
        if key = lit "content-length" then { framing with contentLength := atoll val }
        else if key = lit "transfer-encoding" ∧
            (find? (lit "chunked") (toLower val)).isSome then
          { framing with chunked := true }
        else framing
      else framing

theorem le_of_findFrom {needle text : Bytes} {pos place : Nat}
    (found : findFrom needle text pos = some place) : pos ≤ place := by
  obtain ⟨offset, _, rfl⟩ := Option.map_eq_some_iff.mp found
  exact Nat.le_add_right _ _

/-- The loop over the header lines. -/
def scanHeaders (text : Bytes) (hdrEnd p : Nat) (framing : Framing) : Framing :=
  if p < hdrEnd then
    match _found : findFrom crlf text p with
    | none => framing
    | some e =>
        if hdrEnd < e then framing
        else scanHeaders text hdrEnd (e + 2) (readHeader text p e framing)
  else framing
termination_by hdrEnd - p
decreasing_by
  have := le_of_findFrom ‹_›
  omega

theorem scanHeaders_of_line {text : Bytes} {hdrEnd p e : Nat} {framing : Framing}
    (inside : p < hdrEnd) (found : findFrom crlf text p = some e) (ended : e ≤ hdrEnd) :
    scanHeaders text hdrEnd p framing =
      scanHeaders text hdrEnd (e + 2) (readHeader text p e framing) := by
  rw [scanHeaders, if_pos inside]
  split
  · rename_i absent
    cases found.symm.trans absent
  · rename_i place located
    cases found.symm.trans located
    rw [if_neg (Nat.not_lt.mpr ended)]

/-- The rest of `parseOne`, once the end of the headers is found. -/
def parseHead (text : Bytes) (inOff hdrEnd : Nat) : ParseResult :=
  let bodyStart := hdrEnd + 4
  match findFrom crlf text inOff with
  | none => .error (lit "状态行不是 HTTP 格式（可能连到的不是 HTTP 服务）")
  | some lineEnd =>
      if lineEnd ≤ inOff ∨ (text.drop inOff).take 5 ≠ lit "HTTP/" then
        .error (lit "状态行不是 HTTP 格式（可能连到的不是 HTTP 服务）")
      else
        match (findFrom [32] text inOff).filter (· < lineEnd) with
        | none => .error (lit "状态行里找不到状态码")
        | some sp =>
            let status := atoi (text.drop (sp + 1))
            if status < 100 ∨ 599 < status then
              .error (lit "状态码不合法：解析出 " ++ decimalInt status)
            else
              let framing := scanHeaders text hdrEnd (lineEnd + 2) {}
              if framing.chunked then
                .error (lit "响应用了 chunked 编码，本压测客户端不支持；接口契约要求所有响应都带 " ++
                  lit "Content-Length，请检查服务端")
              else if framing.contentLength < 0 then
                .error
                  (lit "响应缺少 Content-Length，无法判断响应到哪里结束（契约要求所有响应都带它）")
              else
                let need := framing.contentLength.toNat
                if text.length - bodyStart < need then .needMore
                else .complete status (bodyStart + need)

/-- Look for one complete response from `inOff` on. -/
def parseOne (text : Bytes) (inOff : Nat) : ParseResult :=
  let avail := text.length - inOff
  if avail < 16 then .needMore
  else
    match findFrom (crlf ++ crlf) text inOff with
    | none =>
        if avail > kMaxHeaderBytes then
          .error (lit "响应头超过 64 KiB 还没结束，服务端可能没有按 HTTP 格式回应")
        else .needMore
    | some hdrEnd => parseHead text inOff hdrEnd

theorem le_of_parseHead {text : Bytes} {inOff hdrEnd next : Nat} {status : Int}
    (finished : parseHead text inOff hdrEnd = .complete status next) :
    hdrEnd + 4 ≤ next := by
  unfold parseHead at finished
  dsimp only at finished
  split at finished
  · cases finished
  · split at finished
    · cases finished
    · split at finished
      · cases finished
      · split at finished
        · cases finished
        · split at finished
          · cases finished
          · split at finished
            · cases finished
            · split at finished
              · cases finished
              · cases finished
                exact Nat.le_add_right _ _

/-- A response that is found moves `in_off` forward. -/
theorem lt_of_parseOne {text : Bytes} {inOff next : Nat} {status : Int}
    (finished : parseOne text inOff = .complete status next) :
    inOff < next ∧ inOff < text.length := by
  unfold parseOne at finished
  dsimp only at finished
  split at finished
  · cases finished
  · rename_i enough
    split at finished
    · split at finished <;> cases finished
    · rename_i hdrEnd found
      have front := le_of_findFrom found
      have back := le_of_parseHead finished
      omega

/-! ## The connection -/

structure Conn where
  inBytes : Bytes := []
  inOff : Nat := 0
  doneReq : Nat := 0
  inflight : Int := 0
  /-- When the requests in flight were sent. -/
  ts : List UInt64 := []
  tsHead : Nat := 0
  lastProgress : UInt64 := 0

end Bench

/-- The options, the clock and the statistics that the receiving side uses. -/
structure Bench where
  httpMode : Bool := true
  expectStatus : List Int := [200]
  clock : Nat → UInt64
  clockReads : Nat := 0
  ok : Nat := 0
  badStatus : Nat := 0
  latDropped : Nat := 0
  latNs : List UInt64 := []
  statusHist : Int → Nat := fun _ => 0

namespace Bench

def nowNs (b : Bench) : UInt64 × Bench :=
  (b.clock b.clockReads, { b with clockReads := b.clockReads + 1 })

/-- Take the oldest request in flight off the queue; its latency, or 0. -/
def takeLatency (b : Bench) (c : Conn) : UInt64 × Bench × Conn :=
  match c.ts[c.tsHead]? with
  | none => (0, b, c)
  | some sentAt =>
      let (now, b) := b.nowNs
      let c := { c with tsHead := c.tsHead + 1 }
      (now - sentAt, b, if c.tsHead = c.ts.length then { c with ts := [], tsHead := 0 } else c)

/-- Count a response by its status. -/
def countStatus (b : Bench) (status : Int) : Bench :=
  if b.httpMode then
    let b := { b with statusHist := Function.update b.statusHist status (b.statusHist status + 1) }
    if status ∈ b.expectStatus then { b with ok := b.ok + 1 }
    else { b with badStatus := b.badStatus + 1 }
  else { b with ok := b.ok + 1 }

def recordLatency (b : Bench) (lat : UInt64) : Bench :=
  if lat > 0 then
    if b.latNs.length < kMaxLatencySamples then { b with latNs := b.latNs ++ [lat] }
    else { b with latDropped := b.latDropped + 1 }
  else b

def onResponseComplete (b : Bench) (c : Conn) (status : Int) : Bench × Conn :=
  let (lat, b, c) := b.takeLatency c
  let c := if c.inflight > 0 then { c with inflight := c.inflight - 1 } else c
  let c := { c with doneReq := c.doneReq + 1 }
  let (now, b) := b.nowNs
  let c := { c with lastProgress := now }
  ((b.countStatus status).recordLatency lat, c)

/-! ## The receive buffer -/

/-- A call made by `drainHttp`. -/
inductive Call where
  | onResponseComplete (status : Int)
  | failConn (category detail : Bytes)
  deriving DecidableEq

/-- What a call of `drainHttp` has done when it returns; `ok` is its result. -/
structure Drained where
  ok : Bool
  calls : List Call
  bench : Bench
  conn : Conn

theorem onResponseComplete_in (b : Bench) (c : Conn) (status : Int) :
    (onResponseComplete b c status).2.inBytes = c.inBytes ∧
      (onResponseComplete b c status).2.inOff = c.inOff := by
  have taken : (b.takeLatency c).2.2.inBytes = c.inBytes ∧
      (b.takeLatency c).2.2.inOff = c.inOff := by
    unfold takeLatency
    split
    · exact ⟨rfl, rfl⟩
    · dsimp only
      split <;> exact ⟨rfl, rfl⟩
  unfold onResponseComplete
  dsimp only
  split <;> exact taken

/-- The loop of `drainHttp`. -/
def drainLoop (b : Bench) (c : Conn) : Drained :=
  match _parsed : parseOne c.inBytes c.inOff with
  | .needMore => { ok := true, calls := [], bench := b, conn := c }
  | .error detail =>
      { ok := false
        calls := [.failConn (lit "响应解析失败") detail]
        bench := b
        conn := c }
  | .complete status inOff =>
      let answered := onResponseComplete b { c with inOff } status
      let rest := drainLoop answered.1 answered.2
      { rest with calls := .onResponseComplete status :: rest.calls }
termination_by c.inBytes.length - c.inOff
decreasing_by
  have forward := lt_of_parseOne ‹_›
  have kept := onResponseComplete_in b { c with inOff } status
  simp only [kept.1, kept.2]
  omega

theorem drainLoop_of_needMore {b : Bench} {c : Conn}
    (waiting : parseOne c.inBytes c.inOff = .needMore) :
    drainLoop b c = { ok := true, calls := [], bench := b, conn := c } := by
  rw [drainLoop]
  split
  · rfl
  · rename_i failed
    cases waiting.symm.trans failed
  · rename_i finished
    cases waiting.symm.trans finished

theorem drainLoop_of_complete {b : Bench} {c : Conn} {status : Int} {inOff : Nat}
    (finished : parseOne c.inBytes c.inOff = .complete status inOff) :
    drainLoop b c =
      let answered := onResponseComplete b { c with inOff } status
      let rest := drainLoop answered.1 answered.2
      { rest with calls := .onResponseComplete status :: rest.calls } := by
  rw [drainLoop]
  split
  · rename_i waiting
    cases finished.symm.trans waiting
  · rename_i failed
    cases finished.symm.trans failed
  · rename_i same
    cases finished.symm.trans same
    rfl

/-- Give back the part of `in` that has been consumed. -/
def compact (c : Conn) : Conn :=
  if c.inOff = c.inBytes.length then { c with inBytes := [], inOff := 0 }
  else if c.inOff > 8192 then { c with inBytes := c.inBytes.drop c.inOff, inOff := 0 }
  else c

def drainHttp (b : Bench) (c : Conn) : Drained :=
  let drained := drainLoop b c
  if drained.ok then { drained with conn := compact drained.conn } else drained

/-- Chunks arrive, each appended to `in` and drained; nothing is read from a
connection that has failed. -/
def receive (b : Bench) (c : Conn) : List Bytes → Drained
  | [] => { ok := true, calls := [], bench := b, conn := c }
  | chunk :: chunks =>
      let drained := drainHttp b { c with inBytes := c.inBytes ++ chunk }
      if drained.ok then
        let rest := receive drained.bench drained.conn chunks
        { rest with calls := drained.calls ++ rest.calls }
      else drained

end Bench

end MiniNet
