import MiniNet.Bench
import MiniNet.Channel
import MiniNet.Lib.Family
import MiniNet.Lib.Machine

/-!
# The connections of the benchmark client

The event handlers of `Bench`, with its counters and its start line.  The
results of the system calls are inputs: a handler finds them in `Os`, takes
them in order, and when they run out nothing more can be sent or received.
The octets of a request come from outside as well.  Not kept are the text of
the first error and the resource usage, which only the report reads.
-/

namespace MiniNet

open Bytes

namespace Bench

def kReadBudget : Nat := 16

def kWriteBudget : Nat := 64

inductive ConnState where
  | connecting
  | waiting
  | ready
  | done
  | failed
  deriving DecidableEq

/-- The options; `behind` is what follows the payload in memory. -/
structure Options where
  requests : Nat
  pipeline : Nat
  size : Nat
  some_octet : 0 < size
  verify : Bool
  durationMode : Bool
  durationNs : UInt64
  timeoutNs : UInt64
  connectTimeoutNs : UInt64
  echoPayload : Bytes
  behind : Nat → UInt8
  request : Nat → Bytes

/-- A connection: its receiving side with the rest of the source's `Conn`. -/
structure Link extends Conn where
  opened : Bool := false
  evMask : UInt32 := 0
  state : ConnState := .connecting
  req : Bytes := []
  out : Bytes := []
  outOff : Nat := 0
  sentReq : Nat := 0
  echoRecv : Nat := 0
  echoPartial : Nat := 0

/-- The counters next to those of the receiving side. -/
structure Client extends Bench where
  opts : Options
  aliveCount : Nat := 0
  connectingCount : Nat := 0
  started : Bool := false
  deadlineNs : UInt64 := 0
  failed : Nat := 0
  connFailed : Nat := 0
  errHist : Bytes → Nat := fun _ => 0
  totalBytesIn : Nat := 0
  totalBytesOut : Nat := 0

/-- The client before its connections are set up. -/
def Client.initial (httpMode : Bool) (expectStatus : List Int) (clock : Nat → UInt64)
    (opts : Options) : Client :=
  { httpMode, expectStatus, clock, opts }

/-! ## Results of system calls -/

inductive Sent where
  | octets (n : Nat)
  | eintr
  | eagain
  | error
  deriving DecidableEq

/-- No octets means that the peer has closed the connection. -/
inductive Received where
  | octets (data : Bytes)
  | eintr
  | eagain
  | error
  deriving DecidableEq

/-- What `SO_ERROR` says of a connection attempt. -/
inductive SoError where
  | none
  /-- `getsockopt` itself fails. -/
  | unavailable
  /-- `EADDRNOTAVAIL`, `EADDRINUSE` or `EACCES`. -/
  | noPort
  | refused
  | other
  deriving DecidableEq

structure Os where
  sends : List Sent := []
  recvs : List Received := []
  /-- The results of `epoll_ctl(EPOLL_CTL_MOD)`. -/
  ctls : List Bool := []

/-- A handler at work on one connection. -/
structure Turn where
  client : Client
  conn : Link
  os : Os

namespace Turn

def nowNs (k : Turn) : UInt64 × Turn :=
  let read := k.client.toBench.nowNs
  (read.1, { k with client := { k.client with toBench := read.2 } })

def alive (k : Turn) : Bool :=
  k.conn.opened && k.conn.state != .done && k.conn.state != .failed

/-! ## Changes of state -/

def closeConn (success : Bool) (k : Turn) : Turn :=
  { k with
    conn := { k.conn with opened := false, state := if success then .done else .failed }
    client := { k.client with aliveCount := k.client.aliveCount - 1 } }

def failConn (category : Bytes) (k : Turn) : Turn :=
  if k.conn.state = .failed ∨ k.conn.state = .done then k
  else
    let lost : Int :=
      if k.client.opts.durationMode then k.conn.inflight
      else (k.client.opts.requests : Int) - k.conn.doneReq
    closeConn false { k with
      client := { k.client with
        connectingCount :=
          if k.conn.state = .connecting then k.client.connectingCount - 1
          else k.client.connectingCount
        failed := k.client.failed + lost.toNat
        connFailed := k.client.connFailed + 1
        errHist := Function.update k.client.errHist category
          (k.client.errHist category + 1) } }

def wantedEvents (c : Link) : UInt32 :=
  if c.state = .connecting ∨ c.outOff < c.out.length then
    Channel.epollIn ||| Channel.epollOut
  else Channel.epollIn

def updateEvents (k : Turn) : Turn :=
  if k.conn.opened = false ∨ wantedEvents k.conn = k.conn.evMask then k
  else
    let k' := { k with os := { k.os with ctls := k.os.ctls.tail } }
    if k.os.ctls.head?.getD true then
      { k' with conn := { k.conn with evMask := wantedEvents k.conn } }
    else k'.failConn (lit "epoll 操作失败")

/-! ## Sending -/

def moreRequests (k : Turn) : Bool × Turn :=
  if k.client.opts.durationMode then
    let read := k.nowNs
    (decide (read.1 < k.client.deadlineNs), read.2)
  else (decide (k.conn.sentReq < k.client.opts.requests), k)

/-- One more request: its sending time, its octets and the counters. -/
def issue (k : Turn) : Turn :=
  let read := k.nowNs
  let c := read.2.conn
  let c := if c.tsHead = c.ts.length then { c with ts := [], tsHead := 0 } else c
  { read.2 with
    conn := { c with
      ts := c.ts ++ [read.1]
      out := c.out ++ c.req
      inflight := c.inflight + 1
      sentReq := c.sentReq + 1 } }

/-- The loop of `refill`, which cannot take more turns than there is room in
the pipeline. -/
def refillLoop : Nat → Turn → Turn
  | 0, k => k
  | room + 1, k =>
      if k.conn.inflight < k.client.opts.pipeline then
        let more := k.moreRequests
        if more.1 then refillLoop room more.2.issue else more.2
      else k

def refill (k : Turn) : Turn :=
  if k.conn.state = .ready then
    refillLoop ((k.client.opts.pipeline : Int) - k.conn.inflight).toNat k
  else k

def sentOctets (k : Turn) (n : Nat) : Turn :=
  let read := k.nowNs
  { read.2 with
    conn := { k.conn with outOff := k.conn.outOff + n, lastProgress := read.1 }
    client := { read.2.client with totalBytesOut := k.client.totalBytesOut + n } }

/-- The loop of `flushOut` on the results of `send`. -/
def flushLoop : List Sent → Turn → Bool × Turn
  | sends, k =>
      let left := { k with os := { k.os with sends := sends.tail } }
      if k.conn.outOff < k.conn.out.length then
        match sends with
        | [] => (false, left.updateEvents)
        | .octets n :: rest =>
            let n := min n (k.conn.out.length - k.conn.outOff)
            if 0 < n then flushLoop rest (k.sentOctets n)
            else (false, left.failConn (lit "发送失败"))
        | .eintr :: rest => flushLoop rest k
        | .eagain :: _ => (false, left.updateEvents)
        | .error :: _ => (false, left.failConn (lit "发送失败"))
      else
        (true, updateEvents { k with
          conn := { k.conn with out := [], outOff := 0 }
          os := { k.os with sends := sends } })

def flushOut (k : Turn) : Bool × Turn := flushLoop k.os.sends k

def pumpLoop : Nat → Turn → Turn
  | 0, k => k
  | budget + 1, k =>
      if k.conn.state = .ready then
        let flushed := k.flushOut
        if flushed.1 then
          let k := flushed.2.refill
          if k.conn.out = [] then k else pumpLoop budget k
        else flushed.2
      else k

def pump (k : Turn) : Turn := pumpLoop kWriteBudget k

/-! ## Receiving -/

/-- The octet that `memcmp` reads at an index of the payload. -/
def payloadAt (opts : Options) (i : Nat) : UInt8 :=
  (opts.echoPayload[i]?).getD (opts.behind (i - opts.echoPayload.length))

def sameAsPayload (opts : Options) (start : Nat) (buf : Bytes) : Bool :=
  buf.zipIdx.all fun (c, i) => c == payloadAt opts (start + i)

def verifyChunk (opts : Options) (base : Nat) (buf : Bytes) : Bool :=
  let sz := opts.echoPayload.length
  if sz = 0 ∨ buf.length = 0 then true
  else
    let start := base % sz
    let first := min buf.length (sz - start)
    sameAsPayload opts start (buf.take first) && sameAsPayload opts 0 (buf.drop first)

/-- `onResponseComplete` on the connection at hand. -/
def complete (status : Int) (k : Turn) : Turn :=
  let answered := k.client.toBench.onResponseComplete k.conn.toConn status
  { k with
    client := { k.client with toBench := answered.1 }
    conn := { k.conn with toConn := answered.2 } }

/-- The loop over full echo messages. -/
def completeEchoes : Nat → Turn → Turn
  | 0, k => k
  | n + 1, k => completeEchoes n (k.complete 0)

def drain (k : Turn) (data : Bytes) : Bool × Turn :=
  let drained := k.client.toBench.drainHttp
    { k.conn.toConn with inBytes := k.conn.inBytes ++ data }
  let k := { k with
    client := { k.client with toBench := drained.bench }
    conn := { k.conn with toConn := drained.conn } }
  if drained.ok then (true, k) else (false, k.failConn (lit "响应解析失败"))

def echo (k : Turn) (data : Bytes) : Bool × Turn :=
  if k.client.opts.verify && !verifyChunk k.client.opts k.conn.echoRecv data then
    (false, k.failConn (lit "回显内容不对"))
  else
    let echoed := k.conn.echoPartial + data.length
    (true, completeEchoes (echoed / k.client.opts.size) { k with
      conn := { k.conn with
        echoRecv := k.conn.echoRecv + data.length
        echoPartial := echoed % k.client.opts.size } })

/-- The octets of one `recv`. -/
def receiveOctets (k : Turn) (data : Bytes) : Bool × Turn :=
  let read := k.nowNs
  let k := { read.2 with
    conn := { k.conn with lastProgress := read.1 }
    client := { read.2.client with totalBytesIn := k.client.totalBytesIn + data.length } }
  if k.client.httpMode then k.drain data else k.echo data

/-- The peer has closed the connection. -/
def endOfStream (k : Turn) : Turn :=
  if 0 < k.conn.inflight then k.failConn (lit "对端提前关闭")
  else
    let more := k.moreRequests
    if more.1 then more.2.failConn (lit "对端提前关闭") else more.2.closeConn true

def readLoop : Nat → Turn → Bool × Turn
  | 0, k => (true, k)
  | budget + 1, k =>
      let left := { k with os := { k.os with recvs := k.os.recvs.tail } }
      match k.os.recvs.head?.getD .eagain with
      | .octets data =>
          let data := data.take 65536
          if data = [] then (false, left.endOfStream)
          else
            let received := left.receiveOctets data
            if received.1 then readLoop budget received.2 else received
      | .eintr => readLoop budget left
      | .eagain => (true, left)
      | .error => (false, left.failConn (lit "接收失败"))

def doRead (k : Turn) : Bool × Turn := readLoop kReadBudget k

/-! ## Events -/

def maybeFinish (k : Turn) : Turn :=
  if k.conn.state = .ready then
    let more := k.moreRequests
    if more.1 then more.2
    else if 0 < k.conn.inflight then more.2
    else if k.conn.outOff < k.conn.out.length then more.2
    else more.2.closeConn true
  else k

/-- An event on a connection that is being established. -/
def onConnect (soError : SoError) (k : Turn) : Turn :=
  match soError with
  | .unavailable => k.failConn (lit "建连失败")
  | .noPort => k.failConn (lit "本地端口耗尽")
  | .refused => k.failConn (lit "建连被拒绝")
  | .other => k.failConn (lit "建连失败")
  | .none =>
      let read := k.nowNs
      let k := { read.2 with
        client := { read.2.client with connectingCount := k.client.connectingCount - 1 }
        conn := { k.conn with lastProgress := read.1 } }
      let k :=
        if k.client.started then pump { k with conn := { k.conn with state := .ready } }
        else { k with conn := { k.conn with state := .waiting } }
      k.updateEvents

/-- The part of `onEvent` behind the reading. -/
def afterRead (k : Turn) : Turn :=
  if k.alive then
    let k := k.pump
    if k.alive then k.maybeFinish else k
  else k

def onEvent (events : UInt32) (soError : SoError) (k : Turn) : Turn :=
  if k.alive then
    if k.conn.state = .connecting then k.onConnect soError
    else if events &&& (Channel.epollIn ||| Channel.epollHup ||| Channel.epollErr) ≠ 0 then
      let read := k.doRead
      if read.1 then read.2.afterRead else read.2
    else k.afterRead
  else k

/-- One connection in `checkTimeouts`. -/
def checkTimeout (now : UInt64) (k : Turn) : Turn :=
  if k.alive = false ∨ k.conn.state = .waiting then k
  else
    let limit :=
      if k.conn.state = .connecting then k.client.opts.connectTimeoutNs
      else k.client.opts.timeoutNs
    if now - k.conn.lastProgress ≤ limit then k
    else if k.conn.state = .connecting then k.failConn (lit "建连超时")
    else k.failConn (lit "读超时")

/-- One connection at the start line. -/
def start (t0 : UInt64) (k : Turn) : Turn :=
  if k.conn.state = .waiting then
    pump { k with conn := { k.conn with state := .ready, lastProgress := t0 } }
  else k

end Turn

/-! ## All connections -/

/-- The client with its connections. -/
structure Load (n : Nat) where
  client : Client
  conns : Fin n → Link

/-- The result of setting up one connection. -/
inductive Outcome where
  /-- No socket, or its source address cannot be bound. -/
  | noSocket
  /-- `connect` fails at once. -/
  | refused
  | connected
  | inProgress
  deriving DecidableEq

inductive Action (n : Nat) where
  | event (i : Fin n) (events : UInt32) (soError : SoError) (os : Os)
  | maybeStart (os : Fin n → Os)
  | periodicScan

namespace Load

variable {n : Nat}

/-- Run a handler on one connection. -/
def onConn (s : Load n) (i : Fin n) (os : Os) (f : Turn → Turn) : Load n :=
  let k := f { client := s.client, conn := s.conns i, os }
  { client := k.client, conns := Function.update s.conns i k.conn }

def nowNs (s : Load n) : UInt64 × Load n :=
  let read := s.client.toBench.nowNs
  (read.1, { s with client := { s.client with toBench := read.2 } })

/-- A connection that could not be set up. -/
def setupFailed (s : Load n) (i : Fin n) (c : Link) : Load n :=
  { client := { s.client with
      failed :=
        if s.client.opts.durationMode then s.client.failed
        else s.client.failed + s.client.opts.requests
      connFailed := s.client.connFailed + 1
      errHist := Function.update s.client.errHist (lit "建连失败")
        (s.client.errHist (lit "建连失败") + 1) }
    conns := Function.update s.conns i { c with opened := false, state := .failed } }

/-- A connection that is there or on its way. -/
def setupDone (s : Load n) (i : Fin n) (c : Link) : Load n :=
  { client := { s.client with
      aliveCount := s.client.aliveCount + 1
      connectingCount :=
        if c.state = .connecting then s.client.connectingCount + 1
        else s.client.connectingCount }
    conns := Function.update s.conns i { c with evMask := Turn.wantedEvents c } }

/-- The part of `startConnect` behind the binding. -/
def dial (s : Load n) (i : Fin n) (state : ConnState) : Load n × Link :=
  let read := s.nowNs
  (read.2, { s.conns i with
    opened := true
    req := s.client.opts.request i
    lastProgress := read.1
    state := state })

/-- One turn of the loop of `setupConns`, without a result when the set-up is
given up: the first connection fails, or `epoll_ctl` does. -/
def setupConn (s : Load n) (i : Fin n) (outcome : Outcome) (added : Bool) :
    Option (Load n) :=
  match outcome with
  | .noSocket => if i.val = 0 then none else some (s.setupFailed i (s.conns i))
  | .refused =>
      let dialled := s.dial i (s.conns i).state
      if i.val = 0 then none else some (dialled.1.setupFailed i dialled.2)
  | .connected =>
      let dialled := s.dial i .waiting
      if added then some (dialled.1.setupDone i dialled.2) else none
  | .inProgress =>
      let dialled := s.dial i .connecting
      if added then some (dialled.1.setupDone i dialled.2) else none

def setupConns (client : Client) (outcomes : Fin n → Outcome × Bool) : Option (Load n) :=
  (List.finRange n).foldlM (fun s i => s.setupConn i (outcomes i).1 (outcomes i).2)
    { client, conns := fun _ => {} }

def maybeStart (s : Load n) (os : Fin n → Os) : Load n :=
  if s.client.started then s
  else if 0 < s.client.connectingCount then s
  else
    let read := s.nowNs
    let s := { read.2 with
      client := { read.2.client with
        started := true
        deadlineNs :=
          if s.client.opts.durationMode then read.1 + s.client.opts.durationNs
          else s.client.deadlineNs } }
    let s := (List.finRange n).foldl (fun s i => s.onConn i (os i) (Turn.start read.1)) s
    (List.finRange n).foldl (fun s i => s.onConn i {} Turn.maybeFinish) s

def checkFinishes (s : Load n) : Load n :=
  (List.finRange n).foldl (fun s i => s.onConn i {} Turn.maybeFinish) s

def checkTimeouts (s : Load n) : Load n :=
  let read := s.nowNs
  (List.finRange n).foldl (fun s i => s.onConn i {} (Turn.checkTimeout read.1)) read.2

def periodicScan (s : Load n) : Load n := s.checkFinishes.checkTimeouts

/-- The handler calls of the event loop, in any order. -/
def step (s : Load n) : Action n → Option (Load n × Unit)
  | .event i events soError os => some (s.onConn i os (Turn.onEvent events soError), ())
  | .maybeStart os => some (s.maybeStart os, ())
  | .periodicScan => some (s.periodicScan, ())

/-- The condition of the event loop, which is left otherwise only when
`epoll_wait` itself fails. -/
def running (s : Load n) : Prop := 0 < s.client.aliveCount

end Load

end Bench

end MiniNet
