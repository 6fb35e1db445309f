import MiniNet.Bench.Reception
import MiniNet.Bench.Requests
import MiniNet.HttpServer.Replies
import Mathlib.Data.Set.List

/-!
# The benchmark client against the server

The client, and a loop of the server that serves its connections among others.
What is sent on a connection arrives in order, in any pieces and at any time,
and both sides take their steps in any order.
-/

namespace MiniNet

open Bytes HttpServer

/-- A connection of the client as the server knows it. -/
structure Peer where
  fd : Nat
  id : Nat
  deriving DecidableEq

namespace Peer

variable {σ : Type}

/-- Its entry, if the server has not closed it. -/
def entry (peer : Peer) (s : Loop.State σ) : Option Loop.Entry :=
  (s.conns.lookup peer.fd).filter fun entry => entry.id = peer.id

theorem entry_eq_some {peer : Peer} {s : Loop.State σ} {entry : Loop.Entry} :
    peer.entry s = some entry ↔ s.conns.lookup peer.fd = some entry ∧ entry.id = peer.id := by
  rw [Peer.entry, Option.filter_eq_some_iff, decide_eq_true_iff]

end Peer

structure Loopback (σ : Type) (n : Nat) where
  server : Loop.Watched σ
  client : Bench.Load n
  peer : Fin n → Option Peer := fun _ => none
  /-- What the kernel has accepted from the server.  It can be read when the
  server has closed the connection, too. -/
  written : Fin n → Bytes := fun _ => []
  /-- How many octets of it the client has read. -/
  read : Fin n → Nat := fun _ => 0

namespace Loopback

variable {σ : Type} {n : Nat}

inductive Action (σ : Type) (n : Nat) where
  /-- The server accepts a connection of the client. -/
  | accept (i : Fin n) (fd id : Nat) (now : Int)
  | server (action : Loop.Action σ)
  | client (action : Bench.Action n)

/-- A chunk that the server receives from the client is the next part of what
the client has sent. -/
def Delivers (w : Loopback σ n) : Loop.Action σ → Prop
  | .message fd data => ∀ i, ∀ peer ∈ w.peer i, peer.fd = fd →
      (peer.entry w.server.loop).isSome →
        (w.server.logs peer.id).chunks.flatten ++ data <+: (w.client.conns i).sent
  | _ => True

/-- What the client receives is the next part of what the kernel has accepted. -/
def Offers (w : Loopback σ n) : Bench.Action n → Prop
  | .event i events _ os =>
      Bench.Turn.reads events { client := w.client.client, conn := w.client.conns i, os } = true →
        Bench.EachChunk (fun base data => data <+: (w.written i).drop base) (w.read i) os.recvs
  | _ => True

instance (w : Loopback σ n) : ∀ action, Decidable (w.Delivers action)
  | .message _ _ => inferInstanceAs (Decidable (∀ _, _))
  | .connected _ _ _ | .writable _ | .close _ | .run _ _ | .elsewhere _ => isTrue trivial

instance (w : Loopback σ n) : ∀ action, Decidable (w.Offers action)
  | .event _ _ _ _ => inferInstanceAs (Decidable (_ → _))
  | .maybeStart _ => isTrue trivial
  | .periodicScan => isTrue trivial

/-- What the kernel has accepted by now. -/
def accepted (s : Loop.State σ) (peer : Option Peer) (before : Bytes) : Bytes :=
  match peer.bind (·.entry s) with
  | some entry => entry.path.accepted
  | none => before

theorem accepted_of_open {s : Loop.State σ} {peer : Peer} {entry : Loop.Entry} {before : Bytes}
    (open_ : peer.entry s = some entry) :
    accepted s (some peer) before = entry.path.accepted := by
  rw [accepted, Option.bind_some, open_]

theorem accepted_of_closed {s : Loop.State σ} {peer : Peer} {before : Bytes}
    (closed : peer.entry s = none) : accepted s (some peer) before = before := by
  rw [accepted, Option.bind_some, closed]

/-- How much the client has read after a step. -/
def readAfter (w : Loopback σ n) : Bench.Action n → Fin n → Nat
  | .event i events _ os =>
      let k : Bench.Turn := { client := w.client.client, conn := w.client.conns i, os }
      if k.reads events then
        Function.update w.read i
          (w.read i + (k.doRead.2.client.totalBytesIn - k.client.totalBytesIn))
      else w.read
  | .maybeStart _ | .periodicScan => w.read

/-- After a step of the server. -/
def serve (w : Loopback σ n) (server : Loop.Watched σ) : Loopback σ n :=
  { w with
    server
    written := fun i => accepted server.loop (w.peer i) (w.written i) }

def step (handler : Option (Handler σ)) (w : Loopback σ n) :
    Action σ n → Option (Loopback σ n × Unit)
  | .accept i fd id now =>
      if (w.peer i).isSome then none
      else
        (w.server.step handler (.connected fd id now)).map fun (server, _) =>
          ({ w.serve server with peer := Function.update w.peer i (some { fd, id }) }, ())
  | .server action =>
      if w.Delivers action then
        (w.server.step handler action).map fun (server, _) => (w.serve server, ())
      else none
  | .client action =>
      if w.Offers action then
        (w.client.step action).map fun (client, _) =>
          ({ w with client, read := w.readAfter action }, ())
      else none

/-! ## What a step does -/

section

variable {handler : Option (Handler σ)} {w m : Loopback σ n}

theorem step_accept {i : Fin n} {fd id : Nat} {now : Int}
    (stepped : w.step handler (.accept i fd id now) = some (m, ())) :
    w.peer i = none ∧ ∃ server events,
      w.server.step handler (.connected fd id now) = some (server, events) ∧
        m = { w.serve server with peer := Function.update w.peer i (some { fd, id }) } := by
  simp only [step] at stepped
  split at stepped
  · cases stepped
  · rename_i free
    obtain ⟨⟨server, events⟩, taken, result⟩ := Option.map_eq_some_iff.mp stepped
    cases result
    exact ⟨Option.not_isSome_iff_eq_none.mp free, server, events, taken, rfl⟩

theorem step_server {action : Loop.Action σ}
    (stepped : w.step handler (.server action) = some (m, ())) :
    w.Delivers action ∧ ∃ server events,
      w.server.step handler action = some (server, events) ∧ m = w.serve server := by
  simp only [step] at stepped
  split at stepped
  · rename_i delivers
    obtain ⟨⟨server, events⟩, taken, result⟩ := Option.map_eq_some_iff.mp stepped
    cases result
    exact ⟨delivers, server, events, taken, rfl⟩
  · cases stepped

theorem step_client {action : Bench.Action n}
    (stepped : w.step handler (.client action) = some (m, ())) :
    w.Offers action ∧ ∃ client, w.client.step action = some (client, ()) ∧
      m = { w with client, read := w.readAfter action } := by
  simp only [step] at stepped
  split at stepped
  · rename_i offered
    obtain ⟨⟨client, _⟩, taken, result⟩ := Option.map_eq_some_iff.mp stepped
    cases result
    exact ⟨offered, client, taken, rfl⟩
  · cases stepped

end

/-! ## The server's side of a connection -/

/-- The server has answered some of what it was sent; of that the kernel has
accepted a part. -/
structure Served (handler : Option (Handler σ)) (w : Loop.Watched σ) (peer : Peer)
    (sent written : Bytes) : Prop where
  known : peer.id < w.loop.nextConnId
  place : ∀ fd entry, w.loop.conns.lookup fd = some entry → entry.id = peer.id → fd = peer.fd
  arrived : (w.logs peer.id).chunks.flatten <+: sent
  session : ∃ given phase, Reached handler (w.logs peer.id) given phase ∧ written <+: given
  current : ∀ entry, peer.entry w.loop = some entry → written = entry.path.accepted

namespace Served

variable {handler : Option (Handler σ)} {w m : Loop.Watched σ} {peer : Peer}
  {sent written : Bytes}

theorem later {more : Bytes} (served : Served handler w peer sent written)
    (grown : sent <+: more) : Served handler w peer more written :=
  { served with arrived := served.arrived.trans grown }

/-- Its entry after a step was there before, and the kernel has not taken anything back. -/
theorem old_entry {action : Loop.Action σ} {events : List Loop.Event}
    (served : Served handler w peer sent written)
    (stepped : w.step handler action = some (m, events)) {fd : Nat} {entry : Loop.Entry}
    (found : m.loop.conns.lookup fd = some entry) (same : entry.id = peer.id) :
    ∃ before, w.loop.conns.lookup fd = some before ∧ before.id = peer.id ∧
      before.path.accepted <+: entry.path.accepted := by
  obtain ⟨before, there, sameId, grown⟩ :=
    Loop.old_step (Loop.Watched.loop_step stepped) found (same ▸ served.known)
  exact ⟨before, there, sameId.trans same, grown⟩

theorem place_step {action : Loop.Action σ} {events : List Loop.Event}
    (served : Served handler w peer sent written)
    (stepped : w.step handler action = some (m, events)) (fd : Nat) (entry : Loop.Entry)
    (found : m.loop.conns.lookup fd = some entry) (same : entry.id = peer.id) :
    fd = peer.fd := by
  obtain ⟨before, there, sameId, _⟩ := served.old_entry stepped found same
  exact served.place fd before there sameId

theorem arrived_step {action : Loop.Action σ} {events : List Loop.Event}
    (served : Served handler w peer sent written)
    (stepped : w.step handler action = some (m, events))
    (delivered : ∀ fd data, action = .message fd data → peer.fd = fd →
      (peer.entry w.loop).isSome → (w.logs peer.id).chunks.flatten ++ data <+: sent) :
    (m.logs peer.id).chunks.flatten <+: sent := by
  rcases Loop.Watched.chunks_step stepped peer.id with
    same | ⟨fd, data, entry, message, found, same, longer⟩
  · rw [same]
    exact served.arrived
  · have here := served.place fd entry found same
    rw [longer, List.flatten_append, List.flatten_singleton]
    refine delivered fd data message here.symm ?_
    rw [Peer.entry_eq_some.mpr ⟨here ▸ found, same⟩]
    rfl

/-- The server takes a step, for this connection or for another one. -/
theorem step {past : List Loop.Event} {action : Loop.Action σ} {events : List Loop.Event}
    (served : Served handler w peer sent written) (follows : Loop.Follows handler past w)
    (steady : Loop.Steady m.loop) (stepped : w.step handler action = some (m, events))
    (delivered : ∀ fd data, action = .message fd data → peer.fd = fd →
      (peer.entry w.loop).isSome → (w.logs peer.id).chunks.flatten ++ data <+: sent) :
    Served handler m peer sent (accepted m.loop (some peer) written) ∧
      written <+: accepted m.loop (some peer) written := by
  have known : peer.id < m.loop.nextConnId :=
    Nat.lt_of_lt_of_le served.known (Loop.nextConnId_step (Loop.Watched.loop_step stepped))
  have place := served.place_step stepped
  have arrived := served.arrived_step stepped delivered
  cases open_ : peer.entry m.loop with
  | some entry =>
      obtain ⟨found, same⟩ := Peer.entry_eq_some.mp open_
      obtain ⟨before, there, sameId, grown⟩ := served.old_entry stepped found same
      rw [accepted_of_open open_, served.current before (Peer.entry_eq_some.mpr ⟨there, sameId⟩)]
      refine ⟨⟨known, place, arrived, ?_, fun other same => ?_⟩, grown⟩
      · obtain ⟨given, phase, reached, whole⟩ :=
          ((follows.step stepped).doing peer.fd entry found).reached
        rw [same] at reached
        refine ⟨given, phase, reached, List.IsPrefix.trans ?_ whole⟩
        exact ⟨_, (steady.tracks peer.fd entry found).intact.stream⟩
      · cases open_.symm.trans same
        rfl
  | none =>
      have same : m.logs peer.id = w.logs peer.id := by
        refine Loop.Watched.logs_of_closed follows stepped fun fd entry found same => ?_
        have here := place fd entry found same
        cases open_.symm.trans (Peer.entry_eq_some.mpr ⟨here ▸ found, same⟩)
      rw [accepted_of_closed open_]
      refine ⟨⟨known, place, arrived, ?_, fun other same => ?_⟩, List.prefix_rfl⟩
      · rw [same]
        exact served.session
      · cases open_.symm.trans same

/-- A connection that has just been accepted. -/
theorem accept {past : List Loop.Event} {fd id : Nat} {now : Int} {events : List Loop.Event}
    (follows : Loop.Follows handler past w)
    (stepped : w.step handler (.connected fd id now) = some (m, events)) :
    Served handler m { fd, id } sent [] := by
  have accepts := Loop.accepts_step (Loop.Watched.loop_step stepped)
  have log : m.logs id = {} := by
    rw [Loop.Watched.logs_step stepped id]
    exact follows.fresh id accepts.fresh
  have new {fd' : Nat} {entry : Loop.Entry} (found : m.loop.conns.lookup fd' = some entry)
      (same : entry.id = id) : fd' = fd ∧ entry.path.accepted = [] := by
    rw [accepts.conns] at found
    by_cases here : fd' = fd
    · subst here
      cases (AList.lookup_insert _).symm.trans found
      exact ⟨rfl, rfl⟩
    · rw [AList.lookup_insert_ne here] at found
      have given := follows.given fd' entry found
      rw [same] at given
      exact absurd given (Nat.not_lt.mpr accepts.fresh)
  refine ⟨?_, fun fd' entry found same => (new found same).1, ?_, ?_, fun entry open_ => ?_⟩
  · rw [accepts.next]
    exact Nat.lt_succ_self id
  · rw [log]
    exact List.nil_prefix
  · rw [log]
    exact ⟨[], _, .start, List.prefix_rfl⟩
  · obtain ⟨found, same⟩ := Peer.entry_eq_some.mp open_
    exact (new found same).2.symm

/-- What has been written on a connection that sends one request again and again. -/
theorem responses {r : HttpParser.ClientRequest} {count : Nat}
    (served : Served handler w peer sent written)
    (repeats : sent <+: (List.replicate count r.render).flatten)
    (plain : ∀ resp ∈ (w.logs peer.id).replies,
      ∃ r : Bench.PlainResponse, r.toHttpResponse = resp) :
    ∃ (given : Bytes) (errs : List HttpParser.Error) (responses : List Bench.PlainResponse),
      Replied (List.replicate count r) (w.logs peer.id) given errs ∧
      responses.map (·.toHttpResponse) =
        (w.logs peer.id).replies ++ errs.map errorResponse ∧
      written <+: responses.flatMap (·.serialize) := by
  obtain ⟨given, phase, reached, part⟩ := served.session
  have rendered : (List.replicate count r.render).flatten =
      (List.replicate count r).flatMap (·.render) := by
    rw [List.flatMap_def, List.map_replicate]
  obtain ⟨errs, replied⟩ := reached.replied (rendered ▸ served.arrived.trans repeats)
  have all : (w.logs peer.id).replies ++ errs.map errorResponse ∈
      Set.range (List.map fun r : Bench.PlainResponse => r.toHttpResponse) := by
    rw [Set.range_list_map]
    intro resp member
    rcases List.mem_append.mp member with reply | error
    · exact plain resp reply
    · obtain ⟨err, known, rfl⟩ := List.mem_map.mp error
      exact plain_errorResponse (replied.known err known)
  obtain ⟨responses, same⟩ := all
  refine ⟨given, errs, responses, replied, same, ?_⟩
  rw [replied.sent, ← same, List.flatMap_map] at part
  exact part

end Served

/-! ## Both sides -/

/-- All responses of the handler to the client are such as a server may write. -/
def Plain (w : Loopback σ n) : Prop :=
  ∀ i, ∀ peer ∈ w.peer i, ∀ resp ∈ (w.server.logs peer.id).replies,
    ∃ r : Bench.PlainResponse, r.toHttpResponse = resp

theorem plain_iff {resp : HttpResponse} :
    ((100 ≤ resp.status ∧ resp.status ≤ 599) ∧ (cr ∉ resp.contentType ∧ lf ∉ resp.contentType) ∧
        (∀ header ∈ resp.extraHeaders, Bench.PlainExtra header) ∧
        resp.serialize.length ≤ 64 * 1024 + resp.body.length ∧ resp.body.length < 2 ^ 63) ↔
      ∃ r : Bench.PlainResponse, r.toHttpResponse = resp := by
  constructor
  · rintro ⟨status_valid, contentType_oneLine, extra_plain, section_fits, body_fits⟩
    exact ⟨{ resp with
      status_valid, contentType_oneLine, extra_plain, section_fits, body_fits }, rfl⟩
  · rintro ⟨r, rfl⟩
    exact ⟨r.status_valid, r.contentType_oneLine, r.extra_plain, r.section_fits, r.body_fits⟩

instance (w : Loopback σ n) : Decidable w.Plain :=
  have (resp : HttpResponse) : Decidable (∃ r : Bench.PlainResponse, r.toHttpResponse = resp) :=
    decidable_of_iff _ plain_iff
  inferInstanceAs (Decidable (∀ i, ∀ peer ∈ w.peer i,
    ∀ resp ∈ (w.server.logs peer.id).replies, ∃ r : Bench.PlainResponse, r.toHttpResponse = resp))

structure Joined (handler : Option (Handler σ)) (requests : Fin n → HttpParser.ClientRequest)
    (opts : Bench.Options) (expectStatus : List Int) (w : Loopback σ n) : Prop where
  follows : ∃ past, Loop.Follows handler past w.server
  steady : Loop.Steady w.server.loop
  counted : Bench.Load.Counted [] w.client
  booked : Bench.Load.Booked opts w.client
  asking : ∀ i, Bench.Asking (requests i).render (w.client.conns i)
  served : ∀ i peer, w.peer i = some peer →
    Served handler w.server peer (w.client.conns i).sent (w.written i)
  alone : ∀ i, w.peer i = none → w.written i = []
  within : ∀ i, w.read i ≤ (w.written i).length
  tallied : ∃ told, Bench.Load.Tallied expectStatus told
    (fun i => (w.written i).take (w.read i)) w.client

namespace Joined

variable {handler : Option (Handler σ)} {requests : Fin n → HttpParser.ClientRequest}
  {opts : Bench.Options} {expectStatus : List Int} {w m : Loopback σ n}

/-- On each connection a stream of responses is written, no more than were asked for. -/
theorem stream (joined : Joined handler requests opts expectStatus w) (plain : w.Plain)
    (i : Fin n) : ∃ responses : List Bench.PlainResponse,
      w.written i <+: responses.flatMap (·.serialize) ∧
        responses.length ≤ (w.client.conns i).sentReq := by
  cases accepted : w.peer i with
  | none =>
      rw [joined.alone i accepted]
      exact ⟨[], List.nil_prefix, Nat.zero_le _⟩
  | some peer =>
      obtain ⟨given, errs, responses, replied, same, part⟩ :=
        (joined.served i peer accepted).responses (joined.asking i).sent_issued
          (plain i peer accepted)
      refine ⟨responses, part, ?_⟩
      have asked := replied.asked
      have size := congrArg List.length same
      rw [List.length_replicate] at asked
      rw [List.length_map, List.length_append, List.length_map] at size
      omega

/-- The server takes a step. -/
theorem serve {server : Loop.Watched σ} {action : Loop.Action σ}
    {events : List Loop.Event} (joined : Joined handler requests opts expectStatus w)
    (stepped : w.server.step handler action = some (server, events))
    (delivered : ∀ i peer, w.peer i = some peer → ∀ fd data, action = .message fd data →
      peer.fd = fd → (peer.entry w.server.loop).isSome →
        (w.server.logs peer.id).chunks.flatten ++ data <+: (w.client.conns i).sent) :
    Joined handler requests opts expectStatus (w.serve server) := by
  obtain ⟨past, follows⟩ := joined.follows
  have steady := (joined.steady.step (Loop.Watched.loop_step stepped)).1
  have each (i : Fin n) (peer : Peer) (accepted_ : w.peer i = some peer) :=
    (joined.served i peer accepted_).step follows steady stepped (delivered i peer accepted_)
  have grown (i : Fin n) : w.written i <+: (w.serve server).written i := by
    show w.written i <+: accepted server.loop (w.peer i) (w.written i)
    cases peer : w.peer i with
    | none => exact List.prefix_rfl
    | some peer' => exact (each i peer' peer).2
  refine ⟨⟨_, follows.step stepped⟩, steady, joined.counted, joined.booked, joined.asking,
    fun i peer accepted_ => ?_, fun i none => ?_, fun i => ?_, ?_⟩
  · have served := (each i peer accepted_).1
    rw [← accepted_] at served
    exact served
  · have free : w.peer i = Option.none := none
    show accepted server.loop (w.peer i) (w.written i) = []
    rw [free]
    exact joined.alone i free
  · exact (joined.within i).trans (grown i).length_le
  · obtain ⟨told, tallied⟩ := joined.tallied
    refine ⟨told, ?_⟩
    have same : (fun i => ((w.serve server).written i).take (w.read i)) =
        fun i => (w.written i).take (w.read i) := by
      funext i
      obtain ⟨more, whole⟩ := grown i
      rw [← whole, List.take_append_of_le_length (joined.within i)]
    rw [← same] at tallied
    exact tallied

/-- The server accepts a connection of the client. -/
theorem accept {server : Loop.Watched σ} {i : Fin n} {fd id : Nat} {now : Int}
    {events : List Loop.Event} (joined : Joined handler requests opts expectStatus w)
    (free : w.peer i = none)
    (stepped : w.server.step handler (.connected fd id now) = some (server, events)) :
    Joined handler requests opts expectStatus
      { w.serve server with peer := Function.update w.peer i (some { fd, id }) } := by
  have later := joined.serve stepped fun _ _ _ _ _ message => by cases message
  obtain ⟨past, follows⟩ := joined.follows
  refine { later with served := fun j peer accepted_ => ?_, alone := fun j none => ?_ }
  · by_cases here : j = i
    · subst here
      cases (Function.update_self _ _ _).symm.trans accepted_
      rw [later.alone j free]
      exact Served.accept follows stepped
    · exact later.served j peer ((Function.update_of_ne here _ _).symm.trans accepted_)
  · by_cases here : j = i
    · subst here
      cases (Function.update_self _ _ _).symm.trans none
    · exact later.alone j ((Function.update_of_ne here _ _).symm.trans none)

/-- The client takes a step. -/
theorem client {client : Bench.Load n} {read : Fin n → Nat}
    (joined : Joined handler requests opts expectStatus w)
    (counted : Bench.Load.Counted [] client) (booked : Bench.Load.Booked opts client)
    (asking : ∀ i, Bench.Asking (requests i).render (client.conns i))
    (grown : ∀ i, (w.client.conns i).sent <+: (client.conns i).sent)
    (within : ∀ i, read i ≤ (w.written i).length)
    (tallied : ∃ told, Bench.Load.Tallied expectStatus told
      (fun i => (w.written i).take (read i)) client) :
    Joined handler requests opts expectStatus { w with client, read } :=
  { joined with
    counted, booked, asking, within, tallied
    served := fun i peer accepted_ => (joined.served i peer accepted_).later (grown i) }

/-- It receives nothing. -/
theorem onward {client : Bench.Load n} {action : Bench.Action n}
    (joined : Joined handler requests opts expectStatus w)
    (requestsMode : opts.durationMode = false)
    (stepped : w.client.step action = some (client, ()))
    (honest : w.client.Honest action)
    (later : Bench.Load.Onward (fun i => (requests i).render) w.client client) :
    Joined handler requests opts expectStatus { w with client } := by
  obtain ⟨told, tallied⟩ := joined.tallied
  exact joined.client (joined.counted.step stepped).1
    (joined.booked.step requestsMode honest stepped) later.asking later.grown joined.within
    ⟨told, tallied.onward later⟩

/-- An event on a connection of the client. -/
theorem event {i : Fin n} {events : UInt32} {soError : Bench.SoError} {os : Bench.Os}
    (joined : Joined handler requests opts expectStatus w)
    (requestsMode : opts.durationMode = false) (plain : w.Plain)
    (offered : w.Offers (.event i events soError os)) :
    Joined handler requests opts expectStatus
      { w with
        client := w.client.onConn i os (Bench.Turn.onEvent events soError)
        read := w.readAfter (.event i events soError os) } := by
  have stepped : w.client.step (.event i events soError os) =
      some (w.client.onConn i os (Bench.Turn.onEvent events soError), ()) := rfl
  unfold readAfter
  dsimp only
  cases reads : Bench.Turn.reads events
      { client := w.client.client, conn := w.client.conns i, os } with
  | false =>
      rw [if_neg Bool.false_ne_true]
      refine joined.onward requestsMode stepped (fun read => ?_)
        (Bench.Load.Onward.onConn joined.asking i os
          (Bench.Serving.onEvent reads (joined.asking i) soError))
      cases reads.symm.trans read
  | true =>
      rw [if_pos rfl]
      obtain ⟨told, tallied⟩ := joined.tallied
      obtain ⟨responses, part, few⟩ := joined.stream plain i
      obtain ⟨more, read, readTo, tallied', asking, grown⟩ :=
        tallied.onEvent joined.asking reads soError rfl (joined.within i) (offered reads) part
      have size : w.read i + ((Bench.Turn.doRead
            { client := w.client.client, conn := w.client.conns i, os }).2.client.totalBytesIn -
          w.client.client.totalBytesIn) = w.read i + read := by
        rw [readTo.octets, Nat.add_sub_cancel_left]
      have honest : w.client.Honest (.event i events soError os) := by
        intro _
        have first := (readTo.decoded.first ((List.take_prefix _ _).trans part)).length_le
        rw [List.length_map, List.length_map, ← readTo.decoded.number] at first
        rw [readTo.issued]
        exact first.trans few
      have same : Function.update (fun j => (w.written j).take (w.read j)) i
            ((w.written i).take (w.read i + read)) =
          fun j => (w.written j).take (Function.update w.read i (w.read i + read) j) :=
        (funext (Function.apply_update (fun j => (w.written j).take) w.read i _)).symm
      rw [same] at tallied'
      rw [size]
      refine joined.client (joined.counted.step stepped).1
        (joined.booked.step requestsMode honest stepped) asking grown ?_ ⟨_, tallied'⟩
      rw [Function.forall_update_iff _ fun (j : Fin n) (read : Nat) =>
        read ≤ (w.written j).length]
      exact ⟨readTo.within, fun j _ => joined.within j⟩

theorem step {action : Action σ n} (joined : Joined handler requests opts expectStatus w)
    (requestsMode : opts.durationMode = false) (plain : w.Plain)
    (stepped : w.step handler action = some (m, ())) :
    Joined handler requests opts expectStatus m := by
  cases action with
  | accept i fd id now =>
      obtain ⟨free, server, events, taken, rfl⟩ := step_accept stepped
      exact joined.accept free taken
  | server action =>
      obtain ⟨delivers, server, events, taken, rfl⟩ := step_server stepped
      refine joined.serve taken fun i peer accepted_ fd data message => ?_
      subst message
      exact delivers i peer accepted_
  | client action =>
      obtain ⟨offered, client, taken, rfl⟩ := step_client stepped
      cases action with
      | event i events soError os =>
          cases taken
          exact joined.event requestsMode plain offered
      | maybeStart os =>
          have later := Bench.Load.Onward.maybeStart joined.asking os
          have same : w.client.step (.maybeStart os) = some (w.client.maybeStart os, ()) := rfl
          cases taken
          exact joined.onward requestsMode same trivial later
      | periodicScan =>
          have later := Bench.Load.Onward.periodicScan joined.asking
          have same : w.client.step .periodicScan = some (w.client.periodicScan, ()) := rfl
          cases taken
          exact joined.onward requestsMode same trivial later

end Joined

/-- What is plain in the end was plain before. -/
theorem Plain.before {handler : Option (Handler σ)} {w m : Loopback σ n} {action : Action σ n}
    (plain : m.Plain) (stepped : w.step handler action = some (m, ())) : w.Plain := by
  intro i peer accepted_ resp member
  cases action with
  | accept j fd id now =>
      obtain ⟨free, server, events, taken, rfl⟩ := step_accept stepped
      have other : i ≠ j := by
        rintro rfl
        cases free.symm.trans accepted_
      exact plain i peer ((Function.update_of_ne other _ _).trans accepted_) resp
        ((Loop.Watched.replies_step taken peer.id).subset member)
  | server action =>
      obtain ⟨_, server, events, taken, rfl⟩ := step_server stepped
      exact plain i peer accepted_ resp
        ((Loop.Watched.replies_step taken peer.id).subset member)
  | client action =>
      obtain ⟨_, client, _, rfl⟩ := step_client stepped
      exact plain i peer accepted_ resp member

/-! ## Every run -/

theorem joined_start {handler : Option (Handler σ)} {app : σ} {expectStatus : List Int}
    {clock : Nat → UInt64} {opts : Bench.Options}
    {outcomes : Fin n → Bench.Outcome × Bool} {s : Bench.Load n}
    {requests : Fin n → HttpParser.ClientRequest} (requestsMode : opts.durationMode = false)
    (rendered : ∀ i : Fin n, opts.request i = (requests i).render)
    (setUp : Bench.Load.setupConns (Bench.Client.initial true expectStatus clock opts)
      outcomes = some s) :
    Joined handler requests opts expectStatus { server := { loop := { app } }, client := s } := by
  have counted := Bench.Load.counted_of_setupConns setUp
  have unused := Bench.Load.unused_of_setupConns setUp
  refine ⟨⟨_, Loop.follows_start app⟩, Loop.steady_of_quiet fun fd entry found => ?_, counted,
    Bench.Load.booked_of_setupConns requestsMode setUp, fun i => ?_,
    fun i peer none => (by cases none), fun _ _ => rfl, fun _ => Nat.le_refl 0,
    fun _ => [], ?_⟩
  · cases (AList.lookup_empty fd).symm.trans found
  · rw [← rendered]
    exact unused.asking counted i
  · refine ⟨unused.mode, unused.expected, fun status => ?_, ?_, ?_, fun i => ?_⟩
    · simp [unused.hist]
    · simp [unused.ok]
    · simp [unused.badStatus]
    · obtain ⟨inBytes, inOff, doneReq, _⟩ := unused.buffers i
      exact Bench.decoded_new inBytes inOff doneReq

theorem Plain.start {handler : Option (Handler σ)} {w m : Loopback σ n}
    {actions : List (Action σ n)} {trace : List (Action σ n × Unit)} (plain : m.Plain)
    (ran : Machine.run (Loopback.step handler) w actions = some (m, trace)) : w.Plain := by
  induction actions generalizing w trace with
  | nil =>
      cases ran
      exact plain
  | cons action actions ih =>
      obtain ⟨next, ⟨⟩, rest, stepped, continued, rfl⟩ := Machine.run_cons_eq_some.mp ran
      exact (ih continued).before stepped

theorem Joined.run {handler : Option (Handler σ)} {requests : Fin n → HttpParser.ClientRequest}
    {opts : Bench.Options} {expectStatus : List Int} {w m : Loopback σ n}
    {actions : List (Action σ n)} {trace : List (Action σ n × Unit)}
    (joined : Joined handler requests opts expectStatus w)
    (requestsMode : opts.durationMode = false) (plain : m.Plain)
    (ran : Machine.run (Loopback.step handler) w actions = some (m, trace)) :
    Joined handler requests opts expectStatus m := by
  induction actions generalizing w trace with
  | nil =>
      cases ran
      exact joined
  | cons action actions ih =>
      obtain ⟨next, ⟨⟩, rest, stepped, continued, rfl⟩ := Machine.run_cons_eq_some.mp ran
      exact ih (joined.step requestsMode ((plain.start continued).before stepped) stepped) continued

/-- What the server has done is a run of the server. -/
theorem server_run {handler : Option (Handler σ)} {w m : Loopback σ n}
    {actions : List (Action σ n)} {trace : List (Action σ n × Unit)}
    (ran : Machine.run (step handler) w actions = some (m, trace)) :
    ∃ (taken : List (Loop.Action σ)) (shown : List (Loop.Action σ × List Loop.Event)),
      Machine.run (Loop.Watched.step handler) w.server taken = some (m.server, shown) ∧
        ∀ app, .elsewhere app ∈ taken → .server (.elsewhere app) ∈ actions := by
  induction actions generalizing w trace with
  | nil =>
      cases ran
      exact ⟨[], [], rfl, fun app none => by cases none⟩
  | cons action actions ih =>
      obtain ⟨next, ⟨⟩, rest, stepped, continued, rfl⟩ := Machine.run_cons_eq_some.mp ran
      obtain ⟨taken, shown, later, others⟩ := ih continued
      cases action with
      | accept i fd id now =>
          obtain ⟨_, server, events, first, rfl⟩ := step_accept stepped
          refine ⟨.connected fd id now :: taken, (.connected fd id now, events) :: shown,
            Machine.run_cons_eq_some.mpr ⟨server, events, shown, first, later, rfl⟩,
            fun app member => ?_⟩
          rcases List.mem_cons.mp member with same | member
          · cases same
          · exact List.mem_cons_of_mem _ (others app member)
      | server action =>
          obtain ⟨_, server, events, first, rfl⟩ := step_server stepped
          refine ⟨action :: taken, (action, events) :: shown,
            Machine.run_cons_eq_some.mpr ⟨server, events, shown, first, later, rfl⟩,
            fun app member => ?_⟩
          rcases List.mem_cons.mp member with same | member
          · exact same ▸ List.mem_cons_self ..
          · exact List.mem_cons_of_mem _ (others app member)
      | client action =>
          obtain ⟨_, client, _, rfl⟩ := step_client stepped
          exact ⟨taken, shown, later, fun app member =>
            List.mem_cons_of_mem _ (others app member)⟩

/-- What the client knows of a connection agrees with what happened on the
server: the handler got this request and no other, the client has been told the
first of its answers, and at most one error behind them. -/
structure Agrees (w : Loopback σ n) (r : HttpParser.ClientRequest) (i : Fin n)
    (told : List Int) : Prop where
  number : (w.client.conns i).doneReq = told.length
  waiting : Bench.parseOne (w.client.conns i).inBytes (w.client.conns i).inOff = .needMore
  alone : w.peer i = none → told = []
  answered : ∀ peer, w.peer i = some peer →
    let log := w.server.logs peer.id
    log.requests = List.replicate log.replies.length r.request ∧
      ∃ errs : List HttpParser.Error, errs.length ≤ 1 ∧
        log.replies.length + errs.length ≤ (w.client.conns i).sentReq ∧
        told <+: log.replies.map (·.status) ++ errs.map (·.status)

theorem Joined.agrees {handler : Option (Handler σ)}
    {requests : Fin n → HttpParser.ClientRequest} {opts : Bench.Options}
    {expectStatus : List Int} {w : Loopback σ n} {told : Fin n → List Bench.PlainResponse}
    (joined : Joined handler requests opts expectStatus w) (plain : w.Plain)
    (tallied : Bench.Load.Tallied expectStatus told
      (fun i => (w.written i).take (w.read i)) w.client) (i : Fin n) :
    Agrees w (requests i) i ((told i).map (·.status)) where
  number := by
    rw [List.length_map]
    exact (tallied.decoded i).number
  waiting := (tallied.decoded i).waiting
  alone none := by
    have nothing : (w.written i).take (w.read i) <+:
        ([] : List Bench.PlainResponse).flatMap (·.serialize) := by
      rw [joined.alone i none, List.take_nil]
      exact List.nil_prefix
    exact List.prefix_nil.mp ((tallied.decoded i).first nothing)
  answered peer accepted_ := by
    obtain ⟨given, errs, responses, replied, same, part⟩ :=
      (joined.served i peer accepted_).responses (joined.asking i).sent_issued
        (plain i peer accepted_)
    have asked := replied.asked
    rw [List.length_replicate] at asked
    refine ⟨?_, errs, replied.once, asked, ?_⟩
    · have handled := replied.handled
      rwa [List.take_replicate, Nat.min_eq_left (by omega), List.map_replicate] at handled
    · have first := (tallied.decoded i).first ((List.take_prefix _ _).trans part)
      have statuses : responses.map (·.status) =
          (w.server.logs peer.id).replies.map (·.status) ++ errs.map (·.status) := by
        have mapped := congrArg (List.map HttpResponse.status) same
        rw [List.map_map, List.map_append, List.map_map] at mapped
        exact mapped
      rwa [statuses] at first

/-- All connections agree, the statistics are those of what the client has been
told, no connection has more answers than requests, and when no connection is left,
every request is counted once. -/
structure Agreement (w : Loopback σ n) (requests : Fin n → HttpParser.ClientRequest)
    (opts : Bench.Options) (expectStatus : List Int) : Prop where
  told : ∃ told : Fin n → List Int, (∀ i, Agrees w (requests i) i (told i)) ∧
    (∀ status, w.client.client.statusHist status = ∑ i, (told i).count status) ∧
    w.client.client.ok = ∑ i, (told i).countP (· ∈ expectStatus) ∧
    w.client.client.badStatus = ∑ i, (told i).countP (· ∉ expectStatus)
  flight : ∀ i, let c := w.client.conns i
    c.inflight = (c.sentReq : Int) - c.doneReq ∧ 0 ≤ c.inflight ∧
    c.inflight ≤ opts.pipeline ∧ c.sentReq ≤ opts.requests ∧
    (c.state = .done → c.doneReq = opts.requests)
  settled : w.client.client.aliveCount = 0 →
    w.client.client.ok + w.client.client.badStatus + w.client.client.failed =
      n * opts.requests

theorem Joined.agreement {handler : Option (Handler σ)}
    {requests : Fin n → HttpParser.ClientRequest} {opts : Bench.Options}
    {expectStatus : List Int} {w : Loopback σ n}
    (joined : Joined handler requests opts expectStatus w) (plain : w.Plain) :
    Agreement w requests opts expectStatus where
  told := by
    obtain ⟨told, tallied⟩ := joined.tallied
    exact ⟨fun i => (told i).map (·.status), joined.agrees plain tallied, tallied.hist,
      tallied.ok, tallied.badStatus⟩
  flight i := by
    have flight := joined.booked.flight i
    have head := flight.head
    have queue := flight.queue
    exact ⟨flight.pending, by omega, flight.room, flight.bound, flight.finished⟩
  settled none := by
    apply joined.booked.settled
    apply joined.counted.barrier.ended.mp
    rw [Bench.Load.running, none]
    exact Nat.lt_irrefl 0

/-- In every run of the client in HTTP mode, with a fixed number of requests,
against the server, the client finds nothing wrong with what it receives, and
both sides agree on what has been asked and answered, if the requests are
sendable and the handler's answers plain.  As in `Loop.run_sessions`, a
descriptor of the server is taken to stand for its connection. -/
theorem run_agrees {handler : Option (Handler σ)} {app : σ} {expectStatus : List Int}
    {clock : Nat → UInt64} {opts : Bench.Options} {http : Bench.RequestOptions}
    {outcomes : Fin n → Bench.Outcome × Bool} {s : Bench.Load n} {w : Loopback σ n}
    {actions : List (Action σ n)} {trace : List (Action σ n × Unit)}
    (requestsMode : opts.durationMode = false) (sendable : ∀ i : Fin n, http.Sendable i)
    (built : ∀ i : Fin n, opts.request i = http.buildHttpRequest i)
    (setUp : Bench.Load.setupConns (Bench.Client.initial true expectStatus clock opts)
      outcomes = some s)
    (ran : Machine.run (step handler) { server := { loop := { app } }, client := s } actions =
      some (w, trace)) (plain : w.Plain) :
    Agreement w (fun i => http.clientRequest i (sendable i)) opts expectStatus := by
  have rendered (i : Fin n) : opts.request i = (http.clientRequest i (sendable i)).render :=
    (built i).trans (http.render_message i).symm
  exact ((joined_start requestsMode rendered setUp).run requestsMode plain ran).agreement plain

def getOwn : Bench.RequestOptions where
  host := lit "h"
  port := 80
  method := lit "GET"
  path := lit "/%d"
  body := []

/-- Two requests, both sent at once. -/
def twoGets : Bench.Options where
  requests := 2
  pipeline := 2
  size := 1
  some_octet := Nat.one_pos
  verify := false
  durationMode := false
  durationNs := 0
  timeoutNs := 1000
  connectTimeoutNs := 1000
  echoPayload := [97]
  behind := fun _ => 0
  request := getOwn.buildHttpRequest

/-- Two requests arrive in two chunks; the client reads the first response in two. -/
def inParts (σ : Type) (request first second : Bytes) : List (Action σ 1) :=
  let i : Fin 1 := ⟨0, Nat.one_pos⟩
  [.accept i 5 1 0, .client (.maybeStart fun _ => { sends := [.octets 1000] }),
    .server (.message 5 (request ++ request.take 10)),
    .server (.run none 0), .server (.run none 0), .server (.run (some (.sent 30)) 0),
    .client (.event i Channel.epollIn .none { recvs := [.octets (first.take 30)] }),
    .server (.run (some (.sent (first.length - 30))) 0), .server (.run none 0),
    .server (.run none 0), .server (.run none 0),
    .server (.message 5 (request.drop 10)), .server (.run none 0),
    .server (.run none 0), .server (.run (some (.sent second.length)) 0),
    .client (.event i Channel.epollIn .none { recvs := [.octets (first.drop 30 ++ second)] })]

def getsInParts : List (Action Nat 1) :=
  let one : HttpResponse := { body := lit "1" }
  inParts Nat (getOwn.buildHttpRequest 0) Loop.zeroPage.serialize one.serialize

theorem run_agrees_getsInParts :
    ∃ (sendable : getOwn.Sendable 0) (s : Bench.Load 1) (w : Loopback Nat 1)
        (trace : List (Action Nat 1 × Unit)) (told : Fin 1 → List Int),
      Bench.Load.setupConns (Bench.Client.initial true [200] (fun _ => 0) twoGets)
          (fun _ => (.connected, true)) = some s ∧
        Machine.run (step (some Loop.numbered)) { server := { loop := { app := 0 } }, client := s }
          getsInParts = some (w, trace) ∧
        (told 0).length = 2 ∧ w.peer 0 = some { fd := 5, id := 1 } ∧
        Agrees w (getOwn.clientRequest 0 sendable) 0 (told 0) ∧ w.client.client.ok = 2 ∧
        w.client.client.ok + w.client.client.badStatus + w.client.client.failed = 1 * 2 := by
  have sendable (i : Fin 1) : getOwn.Sendable i := by
    rw [Fin.fin_one_eq_zero i]
    exact ⟨by decide, by decide, by decide, by decide, by decide⟩
  have ends : ((Bench.Load.setupConns (Bench.Client.initial true [200] (fun _ => 0) twoGets)
      (fun _ : Fin 1 => (.connected, true))).any fun s =>
        (Machine.run (step (some Loop.numbered))
          { server := { loop := { app := 0 } }, client := s } getsInParts).any fun r =>
            decide (r.1.Plain ∧ r.1.client.client.aliveCount = 0 ∧ r.1.client.client.ok = 2 ∧
              (r.1.client.conns 0).doneReq = 2 ∧
              r.1.peer 0 = some { fd := 5, id := 1 })) = true := by
    decide +kernel
  obtain ⟨s, setUp, ends⟩ := (Option.any_eq_true _ _).mp ends
  obtain ⟨⟨w, trace⟩, ran, ends⟩ := (Option.any_eq_true _ _).mp ends
  obtain ⟨plain, alive, ok, number, peer⟩ := of_decide_eq_true ends
  obtain ⟨⟨told, agrees, _⟩, _, settled⟩ :=
    run_agrees rfl sendable (fun _ => rfl) setUp ran plain
  exact ⟨sendable 0, s, w, trace, told, setUp, ran, (agrees 0).number.symm.trans number, peer,
    agrees 0, ok, settled alive⟩

end Loopback

end MiniNet
