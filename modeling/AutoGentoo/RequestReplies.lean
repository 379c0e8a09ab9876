import AutoGentoo.FrameStream
import AutoGentoo.ServerRest

/-! The replies of a TCPServer: the connections behind the descriptors, what the workers
have on their stacks, and the calls of the callback. -/

namespace AutoGentoo

open GuardedRun

/-- What a client sends, and how it comes in. -/
structure Sender where
  message : MessageFrame
  padding : UInt32
  split : Split

/-- What a worker has done for the connection of a request while it held the interpreter: it has
called the callback, which has returned or raised, or has found that none is set. -/
structure CallbackCall where
  connection : Option Nat
  message : MessageFrame
  called : Bool
  answer : Option MessageFrame

/-- What a step is given from outside: what is in memory, whether a callback is set (Python may
call `set_request_callback` at any time), and its answer. -/
structure Given where
  garbage : Garbage
  callback : Bool
  answer : Option MessageFrame
  padding : UInt32
  -- `response.size`, where nothing has been written to it
  size : UInt64

/-- `sockets` are the connections of the open descriptors, by the order of arrival;
`message` and `response` are the variables of each worker, and `written` is what has been
sent over each connection. -/
structure RequestServer where
  server : Server
  sockets : Nat → Option Nat
  message : Nat → MessageFrame
  response : Nat → Option MessageFrame
  calls : List CallbackCall
  written : Nat → List UInt8
  -- by memory that is freed twice
  crashed : Bool

namespace RequestServer

def start (workers tail : Nat) : RequestServer where
  server := .start workers tail
  sockets := fun _ => none
  message := fun _ => .zeros
  response := fun _ => none
  calls := []
  written := fun _ => []
  crashed := false

/-- The connection of the request at an address. -/
def connection (self : RequestServer) (req : Nat) : Option Nat :=
  (self.server.client req).bind self.sockets

def callsOf (self : RequestServer) (k : Nat) : List CallbackCall :=
  self.calls.filter fun call => call.connection = some k

/-- The reads of a message; there is nothing to read where the descriptor is closed. -/
def receive (senders : Nat → Sender) (self : RequestServer) (req : Nat) (garbage : Garbage) : MessageFrame :=
  match self.connection req with
  | some k => readFrame (senders k).split garbage (writeFrame (senders k).padding (senders k).message)
  | none => readFrame Exchange.bytewise garbage []

def write (self : RequestServer) (req : Nat) (bytes : List UInt8) : RequestServer :=
  match self.connection req with
  | some k => { self with written := Function.update self.written k (self.written k ++ bytes) }
  | none => self

/-- `close` of the client. -/
def closeClient (self : RequestServer) (req : Nat) : RequestServer :=
  match self.server.client req with
  | some client => { self with sockets := Function.update self.sockets client none }
  | none => self

/-- The reply, and what is freed after it: `message.data` for the message, and again for
the response. -/
def reply (self : RequestServer) (w req : Nat) (given : Given) (server : Server) : RequestServer :=
  let size := match self.response w with
    | some response => response.size
    | none => given.size
  let sent := self.write req (writeReply given.padding (self.response w))
  if (self.message w).size ≠ 0 ∧ size ≠ 0 then { sent with crashed := true }
  else { sent.closeClient req with server := server }

/-- A step of a worker, which takes the server to a new state. -/
def workerStep (senders : Nat → Sender) (self : RequestServer) (w : Nat) (given : Given) (server : Server) :
    RequestServer :=
  match self.server.workers[w]? with
  | some (.reading req) => { self with
      server := server
      message := Function.update self.message w (self.receive senders req given.garbage) }
  | some (.calling req) =>
    let answer := if given.callback then given.answer else none
    { self with
      server := server
      response := Function.update self.response w answer
      calls := self.calls ++ [{
        connection := self.connection req
        message := self.message w
        called := given.callback
        answer := answer }] }
  | some (.replying req) => self.reply w req given server
  | _ => { self with server := server }

/-- A step of the server. `accept` returns a descriptor that is not open. -/
def step (senders : Nat → Sender) (self : RequestServer) (input : ServerEvent × Given) :
    Option RequestServer :=
  if self.crashed then none
  else
    (self.server.step input.1).bind fun server =>
      match input.1 with
      | .worker w => some (self.workerStep senders w input.2 server)
      | .accept (some client) =>
        if self.sockets client = none then
          some { self with
            server := server
            sockets := Function.update self.sockets client (some self.server.connections.length) }
        else none
      | _ => some { self with server := server }

variable {senders : Nat → Sender}

/-- A message a worker may have read of a connection. -/
def Reads (senders : Nat → Sender) (k : Nat) (message : MessageFrame) : Prop :=
  ∃ garbage, message =
    readFrame (senders k).split garbage (writeFrame (senders k).padding (senders k).message)

/-- No callback has been called for the connection, and nothing sent. -/
def Untouched (s : RequestServer) (k : Nat) : Prop :=
  s.written k = [] ∧ s.callsOf k = []

/-- The callback has been called once for the connection, with the message, or was not set, and
there is no answer. -/
def Asked (s : RequestServer) (k : Nat) (message : MessageFrame) (answer : Option MessageFrame) : Prop :=
  ∃ called, s.callsOf k = [{ connection := some k, message, called, answer }] ∧ (called = false → answer = none)

/-- The callback has been asked once for the connection, with what the client has sent, and
its answer is what has been sent back, and nothing else. -/
structure Replied (senders : Nat → Sender) (s : RequestServer) (k : Nat) (message : MessageFrame)
    (answer : Option MessageFrame) : Prop where
  reads : Reads senders k message
  asked : s.Asked k message answer
  sent : ∃ padding, s.written k = writeReply padding answer

/-- A reply after which no memory is freed twice, whatever is in it. -/
def Answered (senders : Nat → Sender) (s : RequestServer) (k : Nat) : Prop :=
  ∃ message answer, s.Replied senders k message answer ∧
    (message.size = 0 ∨ ∀ response, answer = some response → response.size = 0)

/-- What has been done for the connection by the worker that has its request. -/
def Holding (senders : Nat → Sender) (s : RequestServer) (w k : Nat) : Worker → Prop
  | .reading _ => s.Untouched k
  | .ensuring _ | .calling _ | .yielding _ => s.Untouched k ∧ Reads senders k (s.message w)
  | .replying _ => s.written k = [] ∧ Reads senders k (s.message w) ∧ s.Asked k (s.message w) (s.response w)
  | .test | .locking | .waiting | .woken | .exited => True

/-- The request a worker has. -/
def requestOf (s : RequestServer) (w : Nat) : Option Nat := s.server.workers[w]?.bind Worker.request

/-- The connections in the order of arrival: those whose requests have been popped are
answered or with a worker, and nothing has been done for the others. -/
structure Wired (senders : Nat → Sender) (s : RequestServer) : Prop where
  queue : ∀ j client, s.server.popped.length ≤ j → s.server.accepted[j]? = some client →
    s.sockets client = some j
  hand : ∀ client, s.server.acceptor = .queueing client → s.sockets client = some s.server.accepted.length
  later : ∀ k, s.server.popped.length ≤ k → s.Untouched k
  workers : ∀ w worker req, s.server.workers[w]? = some worker → worker.request = some req →
    ∃ k, s.connection req = some k ∧ k < s.server.popped.length ∧ s.Holding senders w k worker
  distinct : ∀ w w' req req', s.requestOf w = some req → s.requestOf w' = some req' →
    s.connection req = s.connection req' → w = w'
  earlier : ∀ k, k < s.server.popped.length → s.Answered senders k ∨
    ∃ w req, s.requestOf w = some req ∧ s.connection req = some k

theorem getElem?_set_some {workers : List Worker} {w : Nat} {old new : Worker}
    (h : workers[w]? = some old) : (workers.set w new)[w]? = some new :=
  List.getElem?_set_self (List.getElem?_eq_some_iff.mp h).1

theorem requestOf_eq {s : RequestServer} {w req : Nat} :
    s.requestOf w = some req ↔ ∃ worker, s.server.workers[w]? = some worker ∧ worker.request = some req :=
  Option.bind_eq_some_iff

theorem Asked.congr {s t : RequestServer} {k : Nat} {message : MessageFrame} {answer : Option MessageFrame}
    (h : s.Asked k message answer) (hcalls : t.callsOf k = s.callsOf k) : t.Asked k message answer := by
  obtain ⟨called, hcalled, hnone⟩ := h
  exact ⟨called, hcalls.trans hcalled, hnone⟩

theorem Answered.congr {s t : RequestServer} {k : Nat} (h : s.Answered senders k)
    (hcalls : t.callsOf k = s.callsOf k) (hwritten : t.written k = s.written k) : t.Answered senders k := by
  obtain ⟨message, answer, ⟨hreads, hasked, padding, hsent⟩, hsize⟩ := h
  exact ⟨message, answer, ⟨hreads, hasked.congr hcalls, padding, hwritten.trans hsent⟩, hsize⟩

/-- A step that pops nothing, puts nothing into the queue and closes nothing: what the
workers hold stays with them, and what they have done goes on as it should. -/
theorem Wired.frame {s t : RequestServer} (hs : s.Wired senders)
    (hpopped : t.server.popped = s.server.popped) (haccepted : t.server.accepted = s.server.accepted)
    (hhand : ∀ client, t.server.acceptor = .queueing client → s.server.acceptor = .queueing client)
    (hsockets : t.sockets = s.sockets) (hclient : ∀ req, t.server.client req = s.server.client req)
    (hrequests : ∀ w, t.requestOf w = s.requestOf w)
    (huntouched : ∀ k, s.server.popped.length ≤ k → s.Untouched k → t.Untouched k)
    (hanswered : ∀ k, s.Answered senders k → t.Answered senders k)
    (hholding : ∀ w worker req k, t.server.workers[w]? = some worker → worker.request = some req →
      s.connection req = some k → t.Holding senders w k worker) : t.Wired senders := by
  have hconnection : ∀ req, t.connection req = s.connection req := fun req => by
    rw [connection, connection, hclient, hsockets]
  constructor
  · rw [hpopped, haccepted, hsockets]
    exact hs.queue
  · rw [haccepted, hsockets]
    exact fun client hclient => hs.hand client (hhand client hclient)
  · intro k hk
    rw [hpopped] at hk
    exact huntouched k hk (hs.later k hk)
  · intro w worker req hw hreq
    have hrequest : s.requestOf w = some req := hrequests w ▸ requestOf_eq.mpr ⟨worker, hw, hreq⟩
    obtain ⟨old, hold, holdReq⟩ := requestOf_eq.mp hrequest
    obtain ⟨k, hk, hlt, -⟩ := hs.workers w old req hold holdReq
    exact ⟨k, (hconnection req).trans hk, hpopped ▸ hlt, hholding w worker req k hw hreq hk⟩
  · intro w w' req req' hw hw' heq
    rw [hrequests] at hw hw'
    rw [hconnection, hconnection] at heq
    exact hs.distinct w w' req req' hw hw' heq
  · intro k hk
    rw [hpopped] at hk
    rcases hs.earlier k hk with h | ⟨w, req, hw, hreq⟩
    · exact .inl (hanswered k h)
    · exact .inr ⟨w, req, (hrequests w).trans hw, (hconnection req).trans hreq⟩

/-- A step of the server alone, which leaves the workers their requests. -/
theorem Wired.idle {s : RequestServer} {server : Server} (hs : s.Wired senders)
    (hpopped : server.popped = s.server.popped) (haccepted : server.accepted = s.server.accepted)
    (hhand : ∀ client, server.acceptor = .queueing client → s.server.acceptor = .queueing client)
    (hclient : ∀ req, server.client req = s.server.client req)
    (hworkers : ∀ w worker, server.workers[w]? = some worker →
      ∃ old, s.server.workers[w]? = some old ∧ worker.request = old.request ∧
        ∀ k, s.Holding senders w k old → s.Holding senders w k worker)
    (hlength : server.workers.length = s.server.workers.length) :
    ({ s with server := server } : RequestServer).Wired senders := by
  refine hs.frame hpopped haccepted hhand rfl hclient (fun w => ?_) (fun _ _ h => h)
    (fun k h => h.congr rfl rfl) fun w worker req k hw hreq hk => ?_
  · rw [requestOf, requestOf]
    cases hw : server.workers[w]? with
    | none =>
      have hold : s.server.workers[w]? = none := by
        rw [List.getElem?_eq_none_iff] at hw ⊢
        omega
      rw [hold]
    | some worker =>
      obtain ⟨old, hold, hreq, -⟩ := hworkers w worker hw
      rw [hold, Option.bind_some, Option.bind_some, hreq]
  · obtain ⟨old, hold, hsame, hkeeps⟩ := hworkers w worker hw
    obtain ⟨k', hk', -, hholding⟩ := hs.workers w old req hold (hsame ▸ hreq)
    obtain rfl : k' = k := Option.some.inj (hk'.symm.trans hk)
    exact hkeeps k' hholding

theorem Holding.congr {s t : RequestServer} {w k : Nat} {worker : Worker}
    (h : s.Holding senders w k worker) (hcalls : t.callsOf k = s.callsOf k)
    (hwritten : t.written k = s.written k) (hmessage : t.message w = s.message w)
    (hresponse : t.response w = s.response w) : t.Holding senders w k worker := by
  cases worker with
  | reading req => exact ⟨hwritten.trans h.1, hcalls.trans h.2⟩
  | ensuring req | calling req | yielding req =>
    exact ⟨⟨hwritten.trans h.1.1, hcalls.trans h.1.2⟩, hmessage ▸ h.2⟩
  | replying req =>
    obtain ⟨hempty, hreads, hasked⟩ := h
    refine ⟨hwritten.trans hempty, hmessage ▸ hreads, ?_⟩
    rw [hmessage, hresponse]
    exact hasked.congr hcalls
  | test | locking | waiting | woken | exited => trivial

/-- One worker goes on with the request it has, or without one. -/
theorem Wired.advance {s t : RequestServer} (hs : s.Wired senders) {w : Nat} {old new : Worker}
    (hw : s.server.workers[w]? = some old) (hworkers : t.server.workers = s.server.workers.set w new)
    (hpopped : t.server.popped = s.server.popped) (haccepted : t.server.accepted = s.server.accepted)
    (hacceptor : t.server.acceptor = s.server.acceptor) (hsockets : t.sockets = s.sockets)
    (hclient : ∀ req, t.server.client req = s.server.client req) (hreq : new.request = old.request)
    (huntouched : ∀ k, s.server.popped.length ≤ k → s.Untouched k → t.Untouched k)
    (hanswered : ∀ k, s.Answered senders k → t.Answered senders k)
    (hothers : ∀ v worker req k, v ≠ w → s.server.workers[v]? = some worker → worker.request = some req →
      s.connection req = some k → s.Holding senders v k worker → t.Holding senders v k worker)
    (hnew : ∀ req k, old.request = some req → s.connection req = some k → s.Holding senders w k old →
      t.Holding senders w k new) : t.Wired senders := by
  refine hs.frame hpopped haccepted (fun client h => hacceptor ▸ h) hsockets hclient (fun v => ?_)
    huntouched hanswered fun v worker req k hv hvreq hk => ?_
  · rw [requestOf, requestOf, hworkers]
    by_cases hvw : w = v
    · subst hvw
      rw [getElem?_set_some hw, hw, Option.bind_some, Option.bind_some]
      exact hreq
    · rw [List.getElem?_set_ne hvw]
  · have hholding : ∀ old, s.server.workers[v]? = some old → old.request = some req →
        s.Holding senders v k old := by
      intro old hold holdReq
      obtain ⟨k', hk', -, hholding⟩ := hs.workers v old req hold holdReq
      obtain rfl : k' = k := Option.some.inj (hk'.symm.trans hk)
      exact hholding
    rw [hworkers] at hv
    by_cases hvw : w = v
    · subst hvw
      rw [getElem?_set_some hw] at hv
      obtain rfl : new = worker := Option.some.inj hv
      rw [hreq] at hvreq
      exact hnew req k hvreq hk (hholding old hw hvreq)
    · rw [List.getElem?_set_ne hvw] at hv
      exact hothers v worker req k (Ne.symm hvw) hv hvreq hk (hholding worker hv hvreq)

theorem Wired.setWorker {s : RequestServer} {server : Server} (hs : s.Wired senders) {w : Nat}
    {old new : Worker} (hw : s.server.workers[w]? = some old)
    (hworkers : server.workers = s.server.workers.set w new) (hpopped : server.popped = s.server.popped)
    (haccepted : server.accepted = s.server.accepted) (hacceptor : server.acceptor = s.server.acceptor)
    (hclient : ∀ req, server.client req = s.server.client req) (hreq : new.request = old.request)
    (hkeeps : ∀ k, s.Holding senders w k old → s.Holding senders w k new) :
    ({ s with server := server } : RequestServer).Wired senders := by
  refine hs.advance hw hworkers hpopped haccepted hacceptor rfl hclient hreq (fun _ _ h => h)
    (fun k h => h.congr rfl rfl) (fun v worker _ k _ _ _ _ h => h.congr rfl rfl rfl rfl) ?_
  exact fun _ k _ _ h => (hkeeps k h).congr rfl rfl rfl rfl

/-- The message is what the client of the request has sent. -/
theorem Wired.read {s : RequestServer} (server : Server) (hs : s.Wired senders) {w req : Nat}
    (hw : s.server.workers[w]? = some (.reading req))
    (hworkers : server.workers = s.server.workers.set w (.ensuring req))
    (hpopped : server.popped = s.server.popped) (haccepted : server.accepted = s.server.accepted)
    (hacceptor : server.acceptor = s.server.acceptor)
    (hclient : ∀ req, server.client req = s.server.client req) (garbage : Garbage) :
    ({ s with
      server := server
      message := Function.update s.message w (s.receive senders req garbage) } :
      RequestServer).Wired senders := by
  refine hs.advance hw hworkers hpopped haccepted hacceptor rfl hclient rfl (fun _ _ h => h)
    (fun k h => h.congr rfl rfl) (fun v worker _ k hv _ _ _ h => ?_) fun req' k hreq hk h => ?_
  · exact h.congr rfl rfl (Function.update_of_ne hv _ _) rfl
  · obtain rfl : req = req' := Option.some.inj hreq
    refine ⟨h, garbage, ?_⟩
    simp only [Function.update_self, receive, hk]

theorem callsOf_append (s : RequestServer) (call : CallbackCall) (k : Nat) :
    ({ s with calls := s.calls ++ [call] } : RequestServer).callsOf k =
      s.callsOf k ++ if call.connection = some k then [call] else [] := by
  rw [callsOf, callsOf, List.filter_append, List.filter_singleton]
  by_cases h : call.connection = some k
  · simp [h]
  · simp [h]

/-- The callback returns, or is not set, for the connection of this worker and no other. -/
theorem Wired.release {s : RequestServer} (server : Server) (hs : s.Wired senders) {w req : Nat}
    (hw : s.server.workers[w]? = some (.calling req))
    (hworkers : server.workers = s.server.workers.set w (.replying req))
    (hpopped : server.popped = s.server.popped) (haccepted : server.accepted = s.server.accepted)
    (hacceptor : server.acceptor = s.server.acceptor)
    (hclient : ∀ req, server.client req = s.server.client req) {called : Bool} {answer : Option MessageFrame}
    (hanswer : called = false → answer = none) :
    ({ s with
      server := server
      response := Function.update s.response w answer
      calls := s.calls ++ [{
        connection := s.connection req
        message := s.message w
        called := called
        answer := answer }] } : RequestServer).Wired senders := by
  obtain ⟨k, hk, hlt, huntouched, hreads⟩ := hs.workers w _ req hw rfl
  have hsame : ∀ k', k' ≠ k → ({ s with
      server := server
      response := Function.update s.response w answer
      calls := s.calls ++ [{
        connection := s.connection req
        message := s.message w
        called := called
        answer := answer }] } : RequestServer).callsOf k' = s.callsOf k' := by
    intro k' hne
    refine (callsOf_append s _ k').trans ?_
    rw [if_neg (by simpa [hk] using Ne.symm hne), List.append_nil]
  refine hs.advance hw hworkers hpopped haccepted hacceptor rfl hclient rfl (fun k' hk' h => ?_)
    (fun k' h => ?_) (fun v worker req' k' hv hworker hreq hk' h => ?_) fun req' k' hreq hk' h => ?_
  · exact ⟨h.1, (hsame k' (by omega)).trans h.2⟩
  · refine h.congr (hsame k' ?_) rfl
    rintro rfl
    obtain ⟨_, _, ⟨-, ⟨_, hcalled, -⟩, -⟩, -⟩ := h
    exact absurd (huntouched.2.symm.trans hcalled) (by simp)
  · refine h.congr (hsame k' ?_) rfl rfl (Function.update_of_ne hv _ _)
    rintro rfl
    exact hv (hs.distinct v w req' req (requestOf_eq.mpr ⟨worker, hworker, hreq⟩)
      (requestOf_eq.mpr ⟨_, hw, rfl⟩) (hk'.trans hk.symm))
  · obtain rfl : req = req' := Option.some.inj hreq
    obtain rfl : k = k' := Option.some.inj (hk.symm.trans hk')
    refine ⟨huntouched.1, hreads, called, (callsOf_append s _ k).trans ?_, fun hunset => ?_⟩
    · simp only [huntouched.2, hk, if_true, List.nil_append, Function.update_self]
    · simp only [Function.update_self, hanswer hunset]

/-- The acceptor or `stop` goes on; a broadcast wakes those that have no request. -/
theorem Wired.others {s : RequestServer} {server : Server} (hs : s.Wired senders)
    (hworkers : server.workers = s.server.workers ∨ server.workers = s.server.workers.map Worker.wake)
    (hpopped : server.popped = s.server.popped) (haccepted : server.accepted = s.server.accepted)
    (hhand : ∀ client, server.acceptor = .queueing client → s.server.acceptor = .queueing client)
    (hclient : ∀ req, server.client req = s.server.client req) :
    ({ s with server := server } : RequestServer).Wired senders := by
  refine hs.idle hpopped haccepted hhand hclient (fun w worker hw => ?_) ?_
  · rcases hworkers with h | h
    · rw [h] at hw
      exact ⟨worker, hw, rfl, fun _ hholding => hholding⟩
    · rw [h, List.getElem?_map] at hw
      obtain ⟨old, hold, rfl⟩ := Option.map_eq_some_iff.mp hw
      refine ⟨old, hold, Server.wake_request old, fun k hholding => ?_⟩
      cases old <;> exact hholding
  · rcases hworkers with h | h
    · rw [h]
    · rw [h, List.length_map]

/-- A worker pops the request of the next connection. -/
theorem Wired.pop {s : RequestServer} (hs : s.Wired senders) {w req client : Nat} {memory : Memory Nat}
    {queue : LinkedVector} (hw : s.server.workers[w]? = some .locking)
    (hnext : s.server.accepted[s.server.popped.length]? = some client)
    (hclient : s.server.client req = some client) (hvalues : s.server.memory.SameValues memory) :
    ({ s with server := { s.server with
      memory := memory
      requestQueue := queue
      workers := s.server.workers.set w (.reading req)
      popped := s.server.popped ++ [(w, client)] } } : RequestServer).Wired senders := by
  let t : RequestServer := { s with server := { s.server with
    memory := memory
    requestQueue := queue
    workers := s.server.workers.set w (.reading req)
    popped := s.server.popped ++ [(w, client)] } }
  have hlength : t.server.popped.length = s.server.popped.length + 1 := List.length_append
  have hconnection : ∀ req', t.connection req' = s.connection req' := fun req' =>
    congrArg (Option.bind · s.sockets) (hvalues req')
  have hk : s.connection req = some s.server.popped.length := by
    rw [connection, hclient, Option.bind_some]
    exact hs.queue _ client (Nat.le_refl _) hnext
  have hself : t.requestOf w = some req := by
    simp only [t, requestOf, getElem?_set_some hw, Option.bind_some, Worker.request]
  have hother : ∀ v, v ≠ w → t.requestOf v = s.requestOf v := by
    intro v hv
    simp only [t, requestOf, List.getElem?_set_ne (Ne.symm hv)]
  have hnone : s.requestOf w = none := by
    rw [requestOf, hw]
    rfl
  -- the requests of the others belong to earlier connections
  have hearlier : ∀ v req', v ≠ w → t.requestOf v = some req' →
      ∃ k, s.connection req' = some k ∧ k < s.server.popped.length := by
    intro v req' hv hreq
    obtain ⟨worker, hworker, hreq⟩ := requestOf_eq.mp ((hother v hv).symm.trans hreq)
    obtain ⟨k, hk, hlt, -⟩ := hs.workers v worker req' hworker hreq
    exact ⟨k, hk, hlt⟩
  change t.Wired senders
  constructor
  · intro j c hj hc
    exact hs.queue j c (by omega) hc
  · exact hs.hand
  · intro k hle
    exact hs.later k (by omega)
  · intro v worker req' hv hreq
    by_cases hvw : v = w
    · subst hvw
      obtain rfl : .reading req = worker := by
        simpa only [t, getElem?_set_some hw, Option.some.injEq] using hv
      obtain rfl : req = req' := Option.some.inj hreq
      exact ⟨_, (hconnection req).trans hk, by omega, hs.later _ (Nat.le_refl _)⟩
    · simp only [t, List.getElem?_set_ne (Ne.symm hvw)] at hv
      obtain ⟨k, hk, hlt, hholding⟩ := hs.workers v worker req' hv hreq
      exact ⟨k, (hconnection req').trans hk, by omega, hholding.congr rfl rfl rfl rfl⟩
  · intro v v' req₁ req₂ hv hv' heq
    rw [hconnection, hconnection] at heq
    by_cases hvw : v = w
    · by_cases hvw' : v' = w
      · rw [hvw, hvw']
      · obtain ⟨k, hk', hlt⟩ := hearlier v' req₂ hvw' hv'
        obtain rfl : req = req₁ := Option.some.inj (hself.symm.trans (hvw ▸ hv))
        have := Option.some.inj (hk.symm.trans (heq.trans hk'))
        omega
    · by_cases hvw' : v' = w
      · obtain ⟨k, hk', hlt⟩ := hearlier v req₁ hvw hv
        obtain rfl : req = req₂ := Option.some.inj (hself.symm.trans (hvw' ▸ hv'))
        have := Option.some.inj (hk.symm.trans (heq.symm.trans hk'))
        omega
      · rw [hother v hvw] at hv
        rw [hother v' hvw'] at hv'
        exact hs.distinct v v' req₁ req₂ hv hv' heq
  · intro k hlt
    rcases Nat.lt_or_ge k s.server.popped.length with hold | hge
    · rcases hs.earlier k hold with h | ⟨v, req', hv, hreq⟩
      · exact .inl (h.congr rfl rfl)
      · have hvw : v ≠ w := by
          rintro rfl
          exact absurd (hnone.symm.trans hv) (by simp)
        exact .inr ⟨v, req', (hother v hvw).trans hv, (hconnection req').trans hreq⟩
    · obtain rfl : k = s.server.popped.length := by omega
      exact .inr ⟨w, req, hself, (hconnection req).trans hk⟩

/-- The acceptor opens a connection or puts it into the queue: the workers keep theirs. -/
theorem Wired.grow {s t : RequestServer} (hs : s.Wired senders)
    (hworkers : t.server.workers = s.server.workers) (hpopped : t.server.popped = s.server.popped)
    (hmessage : t.message = s.message) (hresponse : t.response = s.response) (hcalls : t.calls = s.calls)
    (hwritten : t.written = s.written)
    (hconnection : ∀ req k, s.connection req = some k → t.connection req = some k)
    (hqueue : ∀ j client, s.server.popped.length ≤ j → t.server.accepted[j]? = some client →
      t.sockets client = some j)
    (hhand : ∀ client, t.server.acceptor = .queueing client →
      t.sockets client = some t.server.accepted.length) : t.Wired senders := by
  have hcallsOf : ∀ k, t.callsOf k = s.callsOf k := fun k => by rw [callsOf, callsOf, hcalls]
  have hrequests : ∀ w, t.requestOf w = s.requestOf w := fun w => by rw [requestOf, requestOf, hworkers]
  refine ⟨hpopped ▸ hqueue, hhand, fun k hk => ?_, fun w worker req hw hreq => ?_,
    fun w w' req req' hw hw' heq => ?_, fun k hlt => ?_⟩
  · rw [hpopped] at hk
    exact ⟨(congrFun hwritten k).trans (hs.later k hk).1, (hcallsOf k).trans (hs.later k hk).2⟩
  · rw [hworkers] at hw
    obtain ⟨k, hk, hlt, hholding⟩ := hs.workers w worker req hw hreq
    exact ⟨k, hconnection req k hk, hpopped ▸ hlt, hholding.congr (hcallsOf k) (congrFun hwritten k)
      (congrFun hmessage w) (congrFun hresponse w)⟩
  · rw [hrequests] at hw hw'
    obtain ⟨worker, hworker, hreq⟩ := requestOf_eq.mp hw
    obtain ⟨worker', hworker', hreq'⟩ := requestOf_eq.mp hw'
    obtain ⟨k, hk, -⟩ := hs.workers w worker req hworker hreq
    obtain ⟨k', hk', -⟩ := hs.workers w' worker' req' hworker' hreq'
    rw [hconnection req k hk, hconnection req' k' hk'] at heq
    exact hs.distinct w w' req req' hw hw' (hk.trans (heq.trans hk'.symm))
  · rw [hpopped] at hlt
    rcases hs.earlier k hlt with h | ⟨w, req, hw, hreq⟩
    · exact .inl (h.congr (hcallsOf k) (congrFun hwritten k))
    · exact .inr ⟨w, req, (hrequests w).trans hw, hconnection req k hreq⟩

theorem Wired.accept {s : RequestServer} (hs : s.Wired senders) (hintact : s.server.Intact)
    {client : Nat} (ha : s.server.acceptor = .accepting) (hclosed : s.sockets client = none) :
    ({ s with
      server := { s.server with
        acceptor := .queueing client
        connections := s.server.connections ++ [client] }
      sockets := Function.update s.sockets client (some s.server.connections.length) } :
      RequestServer).Wired senders := by
  have hopen : ∀ c k, s.sockets c = some k →
      Function.update s.sockets client (some s.server.connections.length) c = some k := by
    intro c k hc
    have hne : c ≠ client := by
      rintro rfl
      exact absurd (hclosed.symm.trans hc) (by simp)
    rw [Function.update_of_ne hne, hc]
  refine hs.grow rfl rfl rfl rfl rfl rfl (fun req k hreq => ?_)
    (fun j c hj hc => hopen c j (hs.queue j c hj hc)) fun c hc => ?_
  · obtain ⟨c, hc, hk⟩ := Option.bind_eq_some_iff.mp hreq
    exact Option.bind_eq_some_iff.mpr ⟨c, hc, hopen c k hk⟩
  · obtain rfl : client = c := Acceptor.queueing.inj hc
    have hlength : s.server.connections = s.server.accepted := by
      rw [hintact.connections, Server.inHand, ha, List.append_nil]
    simp only [Function.update_self, hlength]

theorem Wired.enqueue {s : RequestServer} (hs : s.Wired senders) {client request : Nat}
    {memory : Memory Nat} {queue : LinkedVector} (ha : s.server.acceptor = .queueing client)
    (hfresh : s.server.memory.Fresh request)
    (hvalues : (s.server.memory.setObject request
      (some { referenceCount := 0, value := client })).SameValues memory) :
    ({ s with server := { s.server with
      memory := memory
      requestQueue := queue
      accepted := s.server.accepted ++ [client]
      acceptor := .notifying } } : RequestServer).Wired senders := by
  refine hs.grow rfl rfl rfl rfl rfl rfl (fun req k hreq => ?_) (fun j c hj hc => ?_)
    fun c hc => Acceptor.noConfusion hc
  · obtain ⟨c, hc, hk⟩ := Option.bind_eq_some_iff.mp hreq
    refine Option.bind_eq_some_iff.mpr ⟨c, (hvalues req).trans ?_, hk⟩
    have hne : req ≠ request := by
      rintro rfl
      rw [Server.client, hfresh.2.2] at hc
      exact absurd hc (by simp)
    rw [Memory.setObject_ne _ hne]
    exact hc
  · rcases Nat.lt_or_ge j s.server.accepted.length with hlt | hge
    · rw [List.getElem?_append_left hlt] at hc
      exact hs.queue j c hj hc
    · rw [List.getElem?_append_right hge, List.getElem?_singleton] at hc
      split_ifs at hc with hj
      obtain rfl : client = c := Option.some.inj hc
      obtain rfl : j = s.server.accepted.length := by omega
      exact hs.hand client ha

/-- The worker replies, closes the connection and frees the request. -/
theorem Wired.reply {s : RequestServer} (hs : s.Wired senders) (hintact : s.server.Intact) {w req : Nat}
    {client k : Nat} (hw : s.server.workers[w]? = some (.replying req))
    (hclient : s.server.client req = some client) (hopen : s.sockets client = some k) (padding : UInt32)
    (hsize : (s.message w).size = 0 ∨ ∀ response, s.response w = some response → response.size = 0) :
    ({ s with
      server := { s.server with
        memory := s.server.memory.setObject req none
        workers := s.server.workers.set w .test }
      sockets := Function.update s.sockets client none
      written := Function.update s.written k (s.written k ++ writeReply padding (s.response w)) } :
      RequestServer).Wired senders := by
  let t : RequestServer := { s with
    server := { s.server with
      memory := s.server.memory.setObject req none
      workers := s.server.workers.set w .test }
    sockets := Function.update s.sockets client none
    written := Function.update s.written k (s.written k ++ writeReply padding (s.response w)) }
  have hk : s.connection req = some k := by
    rw [connection, hclient, Option.bind_some, hopen]
  have hrequest : s.requestOf w = some req := requestOf_eq.mpr ⟨_, hw, rfl⟩
  obtain ⟨k', hk', hlt, hempty, hreads, hasked⟩ := hs.workers w _ req hw rfl
  obtain rfl : k' = k := Option.some.inj (hk'.symm.trans hk)
  have hle : s.server.popped.length ≤ s.server.accepted.length := by
    obtain ⟨l, hl⟩ := hintact.queued
    have hlength := congrArg List.length hl.order
    simp only [List.length_map, List.length_append] at hlength
    omega
  have hstays : ∀ c j, j ≠ k' → s.sockets c = some j → t.sockets c = some j := by
    intro c j hne hc
    have hcne : c ≠ client := by
      rintro rfl
      exact hne (Option.some.inj (hc.symm.trans hopen))
    exact (Function.update_of_ne hcne _ _).trans hc
  have hconnection : ∀ v req' j, v ≠ w → s.requestOf v = some req' → s.connection req' = some j →
      j ≠ k' ∧ t.connection req' = some j := by
    intro v req' j hv hreq hj
    have hne : j ≠ k' := by
      rintro rfl
      exact hv (hs.distinct v w req' req hreq hrequest (hj.trans hk.symm))
    obtain ⟨c, hc, hopen'⟩ := Option.bind_eq_some_iff.mp hj
    have hreqne : req' ≠ req := by
      rintro rfl
      exact hne (Option.some.inj (hj.symm.trans hk))
    refine ⟨hne, Option.bind_eq_some_iff.mpr ⟨c, ?_, hstays c j hne hopen'⟩⟩
    simp only [t, Server.client, Memory.setObject_ne _ hreqne]
    exact hc
  have hother : ∀ v, v ≠ w → t.requestOf v = s.requestOf v := by
    intro v hv
    simp only [t, requestOf, List.getElem?_set_ne (Ne.symm hv)]
  have hself : t.requestOf w = none := by
    simp only [t, requestOf, getElem?_set_some hw, Option.bind_some, Worker.request]
  have hne : ∀ v req', t.requestOf v = some req' → v ≠ w := by
    rintro v req' hv rfl
    exact absurd (hself.symm.trans hv) (by simp)
  have hwritten : ∀ j, j ≠ k' → t.written j = s.written j := fun j hj => Function.update_of_ne hj _ _
  change t.Wired senders
  refine ⟨fun j c (hj : s.server.popped.length ≤ j) hc => hstays c j (by omega) (hs.queue j c hj hc),
    fun c hc => hstays c s.server.accepted.length (by omega) (hs.hand c hc),
    fun j (hj : s.server.popped.length ≤ j) => ?_, fun v worker req' hv hreq => ?_,
    fun v v' req₁ req₂ hv hv' heq => ?_, fun j hj => ?_⟩
  · exact ⟨(hwritten j (by omega)).trans (hs.later j hj).1, (hs.later j hj).2⟩
  · have hvw : v ≠ w := hne v req' (requestOf_eq.mpr ⟨worker, hv, hreq⟩)
    simp only [t, List.getElem?_set_ne (Ne.symm hvw)] at hv
    obtain ⟨j, hj, hlt, hholding⟩ := hs.workers v worker req' hv hreq
    obtain ⟨hjk, hj'⟩ := hconnection v req' j hvw (requestOf_eq.mpr ⟨worker, hv, hreq⟩) hj
    exact ⟨j, hj', hlt, hholding.congr rfl (hwritten j hjk) rfl rfl⟩
  · have hvw := hne v req₁ hv
    have hvw' := hne v' req₂ hv'
    rw [hother v hvw] at hv
    rw [hother v' hvw'] at hv'
    obtain ⟨worker, hworker, hreq⟩ := requestOf_eq.mp hv
    obtain ⟨worker', hworker', hreq'⟩ := requestOf_eq.mp hv'
    obtain ⟨j, hj, -⟩ := hs.workers v worker req₁ hworker hreq
    obtain ⟨j', hj', -⟩ := hs.workers v' worker' req₂ hworker' hreq'
    rw [(hconnection v req₁ j hvw hv hj).2, (hconnection v' req₂ j' hvw' hv' hj').2] at heq
    exact hs.distinct v v' req₁ req₂ hv hv' (hj.trans (heq.trans hj'.symm))
  · by_cases hjk : j = k'
    · subst hjk
      refine .inl ⟨s.message w, s.response w, ⟨hreads, hasked.congr rfl, padding, ?_⟩, hsize⟩
      simp only [t, Function.update_self, hempty, List.nil_append]
    · rcases hs.earlier j hj with h | ⟨v, req', hv, hreq⟩
      · exact .inl (h.congr rfl (hwritten j hjk))
      · have hvw : v ≠ w := by
          rintro rfl
          obtain rfl : req = req' := Option.some.inj (hrequest.symm.trans hv)
          exact hjk (Option.some.inj (hreq.symm.trans hk))
        exact .inr ⟨v, req', (hother v hvw).trans hv, (hconnection v req' j hvw hv hreq).2⟩

/-- A reply to a message with data, itself with data; there `message.data` is freed twice. -/
def FreedTwice (senders : Nat → Sender) (s : RequestServer) (k : Nat) : Prop :=
  ∃ message answer, s.Replied senders k message answer ∧ message.size ≠ 0 ∧
    ∀ response, answer = some response → response.size ≠ 0

/-- What holds of every connection, also after a crash. -/
structure Sound (senders : Nat → Sender) (s : RequestServer) : Prop where
  later : ∀ k, s.server.popped.length ≤ k → s.Untouched k
  replied : ∀ k, s.written k = [] ∨ ∃ message answer, s.Replied senders k message answer
  freed : s.crashed = true → ∃ k, s.FreedTwice senders k

theorem Holding.written {s : RequestServer} {w k req : Nat} {worker : Worker}
    (h : s.Holding senders w k worker) (hreq : worker.request = some req) : s.written k = [] := by
  cases worker with
  | reading | replying => exact h.1
  | ensuring | calling | yielding => exact h.1.1
  | test | locking | waiting | woken | exited => exact absurd hreq (by simp [Worker.request])

theorem Wired.sound {s : RequestServer} (hs : s.Wired senders) (halive : s.crashed = false) :
    s.Sound senders := by
  refine ⟨hs.later, fun k => ?_, fun hcrashed => absurd (halive.symm.trans hcrashed) (by simp)⟩
  rcases Nat.lt_or_ge k s.server.popped.length with hlt | hge
  · rcases hs.earlier k hlt with ⟨message, answer, hreplied, -⟩ | ⟨w, req, hw, hk⟩
    · exact .inr ⟨message, answer, hreplied⟩
    · obtain ⟨worker, hworker, hreq⟩ := requestOf_eq.mp hw
      obtain ⟨k', hk', -, hholding⟩ := hs.workers w worker req hworker hreq
      obtain rfl : k' = k := Option.some.inj (hk'.symm.trans hk)
      exact .inl (hholding.written hreq)
  · exact .inl (hs.later k hge).1

/-- The reply is sent before the crash. -/
theorem Wired.crash {s : RequestServer} (hs : s.Wired senders) (halive : s.crashed = false) {w req k : Nat}
    (hw : s.server.workers[w]? = some (.replying req)) (hk : s.connection req = some k) (padding : UInt32)
    (hmessage : (s.message w).size ≠ 0)
    (hresponse : ∀ response, s.response w = some response → response.size ≠ 0) :
    ({ s with
      written := Function.update s.written k (s.written k ++ writeReply padding (s.response w))
      crashed := true } : RequestServer).Sound senders := by
  obtain ⟨k', hk', hlt, hempty, hreads, hasked⟩ := hs.workers w _ req hw rfl
  obtain rfl : k' = k := Option.some.inj (hk'.symm.trans hk)
  have hsound : s.Sound senders := hs.sound halive
  let t : RequestServer := { s with
    written := Function.update s.written k' (s.written k' ++ writeReply padding (s.response w))
    crashed := true }
  have hreplied : t.Replied senders k' (s.message w) (s.response w) := by
    refine ⟨hreads, hasked.congr rfl, padding, ?_⟩
    simp only [t, Function.update_self, hempty, List.nil_append]
  change t.Sound senders
  refine ⟨fun j (hj : s.server.popped.length ≤ j) => ?_, fun j => ?_,
    fun _ => ⟨k', s.message w, s.response w, hreplied, hmessage, hresponse⟩⟩
  · have hne : j ≠ k' := by omega
    exact ⟨(Function.update_of_ne hne _ _).trans (hs.later j hj).1, (hs.later j hj).2⟩
  · by_cases hjk : j = k'
    · exact .inr ⟨s.message w, s.response w, hjk ▸ hreplied⟩
    · have hsame : t.written j = s.written j := Function.update_of_ne hjk _ _
      rcases hsound.replied j with h | ⟨message, answer, hreads, hasked, padding, hsent⟩
      · exact .inl (hsame.trans h)
      · exact .inr ⟨message, answer, hreads, hasked.congr rfl, padding, hsame.trans hsent⟩

/-- What every step keeps. -/
structure Served (senders : Nat → Sender) (workers : Nat) (s : RequestServer) : Prop where
  running : s.server.Running workers
  wired : s.crashed = false → s.Wired senders
  sound : s.Sound senders

theorem Wired.served {s : RequestServer} {workers : Nat} (hs : s.Wired senders)
    (hrunning : s.server.Running workers) (halive : s.crashed = false) : s.Served senders workers :=
  ⟨hrunning, fun _ => hs, hs.sound halive⟩

theorem Served.worker {s : RequestServer} {server : Server} {workers w : Nat} {given : Given}
    (hs : s.Served senders workers) (halive : s.crashed = false) (hmoves : s.server.Moves (.worker w) server)
    (hrunning : server.Running workers) : (s.workerStep senders w given server).Served senders workers := by
  have hwired : s.Wired senders := hs.wired halive
  generalize hevent : ServerEvent.worker w = event at hmoves
  cases hmoves with
  | test v hw =>
    obtain rfl := ServerEvent.worker.inj hevent
    rw [workerStep, hw]
    refine Wired.served ?_ hrunning halive
    refine hwired.setWorker hw rfl rfl rfl rfl (fun _ => rfl) ?_ fun _ _ => ?_
    · cases s.server.keepAlive <;> rfl
    · cases s.server.keepAlive <;> trivial
  | sleep v hw =>
    obtain rfl := ServerEvent.worker.inj hevent
    rw [workerStep, hw]
    refine Wired.served ?_ hrunning halive
    exact hwired.setWorker hw rfl rfl rfl rfl (fun _ => rfl) rfl fun _ => id
  | pop v req client memory queue hw hnext hclient hvalues =>
    obtain rfl := ServerEvent.worker.inj hevent
    rw [workerStep, hw]
    refine Wired.served ?_ hrunning halive
    exact hwired.pop hw hnext hclient hvalues
  | woken v hw =>
    obtain rfl := ServerEvent.worker.inj hevent
    rw [workerStep, hw]
    refine Wired.served ?_ hrunning halive
    exact hwired.setWorker hw rfl rfl rfl rfl (fun _ => rfl) rfl fun _ => id
  | read v req hw =>
    obtain rfl := ServerEvent.worker.inj hevent
    rw [workerStep, hw]
    refine Wired.served ?_ hrunning halive
    exact hwired.read (s.server.setWorker w (.ensuring req)) hw rfl rfl rfl rfl (fun _ => rfl) given.garbage
  | ensure v req hw hfree =>
    obtain rfl := ServerEvent.worker.inj hevent
    rcases hw with hw | hw
    · rw [workerStep, hw]
      refine Wired.served ?_ hrunning halive
      exact hwired.setWorker hw rfl rfl rfl rfl (fun _ => rfl) rfl fun _ => id
    · rw [workerStep, hw]
      refine Wired.served ?_ hrunning halive
      exact hwired.setWorker hw rfl rfl rfl rfl (fun _ => rfl) rfl fun _ => id
  | release v req hw =>
    obtain rfl := ServerEvent.worker.inj hevent
    rw [workerStep, hw]
    refine Wired.served ?_ hrunning halive
    exact hwired.release { s.server.setWorker w (.replying req) with interpreter := none } hw rfl rfl rfl rfl
      (fun _ => rfl) fun hunset => by rw [hunset]; rfl
  | reply v req hw =>
    obtain rfl := ServerEvent.worker.inj hevent
    obtain ⟨k, hk, -⟩ := hwired.workers w _ req hw rfl
    obtain ⟨client, hclient, hopen⟩ := Option.bind_eq_some_iff.mp hk
    rw [workerStep, hw]
    simp only [RequestServer.reply, write, hk, closeClient, hclient]
    split_ifs with hfreed
    · have hsound := hwired.crash halive hw hk given.padding hfreed.1 fun response hresponse => by
        simpa only [hresponse] using hfreed.2
      exact ⟨hs.running, fun hcrashed => absurd hcrashed (by simp), hsound⟩
    · refine Wired.served ?_ hrunning halive
      refine hwired.reply hs.running.intact hw hclient hopen given.padding ?_
      by_contra hsizes
      push Not at hsizes
      obtain ⟨hmessage, response, hresponse, hsize⟩ := hsizes
      exact hfreed ⟨hmessage, by simpa only [hresponse] using hsize⟩
  | _ => exact absurd hevent (by simp)

theorem Served.step {s t : RequestServer} {workers : Nat} {input : ServerEvent × Given}
    (hs : s.Served senders workers) (h : s.step senders input = some t) : t.Served senders workers := by
  obtain ⟨event, given⟩ := input
  rw [RequestServer.step] at h
  split_ifs at h with hcrashed
  have halive : s.crashed = false := Bool.eq_false_iff.mpr hcrashed
  have hwired : s.Wired senders := hs.wired halive
  obtain ⟨server, hserver, h⟩ := Option.bind_eq_some_iff.mp h
  have hrunning : server.Running workers := hs.running.step hserver
  have hmoves : s.server.Moves event server := hs.running.intact.moves hserver
  cases event with
  | worker w =>
    obtain rfl := Option.some.inj h
    exact hs.worker halive hmoves hrunning
  | spuriousWake w =>
    obtain rfl := Option.some.inj h
    refine Wired.served ?_ hrunning halive
    cases hmoves with
    | spuriousWake _ hw =>
      exact hwired.setWorker hw rfl rfl rfl rfl (fun _ => rfl) rfl fun _ => id
  | yield w =>
    obtain rfl := Option.some.inj h
    refine Wired.served ?_ hrunning halive
    cases hmoves with
    | yield _ req hw => exact hwired.setWorker hw rfl rfl rfl rfl (fun _ => rfl) rfl fun _ => id
  | acceptor =>
    obtain rfl := Option.some.inj h
    refine Wired.served ?_ hrunning halive
    cases hmoves with
    | testAlive ha =>
      refine hwired.others (.inl rfl) rfl rfl (fun client hclient => ?_) fun _ => rfl
      cases hkeep : s.server.keepAlive <;> simp [hkeep] at hclient
    | notify ha => exact hwired.others (.inr rfl) rfl rfl (fun _ => Acceptor.noConfusion) fun _ => rfl
  | accept client =>
    cases hmoves with
    | refuse ha =>
      obtain rfl := Option.some.inj h
      refine Wired.served ?_ hrunning halive
      exact hwired.others (.inl rfl) rfl rfl (fun _ => Acceptor.noConfusion) fun _ => rfl
    | accept c ha =>
      simp only at h
      split_ifs at h with hclosed
      obtain rfl := Option.some.inj h
      refine Wired.served ?_ hrunning halive
      exact hwired.accept hs.running.intact ha hclosed
  | enqueue request node =>
    obtain rfl := Option.some.inj h
    refine Wired.served ?_ hrunning halive
    cases hmoves with
    | enqueue client _ _ memory queue ha hfresh hvalues => exact hwired.enqueue ha hfresh hvalues
  | stop =>
    obtain rfl := Option.some.inj h
    refine Wired.served ?_ hrunning halive
    cases hmoves with
    | wakeAll => exact hwired.others (.inr rfl) rfl rfl (fun _ => id) fun _ => rfl
    | call | clear | join | joined | close | finish =>
      exact hwired.others (.inl rfl) rfl rfl (fun _ => id) fun _ => rfl

theorem start_served (workers tail : Nat) : (start workers tail).Served senders workers := by
  have hrunning : (start workers tail).server.Running workers := Server.start_running workers tail
  refine Wired.served ⟨fun j client _ hj => absurd hj (by simp [start, Server.start]),
    fun client hc => Acceptor.noConfusion hc, fun k _ => ⟨rfl, rfl⟩, fun w worker req hw hreq => ?_,
    fun w w' req req' hw => ?_, fun k hk => absurd hk (Nat.not_lt_zero k)⟩ hrunning rfl
  · obtain rfl : worker = .test := List.eq_of_mem_replicate (List.mem_of_getElem? hw)
    exact absurd hreq (by simp [Worker.request])
  · obtain ⟨worker, hworker, hreq⟩ := requestOf_eq.mp hw
    obtain rfl : worker = .test := List.eq_of_mem_replicate (List.mem_of_getElem? hworker)
    exact absurd hreq (by simp [Worker.request])

theorem reaches_served {workers tail : Nat} {s : RequestServer}
    (h : Reaches (step senders) (fun _ _ => True) (start workers tail) s) : s.Served senders workers :=
  h.invariant (Served senders workers) (start_served workers tail) fun _ _ _ ht _ hstep => ht.step hstep

theorem writeReply_frame (padding : UInt32) (answer : Option MessageFrame) :
    ∃ padding', writeReply padding answer = writeFrame padding' (answer.getD .zeros) := by
  cases answer with
  | none => exact ⟨0, rfl⟩
  | some response => exact ⟨padding, rfl⟩

/-- A client that asks without data. -/
def asking : Sender where
  message := { MessageFrame.zeros with parent := { MessageFrame.zeros.parent with token := 7 } }
  padding := 0
  split := Exchange.bytewise

/-- The callback answers with a token, if it is set. -/
def answering (callback : Bool) : Given where
  garbage := .const 0
  callback := callback
  answer := some { MessageFrame.zeros with parent := { MessageFrame.zeros.parent with token := 8 } }
  padding := 0
  size := 0

/-- The client of `serveOne` is served, then `stop` is called and returns. -/
def serveAndStop : List ServerEvent :=
  Server.serveOne ++ [.stop, .stop, .stop, .worker 0, .worker 0, .stop, .worker 1, .worker 1, .stop, .stop,
    .stop, .accept none, .acceptor, .stop]

def runAsking (callback : Bool) (events : List ServerEvent) : Option RequestServer :=
  run (step fun _ => asking) (start 2 9) (events.map (·, answering callback))

/-- What has been written to a client is nothing, or one reply: the answer of a callback
that has been called for this client alone, with what it has sent, or zeros where none is set.
Where no read is short the message is the one sent, and the client gets the answer. -/
theorem replies_once {workers tail : Nat} {s : RequestServer}
    (h : Reaches (step senders) (fun _ _ => True) (start workers tail) s) (k : Nat) :
    (s.server.popped.length ≤ k → s.Untouched k) ∧
      (s.written k = [] ∨ ∃ message answer, s.Replied senders k message answer ∧
        ((senders k).split.Full (senders k).message → message = (senders k).message) ∧
        ∀ split garbage, split.Full (answer.getD .zeros) →
          readFrame split garbage (s.written k) = answer.getD .zeros) := by
  have hs : s.Sound senders := (reaches_served h).sound
  refine ⟨hs.later k, ?_⟩
  rcases hs.replied k with hempty | ⟨message, answer, hreplied⟩
  · exact .inl hempty
  · obtain ⟨garbage, hreads⟩ := hreplied.reads
    obtain ⟨padding, hsent⟩ := hreplied.sent
    obtain ⟨padding', hframe⟩ := writeReply_frame padding answer
    refine .inr ⟨message, answer, hreplied, fun hfull => ?_, fun split garbage' hfull => ?_⟩
    · rw [hreads]
      exact readFrame_full hfull garbage _
    · rw [hsent, hframe]
      exact readFrame_full hfull garbage' padding'

theorem asking_served (callback : Bool) : ∃ s, runAsking callback Server.serveOne = some s ∧ s.written 0 ≠ [] ∧
    s.calls.map CallbackCall.called = [callback] := by
  have hwritten : (runAsking callback Server.serveOne).map
      (fun s => ((s.written 0).length, s.calls.map CallbackCall.called)) = some (64, [callback]) := by
    cases callback <;> decide +kernel
  obtain ⟨s, hs, hfields⟩ := Option.map_eq_some_iff.mp hwritten
  obtain ⟨hlength, hcalled⟩ := Prod.mk.inj hfields
  refine ⟨s, hs, fun hempty => ?_, hcalled⟩
  rw [hempty] at hlength
  exact absurd hlength (by simp)

/-- With a callback and without one. -/
theorem replies_once_asking : ∃ set unset, runAsking true Server.serveOne = some set ∧
    runAsking false Server.serveOne = some unset ∧ set.calls.map CallbackCall.called = [true] ∧
    unset.calls.map CallbackCall.called = [false] ∧ ∀ s ∈ [set, unset], ∃ message answer,
      s.Replied (fun _ => asking) 0 message answer ∧
        (asking.split.Full asking.message → message = asking.message) ∧
        ∀ split garbage, split.Full (answer.getD .zeros) →
          readFrame split garbage (s.written 0) = answer.getD .zeros := by
  obtain ⟨set, hset, hsetWritten, hsetCalled⟩ := asking_served true
  obtain ⟨unset, hunset, hunsetWritten, hunsetCalled⟩ := asking_served false
  refine ⟨set, unset, hset, hunset, hsetCalled, hunsetCalled, ?_⟩
  have hreach : ∀ s ∈ [set, unset], s.written 0 ≠ [] ∧
      Reaches (step fun _ => asking) (fun _ _ => True) (start 2 9) s := by
    intro s hs
    rcases List.mem_pair.mp hs with rfl | rfl
    · exact ⟨hsetWritten, Reaches.refl.run (allOk_true _ _) hset⟩
    · exact ⟨hunsetWritten, Reaches.refl.run (allOk_true _ _) hunset⟩
  intro s hs
  obtain ⟨hwritten, h⟩ := hreach s hs
  exact (replies_once h 0).2.resolve_left hwritten

theorem Served.answered {s : RequestServer} {workers : Nat} (hs : s.Served senders workers)
    (halive : s.crashed = false) {k : Nat} (hlt : k < s.server.popped.length)
    (hfree : ∀ w req, s.requestOf w ≠ some req) : s.Answered senders k := by
  rcases (hs.wired halive).earlier k hlt with h | ⟨w, req, hw, -⟩
  · exact h
  · exact absurd hw (hfree w req)

/-- The server comes to rest, before `stop` is called, only when it has answered every
client that has connected. -/
theorem rests_answered {workers tail : Nat} {s : RequestServer}
    (h : Reaches (step senders) (fun _ _ => True) (start workers tail) s) (hworkers : 0 < workers)
    (halive : s.crashed = false) (hidle : s.server.stop = .idle) (hrest : s.server.Rests) :
    ∀ k, k < s.server.connections.length → s.Answered senders k := by
  have hs : s.Served senders workers := reaches_served h
  obtain ⟨-, hpopped, hwaiting⟩ := hs.running.rests hworkers hidle hrest
  intro k hk
  have hlt : k < s.server.popped.length := by
    rwa [← hpopped, List.length_map] at hk
  refine hs.answered halive hlt fun w req hw => ?_
  obtain ⟨worker, hworker, hreq⟩ := requestOf_eq.mp hw
  rw [hwaiting worker (List.mem_of_getElem? hworker)] at hreq
  exact absurd hreq (by simp [Worker.request])

theorem rests_answered_asking : ∃ s, runAsking true Server.serveOne = some s ∧ s.server.connections = [5] ∧
    ∀ k, k < s.server.connections.length → s.Answered (fun _ => asking) k := by
  have hfinal : (runAsking true Server.serveOne).map (fun s => (s.crashed, s.server.stop, s.server.workers,
      s.server.acceptor, s.server.connections)) =
        some (false, .idle, [.waiting, .waiting], .accepting, [5]) := by
    decide +kernel
  obtain ⟨s, hs, hfinal⟩ := Option.map_eq_some_iff.mp hfinal
  simp only [Prod.mk.injEq] at hfinal
  obtain ⟨halive, hidle, hworkers, hacceptor, hconnections⟩ := hfinal
  have hwaiting : ∀ worker ∈ s.server.workers, worker = .waiting := by
    rw [hworkers]
    exact fun worker hmem => List.eq_of_mem_replicate (n := 2) hmem
  exact ⟨s, hs, hconnections, rests_answered (Reaches.refl.run (allOk_true _ _) hs) (by decide) halive hidle
    (Server.rests_of_waiting hwaiting hacceptor)⟩

/-- When `stop` has returned nothing happens any more: the clients whose requests have been
popped are answered, and the others never are, though their connections stay open. -/
theorem stop_returned_answered {workers tail : Nat} {s : RequestServer}
    (h : Reaches (step senders) (fun _ _ => True) (start workers tail) s) (halive : s.crashed = false)
    (hstop : s.server.stop = .returned) :
    (∀ input, s.step senders input = none) ∧ (∀ k, k < s.server.popped.length → s.Answered senders k) ∧
      ∀ k client, s.server.popped.length ≤ k → s.server.accepted[k]? = some client →
        s.Untouched k ∧ s.sockets client = some k := by
  have hs : s.Served senders workers := reaches_served h
  refine ⟨fun input => ?_, fun k hlt => hs.answered halive hlt fun w req hw => ?_, fun k client hle hk => ?_⟩
  · rw [RequestServer.step, halive, if_neg Bool.false_ne_true, hs.running.joined.returned hstop,
      Option.bind_none]
  · obtain ⟨worker, hworker, hreq⟩ := requestOf_eq.mp hw
    have hexited := hs.running.joined.all (.inr (.inr hstop)) worker (List.mem_of_getElem? hworker)
    rw [hexited] at hreq
    exact absurd hreq (by simp [Worker.request])
  · exact ⟨(hs.wired halive).later k hle, (hs.wired halive).queue k client hle hk⟩

theorem stop_returned_answered_asking : ∃ s, runAsking true serveAndStop = some s ∧
    (∀ input, s.step (fun _ => asking) input = none) ∧
      ∀ k, k < s.server.popped.length → s.Answered (fun _ => asking) k := by
  have hfinal : (runAsking true serveAndStop).map (fun s => (s.crashed, s.server.stop)) =
      some (false, .returned) := by
    decide +kernel
  obtain ⟨s, hs, hfinal⟩ := Option.map_eq_some_iff.mp hfinal
  simp only [Prod.mk.injEq] at hfinal
  obtain ⟨halive, hstop⟩ := hfinal
  obtain ⟨hends, hanswered, -⟩ :=
    stop_returned_answered (Reaches.refl.run (allOk_true _ _) hs) halive hstop
  exact ⟨s, hs, hends, hanswered⟩

/-- `message.data` is freed twice after a reply with data to a message with data, so a
server lives just as long as it has sent none. -/
theorem data_freed_twice {workers tail : Nat} {s : RequestServer}
    (h : Reaches (step senders) (fun _ _ => True) (start workers tail) s) :
    (s.crashed = true → ∃ k, s.FreedTwice senders k) ∧
      (s.crashed = false → ∀ k message response, s.Replied senders k message (some response) →
        message.size = 0 ∨ response.size = 0) := by
  have hs : s.Served senders workers := reaches_served h
  refine ⟨hs.sound.freed, fun halive k message response hreplied => ?_⟩
  obtain ⟨-, ⟨_, hcalled, -⟩, padding, hsent⟩ := hreplied
  have hsome : s.written k ≠ [] := by
    intro hempty
    have hlength := congrArg List.length (hempty.symm.trans hsent)
    rw [writeReply, length_writeFrame, List.length_nil] at hlength
    omega
  have hwired : s.Wired senders := hs.wired halive
  have hlt : k < s.server.popped.length := by
    by_contra hge
    exact hsome (hwired.later k (Nat.not_lt.mp hge)).1
  rcases hwired.earlier k hlt with ⟨message', answer, hother, hsize⟩ | ⟨w, req, hw, hk⟩
  · obtain ⟨_, hcalled', -⟩ := hother.asked
    have hcall := List.singleton_inj.mp (hcalled.symm.trans hcalled')
    simp only [CallbackCall.mk.injEq, true_and] at hcall
    obtain ⟨rfl, -, rfl⟩ := hcall
    exact hsize.imp_right fun hnone => hnone response rfl
  · obtain ⟨worker, hworker, hreq⟩ := requestOf_eq.mp hw
    obtain ⟨k', hk', -, hholding⟩ := hwired.workers w worker req hworker hreq
    obtain rfl : k' = k := Option.some.inj (hk'.symm.trans hk)
    exact absurd (hholding.written hreq) hsome

/-- A client that sends a byte. -/
def sending : Sender where
  message := { MessageFrame.zeros with size := 1, data := [3], length_data := rfl }
  padding := 0
  split := {
    returned := fun _ requested there => min requested there
    pos := by omega
    le_requested := by omega
    le_there := by omega }

/-- The callback answers with a byte. -/
def returning : Given := { answering true with
  answer := some { MessageFrame.zeros with size := 1, data := [4], length_data := rfl } }

theorem data_freed_twice_sending :
    ∃ s, run (step fun _ => sending) (start 2 9)
        ((Server.serveOne.take 15).map (·, returning)) = some s ∧ s.crashed = true ∧
      ∃ k, s.FreedTwice (fun _ => sending) k := by
  have hfinal : (run (step fun _ => sending) (start 2 9)
      ((Server.serveOne.take 15).map (·, returning))).map crashed = some true := by
    decide +kernel
  obtain ⟨s, hs, hcrashed⟩ := Option.map_eq_some_iff.mp hfinal
  exact ⟨s, hs, hcrashed, (data_freed_twice (Reaches.refl.run (allOk_true _ _) hs)).1 hcrashed⟩

end RequestServer

end AutoGentoo
