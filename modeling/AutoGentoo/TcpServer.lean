import AutoGentoo.GuardedRun
import AutoGentoo.LinkedVector

/-! The threads of a TCPServer: the acceptor, the workers and a call of `stop`.
What is done under the lock is one step. -/

namespace AutoGentoo

/-- Where a worker is in its loop, with the request it has popped. -/
inductive Worker
  -- before the test of `keep_alive`
  | test
  | locking
  -- in `pthread_cond_wait`
  | waiting
  | woken
  | reading (request : Nat)
  -- in `PyGILState_Ensure`
  | ensuring (request : Nat)
  | calling (request : Nat)
  -- has given up the interpreter lock in the callback, and wants it again
  | yielding (request : Nat)
  | replying (request : Nat)
  | exited
  deriving DecidableEq, Repr

namespace Worker

/-- The request it has popped and not freed. -/
def request : Worker → Option Nat
  | reading req | ensuring req | calling req | yielding req | replying req => some req
  | test | locking | waiting | woken | exited => none

def wake : Worker → Worker
  | waiting => woken
  | worker => worker

end Worker

inductive Acceptor
  -- before the test of `keep_alive`
  | test
  | accepting
  | queueing (client : Nat)
  -- before the broadcast
  | notifying
  | finished
  deriving DecidableEq, Repr

/-- Where a call of `stop` is. -/
inductive Stopper
  | idle
  | called
  -- `keep_alive` has been set, before the broadcast
  | cleared
  | joining (worker : Nat)
  | closing
  | joiningRun
  | returned
  deriving DecidableEq, Repr

/-- Who holds the interpreter lock. -/
inductive Holder
  | worker (w : Nat)
  | stop
  deriving DecidableEq, Repr

/-- The objects in memory are the requests, with their clients. `connections` are
what `accept` has returned, `accepted` the clients put into the queue and `popped` the
ones taken from it, with the worker; `faulted` is set where freed memory is read. -/
structure Server where
  keepAlive : Bool
  memory : Memory Nat
  requestQueue : LinkedVector
  workers : List Worker
  acceptor : Acceptor
  stop : Stopper
  interpreter : Option Holder
  connections : List Nat
  accepted : List Nat
  popped : List (Nat × Nat)
  faulted : Bool

/-- The step a worker has come to, and what it may do besides; the acceptor's; and the
step of `stop`. The addresses are the ones `malloc` returns. -/
inductive ServerEvent
  | worker (w : Nat)
  | spuriousWake (w : Nat)
  | yield (w : Nat)
  | acceptor
  | accept (client : Option Nat)
  | enqueue (request node : Nat)
  | stop
  deriving DecidableEq, Repr

instance (memory : Memory Nat) (x : Nat) : Decidable (memory.Fresh x) :=
  inferInstanceAs (Decidable (x ≠ 0 ∧ memory.nodes x = none ∧ memory.objects x = none))

namespace Server

/-- After `start`, with this many workers. -/
def start (workers tail : Nat) : Server where
  keepAlive := true
  memory := { nodes := fun _ => none, objects := fun _ => none }
  requestQueue := .new tail
  workers := List.replicate workers .test
  acceptor := .test
  stop := .idle
  interpreter := none
  connections := []
  accepted := []
  popped := []
  faulted := false

def setWorker (self : Server) (w : Nat) (worker : Worker) : Server :=
  { self with workers := self.workers.set w worker }

def broadcast (self : Server) : Server := { self with workers := self.workers.map Worker.wake }

/-- The client of the request at an address. -/
def client (self : Server) (request : Nat) : Option Nat :=
  (self.memory.objects request).map RefObject.value

/-- A worker under the lock, up to the wait or the unlock. -/
def workerSection (self : Server) (w : Nat) : Server :=
  match self.requestQueue.queuePeek self.memory with
  | none => { self with faulted := true }
  | some 0 => self.setWorker w .waiting
  | some _ =>
    match self.requestQueue.queuePop self.memory with
    | none => { self with faulted := true }
    | some (req, memory, queue) =>
      { self with
        memory := memory
        requestQueue := queue
        workers := self.workers.set w (.reading req)
        popped := self.popped ++ (self.client req).toList.map (w, ·) }

/-- `close`, and `OBJECT_FREE` of the request. -/
def freeRequest (self : Server) (w req : Nat) : Server :=
  match self.memory.objects req with
  | none => { self with faulted := true }
  | some _ => { self with
      memory := self.memory.setObject req none
      workers := self.workers.set w .test }

def workerStep (self : Server) (w : Nat) : Worker → Option Server
  | .test => some (self.setWorker w (if self.keepAlive then .locking else .exited))
  | .locking => some (self.workerSection w)
  | .waiting => none
  -- the lock is taken again and given up
  | .woken => some (self.setWorker w .test)
  | .reading req => some (self.setWorker w (.ensuring req))
  | .ensuring req | .yielding req =>
    if self.interpreter = none then
      some { self.setWorker w (.calling req) with interpreter := some (.worker w) }
    else none
  | .calling req => some { self.setWorker w (.replying req) with interpreter := none }
  | .replying req => some (self.freeRequest w req)
  | .exited => none

/-- The acceptor under the lock. -/
def enqueue (self : Server) (client request node : Nat) : Server :=
  let memory := self.memory.setObject request (some { referenceCount := 0, value := client })
  match self.requestQueue.queueAdd memory node request with
  | none => { self with faulted := true }
  | some (memory, queue) => { self with
      memory := memory
      requestQueue := queue
      accepted := self.accepted ++ [client]
      acceptor := .notifying }

def stopStep (self : Server) : Stopper → Option Server
  -- the caller has the interpreter lock, and keeps it
  | .idle =>
    if self.interpreter = none then some { self with stop := .called, interpreter := some .stop }
    else none
  | .called => some { self with stop := .cleared, keepAlive := false }
  | .cleared => some { self.broadcast with stop := .joining 0 }
  | .joining w =>
    match self.workers[w]? with
    | none => some { self with stop := .closing }
    | some .exited => some { self with stop := .joining (w + 1) }
    | some _ => none
  | .closing => some { self with stop := .joiningRun }
  | .joiningRun =>
    if self.acceptor = .finished then some { self with stop := .returned, interpreter := none }
    else none
  | .returned => none

def step (self : Server) : ServerEvent → Option Server
  | .worker w => (self.workers[w]?).bind (self.workerStep w)
  | .spuriousWake w =>
    if self.workers[w]? = some .waiting then some (self.setWorker w .woken) else none
  | .yield w =>
    match self.workers[w]? with
    | some (.calling req) => some { self.setWorker w (.yielding req) with interpreter := none }
    | _ => none
  | .acceptor =>
    match self.acceptor with
    | .test => some { self with acceptor := if self.keepAlive then .accepting else .finished }
    | .notifying => some { self.broadcast with acceptor := .test }
    | _ => none
  | .accept client =>
    match self.acceptor, client with
    | .accepting, none => some { self with acceptor := .test }
    | .accepting, some c =>
      some { self with acceptor := .queueing c, connections := self.connections ++ [c] }
    | _, _ => none
  | .enqueue request node =>
    match self.acceptor with
    | .queueing c =>
      if request ≠ node ∧ self.memory.Fresh request ∧ self.memory.Fresh node then
        some (self.enqueue c request node)
      else none
    | _ => none
  | .stop => self.stopStep self.stop

end Server

end AutoGentoo
