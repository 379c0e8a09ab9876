import AutoGentoo.RequestOrder

/-! What a step of a TCPServer whose queue is intact can do. -/

namespace AutoGentoo

theorem Memory.incref_values {α : Type} {self other : Memory α} {x : Nat}
    (h : self.incref x = some other) : self.SameValues other := by
  rw [incref] at h
  split_ifs at h
  · obtain rfl := Option.some.inj h
    exact fun _ => rfl
  · obtain ⟨object, hobject, rfl⟩ := Option.map_eq_some_iff.mp h
    intro y
    by_cases hyx : y = x
    · rw [hyx, setObject_self, hobject, Option.map_some, Option.map_some]
    · rw [setObject_ne _ hyx]

/-- A node appended leaves the objects what they are. -/
theorem LinkedVector.append_values {α : Type} {self vector : LinkedVector} {memory other : Memory α}
    {x data : Nat} (h : self.append memory x data = some (other, vector)) : memory.SameValues other := by
  obtain ⟨counted, hnew, hlinks⟩ := Option.bind_eq_some_iff.mp h
  obtain ⟨made, hincref, rfl⟩ := Option.map_eq_some_iff.mp hnew
  have hvalues : memory.SameValues made := Memory.incref_values hincref
  split_ifs at hlinks
  · obtain ⟨rfl, -⟩ := Prod.mk.inj (Option.some.inj hlinks)
    exact hvalues
  · obtain ⟨last, -, hnode⟩ := Option.bind_eq_some_iff.mp hlinks
    obtain ⟨node, -, heq⟩ := Option.map_eq_some_iff.mp hnode
    obtain ⟨rfl, -⟩ := Prod.mk.inj heq
    exact hvalues

namespace Server

/-- The steps, each where it can be taken. A worker takes the first client that has been
accepted and not popped. -/
inductive Moves (s : Server) : ServerEvent → Server → Prop
  | test (w : Nat) (hw : s.workers[w]? = some .test) :
      Moves s (.worker w) (s.setWorker w (if s.keepAlive then .locking else .exited))
  | sleep (w : Nat) (hw : s.workers[w]? = some .locking) (hempty : s.accepted.length = s.popped.length) :
      Moves s (.worker w) (s.setWorker w .waiting)
  | pop (w req client : Nat) (memory : Memory Nat) (queue : LinkedVector)
      (hw : s.workers[w]? = some .locking) (hnext : s.accepted[s.popped.length]? = some client)
      (hclient : s.client req = some client) (hvalues : s.memory.SameValues memory) :
      Moves s (.worker w) { s with
        memory := memory
        requestQueue := queue
        workers := s.workers.set w (.reading req)
        popped := s.popped ++ [(w, client)] }
  | woken (w : Nat) (hw : s.workers[w]? = some .woken) : Moves s (.worker w) (s.setWorker w .test)
  | read (w req : Nat) (hw : s.workers[w]? = some (.reading req)) :
      Moves s (.worker w) (s.setWorker w (.ensuring req))
  | ensure (w req : Nat) (hw : s.workers[w]? = some (.ensuring req) ∨ s.workers[w]? = some (.yielding req))
      (hfree : s.interpreter = none) :
      Moves s (.worker w) { s.setWorker w (.calling req) with interpreter := some (.worker w) }
  | release (w req : Nat) (hw : s.workers[w]? = some (.calling req)) :
      Moves s (.worker w) { s.setWorker w (.replying req) with interpreter := none }
  | reply (w req : Nat) (hw : s.workers[w]? = some (.replying req)) :
      Moves s (.worker w) { s with
        memory := s.memory.setObject req none
        workers := s.workers.set w .test }
  | spuriousWake (w : Nat) (hw : s.workers[w]? = some .waiting) :
      Moves s (.spuriousWake w) (s.setWorker w .woken)
  | yield (w req : Nat) (hw : s.workers[w]? = some (.calling req)) :
      Moves s (.yield w) { s.setWorker w (.yielding req) with interpreter := none }
  | testAlive (ha : s.acceptor = .test) :
      Moves s .acceptor { s with acceptor := if s.keepAlive then .accepting else .finished }
  | notify (ha : s.acceptor = .notifying) : Moves s .acceptor { s.broadcast with acceptor := .test }
  | refuse (ha : s.acceptor = .accepting) : Moves s (.accept none) { s with acceptor := .test }
  | accept (client : Nat) (ha : s.acceptor = .accepting) :
      Moves s (.accept (some client)) { s with
        acceptor := .queueing client
        connections := s.connections ++ [client] }
  | enqueue (client request node : Nat) (memory : Memory Nat) (queue : LinkedVector)
      (ha : s.acceptor = .queueing client) (hfresh : s.memory.Fresh request)
      (hvalues : (s.memory.setObject request
        (some { referenceCount := 0, value := client })).SameValues memory) :
      Moves s (.enqueue request node) { s with
        memory := memory
        requestQueue := queue
        accepted := s.accepted ++ [client]
        acceptor := .notifying }
  | call (hstop : s.stop = .idle) (hfree : s.interpreter = none) :
      Moves s .stop { s with stop := .called, interpreter := some .stop }
  | clear (hstop : s.stop = .called) : Moves s .stop { s with stop := .cleared, keepAlive := false }
  | wakeAll (hstop : s.stop = .cleared) : Moves s .stop { s.broadcast with stop := .joining 0 }
  | join (w : Nat) (hstop : s.stop = .joining w) (hw : s.workers[w]? = some .exited) :
      Moves s .stop { s with stop := .joining (w + 1) }
  | joined (w : Nat) (hstop : s.stop = .joining w) (hw : s.workers[w]? = none) :
      Moves s .stop { s with stop := .closing }
  | close (hstop : s.stop = .closing) : Moves s .stop { s with stop := .joiningRun }
  | finish (hstop : s.stop = .joiningRun) (ha : s.acceptor = .finished) :
      Moves s .stop { s with stop := .returned, interpreter := none }

/-- The section of a worker. -/
theorem Intact.section_moves {s : Server} (hs : s.Intact) {w : Nat} (hw : s.workers[w]? = some .locking) :
    s.Moves (.worker w) (s.workerSection w) := by
  obtain ⟨l, hl⟩ := hs.queued
  cases l with
  | nil =>
    have hsection : s.workerSection w = s.setWorker w .waiting := by
      simp only [Server.workerSection, hl.holds.peek_nil]
    have hlength := congrArg List.length hl.order
    simp only [List.length_map, List.length_append, List.length_nil, Nat.add_zero] at hlength
    rw [hsection]
    exact .sleep w hw hlength
  | cons entry rest =>
    obtain ⟨node, req⟩ := entry
    obtain ⟨memory, queue, hpop, hvalues, -⟩ := hl.holds.pop
    have hzero : req ≠ 0 := (hl.free req List.mem_cons_self).1
    obtain ⟨object, hobject⟩ := Option.isSome_iff_exists.mp (hl.holds.live req List.mem_cons_self hzero)
    have hclient : s.client req = some object.value := by rw [client, hobject, Option.map_some]
    have hsection : s.workerSection w = { s with
        memory := memory
        requestQueue := queue
        workers := s.workers.set w (.reading req)
        popped := s.popped ++ [(w, object.value)] } := by
      obtain ⟨n, rfl⟩ := Nat.exists_eq_succ_of_ne_zero hzero
      simp only [Server.workerSection, hl.holds.peek, hpop, hclient, Option.toList_some, List.map_cons,
        List.map_nil]
    have hnext : s.accepted[s.popped.length]? = some object.value := by
      have horder := congrArg (fun l => l[s.popped.length]?) hl.order
      simpa [hclient] using horder
    rw [hsection]
    exact .pop w req object.value memory queue hw hnext hclient hvalues

theorem Intact.worker_moves {s t : Server} {w : Nat} {worker : Worker} (hs : s.Intact)
    (hw : s.workers[w]? = some worker) (h : s.workerStep w worker = some t) : s.Moves (.worker w) t := by
  cases worker with
  | test =>
    obtain rfl := Option.some.inj h
    exact .test w hw
  | locking =>
    obtain rfl := Option.some.inj h
    exact hs.section_moves hw
  | waiting => exact absurd h (by simp [Server.workerStep])
  | woken =>
    obtain rfl := Option.some.inj h
    exact .woken w hw
  | reading req =>
    obtain rfl := Option.some.inj h
    exact .read w req hw
  | ensuring req =>
    simp only [Server.workerStep] at h
    split_ifs at h with hfree
    obtain rfl := Option.some.inj h
    exact .ensure w req (.inl hw) hfree
  | yielding req =>
    simp only [Server.workerStep] at h
    split_ifs at h with hfree
    obtain rfl := Option.some.inj h
    exact .ensure w req (.inr hw) hfree
  | calling req =>
    obtain rfl := Option.some.inj h
    exact .release w req hw
  | replying req =>
    obtain rfl := Option.some.inj h
    obtain ⟨l, hl⟩ := hs.queued
    have hheld : s.held req ≠ 0 := Nat.ne_of_gt (held_pos hw rfl)
    obtain ⟨object, hobject⟩ := Option.isSome_iff_exists.mp (hl.live req hheld)
    simp only [Server.freeRequest, hobject]
    exact .reply w req hw
  | exited => exact absurd h (by simp [Server.workerStep])

theorem stop_moves {s t : Server} (h : s.stopStep s.stop = some t) : s.Moves .stop t := by
  cases hstop : s.stop with
  | idle =>
    simp only [hstop, Server.stopStep] at h
    split_ifs at h with hfree
    obtain rfl := Option.some.inj h
    exact .call hstop hfree
  | called =>
    rw [hstop] at h
    obtain rfl := Option.some.inj h
    exact .clear hstop
  | cleared =>
    rw [hstop] at h
    obtain rfl := Option.some.inj h
    exact .wakeAll hstop
  | joining w =>
    simp only [hstop, Server.stopStep] at h
    split at h
    · next hw =>
      obtain rfl := Option.some.inj h
      exact .joined w hstop hw
    · next hw =>
      obtain rfl := Option.some.inj h
      exact .join w hstop hw
    · exact absurd h (by simp)
  | closing =>
    rw [hstop] at h
    obtain rfl := Option.some.inj h
    exact .close hstop
  | joiningRun =>
    simp only [hstop, Server.stopStep] at h
    split_ifs at h with ha
    obtain rfl := Option.some.inj h
    exact .finish hstop ha
  | returned =>
    rw [hstop] at h
    exact absurd h (by simp [Server.stopStep])

/-- The acceptor puts the request of its client into the queue. -/
theorem Intact.enqueue_moves {s : Server} (hs : s.Intact) {client request node : Nat}
    (ha : s.acceptor = .queueing client) (hne : request ≠ node) (hrequest : s.memory.Fresh request)
    (hnode : s.memory.Fresh node) : s.Moves (.enqueue request node) (s.enqueue client request node) := by
  obtain ⟨l, hl⟩ := hs.queued
  have hfaulted : (s.enqueue client request node).faulted = s.faulted :=
    (hl.enqueue hne hrequest hnode).2.1
  cases hadd : s.requestQueue.queueAdd
      (s.memory.setObject request (some { referenceCount := 0, value := client })) node request with
  | none =>
    have hfault : (s.enqueue client request node).faulted = true := by
      simp only [Server.enqueue, hadd]
    rw [hfaulted, hs.sound] at hfault
    exact absurd hfault (by simp)
  | some result =>
    obtain ⟨memory, queue⟩ := result
    simp only [Server.enqueue, hadd]
    exact .enqueue client request node memory queue ha hrequest (LinkedVector.append_values hadd)

theorem Intact.moves {s t : Server} {event : ServerEvent} (hs : s.Intact) (h : s.step event = some t) :
    s.Moves event t := by
  cases event with
  | worker w =>
    obtain ⟨worker, hw, hstep⟩ := Option.bind_eq_some_iff.mp h
    exact hs.worker_moves hw hstep
  | spuriousWake w =>
    simp only [Server.step] at h
    split_ifs at h with hw
    obtain rfl := Option.some.inj h
    exact .spuriousWake w hw
  | yield w =>
    simp only [Server.step] at h
    split at h
    · next req hw =>
      obtain rfl := Option.some.inj h
      exact .yield w req hw
    · exact absurd h (by simp)
  | acceptor =>
    simp only [Server.step] at h
    split at h
    · next ha =>
      obtain rfl := Option.some.inj h
      exact .testAlive ha
    · next ha =>
      obtain rfl := Option.some.inj h
      exact .notify ha
    · exact absurd h (by simp)
  | accept client =>
    simp only [Server.step] at h
    split at h
    · next ha =>
      obtain rfl := Option.some.inj h
      exact .refuse ha
    · next c ha =>
      obtain rfl := Option.some.inj h
      exact .accept c ha
    · exact absurd h (by simp)
  | enqueue request node =>
    simp only [Server.step] at h
    split at h
    · next client ha =>
      split_ifs at h with hfresh
      obtain rfl := Option.some.inj h
      exact hs.enqueue_moves ha hfresh.1 hfresh.2.1 hfresh.2.2
    · exact absurd h (by simp)
  | stop => exact stop_moves h

end Server

end AutoGentoo
