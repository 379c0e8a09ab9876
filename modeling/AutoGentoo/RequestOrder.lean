import AutoGentoo.TcpServer

/-! The requests of a TCPServer, in the order of arrival: those popped, then those in
the queue, for any schedule of the threads. -/

namespace AutoGentoo

open GuardedRun

namespace Server

/-- How many workers have the request at an address. -/
def held (self : Server) (request : Nat) : Nat :=
  self.workers.countP fun worker => worker.request = some request

/-- The queue holds these nodes; nobody else has their requests, and no two workers
have the same. -/
structure Queued (s : Server) (l : List (Nat × Nat)) : Prop where
  holds : s.requestQueue.Holds s.memory s.held l
  distinct : (l.map Prod.snd).Nodup
  free : ∀ x ∈ l.map Prod.snd, x ≠ 0 ∧ s.held x = 0
  single : ∀ x, s.held x ≤ 1
  live : ∀ x, s.held x ≠ 0 → (s.memory.objects x).isSome = true
  order : s.accepted.map some = s.popped.map (fun p => some p.2) ++ l.map fun e => s.client e.2

/-- The connection the acceptor has not put into the queue yet. -/
def inHand (self : Server) : List Nat :=
  match self.acceptor with
  | .queueing client => [client]
  | _ => []

structure Intact (s : Server) : Prop where
  sound : s.faulted = false
  queued : ∃ l, s.Queued l
  connections : s.connections = s.accepted ++ s.inHand

theorem held_set {self : Server} {w : Nat} {old : Worker} (h : self.workers[w]? = some old)
    (new : Worker) (x : Nat) :
    (self.workers.set w new).countP (fun worker => worker.request = some x) =
      self.held x - (if old.request = some x then 1 else 0) + if new.request = some x then 1 else 0 := by
  obtain ⟨hlt, rfl⟩ := List.getElem?_eq_some_iff.mp h
  rw [List.countP_set hlt, held]
  simp only [decide_eq_true_eq]

theorem held_pos {self : Server} {w x : Nat} {worker : Worker} (h : self.workers[w]? = some worker)
    (hx : worker.request = some x) : 0 < self.held x := by
  refine List.countP_pos_iff.mpr ⟨worker, List.mem_of_getElem? h, ?_⟩
  rw [hx]
  exact decide_eq_true rfl

/-- Only what the threads stand at has changed. -/
structure SameRequests (s t : Server) : Prop where
  memory : t.memory = s.memory
  queue : t.requestQueue = s.requestQueue
  held : t.held = s.held
  accepted : t.accepted = s.accepted
  popped : t.popped = s.popped
  faulted : t.faulted = s.faulted

theorem SameRequests.queued {s t : Server} (h : SameRequests s t) {l : List (Nat × Nat)}
    (hs : s.Queued l) : t.Queued l := by
  obtain ⟨hmemory, hqueue, hheld, haccepted, hpopped, -⟩ := h
  have hclient : t.client = s.client := by
    funext x
    rw [client, client, hmemory]
  refine ⟨?_, hs.distinct, ?_, ?_, ?_, ?_⟩
  · rw [hmemory, hqueue, hheld]
    exact hs.holds
  · rw [hheld]
    exact hs.free
  · rw [hheld]
    exact hs.single
  · rw [hheld, hmemory]
    exact hs.live
  · rw [haccepted, hpopped, hclient]
    exact hs.order

theorem SameRequests.intact {s t : Server} (h : SameRequests s t) (hs : s.Intact)
    (hconn : t.connections = s.accepted ++ t.inHand) : t.Intact := by
  obtain ⟨l, hl⟩ := hs.queued
  exact ⟨h.faulted.trans hs.sound, ⟨l, h.queued hl⟩, h.accepted.symm ▸ hconn⟩

/-- A worker goes on with the request it has, or without one. -/
theorem held_same {self : Server} {w : Nat} {old new : Worker} (h : self.workers[w]? = some old)
    (hreq : new.request = old.request) :
    (self.setWorker w new).held = self.held := by
  funext x
  refine (held_set h new x).trans ?_
  rw [hreq]
  split_ifs with hx
  · have hpos := held_pos h hx
    omega
  · omega

theorem sameRequests_setWorker {s : Server} {w : Nat} {old new : Worker}
    (h : s.workers[w]? = some old) (hreq : new.request = old.request) :
    SameRequests s (s.setWorker w new) :=
  ⟨rfl, rfl, held_same h hreq, rfl, rfl, rfl⟩

theorem SameRequests.refl (s : Server) : SameRequests s s := ⟨rfl, rfl, rfl, rfl, rfl, rfl⟩

/-- The rest of the server is not looked at. -/
theorem SameRequests.threads {s t : Server} (h : SameRequests s t) (keepAlive : Bool)
    (acceptor : Acceptor) (stop : Stopper) (interpreter : Option Holder) (connections : List Nat) :
    SameRequests s { t with keepAlive, acceptor, stop, interpreter, connections } :=
  ⟨h.memory, h.queue, funext fun x => congrFun h.held x, h.accepted, h.popped, h.faulted⟩

theorem wake_request (worker : Worker) : worker.wake.request = worker.request := by
  cases worker <;> rfl

theorem sameRequests_broadcast (s : Server) : SameRequests s s.broadcast := by
  refine ⟨rfl, rfl, ?_, rfl, rfl, rfl⟩
  funext x
  rw [held, held, broadcast, List.countP_map]
  refine List.countP_congr fun worker _ => ?_
  rw [Function.comp_apply, wake_request]

/-- The section of a worker puts it to sleep, or gives it the first request. -/
theorem Queued.workerSection {s : Server} {l : List (Nat × Nat)} (hs : s.Queued l) {w : Nat}
    (hw : s.workers[w]? = some .locking) :
    (∃ l', (s.workerSection w).Queued l') ∧ (s.workerSection w).faulted = s.faulted := by
  cases l with
  | nil =>
    have hsection : s.workerSection w = s.setWorker w .waiting := by
      simp only [Server.workerSection, hs.holds.peek_nil]
    have hsame : SameRequests s (s.setWorker w .waiting) := sameRequests_setWorker hw rfl
    rw [hsection]
    exact ⟨⟨[], hsame.queued hs⟩, rfl⟩
  | cons entry rest =>
    obtain ⟨x, data⟩ := entry
    obtain ⟨memory, queue, hpop, hvalues, hholds⟩ := hs.holds.pop
    obtain ⟨hzero, hfree⟩ := hs.free data List.mem_cons_self
    have hdistinct := hs.distinct
    rw [List.map_cons, List.nodup_cons] at hdistinct
    obtain ⟨request, hrequest⟩ := Option.isSome_iff_exists.mp (hs.holds.live data List.mem_cons_self hzero)
    have hclient : s.client data = some request.value := by
      rw [client, hrequest, Option.map_some]
    have hsection : s.workerSection w = { s with
        memory := memory
        requestQueue := queue
        workers := s.workers.set w (.reading data)
        popped := s.popped ++ [(w, request.value)] } := by
      obtain ⟨n, rfl⟩ := Nat.exists_eq_succ_of_ne_zero hzero
      simp only [Server.workerSection, hs.holds.peek, hpop, hclient, Option.toList_some, List.map_cons,
        List.map_nil]
    have hheld : (s.workerSection w).held = Function.update s.held data (s.held data + 1) := by
      funext y
      rw [hsection]
      refine (held_set hw (.reading data) y).trans ?_
      simp only [Worker.request, Option.some.injEq]
      by_cases hy : y = data
      · rw [hy, Function.update_self]
        simp
      · rw [Function.update_of_ne hy]
        simp [Ne.symm hy]
    have hsame : ∀ y, (s.workerSection w).client y = s.client y := by
      intro y
      rw [hsection]
      exact hvalues y
    refine ⟨⟨rest, ?_, hdistinct.2, fun y hy => ?_, fun y => ?_, fun y hy => ?_, ?_⟩, by rw [hsection]⟩
    · rw [hheld, hsection]
      exact hholds
    · have hne : y ≠ data := by
        rintro rfl
        exact hdistinct.1 hy
      rw [hheld, Function.update_of_ne hne]
      exact hs.free y (List.mem_cons_of_mem _ hy)
    · rw [hheld]
      by_cases hy : y = data
      · rw [hy, Function.update_self]
        omega
      · rw [Function.update_of_ne hy]
        exact hs.single y
    · have hsome : (s.memory.objects y).isSome = true := by
        by_cases hyd : y = data
        · rw [hyd, hrequest, Option.isSome_some]
        · rw [hheld, Function.update_of_ne hyd] at hy
          exact hs.live y hy
      rw [hsection]
      exact (hvalues.live y).trans hsome
    · have horder := hs.order
      rw [List.map_cons, hclient] at horder
      simp only [hsame]
      rw [hsection, horder, List.map_append, List.append_assoc]
      rfl

theorem Queued.freeRequest {s : Server} {l : List (Nat × Nat)} (hs : s.Queued l) {w req : Nat}
    (hw : s.workers[w]? = some (.replying req)) :
    (s.freeRequest w req).Queued l ∧ (s.freeRequest w req).faulted = s.faulted := by
  have hpos : 0 < s.held req := held_pos hw rfl
  obtain ⟨request, hrequest⟩ := Option.isSome_iff_exists.mp (hs.live req (by omega))
  have hfreed : s.freeRequest w req = { s with
      memory := s.memory.setObject req none
      workers := s.workers.set w .test } := by
    simp only [Server.freeRequest, hrequest]
  have hheld : ∀ y, (s.freeRequest w req).held y = s.held y - if req = y then 1 else 0 := by
    intro y
    rw [hfreed]
    refine (held_set hw .test y).trans ?_
    simp [Worker.request]
  have hother : ∀ y ∈ l.map Prod.snd, y ≠ req := by
    rintro y hy rfl
    have hnone := (hs.free y hy).2
    omega
  have hobjects : ∀ y, y ≠ req → (s.freeRequest w req).memory.objects y = s.memory.objects y := by
    intro y hy
    rw [hfreed]
    exact Memory.setObject_ne _ hy _
  have hgone : (s.freeRequest w req).memory.objects req = none := by
    rw [hfreed]
    exact Memory.setObject_self _ _ _
  have hlive : ∀ y, y ≠ req → (s.memory.objects y).isSome = true →
      ((s.freeRequest w req).memory.objects y).isSome = true := by
    intro y hy hsome
    rwa [hobjects y hy]
  have hreq : s.held req ≤ 1 := hs.single req
  refine ⟨⟨?_, hs.distinct, fun y hy => ⟨(hs.free y hy).1, ?_⟩, fun y => ?_, fun y hy => ?_, ?_⟩,
    by rw [hfreed]⟩
  · refine ⟨?_, hs.holds.nodup, ?_, ⟨?_, fun y object hy => ?_⟩, fun y hy hzero => ?_⟩
    · rw [hfreed]
      exact hs.holds.chain
    · rw [hfreed]
      exact hs.holds.tail
    · by_cases hzero : 0 = req
      · rw [hzero, hgone]
      · rw [hobjects 0 hzero, hs.holds.counted.1]
    · have hne : y ≠ req := by
        rintro rfl
        exact absurd (hgone.symm.trans hy) (by simp)
      rw [hobjects y hne] at hy
      simp only [hs.holds.counted.2 y object hy, hheld, if_neg hne.symm, Nat.sub_zero]
    · exact hlive y (hother y hy) (hs.holds.live y hy hzero)
  · rw [hheld, (hs.free y hy).2, Nat.zero_sub]
  · have hsingle := hs.single y
    rw [hheld]
    omega
  · rw [hheld] at hy
    by_cases hyr : y = req
    · subst hyr
      rw [if_pos rfl] at hy
      omega
    · exact hlive y hyr (hs.live y (by omega))
  · have hclients : (l.map fun e => (s.freeRequest w req).client e.2) = l.map fun e => s.client e.2 := by
      refine List.map_congr_left fun e he => ?_
      rw [client, client, hobjects e.2 (hother e.2 (List.mem_map_of_mem he))]
    have horder := hs.order
    rw [hclients, hfreed]
    exact horder

/-- The acceptor makes a request and appends it. -/
theorem Queued.enqueue {s : Server} {l : List (Nat × Nat)} (hs : s.Queued l) {client request node : Nat}
    (hne : request ≠ node) (hrequest : s.memory.Fresh request) (hnode : s.memory.Fresh node) :
    (∃ l', (s.enqueue client request node).Queued l') ∧
      (s.enqueue client request node).faulted = s.faulted ∧
      (s.enqueue client request node).acceptor = .notifying ∧
      (s.enqueue client request node).accepted = s.accepted ++ [client] ∧
      (s.enqueue client request node).connections = s.connections := by
  obtain ⟨hzero, hnonode, hnone⟩ := hrequest
  let made := s.memory.setObject request (some { referenceCount := 0, value := client })
  have hunheld : s.held request = 0 := by
    by_contra hheld
    have hsome := hs.live request hheld
    rw [hnone] at hsome
    exact absurd hsome (by simp)
  have hnew : request ∉ l.map Prod.snd := by
    intro hmem
    have hsome := hs.holds.live request hmem hzero
    rw [hnone] at hsome
    exact absurd hsome (by simp)
  have hself : made.objects request = some { referenceCount := 0, value := client } :=
    Memory.setObject_self _ _ _
  have hobjects : ∀ y, y ≠ request → made.objects y = s.memory.objects y := fun y hy =>
    Memory.setObject_ne _ hy _
  have hlive : ∀ y, (s.memory.objects y).isSome = true → (made.objects y).isSome = true := by
    intro y hsome
    have hy : y ≠ request := by
      rintro rfl
      rw [hnone] at hsome
      exact absurd hsome (by simp)
    rwa [hobjects y hy]
  have hmade : s.requestQueue.Holds made s.held l := by
    refine ⟨hs.holds.chain, hs.holds.nodup, hs.holds.tail, ⟨?_, fun y object hy => ?_⟩,
      fun y hy hyzero => hlive y (hs.holds.live y hy hyzero)⟩
    · rw [hobjects 0 (Ne.symm hzero), hs.holds.counted.1]
    · by_cases hyr : y = request
      · subst hyr
        rw [hself] at hy
        simp only [← Option.some.inj hy, hunheld, List.count_eq_zero_of_not_mem hnew]
      · rw [hobjects y hyr] at hy
        exact hs.holds.counted.2 y object hy
  have hfresh : made.Fresh node := ⟨hnode.1, hnode.2.1, by rw [hobjects node hne.symm, hnode.2.2]⟩
  have hsome : request ≠ 0 → (made.objects request).isSome = true := fun _ => by
    rw [hself, Option.isSome_some]
  obtain ⟨memory, queue, happend, hvalues, hholds⟩ := hmade.append hfresh hsome
  have henqueued : s.enqueue client request node = { s with
      memory := memory
      requestQueue := queue
      accepted := s.accepted ++ [client]
      acceptor := .notifying } := by
    have hadd : s.requestQueue.queueAdd (s.memory.setObject request
        (some { referenceCount := 0, value := client })) node request = some (memory, queue) := happend
    simp only [Server.enqueue, hadd]
  have hclient : ∀ y, y ≠ request → (s.enqueue client request node).client y = s.client y := by
    intro y hy
    rw [henqueued]
    refine (hvalues y).trans ?_
    rw [hobjects y hy]
    rfl
  refine ⟨⟨l ++ [(node, request)], ?_, ?_, fun y hy => ?_, ?_, fun y hy => ?_, ?_⟩, ?_⟩
  · rw [henqueued]
    exact hholds
  · rw [List.map_append, List.map_singleton]
    exact List.Nodup.append hs.distinct (List.nodup_singleton request)
      fun y hy hyr => hnew ((List.mem_singleton.mp hyr : y = request) ▸ hy)
  · rw [henqueued]
    rw [List.map_append, List.mem_append] at hy
    rcases hy with hy | hy
    · exact hs.free y hy
    · obtain rfl : y = request := by simpa using hy
      exact ⟨hzero, hunheld⟩
  · rw [henqueued]
    exact hs.single
  · rw [henqueued] at hy ⊢
    exact (hvalues.live y).trans (hlive y (hs.live y hy))
  · have hclients : (l.map fun e => (s.enqueue client request node).client e.2) =
        l.map fun e => s.client e.2 := by
      refine List.map_congr_left fun e he => hclient e.2 ?_
      intro heq
      exact hnew (heq ▸ List.mem_map_of_mem he)
    have hlast : (s.enqueue client request node).client request = some client := by
      rw [henqueued]
      refine (hvalues request).trans ?_
      rw [hself, Option.map_some]
    rw [List.map_append, hclients, List.map_singleton, hlast, henqueued]
    simp only [List.map_append, hs.order, List.append_assoc, List.map_singleton]
  · rw [henqueued]
    exact ⟨rfl, rfl, rfl, rfl⟩

theorem workerSection_acceptor (s : Server) (w : Nat) :
    (s.workerSection w).acceptor = s.acceptor ∧ (s.workerSection w).connections = s.connections ∧
      (s.workerSection w).accepted = s.accepted := by
  rw [Server.workerSection]
  split
  · exact ⟨rfl, rfl, rfl⟩
  · exact ⟨rfl, rfl, rfl⟩
  · split
    · exact ⟨rfl, rfl, rfl⟩
    · exact ⟨rfl, rfl, rfl⟩

theorem freeRequest_acceptor (s : Server) (w req : Nat) :
    (s.freeRequest w req).acceptor = s.acceptor ∧ (s.freeRequest w req).connections = s.connections ∧
      (s.freeRequest w req).accepted = s.accepted := by
  rw [Server.freeRequest]
  split
  · exact ⟨rfl, rfl, rfl⟩
  · exact ⟨rfl, rfl, rfl⟩

theorem Intact.workerStep {s t : Server} {w : Nat} {worker : Worker} (hs : s.Intact)
    (hw : s.workers[w]? = some worker) (h : s.workerStep w worker = some t) : t.Intact := by
  obtain ⟨l, hl⟩ := hs.queued
  have hinHand : ∀ u : Server, u.acceptor = s.acceptor ∧ u.connections = s.connections ∧
      u.accepted = s.accepted → u.connections = u.accepted ++ u.inHand := by
    rintro u ⟨hacceptor, hconnections, haccepted⟩
    rw [hconnections, haccepted, inHand, hacceptor]
    exact hs.connections
  cases worker with
  | test =>
    obtain rfl := Option.some.inj h
    refine SameRequests.intact (sameRequests_setWorker hw ?_) hs hs.connections
    split_ifs <;> rfl
  | locking =>
    obtain rfl := Option.some.inj h
    obtain ⟨hqueued, hfaulted⟩ := hl.workerSection hw
    exact ⟨hfaulted.trans hs.sound, hqueued, hinHand _ (workerSection_acceptor s w)⟩
  | waiting => exact absurd h (by simp [Server.workerStep])
  | woken =>
    obtain rfl := Option.some.inj h
    exact SameRequests.intact (sameRequests_setWorker hw rfl) hs hs.connections
  | reading req =>
    obtain rfl := Option.some.inj h
    exact SameRequests.intact (sameRequests_setWorker hw rfl) hs hs.connections
  | ensuring req =>
    simp only [Server.workerStep] at h
    split_ifs at h
    obtain rfl := Option.some.inj h
    have hset : SameRequests s (s.setWorker w (.calling req)) := sameRequests_setWorker hw rfl
    exact (hset.threads _ _ _ _ _).intact hs hs.connections
  | yielding req =>
    simp only [Server.workerStep] at h
    split_ifs at h
    obtain rfl := Option.some.inj h
    have hset : SameRequests s (s.setWorker w (.calling req)) := sameRequests_setWorker hw rfl
    exact (hset.threads _ _ _ _ _).intact hs hs.connections
  | calling req =>
    obtain rfl := Option.some.inj h
    have hset : SameRequests s (s.setWorker w (.replying req)) := sameRequests_setWorker hw rfl
    exact (hset.threads _ _ _ _ _).intact hs hs.connections
  | replying req =>
    obtain rfl := Option.some.inj h
    obtain ⟨hqueued, hfaulted⟩ := hl.freeRequest hw
    exact ⟨hfaulted.trans hs.sound, ⟨l, hqueued⟩, hinHand _ (freeRequest_acceptor s w req)⟩
  | exited => exact absurd h (by simp [Server.workerStep])

theorem Intact.stopStep {s t : Server} (hs : s.Intact) (h : s.stopStep s.stop = some t) : t.Intact := by
  have hsame : ∀ u : Server, SameRequests s u → u.connections = s.connections → u.inHand = s.inHand →
      u.Intact := fun u hu hconn hinHand => hu.intact hs (hconn.trans (hinHand ▸ hs.connections))
  cases hstop : s.stop with
  | idle =>
    simp only [hstop, Server.stopStep] at h
    split_ifs at h
    obtain rfl := Option.some.inj h
    exact hsame _ ((SameRequests.refl s).threads _ _ _ _ _) rfl rfl
  | called =>
    rw [hstop] at h
    obtain rfl := Option.some.inj h
    exact hsame _ ((SameRequests.refl s).threads _ _ _ _ _) rfl rfl
  | cleared =>
    rw [hstop] at h
    obtain rfl := Option.some.inj h
    exact hsame _ ((sameRequests_broadcast s).threads _ _ _ _ _) rfl rfl
  | joining w =>
    simp only [hstop, Server.stopStep] at h
    split at h
    · obtain rfl := Option.some.inj h
      exact hsame _ ((SameRequests.refl s).threads _ _ _ _ _) rfl rfl
    · obtain rfl := Option.some.inj h
      exact hsame _ ((SameRequests.refl s).threads _ _ _ _ _) rfl rfl
    · exact absurd h (by simp)
  | closing =>
    rw [hstop] at h
    obtain rfl := Option.some.inj h
    exact hsame _ ((SameRequests.refl s).threads _ _ _ _ _) rfl rfl
  | joiningRun =>
    simp only [hstop, Server.stopStep] at h
    split_ifs at h
    obtain rfl := Option.some.inj h
    exact hsame _ ((SameRequests.refl s).threads _ _ _ _ _) rfl rfl
  | returned =>
    rw [hstop] at h
    exact absurd h (by simp [Server.stopStep])

theorem Intact.step {s t : Server} {event : ServerEvent} (hs : s.Intact) (h : s.step event = some t) :
    t.Intact := by
  cases event with
  | worker w =>
    obtain ⟨worker, hw, hstep⟩ := Option.bind_eq_some_iff.mp h
    exact hs.workerStep hw hstep
  | spuriousWake w =>
    simp only [Server.step] at h
    split_ifs at h with hw
    obtain rfl := Option.some.inj h
    exact SameRequests.intact (sameRequests_setWorker hw rfl) hs hs.connections
  | yield w =>
    simp only [Server.step] at h
    split at h
    · next req hw =>
      obtain rfl := Option.some.inj h
      have hset : SameRequests s (s.setWorker w (.yielding req)) := sameRequests_setWorker hw rfl
      exact (hset.threads _ _ _ _ _).intact hs hs.connections
    · exact absurd h (by simp)
  | acceptor =>
    have hconnections := hs.connections
    simp only [Server.step] at h
    split at h
    · next hacceptor =>
      obtain rfl := Option.some.inj h
      rw [inHand, hacceptor] at hconnections
      refine ((SameRequests.refl s).threads _ _ _ _ _).intact hs ?_
      cases hkeep : s.keepAlive <;> simpa [inHand, hkeep] using hconnections
    · next hacceptor =>
      obtain rfl := Option.some.inj h
      rw [inHand, hacceptor] at hconnections
      exact ((sameRequests_broadcast s).threads _ _ _ _ _).intact hs hconnections
    · exact absurd h (by simp)
  | accept client =>
    have hconnections := hs.connections
    simp only [Server.step] at h
    split at h
    · next hacceptor =>
      obtain rfl := Option.some.inj h
      rw [inHand, hacceptor] at hconnections
      exact ((SameRequests.refl s).threads _ _ _ _ _).intact hs hconnections
    · next c hacceptor =>
      obtain rfl := Option.some.inj h
      rw [inHand, hacceptor, List.append_nil] at hconnections
      refine ((SameRequests.refl s).threads _ _ _ _ _).intact hs ?_
      exact congrArg (· ++ [c]) hconnections
    · exact absurd h (by simp)
  | enqueue request node =>
    simp only [Server.step] at h
    split at h
    · next c hacceptor =>
      split_ifs at h with hfresh
      obtain rfl := Option.some.inj h
      obtain ⟨l, hl⟩ := hs.queued
      obtain ⟨hne, hrequest, hnode⟩ := hfresh
      obtain ⟨hqueued, hfaulted, hnotifying, haccepted, hconn⟩ := hl.enqueue hne hrequest hnode
      refine ⟨hfaulted.trans hs.sound, hqueued, ?_⟩
      have hconnections := hs.connections
      rw [inHand, hacceptor] at hconnections
      rw [hconn, haccepted, inHand, hnotifying, List.append_nil]
      exact hconnections
    · exact absurd h (by simp)
  | stop => exact hs.stopStep h

theorem start_intact (workers tail : Nat) : (start workers tail).Intact := by
  have hheld : (start workers tail).held = fun _ => 0 := by
    funext x
    rw [held, start, List.countP_replicate]
    rfl
  refine ⟨rfl, ⟨[], ⟨rfl, List.nodup_nil, ?_, ⟨rfl, ?_⟩, ?_⟩, List.nodup_nil, ?_, ?_, ?_, rfl⟩, rfl⟩
  · exact fun last hlast => absurd hlast (by simp)
  · exact fun x object hx => absurd hx (by simp [start])
  · exact fun x hx => absurd hx (by simp)
  · exact fun x hx => absurd hx (by simp)
  · exact fun x => by rw [hheld]; exact Nat.zero_le 1
  · exact fun x hx => absurd (congrFun hheld x) hx

/-- In every state of every schedule: no freed memory has been read, the requests
accepted are those popped, then those in the queue, no two workers have one request,
and what has been accepted as a connection becomes a request. -/
theorem requests_in_order {workers tail : Nat} {s : Server}
    (h : Reaches Server.step (fun _ _ => True) (start workers tail) s) :
    s.faulted = false ∧ (∃ l, Chain s.memory.nodes s.requestQueue.head l ∧
        s.accepted.map some = s.popped.map (fun p => some p.2) ++ l.map fun e => s.client e.2) ∧
      (∀ x, s.held x ≤ 1) ∧ s.connections = s.accepted ++ s.inHand := by
  have hintact : s.Intact :=
    h.invariant Intact (start_intact workers tail) fun t event u ht _ hstep => ht.step hstep
  obtain ⟨l, hl⟩ := hintact.queued
  exact ⟨hintact.sound, ⟨l, hl.holds.chain, hl.order⟩, hl.single, hintact.connections⟩

/-- Two connections and two workers; the second request follows a stale tail. -/
def twoRequests : List ServerEvent :=
  [.acceptor, .accept (some 5), .enqueue 1 2, .acceptor, .worker 0, .worker 0, .acceptor, .worker 1,
    .accept (some 6), .enqueue 3 4, .worker 1, .worker 0, .worker 0]

theorem requests_in_order_twoRequests :
    ∃ s, run Server.step (start 2 9) twoRequests = some s ∧ s.popped = [(0, 5), (1, 6)] ∧
      s.faulted = false ∧ (∃ l, Chain s.memory.nodes s.requestQueue.head l ∧
        s.accepted.map some = s.popped.map (fun p => some p.2) ++ l.map fun e => s.client e.2) ∧
      (∀ x, s.held x ≤ 1) ∧ s.connections = s.accepted ++ s.inHand := by
  have hpopped : (run Server.step (start 2 9) twoRequests).map Server.popped = some [(0, 5), (1, 6)] := by
    decide +kernel
  obtain ⟨s, hs, hfinal⟩ := Option.map_eq_some_iff.mp hpopped
  exact ⟨s, hs, hfinal, requests_in_order (Reaches.refl.run (allOk_true _ _) hs)⟩

end Server

end AutoGentoo
