import AutoGentoo.TcpServer

/-! When `stop` comes to an end: `keep_alive` is tested without the lock, and the caller
of `stop` has the interpreter lock while it joins the workers. -/

namespace AutoGentoo

open GuardedRun

/-- Between the request it has popped and the end of the callback. -/
def Worker.NeedsInterpreter : Worker → Prop
  | reading _ | ensuring _ | calling _ | yielding _ => True
  | test | locking | waiting | woken | replying _ | exited => False

instance : DecidablePred Worker.NeedsInterpreter
  | .reading _ | .ensuring _ | .calling _ | .yielding _ => isTrue trivial
  | .test | .locking | .waiting | .woken | .replying _ | .exited => isFalse id

/-- The acceptor has a broadcast to make, without a new connection. -/
def Acceptor.WillBroadcast : Acceptor → Prop
  | queueing _ | notifying => True
  | test | accepting | finished => False

instance : DecidablePred Acceptor.WillBroadcast
  | .queueing _ | .notifying => isTrue trivial
  | .test | .accepting | .finished => isFalse id

namespace Server

/-- A broadcast that does not need a new connection. -/
def BroadcastToCome (s : Server) : Prop :=
  s.stop = .called ∨ s.stop = .cleared ∨ s.acceptor.WillBroadcast

/-- Asleep with no broadcast still to come, or without the lock that the caller of `stop`
has. -/
def Stuck (s : Server) (worker : Worker) : Prop :=
  (worker = .waiting ∧ ¬ s.BroadcastToCome) ∨
    ((∃ req, worker = .ensuring req ∨ worker = .yielding req) ∧ s.interpreter = some .stop)

/-- `stop` waits for a worker that is stuck. -/
def Deadlocked (s : Server) : Prop :=
  ∃ w worker, s.stop = .joining w ∧ s.workers[w]? = some worker ∧ s.Stuck worker

/-- `stop` is called while no worker has a request before the end of its callback, and
from then on no worker pops a request, or goes to sleep with no broadcast to come. -/
def StopSafe (s : Server) : ServerEvent → Prop
  | .stop => s.stop = .idle → ∀ worker ∈ s.workers, ¬ worker.NeedsInterpreter
  | .worker w => s.workers[w]? = some .locking → s.stop ≠ .idle →
      s.requestQueue.queuePeek s.memory = some 0 ∧ s.BroadcastToCome
  | _ => True

/-- What is kept from the call of `stop` on. -/
structure Stopping (s : Server) : Prop where
  callbacks : s.stop ≠ .idle → ∀ worker ∈ s.workers, ¬ worker.NeedsInterpreter
  asleep : s.stop ≠ .idle → .waiting ∈ s.workers → s.BroadcastToCome

theorem Stopping.not_deadlocked {s : Server} (hs : s.Stopping) : ¬ s.Deadlocked := by
  rintro ⟨w, worker, hstop, hworker, hstuck⟩
  have hidle : s.stop ≠ .idle := by
    rw [hstop]
    exact Stopper.noConfusion
  have hmem : worker ∈ s.workers := List.mem_of_getElem? hworker
  rcases hstuck with ⟨rfl, hcome⟩ | ⟨⟨req, hreq⟩, -⟩
  · exact hcome (hs.asleep hidle hmem)
  · apply hs.callbacks hidle worker hmem
    rcases hreq with rfl | rfl <;> trivial

/-- A step that leaves `stop` and the broadcasts to come, and only gives a worker what
does not need the interpreter. -/
theorem Stopping.frame {s t : Server} (hs : s.Stopping) (hstop : t.stop = s.stop)
    (hcome : s.BroadcastToCome → t.BroadcastToCome)
    (hworkers : s.stop ≠ .idle → ∀ worker ∈ t.workers, worker ∈ s.workers ∨
      (¬ worker.NeedsInterpreter ∧ (worker = .waiting → s.BroadcastToCome))) : t.Stopping := by
  constructor
  · intro hidle worker hmem
    rw [hstop] at hidle
    rcases hworkers hidle worker hmem with h | h
    · exact hs.callbacks hidle worker h
    · exact h.1
  · intro hidle hmem
    rw [hstop] at hidle
    apply hcome
    rcases hworkers hidle _ hmem with h | h
    · exact hs.asleep hidle h
    · exact h.2 rfl

theorem Stopping.setWorker {s t : Server} (hs : s.Stopping) {w : Nat} {new : Worker}
    (hstop : t.stop = s.stop) (hacceptor : t.acceptor = s.acceptor)
    (hworkers : t.workers = s.workers.set w new)
    (hnew : s.stop ≠ .idle → ¬ new.NeedsInterpreter ∧ (new = .waiting → s.BroadcastToCome)) :
    t.Stopping := by
  apply hs.frame hstop
  · intro hcome
    rwa [BroadcastToCome, hstop, hacceptor]
  · intro hidle worker hmem
    rw [hworkers] at hmem
    rcases List.mem_or_eq_of_mem_set hmem with h | rfl
    · exact .inl h
    · exact .inr (hnew hidle)

/-- After a broadcast nobody sleeps. -/
theorem Stopping.broadcast {s t : Server} (hs : s.Stopping) (hidle : s.stop ≠ .idle)
    (hworkers : t.workers = s.workers.map Worker.wake) : t.Stopping := by
  have hwake : ∀ worker : Worker, worker.wake ≠ .waiting := by
    intro worker
    cases worker <;> exact Worker.noConfusion
  constructor
  · intro _ worker hmem
    rw [hworkers] at hmem
    obtain ⟨old, hold, rfl⟩ := List.mem_map.mp hmem
    have hneeds := hs.callbacks hidle old hold
    cases old <;> exact hneeds
  · intro _ hmem
    rw [hworkers] at hmem
    obtain ⟨old, -, hold⟩ := List.mem_map.mp hmem
    exact absurd hold (hwake old)

theorem Stopping.idle {s : Server} (h : s.stop = .idle) : s.Stopping :=
  ⟨fun hidle => absurd h hidle, fun hidle => absurd h hidle⟩

theorem workerSection_stop (s : Server) (w : Nat) :
    (s.workerSection w).stop = s.stop ∧ (s.workerSection w).acceptor = s.acceptor := by
  rw [Server.workerSection]
  split
  · exact ⟨rfl, rfl⟩
  · exact ⟨rfl, rfl⟩
  · split
    · exact ⟨rfl, rfl⟩
    · exact ⟨rfl, rfl⟩

theorem Stopping.workerStep {s t : Server} {w : Nat} {worker : Worker} (hs : s.Stopping)
    (hw : s.workers[w]? = some worker) (hok : s.StopSafe (.worker w))
    (h : s.workerStep w worker = some t) : t.Stopping := by
  have hmem : worker ∈ s.workers := List.mem_of_getElem? hw
  cases worker with
  | test =>
    obtain rfl := Option.some.inj h
    refine hs.setWorker rfl rfl rfl fun _ => ?_
    cases s.keepAlive
    · exact ⟨id, Worker.noConfusion⟩
    · exact ⟨id, Worker.noConfusion⟩
  | locking =>
    obtain rfl := Option.some.inj h
    by_cases hidle : s.stop = .idle
    · exact Stopping.idle ((workerSection_stop s w).1.trans hidle)
    · obtain ⟨hpeek, hcome⟩ := hok hw hidle
      have hsection : s.workerSection w = s.setWorker w .waiting := by
        simp only [Server.workerSection, hpeek]
      rw [hsection]
      exact hs.setWorker rfl rfl rfl fun _ => ⟨id, fun _ => hcome⟩
  | waiting => exact absurd h (by simp [Server.workerStep])
  | woken =>
    obtain rfl := Option.some.inj h
    exact hs.setWorker rfl rfl rfl fun _ => ⟨id, Worker.noConfusion⟩
  | reading req =>
    obtain rfl := Option.some.inj h
    exact hs.setWorker rfl rfl rfl fun hidle => absurd trivial (hs.callbacks hidle _ hmem)
  | ensuring req =>
    simp only [Server.workerStep] at h
    split_ifs at h
    obtain rfl := Option.some.inj h
    exact hs.setWorker rfl rfl rfl fun hidle => absurd trivial (hs.callbacks hidle _ hmem)
  | yielding req =>
    simp only [Server.workerStep] at h
    split_ifs at h
    obtain rfl := Option.some.inj h
    exact hs.setWorker rfl rfl rfl fun hidle => absurd trivial (hs.callbacks hidle _ hmem)
  | calling req =>
    obtain rfl := Option.some.inj h
    exact hs.setWorker rfl rfl rfl fun _ => ⟨id, Worker.noConfusion⟩
  | replying req =>
    obtain rfl := Option.some.inj h
    rw [Server.freeRequest]
    split
    · exact hs.frame rfl id fun _ _ hmem => .inl hmem
    · exact hs.setWorker rfl rfl rfl fun _ => ⟨id, Worker.noConfusion⟩
  | exited => exact absurd h (by simp [Server.workerStep])

/-- Past the broadcast of `stop`, only the acceptor has one to make. -/
theorem BroadcastToCome.late {s t : Server} (h : s.BroadcastToCome) (hcalled : s.stop ≠ .called)
    (hcleared : s.stop ≠ .cleared) (hacceptor : t.acceptor = s.acceptor) : t.BroadcastToCome := by
  rcases h with h | h | h
  · exact absurd h hcalled
  · exact absurd h hcleared
  · rw [← hacceptor] at h
    exact .inr (.inr h)

theorem Stopping.stopStep {s t : Server} (hs : s.Stopping) (hok : s.StopSafe .stop)
    (h : s.stopStep s.stop = some t) : t.Stopping := by
  have hstep : s.stop ≠ .idle → (s.BroadcastToCome → t.BroadcastToCome) → t.workers = s.workers →
      t.Stopping := by
    intro hidle hcome hworkers
    constructor
    · rw [hworkers]
      exact fun _ => hs.callbacks hidle
    · rw [hworkers]
      exact fun _ hmem => hcome (hs.asleep hidle hmem)
  have hlate : s.stop ≠ .idle → s.stop ≠ .called → s.stop ≠ .cleared → t.acceptor = s.acceptor →
      t.workers = s.workers → t.Stopping := fun hidle hcalled hcleared hacceptor =>
    hstep hidle fun hcome => hcome.late hcalled hcleared hacceptor
  cases hstop : s.stop with
  | idle =>
    simp only [hstop, Server.stopStep] at h
    split_ifs at h
    obtain rfl := Option.some.inj h
    exact ⟨fun _ => hok hstop, fun _ _ => .inl rfl⟩
  | called =>
    rw [hstop] at h hstep
    obtain rfl := Option.some.inj h
    exact hstep Stopper.noConfusion (fun _ => .inr (.inl rfl)) rfl
  | cleared =>
    have hidle : s.stop ≠ .idle := by
      rw [hstop]
      exact Stopper.noConfusion
    rw [hstop] at h
    obtain rfl := Option.some.inj h
    exact hs.broadcast hidle rfl
  | joining w =>
    rw [hstop] at h hlate
    simp only [Server.stopStep] at h
    split at h
    · obtain rfl := Option.some.inj h
      exact hlate Stopper.noConfusion Stopper.noConfusion Stopper.noConfusion rfl rfl
    · obtain rfl := Option.some.inj h
      exact hlate Stopper.noConfusion Stopper.noConfusion Stopper.noConfusion rfl rfl
    · exact absurd h (by simp)
  | closing =>
    rw [hstop] at h hlate
    obtain rfl := Option.some.inj h
    exact hlate Stopper.noConfusion Stopper.noConfusion Stopper.noConfusion rfl rfl
  | joiningRun =>
    rw [hstop] at h hlate
    simp only [Server.stopStep] at h
    split_ifs at h
    obtain rfl := Option.some.inj h
    exact hlate Stopper.noConfusion Stopper.noConfusion Stopper.noConfusion rfl rfl
  | returned =>
    rw [hstop] at h
    exact absurd h (by simp [Server.stopStep])

/-- The acceptor leaves the workers alone but for its broadcast, and makes a broadcast
after each request. -/
theorem Stopping.acceptor {s t : Server} (hs : s.Stopping) (hstop : t.stop = s.stop)
    (hworkers : t.workers = s.workers) (hcome : s.BroadcastToCome → t.BroadcastToCome) : t.Stopping := by
  apply hs.frame hstop hcome
  intro _ worker hmem
  rw [hworkers] at hmem
  exact .inl hmem

theorem Stopping.step {s t : Server} {event : ServerEvent} (hs : s.Stopping) (hok : s.StopSafe event)
    (h : s.step event = some t) : t.Stopping := by
  cases event with
  | worker w =>
    obtain ⟨worker, hw, hstep⟩ := Option.bind_eq_some_iff.mp h
    exact hs.workerStep hw hok hstep
  | spuriousWake w =>
    simp only [Server.step] at h
    split_ifs at h with hw
    obtain rfl := Option.some.inj h
    exact hs.setWorker rfl rfl rfl fun _ => ⟨id, Worker.noConfusion⟩
  | yield w =>
    simp only [Server.step] at h
    split at h
    · next req hw =>
      have hmem := List.mem_of_getElem? hw
      obtain rfl := Option.some.inj h
      exact hs.setWorker rfl rfl rfl fun hidle => absurd trivial (hs.callbacks hidle _ hmem)
    · exact absurd h (by simp)
  | acceptor =>
    simp only [Server.step] at h
    split at h
    · next hacceptor =>
      obtain rfl := Option.some.inj h
      refine hs.acceptor rfl rfl fun hcome => ?_
      rcases hcome with hcome | hcome | hcome
      · exact .inl hcome
      · exact .inr (.inl hcome)
      · rw [hacceptor] at hcome
        exact hcome.elim
    · obtain rfl := Option.some.inj h
      by_cases hidle : s.stop = .idle
      · exact Stopping.idle hidle
      · exact hs.broadcast hidle rfl
    · exact absurd h (by simp)
  | accept client =>
    simp only [Server.step] at h
    split at h
    · next hacceptor =>
      obtain rfl := Option.some.inj h
      refine hs.acceptor rfl rfl fun hcome => ?_
      rcases hcome with hcome | hcome | hcome
      · exact .inl hcome
      · exact .inr (.inl hcome)
      · rw [hacceptor] at hcome
        exact hcome.elim
    · obtain rfl := Option.some.inj h
      exact hs.acceptor rfl rfl fun _ => .inr (.inr trivial)
    · exact absurd h (by simp)
  | enqueue request node =>
    simp only [Server.step] at h
    split at h
    · next client hacceptor =>
      split_ifs at h
      obtain rfl := Option.some.inj h
      simp only [Server.enqueue]
      split
      · exact hs.acceptor rfl rfl fun hcome => hcome
      · exact hs.acceptor rfl rfl fun _ => .inr (.inr trivial)
    · exact absurd h (by simp)
  | stop => exact hs.stopStep hok h

/-- In a run all of whose steps are safe, `stop` never waits for a worker that is stuck. -/
theorem stop_not_deadlocked {workers tail : Nat} {s : Server}
    (h : Reaches Server.step StopSafe (start workers tail) s) : ¬ s.Deadlocked := by
  have hstopping : s.Stopping :=
    h.invariant Stopping (Stopping.idle rfl) fun t event u ht hok hstep => ht.step hok hstep
  exact hstopping.not_deadlocked

instance (s : Server) : Decidable s.BroadcastToCome :=
  inferInstanceAs (Decidable (s.stop = .called ∨ s.stop = .cleared ∨ s.acceptor.WillBroadcast))

instance (s : Server) : (event : ServerEvent) → Decidable (s.StopSafe event)
  | .stop => inferInstanceAs (Decidable (s.stop = .idle → ∀ worker ∈ s.workers, ¬ worker.NeedsInterpreter))
  | .worker w => inferInstanceAs (Decidable (s.workers[w]? = some .locking → s.stop ≠ .idle →
      s.requestQueue.queuePeek s.memory = some 0 ∧ s.BroadcastToCome))
  | .spuriousWake _ | .yield _ | .acceptor | .accept _ | .enqueue _ _ => isTrue trivial

/-- A request is served, both workers sleep, and `stop` returns. -/
def stopAtRest : List ServerEvent :=
  [.worker 0, .worker 0, .worker 1, .worker 1, .acceptor, .accept (some 5), .enqueue 1 2, .acceptor,
    .worker 0, .worker 0, .worker 0, .worker 0, .worker 0, .worker 0, .worker 0, .worker 0, .worker 0,
    .worker 1, .worker 1, .worker 1, .acceptor, .stop, .stop, .stop, .worker 0, .worker 0, .stop,
    .worker 1, .worker 1, .stop, .stop, .stop, .accept none, .acceptor, .stop]

theorem stop_not_deadlocked_atRest :
    ∃ s, run Server.step (start 2 9) stopAtRest = some s ∧ s.stop = .returned ∧ ¬ s.Deadlocked := by
  have hok : AllOk Server.step StopSafe (start 2 9) stopAtRest := by decide +kernel
  have hfinal : (run Server.step (start 2 9) stopAtRest).map Server.stop = some .returned := by
    decide +kernel
  obtain ⟨s, hs, hfinal⟩ := Option.map_eq_some_iff.mp hfinal
  exact ⟨s, hs, hfinal, stop_not_deadlocked (Reaches.refl.run hok hs)⟩

/-- Worker 0 tests `keep_alive` before `stop` clears it, and locks after the broadcast. -/
def testBeforeStop : List ServerEvent := [.worker 0, .stop, .stop, .stop, .worker 0]

/-- Worker 0 has a request when `stop` is called. -/
def stopWithRequest : List ServerEvent :=
  [.acceptor, .accept (some 5), .enqueue 1 2, .worker 0, .worker 0, .stop, .stop, .stop, .worker 0]

theorem stop_deadlocks :
    (∃ s, run Server.step (start 8 9) testBeforeStop = some s ∧ s.Deadlocked) ∧
      ∃ s, run Server.step (start 8 9) stopWithRequest = some s ∧ s.Deadlocked := by
  constructor
  · have hfinal : (run Server.step (start 8 9) testBeforeStop).map (fun s =>
        (s.stop, s.workers[0]?, s.acceptor)) = some (.joining 0, some .waiting, .test) := by
      decide +kernel
    obtain ⟨s, hs, hfinal⟩ := Option.map_eq_some_iff.mp hfinal
    simp only [Prod.mk.injEq] at hfinal
    obtain ⟨hstop, hworker, hacceptor⟩ := hfinal
    refine ⟨s, hs, 0, .waiting, hstop, hworker, .inl ⟨rfl, ?_⟩⟩
    simp only [BroadcastToCome, hstop, hacceptor, reduceCtorEq, Acceptor.WillBroadcast, or_self,
      not_false_eq_true]
  · have hfinal : (run Server.step (start 8 9) stopWithRequest).map (fun s =>
        (s.stop, s.workers[0]?, s.interpreter)) =
          some (.joining 0, some (.ensuring 1), some .stop) := by
      decide +kernel
    obtain ⟨s, hs, hfinal⟩ := Option.map_eq_some_iff.mp hfinal
    simp only [Prod.mk.injEq] at hfinal
    obtain ⟨hstop, hworker, hinterpreter⟩ := hfinal
    exact ⟨s, hs, 0, .ensuring 1, hstop, hworker, .inr ⟨⟨1, .inl rfl⟩, hinterpreter⟩⟩

end Server

end AutoGentoo
