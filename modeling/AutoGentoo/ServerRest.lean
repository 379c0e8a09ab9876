import AutoGentoo.ServerMoves
import Mathlib.Tactic.Ring

/-! No wake-up is lost: while `stop` has not been called, the threads come to rest only
when every request has been taken, and get there in a bounded number of steps. When `stop`
has returned, no thread is left. -/

namespace AutoGentoo

open GuardedRun

/-- A step of the server's own threads, which needs nothing from outside. -/
def ServerEvent.byThread : ServerEvent → Bool
  | .worker _ | .acceptor | .enqueue _ _ => true
  | .spuriousWake _ | .yield _ | .accept _ | .stop => false

/-- The steps a worker can take before it needs a request or a broadcast. -/
def Worker.load : Worker → Nat
  | waiting | exited => 0
  | locking => 1
  | test => 2
  | woken | replying _ => 3
  | calling _ => 4
  | ensuring _ | yielding _ => 5
  | reading _ => 6

/-- A broadcast may wake every worker, and a request makes a worker take five steps. -/
def Acceptor.load (workers : Nat) : Acceptor → Nat
  | accepting | finished => 0
  | test => 1
  | notifying => 3 * workers + 2
  | queueing _ => 3 * workers + 9

namespace Server

/-- Neither a worker nor the acceptor can go on, and the acceptor has no client. -/
def Rests (s : Server) : Prop :=
  (∀ w, s.step (.worker w) = none) ∧ s.step .acceptor = none ∧ s.inHand = []

/-- Nobody sleeps past the broadcast for a request, and the interpreter is free but for
callbacks while `stop` has not been called. -/
structure Awake (s : Server) : Prop where
  asleep : s.acceptor ≠ .notifying → .waiting ∈ s.workers → s.accepted.length = s.popped.length
  holder : ∀ w, s.interpreter = some (.worker w) → ∃ req, s.workers[w]? = some (.calling req)
  caller : s.stop = .idle → s.interpreter ≠ some .stop
  alive : s.stop = .idle → s.keepAlive = true ∧ .exited ∉ s.workers ∧ s.acceptor ≠ .finished

theorem wake_eq_waiting {worker : Worker} : worker.wake ≠ .waiting := by
  cases worker <;> exact Worker.noConfusion

theorem wake_eq_exited {worker : Worker} (h : worker.wake = .exited) : worker = .exited := by
  cases worker <;> first | rfl | exact Worker.noConfusion h

/-- A worker goes on, and nothing is put into the queue. -/
theorem Awake.move {s t : Server} (hs : s.Awake) {w : Nat} {new : Worker}
    (hworkers : t.workers = s.workers.set w new) (hacceptor : t.acceptor = s.acceptor)
    (hstop : t.stop = s.stop) (hkeep : t.keepAlive = s.keepAlive)
    (hpending : s.accepted.length = s.popped.length → t.accepted.length = t.popped.length)
    (hsleep : new = .waiting → t.accepted.length = t.popped.length)
    (hexit : s.stop = .idle → new ≠ .exited)
    (hholder : ∀ v, t.interpreter = some (.worker v) → ∃ req, t.workers[v]? = some (.calling req))
    (hcaller : s.stop = .idle → t.interpreter ≠ some .stop) : t.Awake := by
  refine ⟨fun hnotifying hmem => ?_, hholder, hstop ▸ hcaller, fun hidle => ?_⟩
  · rw [hacceptor] at hnotifying
    rw [hworkers] at hmem
    rcases List.mem_or_eq_of_mem_set hmem with hmem | hnew
    · exact hpending (hs.asleep hnotifying hmem)
    · exact hsleep hnew.symm
  · rw [hstop] at hidle
    obtain ⟨halive, hexited, hfinished⟩ := hs.alive hidle
    refine ⟨hkeep.trans halive, fun hmem => ?_, hacceptor ▸ hfinished⟩
    rw [hworkers] at hmem
    rcases List.mem_or_eq_of_mem_set hmem with hmem | hnew
    · exact hexited hmem
    · exact hexit hidle hnew.symm

/-- Where a worker that is in no callback goes on, the interpreter stays whose it is. -/
theorem Awake.holder_set {s : Server} (hs : s.Awake) {w : Nat} {old new : Worker}
    (hw : s.workers[w]? = some old) (hold : ∀ req, old ≠ .calling req) (v : Nat)
    (hv : s.interpreter = some (.worker v)) :
    ∃ req, (s.workers.set w new)[v]? = some (.calling req) := by
  obtain ⟨req, hreq⟩ := hs.holder v hv
  refine ⟨req, ?_⟩
  have hne : w ≠ v := by
    rintro rfl
    exact hold req (Option.some.inj (hw.symm.trans hreq))
  rw [List.getElem?_set_ne hne, hreq]

theorem Awake.broadcast {s t : Server} (hs : s.Awake) (hworkers : t.workers = s.workers.map Worker.wake)
    (hinterpreter : t.interpreter = s.interpreter)
    (halive : t.stop = .idle → s.stop = .idle ∧ t.keepAlive = s.keepAlive ∧ t.acceptor ≠ .finished) :
    t.Awake := by
  refine ⟨fun _ hmem => ?_, fun v hv => ?_, fun hidle => ?_, fun hidle => ?_⟩
  · rw [hworkers] at hmem
    obtain ⟨old, -, hold⟩ := List.mem_map.mp hmem
    exact absurd hold wake_eq_waiting
  · rw [hinterpreter] at hv
    obtain ⟨req, hreq⟩ := hs.holder v hv
    exact ⟨req, by rw [hworkers, List.getElem?_map, hreq]; rfl⟩
  · rw [hinterpreter]
    exact hs.caller (halive hidle).1
  · obtain ⟨hstop, hkeep, hfinished⟩ := halive hidle
    obtain ⟨hkeepAlive, hexited, -⟩ := hs.alive hstop
    refine ⟨hkeep.trans hkeepAlive, fun hmem => ?_, hfinished⟩
    rw [hworkers] at hmem
    obtain ⟨old, hmem, hold⟩ := List.mem_map.mp hmem
    exact hexited (wake_eq_exited hold ▸ hmem)

/-- The acceptor or `stop` goes on, and the workers do not. -/
theorem Awake.frame {s t : Server} (hs : s.Awake) (hworkers : t.workers = s.workers)
    (hasleep : t.acceptor ≠ .notifying → s.acceptor ≠ .notifying ∧ t.accepted = s.accepted)
    (hpopped : t.popped = s.popped)
    (hholder : ∀ w, t.interpreter = some (.worker w) → s.interpreter = some (.worker w))
    (halive : t.stop = .idle → s.stop = .idle ∧ t.interpreter = s.interpreter ∧
      t.keepAlive = s.keepAlive ∧ t.acceptor ≠ .finished) : t.Awake := by
  refine ⟨fun hnotifying hmem => ?_, fun w hw => ?_, fun hidle => ?_, fun hidle => ?_⟩
  · obtain ⟨hold, haccepted⟩ := hasleep hnotifying
    rw [haccepted, hpopped]
    exact hs.asleep hold (hworkers ▸ hmem)
  · rw [hworkers]
    exact hs.holder w (hholder w hw)
  · obtain ⟨hstop, hinterpreter, -⟩ := halive hidle
    rw [hinterpreter]
    exact hs.caller hstop
  · obtain ⟨hstop, -, hkeep, hfinished⟩ := halive hidle
    obtain ⟨hkeepAlive, hexited, -⟩ := hs.alive hstop
    exact ⟨hkeep.trans hkeepAlive, hworkers ▸ hexited, hfinished⟩

theorem Moves.awake {s t : Server} {event : ServerEvent} (h : s.Moves event t) (hs : s.Awake) : t.Awake := by
  cases h with
  | test w hw =>
    refine hs.move rfl rfl rfl rfl id (fun hnew => ?_) (fun hidle => ?_)
      (hs.holder_set hw fun req => Worker.noConfusion) hs.caller
    · cases hkeep : s.keepAlive <;> rw [hkeep] at hnew <;> exact Worker.noConfusion hnew
    · rw [(hs.alive hidle).1]
      exact Worker.noConfusion
  | sleep w hw hempty =>
    exact hs.move rfl rfl rfl rfl id (fun _ => hempty) (fun _ => Worker.noConfusion)
      (hs.holder_set hw fun req => Worker.noConfusion) hs.caller
  | pop w req client memory queue hw hnext hclient hvalues =>
    refine hs.move rfl rfl rfl rfl (fun hpending => ?_) Worker.noConfusion (fun _ => Worker.noConfusion)
      (hs.holder_set hw fun req => Worker.noConfusion) hs.caller
    have hlt := (List.getElem?_eq_some_iff.mp hnext).1
    omega
  | woken w hw =>
    exact hs.move rfl rfl rfl rfl id Worker.noConfusion (fun _ => Worker.noConfusion)
      (hs.holder_set hw fun req => Worker.noConfusion) hs.caller
  | read w req hw =>
    exact hs.move rfl rfl rfl rfl id Worker.noConfusion (fun _ => Worker.noConfusion)
      (hs.holder_set hw fun req => Worker.noConfusion) hs.caller
  | ensure w req hw hfree =>
    refine hs.move rfl rfl rfl rfl id Worker.noConfusion (fun _ => Worker.noConfusion) (fun v hv => ?_)
      (fun _ => by simp)
    obtain rfl : w = v := by simpa using hv
    have hlt : w < s.workers.length := hw.elim (fun h => (List.getElem?_eq_some_iff.mp h).1)
      fun h => (List.getElem?_eq_some_iff.mp h).1
    exact ⟨req, List.getElem?_set_self hlt⟩
  | release w req hw =>
    exact hs.move rfl rfl rfl rfl id Worker.noConfusion (fun _ => Worker.noConfusion)
      (fun v hv => absurd hv (by simp)) (fun _ => by simp)
  | reply w req hw =>
    exact hs.move rfl rfl rfl rfl id Worker.noConfusion (fun _ => Worker.noConfusion)
      (hs.holder_set hw fun req => Worker.noConfusion) hs.caller
  | spuriousWake w hw =>
    exact hs.move rfl rfl rfl rfl id Worker.noConfusion (fun _ => Worker.noConfusion)
      (hs.holder_set hw fun req => Worker.noConfusion) hs.caller
  | yield w req hw =>
    exact hs.move rfl rfl rfl rfl id Worker.noConfusion (fun _ => Worker.noConfusion)
      (fun v hv => absurd hv (by simp)) (fun _ => by simp)
  | testAlive ha =>
    refine hs.frame rfl (fun _ => ⟨by simp [ha], rfl⟩) rfl (fun _ => id) fun hidle =>
      ⟨hidle, rfl, rfl, ?_⟩
    have hkeep : s.keepAlive = true := (hs.alive hidle).1
    simp [hkeep]
  | notify ha =>
    exact hs.broadcast rfl rfl fun hidle => ⟨hidle, rfl, by simp⟩
  | refuse ha =>
    exact hs.frame rfl (fun _ => ⟨by simp [ha], rfl⟩) rfl (fun _ => id) fun hidle =>
      ⟨hidle, rfl, rfl, by simp⟩
  | accept client ha =>
    exact hs.frame rfl (fun _ => ⟨by simp [ha], rfl⟩) rfl (fun _ => id) fun hidle =>
      ⟨hidle, rfl, rfl, by simp⟩
  | enqueue client request node memory queue ha hfresh hvalues =>
    exact hs.frame rfl (fun hne => absurd rfl hne) rfl (fun _ => id) fun hidle =>
      ⟨hidle, rfl, rfl, by simp⟩
  | call hstop hfree =>
    exact hs.frame rfl (fun hne => ⟨hne, rfl⟩) rfl (fun w hw => absurd hw (by simp)) (by simp)
  | clear hstop => exact hs.frame rfl (fun hne => ⟨hne, rfl⟩) rfl (fun _ => id) (by simp)
  | wakeAll hstop => exact hs.broadcast rfl rfl (by simp)
  | join w hstop hw => exact hs.frame rfl (fun hne => ⟨hne, rfl⟩) rfl (fun _ => id) (by simp)
  | joined w hstop hw => exact hs.frame rfl (fun hne => ⟨hne, rfl⟩) rfl (fun _ => id) (by simp)
  | close hstop => exact hs.frame rfl (fun hne => ⟨hne, rfl⟩) rfl (fun _ => id) (by simp)
  | finish hstop ha =>
    exact hs.frame rfl (fun hne => ⟨hne, rfl⟩) rfl (fun w hw => absurd hw (by simp)) (by simp)

theorem start_awake (workers tail : Nat) : (start workers tail).Awake := by
  refine ⟨fun _ _ => rfl, fun w hw => absurd hw (by simp [start]), fun _ => by simp [start],
    fun _ => ⟨rfl, fun hmem => ?_, by simp [start]⟩⟩
  exact absurd (List.eq_of_mem_replicate hmem) Worker.noConfusion

/-- While `stop` has not been called, a worker of a server at rest sleeps. -/
theorem Awake.rests_waiting {s : Server} (hs : s.Awake) (hidle : s.stop = .idle) (hrest : s.Rests)
    {w : Nat} {worker : Worker} (hw : s.workers[w]? = some worker) : worker = .waiting := by
  have hstuck : ∀ v old, s.workers[v]? = some old → s.workerStep v old = none := by
    intro v old hv
    have hstep := hrest.1 v
    rwa [Server.step, hv, Option.bind_some] at hstep
  -- who has the interpreter lock is in a callback, and can return from it
  have hfree : s.interpreter = none := by
    cases hinterpreter : s.interpreter with
    | none => rfl
    | some holder =>
      cases holder with
      | stop => exact absurd hinterpreter (hs.caller hidle)
      | worker v =>
        obtain ⟨req, hreq⟩ := hs.holder v hinterpreter
        exact absurd (hstuck v _ hreq) (by simp [Server.workerStep])
  have hnone := hstuck w worker hw
  cases worker with
  | waiting => rfl
  | exited => exact absurd (List.mem_of_getElem? hw) (hs.alive hidle).2.1
  | ensuring req => exact absurd hnone (by simp [Server.workerStep, hfree])
  | yielding req => exact absurd hnone (by simp [Server.workerStep, hfree])
  | test | locking | woken | reading req | calling req | replying req =>
    exact absurd hnone (by simp [Server.workerStep])

theorem Awake.rests_acceptor {s : Server} (hs : s.Awake) (hidle : s.stop = .idle) (hrest : s.Rests) :
    s.acceptor = .accepting := by
  obtain ⟨-, hstep, hhand⟩ := hrest
  cases hacceptor : s.acceptor with
  | accepting => rfl
  | finished => exact absurd hacceptor (hs.alive hidle).2.2
  | queueing client => exact absurd hhand (by simp [inHand, hacceptor])
  | test => exact absurd hstep (by simp [Server.step, hacceptor])
  | notifying => exact absurd hstep (by simp [Server.step, hacceptor])

/-- `stop` has joined the workers up to the one it waits for, and at last the acceptor. -/
structure Joined (s : Server) : Prop where
  joining : ∀ w, s.stop = .joining w → ∀ v < w, s.workers[v]? = some .exited
  all : s.stop = .closing ∨ s.stop = .joiningRun ∨ s.stop = .returned →
    ∀ worker ∈ s.workers, worker = .exited
  finished : s.stop = .returned → s.acceptor = .finished

/-- A worker that goes on has not been joined. -/
theorem Joined.move {s t : Server} (hs : s.Joined) {w : Nat} {old new : Worker}
    (hw : s.workers[w]? = some old) (hold : old ≠ .exited) (hworkers : t.workers = s.workers.set w new)
    (hstop : t.stop = s.stop) (hacceptor : t.acceptor = s.acceptor) : t.Joined := by
  refine ⟨fun v hv u hu => ?_, fun hlate => ?_, fun hreturned => ?_⟩
  · rw [hstop] at hv
    have hexited := hs.joining v hv u hu
    have hne : w ≠ u := by
      rintro rfl
      exact hold (Option.some.inj (hw.symm.trans hexited))
    rw [hworkers, List.getElem?_set_ne hne, hexited]
  · rw [hstop] at hlate
    exact absurd (hs.all hlate old (List.mem_of_getElem? hw)) hold
  · rw [hacceptor]
    exact hs.finished (hstop ▸ hreturned)

theorem Joined.broadcast {s t : Server} (hs : s.Joined) (hworkers : t.workers = s.workers.map Worker.wake)
    (hstop : t.stop = s.stop) (hacceptor : t.stop = .returned → t.acceptor = s.acceptor) : t.Joined := by
  refine ⟨fun v hv u hu => ?_, fun hlate worker hmem => ?_, fun hreturned => ?_⟩
  · rw [hworkers, List.getElem?_map, hs.joining v (hstop ▸ hv) u hu]
    rfl
  · rw [hworkers] at hmem
    obtain ⟨old, hold, rfl⟩ := List.mem_map.mp hmem
    rw [hs.all (hstop ▸ hlate) old hold]
    rfl
  · rw [hacceptor hreturned]
    exact hs.finished (hstop ▸ hreturned)

theorem Joined.acceptor {s t : Server} (hs : s.Joined) (hworkers : t.workers = s.workers)
    (hstop : t.stop = s.stop) (hacceptor : s.acceptor ≠ .finished) : t.Joined :=
  ⟨fun v hv => hworkers ▸ hs.joining v (hstop ▸ hv), fun hlate => hworkers ▸ hs.all (hstop ▸ hlate),
    fun hreturned => absurd (hs.finished (hstop ▸ hreturned)) hacceptor⟩

theorem Moves.joined_of {s t : Server} {event : ServerEvent} (h : s.Moves event t) (hs : s.Joined) :
    t.Joined := by
  cases h with
  | test w hw | sleep w hw | pop w _ _ _ _ hw | woken w hw | read w _ hw | release w _ hw
  | reply w _ hw | spuriousWake w hw | yield w _ hw => exact hs.move hw Worker.noConfusion rfl rfl rfl
  | ensure w req hw hfree =>
    rcases hw with hw | hw
    · exact hs.move hw Worker.noConfusion rfl rfl rfl
    · exact hs.move hw Worker.noConfusion rfl rfl rfl
  | notify ha =>
    refine hs.broadcast rfl rfl fun hreturned => ?_
    exact absurd (ha.symm.trans (hs.finished hreturned)) Acceptor.noConfusion
  | testAlive ha | refuse ha | accept _ ha | enqueue _ _ _ _ _ ha =>
    exact hs.acceptor rfl rfl (by rw [ha]; exact Acceptor.noConfusion)
  | call hstop | clear hstop => exact ⟨by simp, by simp, by simp⟩
  | wakeAll hstop =>
    refine ⟨fun w hw v hv => ?_, by simp, by simp⟩
    obtain rfl : 0 = w := Stopper.joining.inj hw
    exact absurd hv (Nat.not_lt_zero v)
  | join w hstop hw =>
    refine ⟨fun w' hw' v hv => ?_, by simp, by simp⟩
    obtain rfl : w + 1 = w' := Stopper.joining.inj hw'
    rcases Nat.lt_succ_iff_lt_or_eq.mp hv with hlt | rfl
    · exact hs.joining w hstop v hlt
    · exact hw
  | joined w hstop hw =>
    refine ⟨by simp, fun _ worker (hmem : worker ∈ s.workers) => ?_, by simp⟩
    obtain ⟨v, hv⟩ := List.mem_iff_getElem?.mp hmem
    have hlt : v < w := by
      have hlength := List.getElem?_eq_none_iff.mp hw
      have hbound := (List.getElem?_eq_some_iff.mp hv).1
      omega
    exact Option.some.inj (hv.symm.trans (hs.joining w hstop v hlt))
  | close hstop => exact ⟨by simp, fun _ => hs.all (.inl hstop), by simp⟩
  | finish hstop ha => exact ⟨by simp, fun _ => hs.all (.inr (.inl hstop)), fun _ => ha⟩

/-- When `stop` has returned, no thread is left. -/
theorem Joined.returned {s : Server} (hs : s.Joined) (hstop : s.stop = .returned) (event : ServerEvent) :
    s.step event = none := by
  have hacceptor : s.acceptor = .finished := hs.finished hstop
  have hexited : ∀ w worker, s.workers[w]? = some worker → worker = Worker.exited := fun w worker hw =>
    hs.all (.inr (.inr hstop)) worker (List.mem_of_getElem? hw)
  cases event with
  | worker w =>
    cases hw : s.workers[w]? with
    | none => rw [Server.step, hw, Option.bind_none]
    | some worker =>
      rw [Server.step, hw, Option.bind_some, hexited w worker hw]
      rfl
  | spuriousWake w =>
    have hne : s.workers[w]? ≠ some .waiting := fun hw => absurd (hexited w _ hw) Worker.noConfusion
    rw [Server.step, if_neg hne]
  | yield w =>
    simp only [Server.step]
    split
    · next req hw => exact absurd (hexited w _ hw) Worker.noConfusion
    · rfl
  | acceptor | accept | enqueue => simp only [Server.step, hacceptor]
  | stop => simp only [Server.step, hstop, Server.stopStep]

theorem step_workers_length {s t : Server} {event : ServerEvent} (h : s.Moves event t) :
    t.workers.length = s.workers.length := by
  cases h <;> simp only [setWorker, Server.broadcast, List.length_set, List.length_map]

/-- What holds of a server after `start`, whatever its threads have done. -/
structure Running (workers : Nat) (s : Server) : Prop where
  intact : s.Intact
  awake : s.Awake
  joined : s.Joined
  length : s.workers.length = workers

theorem Running.step {workers : Nat} {s t : Server} {event : ServerEvent} (hs : s.Running workers)
    (h : s.step event = some t) : t.Running workers := by
  have hmoves : s.Moves event t := hs.intact.moves h
  exact ⟨hs.intact.step h, hmoves.awake hs.awake, hmoves.joined_of hs.joined,
    (step_workers_length hmoves).trans hs.length⟩

theorem start_running (workers tail : Nat) : (start workers tail).Running workers :=
  ⟨start_intact workers tail, start_awake workers tail, ⟨by simp [start], by simp [start], by simp [start]⟩,
    List.length_replicate⟩

/-- A server with workers, at rest before `stop` is called, has nothing left to do: the
queue is empty, every client accepted has been taken by a worker, and all of them have
answered and sleep. -/
theorem Running.rests {workers : Nat} {s : Server} (hs : s.Running workers) (hworkers : 0 < workers)
    (hidle : s.stop = .idle) (hrest : s.Rests) :
    s.requestQueue.queuePeek s.memory = some 0 ∧ s.popped.map Prod.snd = s.connections ∧
      ∀ worker ∈ s.workers, worker = .waiting := by
  have hwaiting : ∀ worker ∈ s.workers, worker = .waiting := by
    intro worker hmem
    obtain ⟨w, hw⟩ := List.mem_iff_getElem?.mp hmem
    exact hs.awake.rests_waiting hidle hrest hw
  have hacceptor : s.acceptor = .accepting := hs.awake.rests_acceptor hidle hrest
  have hpending : s.accepted.length = s.popped.length := by
    have hlt : 0 < s.workers.length := by
      rw [hs.length]
      exact hworkers
    have hmem : s.workers[0] ∈ s.workers := List.getElem_mem hlt
    exact hs.awake.asleep (by simp [hacceptor]) (hwaiting _ hmem ▸ hmem)
  obtain ⟨l, hl⟩ := hs.intact.queued
  have hnil : l = [] := by
    have hlength := congrArg List.length hl.order
    simp only [List.length_map, List.length_append] at hlength
    exact List.length_eq_zero_iff.mp (by omega)
  subst hnil
  refine ⟨hl.holds.peek_nil, ?_, hwaiting⟩
  have horder := hl.order
  rw [List.map_nil, List.append_nil] at horder
  have hsome : (s.popped.map Prod.snd).map some = s.accepted.map some := by
    rw [horder, List.map_map]
    rfl
  rw [List.map_injective_iff.mpr (Option.some_injective Nat) hsome, hs.intact.connections, inHand,
    hacceptor, List.append_nil]

theorem rests_of_waiting {s : Server} (hworkers : ∀ worker ∈ s.workers, worker = .waiting)
    (hacceptor : s.acceptor = .accepting) : s.Rests := by
  refine ⟨fun w => ?_, by simp [Server.step, hacceptor], by simp [inHand, hacceptor]⟩
  cases hw : s.workers[w]? with
  | none => rw [Server.step, hw, Option.bind_none]
  | some worker =>
    rw [Server.step, hw, Option.bind_some, hworkers worker (List.mem_of_getElem? hw)]
    rfl

/-- What the threads may still do without anything from outside. -/
def work (s : Server) : Nat :=
  (s.workers.map Worker.load).sum + 6 * (s.accepted.length - s.popped.length) +
    s.acceptor.load s.workers.length

theorem load_set {workers : List Worker} {w : Nat} {old new : Worker} (h : workers[w]? = some old) :
    ((workers.set w new).map Worker.load).sum + old.load = (workers.map Worker.load).sum + new.load := by
  induction workers generalizing w with
  | nil => exact absurd h (by simp)
  | cons first rest ih =>
    cases w with
    | zero =>
      obtain rfl : first = old := by simpa using h
      simp only [List.set_cons_zero, List.map_cons, List.sum_cons]
      ring
    | succ w =>
      have hrest := ih (by simpa using h)
      simp only [List.set_cons_succ, List.map_cons, List.sum_cons]
      omega

theorem load_wake (workers : List Worker) :
    ((workers.map Worker.wake).map Worker.load).sum ≤ (workers.map Worker.load).sum + 3 * workers.length := by
  induction workers with
  | nil => exact Nat.le_refl 0
  | cons first rest ih =>
    have hfirst : first.wake.load ≤ first.load + 3 := by
      cases first <;> simp only [Worker.wake, Worker.load] <;> omega
    simp only [List.map_cons, List.sum_cons, List.length_cons]
    omega

/-- What a step of one worker does to the rest of the work. -/
theorem work_worker {s t : Server} {w : Nat} {old new : Worker} (hw : s.workers[w]? = some old)
    (hworkers : t.workers = s.workers.set w new) (hacceptor : t.acceptor = s.acceptor) :
    t.work + old.load + 6 * (s.accepted.length - s.popped.length) =
      s.work + new.load + 6 * (t.accepted.length - t.popped.length) := by
  have hload : (t.workers.map Worker.load).sum + old.load = (s.workers.map Worker.load).sum + new.load := by
    rw [hworkers]
    exact load_set hw
  have hlength : t.workers.length = s.workers.length := by rw [hworkers, List.length_set]
  rw [work, work, hacceptor, hlength]
  omega

theorem work_idle {s t : Server} {w : Nat} {old new : Worker} (hw : s.workers[w]? = some old)
    (hworkers : t.workers = s.workers.set w new) (hacceptor : t.acceptor = s.acceptor)
    (haccepted : t.accepted = s.accepted) (hpopped : t.popped = s.popped) :
    t.work + old.load = s.work + new.load := by
  have hwork := work_worker hw hworkers hacceptor
  rw [haccepted, hpopped] at hwork
  omega

/-- A broadcast wakes the workers, and is the end of a load. -/
theorem work_broadcast {s t : Server} (hworkers : t.workers = s.workers.map Worker.wake)
    (haccepted : t.accepted = s.accepted) (hpopped : t.popped = s.popped) :
    t.work + s.acceptor.load s.workers.length ≤
      s.work + 3 * s.workers.length + t.acceptor.load s.workers.length := by
  have hwake := load_wake s.workers
  rw [← hworkers] at hwake
  have hlength : t.workers.length = s.workers.length := by rw [hworkers, List.length_map]
  rw [work, work, haccepted, hpopped, hlength]
  omega

theorem work_acceptor {s t : Server} (hworkers : t.workers = s.workers) (hpopped : t.popped = s.popped) :
    t.work + 6 * (s.accepted.length - s.popped.length) + s.acceptor.load s.workers.length =
      s.work + 6 * (t.accepted.length - s.popped.length) + t.acceptor.load s.workers.length := by
  rw [work, work, hworkers, hpopped]
  omega

/-- A step of a thread leaves less to do, and one from outside adds at most what comes
with a client. -/
theorem Moves.work_le {s t : Server} {event : ServerEvent} (h : s.Moves event t) :
    t.work + (if event.byThread then 1 else 0) ≤
      s.work + if event.byThread then 0 else 3 * s.workers.length + 9 := by
  cases h with
  | test w hw =>
    let next : Worker := if s.keepAlive then .locking else .exited
    have hwork : (s.setWorker w next).work + 2 = s.work + next.load := work_idle hw rfl rfl rfl rfl
    have hload : next.load ≤ 1 := by
      simp only [next]
      cases s.keepAlive
      · exact Nat.zero_le 1
      · exact Nat.le_refl 1
    change (s.setWorker w next).work + 1 ≤ s.work + 0
    omega
  | sleep w hw hempty =>
    have hwork := work_idle (t := s.setWorker w .waiting) hw rfl rfl rfl rfl
    simp only [ServerEvent.byThread, Worker.load, if_true] at hwork ⊢
    omega
  | pop w req client memory queue hw hnext hclient hvalues =>
    have hwork := work_worker (t := { s with
      memory := memory
      requestQueue := queue
      workers := s.workers.set w (.reading req)
      popped := s.popped ++ [(w, client)] }) hw rfl rfl
    have hlt := (List.getElem?_eq_some_iff.mp hnext).1
    simp only [ServerEvent.byThread, Worker.load, List.length_append, List.length_singleton,
      if_true] at hwork ⊢
    omega
  | woken w hw =>
    have hwork := work_idle (t := s.setWorker w .test) hw rfl rfl rfl rfl
    simp only [ServerEvent.byThread, Worker.load, if_true] at hwork ⊢
    omega
  | read w req hw =>
    have hwork := work_idle (t := s.setWorker w (.ensuring req)) hw rfl rfl rfl rfl
    simp only [ServerEvent.byThread, Worker.load, if_true] at hwork ⊢
    omega
  | ensure w req hw hfree =>
    obtain ⟨old, hw, hold⟩ : ∃ old, s.workers[w]? = some old ∧ old.load = 5 := by
      rcases hw with hw | hw
      · exact ⟨_, hw, rfl⟩
      · exact ⟨_, hw, rfl⟩
    have hwork := work_idle (t := { s.setWorker w (.calling req) with interpreter := some (.worker w) })
      hw rfl rfl rfl rfl
    rw [hold] at hwork
    simp only [ServerEvent.byThread, Worker.load, if_true] at hwork ⊢
    omega
  | release w req hw =>
    have hwork := work_idle (t := { s.setWorker w (.replying req) with interpreter := none }) hw rfl rfl rfl rfl
    simp only [ServerEvent.byThread, Worker.load, if_true] at hwork ⊢
    omega
  | reply w req hw =>
    have hwork := work_idle (t := { s with
      memory := s.memory.setObject req none
      workers := s.workers.set w .test }) hw rfl rfl rfl rfl
    simp only [ServerEvent.byThread, Worker.load, if_true] at hwork ⊢
    omega
  | spuriousWake w hw =>
    have hwork := work_idle (t := s.setWorker w .woken) hw rfl rfl rfl rfl
    simp only [ServerEvent.byThread, Worker.load, Bool.false_eq_true, if_false] at hwork ⊢
    omega
  | yield w req hw =>
    have hwork := work_idle (t := { s.setWorker w (.yielding req) with interpreter := none }) hw rfl rfl rfl rfl
    simp only [ServerEvent.byThread, Worker.load, Bool.false_eq_true, if_false] at hwork ⊢
    omega
  | testAlive ha =>
    let next : Acceptor := if s.keepAlive then .accepting else .finished
    have hwork := work_acceptor (s := s) (t := { s with acceptor := next }) rfl rfl
    have hload : next.load s.workers.length = 0 := by
      simp only [next]
      cases s.keepAlive <;> rfl
    rw [ha, hload] at hwork
    simp only [Acceptor.load] at hwork
    change ({ s with acceptor := next } : Server).work + 1 ≤ s.work + 0
    omega
  | notify ha =>
    have hwork := work_broadcast (s := s) (t := { s.broadcast with acceptor := .test }) rfl rfl rfl
    simp only [ServerEvent.byThread, ha, Acceptor.load, if_true] at hwork ⊢
    omega
  | refuse ha =>
    have hwork := work_acceptor (s := s) (t := { s with acceptor := .test }) rfl rfl
    simp only [ServerEvent.byThread, ha, Acceptor.load, Bool.false_eq_true, if_false] at hwork ⊢
    omega
  | accept client ha =>
    have hwork := work_acceptor (s := s) (t := { s with
      acceptor := .queueing client
      connections := s.connections ++ [client] }) rfl rfl
    simp only [ServerEvent.byThread, ha, Acceptor.load, Bool.false_eq_true, if_false] at hwork ⊢
    omega
  | enqueue client request node memory queue ha hfresh hvalues =>
    have hwork := work_acceptor (s := s) (t := { s with
      memory := memory
      requestQueue := queue
      accepted := s.accepted ++ [client]
      acceptor := .notifying }) rfl rfl
    simp only [ServerEvent.byThread, ha, Acceptor.load, List.length_append, List.length_singleton,
      if_true] at hwork ⊢
    omega
  | wakeAll hstop =>
    have hwork := work_broadcast (s := s) (t := { s.broadcast with stop := .joining 0 }) rfl rfl rfl
    have hsame : s.broadcast.acceptor = s.acceptor := rfl
    simp only [ServerEvent.byThread, hsame, Bool.false_eq_true, if_false] at hwork ⊢
    omega
  | call | clear | join | joined | close | finish =>
    simp only [ServerEvent.byThread, Bool.false_eq_true, if_false]
    exact Nat.le_add_right _ _

/-- Every step of a thread along a run is paid for by what there was to do, or by
something from outside. -/
theorem Running.steps_le {workers : Nat} {s t : Server} {events : List ServerEvent}
    (hs : s.Running workers) (h : run Server.step s events = some t) :
    events.countP ServerEvent.byThread + t.work ≤
      s.work + (3 * workers + 9) * events.countP fun event => !event.byThread := by
  induction events generalizing s with
  | nil =>
    obtain rfl := Option.some.inj h
    simp
  | cons event events ih =>
    obtain ⟨u, hstep, hrest⟩ := Option.bind_eq_some_iff.mp h
    have hwork := (hs.intact.moves hstep).work_le
    have htail := ih (hs.step hstep) hrest
    rw [hs.length] at hwork
    cases hthread : event.byThread with
    | true =>
      simp only [hthread, if_true] at hwork
      simp only [List.countP_cons, hthread, Bool.not_true, Bool.false_eq_true, if_true, if_false,
        Nat.add_zero]
      omega
    | false =>
      simp only [hthread, Bool.false_eq_true, if_false] at hwork
      simp only [List.countP_cons, hthread, Bool.not_false, Bool.false_eq_true, if_true, if_false,
        Nat.add_zero, Nat.mul_add, Nat.mul_one]
      omega

/-- The threads never run on by themselves: in every schedule their steps are bounded by
the number of clients, refused connections, spurious wake-ups, callbacks giving up the
interpreter and steps of `stop` in it. -/
theorem thread_steps_bounded {workers tail : Nat} {s : Server} {events : List ServerEvent}
    (h : run Server.step (start workers tail) events = some s) :
    events.countP ServerEvent.byThread ≤
      2 * workers + 1 + (3 * workers + 9) * events.countP fun event => !event.byThread := by
  have hsteps := (start_running workers tail).steps_le h
  have hwork : (start workers tail).work = 2 * workers + 1 := by
    simp only [work, start, List.map_replicate, List.sum_replicate_nat, Worker.load, Acceptor.load,
      List.length_nil]
    omega
  rw [hwork] at hsteps
  omega

/-- A client comes while both workers sleep, and worker 0 serves it. -/
def serveOne : List ServerEvent :=
  [.worker 0, .worker 0, .worker 1, .worker 1, .acceptor, .accept (some 5), .enqueue 1 2, .acceptor,
    .worker 0, .worker 0, .worker 0, .worker 0, .worker 0, .worker 0, .worker 0, .worker 0, .worker 0,
    .worker 1, .worker 1, .worker 1, .acceptor]

theorem thread_steps_bounded_one :
    serveOne.countP ServerEvent.byThread ≤ 2 * 2 + 1 + (3 * 2 + 9) * 1 := by
  have hsome : (run Server.step (start 2 9) serveOne).isSome = true := by decide +kernel
  obtain ⟨s, hs⟩ := Option.isSome_iff_exists.mp hsome
  exact thread_steps_bounded hs

end Server

end AutoGentoo
