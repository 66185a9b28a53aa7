import Mathlib.Algebra.BigOperators.Group.List.Basic
import Mathlib.Data.List.Perm.Basic
import ShardCommon.Lib.Steps
import ShardCommon.TxidStore

/-!
# No mark is lost, and closing a store drains its queue

The log of a run lists what the steps of all goroutines did to the marks, oldest first. Jobs leave
the channel in the order they went in, and a job that has left it is with one worker or has been
answered. Each step of a worker takes one off a measure, whichever worker moves, so all schedules of
the workers after a close have the same length.
-/

namespace ShardCommon.TxidSet

open Go

variable {ε : Type}

namespace MarkAction

def queuedJob : MarkAction ε → Option MarkJob
  | queued job => some job
  | _ => none

def receivedJob : MarkAction ε → Option MarkJob
  | received job => some job
  | _ => none

def answeredJob : MarkAction ε → Option MarkJob
  | answered job _ => some job
  | _ => none

/-- The namespace a call of `Mark` was made under. -/
def called : MarkAction ε → Option (List UInt8)
  | queued job => some job.pre
  | dropped pre => some pre
  | panicked pre => some pre
  | _ => none

def panic : MarkAction ε → Option (List UInt8)
  | panicked pre => some pre
  | _ => none

def ofWorker : MarkAction ε → Bool
  | received _ => true
  | answered _ _ => true
  | left => true
  | _ => false

end MarkAction

def Worker.job : Worker → Option MarkJob
  | calling job => some job
  | _ => none

/-- The steps a worker has ahead of it, apart from those for jobs still in the channel. -/
def Worker.steps : Worker → Nat
  | receiving => 1
  | calling _ => 2
  | stopped => 0

namespace Node

variable {n n' start : Node} {log : List (MarkAction ε)} {action : MarkAction ε} {i : Nat}
  {reply : SetNXReply ε}

def calling (n : Node) : List MarkJob := n.workers.filterMap Worker.job

/-- The steps of the workers that empty the channel and end them all. -/
def work (n : Node) : Nat := 2 * n.markCh.buffer.length + (n.workers.map Worker.steps).sum

/-- One step of one goroutine. A local test is the first half of a claim or of a mark. -/
inductive Step : Node → Option (MarkAction ε) → Node → Prop
  | touch (n : Node) (txid : Key) (now : Int) : Step n none (n.touch txid now)
  | mark (n : Node) (pre : List UInt8) (txid : Key) :
      Step n (some (n.offer pre txid).1) (n.offer (ε := ε) pre txid).2
  | receive {n n' : Node} {action : MarkAction ε} (i : Nat)
      (h : n.receive i = some (action, n')) : Step n (some action) n'
  | answer {n n' : Node} {action : MarkAction ε} (i : Nat) (reply : SetNXReply ε)
      (h : n.answer i reply = some (action, n')) : Step n (some action) n'
  | close (n : Node) : Step n (some .closed) n.beginClose

inductive Run (start : Node) : List (MarkAction ε) → Node → Prop
  | init : Run start [] start
  | step {log : List (MarkAction ε)} {n n' : Node} {action : Option (MarkAction ε)}
      (hrun : Run start log n) (hstep : Step n action n') : Run start (log ++ action.toList) n'

/-! ## What each step does -/

/-- Changing one worker leaves the others as they are. -/
theorem workers_split {w : Worker} (h : n.workers[i]? = some w) :
    ∃ rest, n.workers.Perm (w :: rest) ∧ ∀ w', (n.setWorker i w').workers.Perm (w' :: rest) := by
  obtain ⟨hi, hw⟩ := List.getElem?_eq_some_iff.mp h
  refine ⟨n.workers.eraseIdx i, ?_, fun w' => List.set_perm_cons_eraseIdx hi w'⟩
  rw [← hw]
  exact (List.getElem_cons_eraseIdx_perm hi).symm

theorem filterMap_job_cons (w : Worker) (rest : List Worker) :
    (w :: rest).filterMap Worker.job = w.job.toList ++ rest.filterMap Worker.job := by
  cases hw : w.job <;> simp [hw]

theorem calling_setWorker {w : Worker} (h : n.workers[i]? = some w) (w' : Worker) :
    (w.job.toList ++ (n.setWorker i w').calling).Perm (w'.job.toList ++ n.calling) := by
  obtain ⟨rest, hbefore, hafter⟩ := workers_split h
  have hbefore := hbefore.filterMap Worker.job
  have hafter := (hafter w').filterMap Worker.job
  rw [filterMap_job_cons] at hbefore hafter
  refine (hafter.append_left _).trans (List.Perm.trans ?_ (hbefore.symm.append_left _))
  rw [← List.append_assoc, ← List.append_assoc]
  exact List.perm_append_comm.append_right _

theorem steps_setWorker {w : Worker} (h : n.workers[i]? = some w) (w' : Worker) :
    ((n.setWorker i w').workers.map Worker.steps).sum + w.steps
      = (n.workers.map Worker.steps).sum + w'.steps := by
  obtain ⟨rest, hbefore, hafter⟩ := workers_split h
  rw [((hafter w').map Worker.steps).sum_eq, (hbefore.map Worker.steps).sum_eq, List.map_cons,
    List.map_cons, List.sum_cons, List.sum_cons]
  omega

/-- A worker at the head of its loop takes the oldest job, or leaves a closed channel. -/
theorem receive_cases (h : n.receive i = some (action, n')) :
    n.workers[i]? = some .receiving ∧
      ((∃ job ch, action = .received job ∧ n' = { n with markCh := ch }.setWorker i (.calling job) ∧
          n.markCh.receive = .value job ch) ∨
        (action = .left ∧ n' = n.setWorker i .stopped ∧ n.markCh.receive = .closed)) := by
  rw [receive] at h
  split at h
  · next hworker =>
      refine ⟨hworker, ?_⟩
      split at h
      · next job ch hvalue =>
          cases h
          exact Or.inl ⟨job, ch, rfl, rfl, hvalue⟩
      · next hclosed =>
          cases h
          exact Or.inr ⟨rfl, rfl, hclosed⟩
      · cases h
  · cases h

theorem answer_cases (h : n.answer i reply = some (action, n')) :
    ∃ job, n.workers[i]? = some (.calling job) ∧ action = .answered job reply ∧
      n' = n.setWorker i .receiving := by
  rw [answer] at h
  split at h
  · next job hworker =>
      cases h
      exact ⟨job, hworker, rfl, rfl⟩
  · cases h

/-- A mark is queued in an open channel with room, or changes nothing. -/
theorem offer_cases (n : Node) (pre : List UInt8) (txid : Key) :
    (∃ ch, n.offer (ε := ε) pre txid = (.queued (n.job pre txid), { n with markCh := ch }) ∧
        n.hasBackend = true ∧ n.markCh.trySend (n.job pre txid) = .sent ch) ∨
      n.offer (ε := ε) pre txid = (.dropped pre, n) ∨
      n.offer (ε := ε) pre txid = (.panicked pre, n) ∧ n.markCh.closed = true := by
  rw [offer]
  split
  · next hbackend =>
      split
      · next ch hsent => exact Or.inl ⟨ch, rfl, hbackend, hsent⟩
      · exact Or.inr (Or.inl rfl)
      · next hpanics =>
          refine Or.inr (Or.inr ⟨rfl, ?_⟩)
          by_contra hopen
          rw [Chan.trySend, if_neg hopen] at hpanics
          split at hpanics <;> cases hpanics
  · exact Or.inr (Or.inl rfl)

@[simp] theorem beginClose_workers (n : Node) : n.beginClose.workers = n.workers := by
  rw [beginClose]
  split <;> rfl

@[simp] theorem beginClose_buffer (n : Node) :
    n.beginClose.markCh.buffer = n.markCh.buffer := by
  rw [beginClose]
  split <;> rfl

/-! ## What no step changes -/

/-- The settings of a store. -/
structure Same (n n' : Node) : Prop where
  hasBackend : n'.hasBackend = n.hasBackend
  defaultTTL : n'.defaultTTL = n.defaultTTL
  ownBackend : n'.ownBackend = n.ownBackend

theorem Same.touch (n : Node) (txid : Key) (now : Int) : n.Same (n.touch txid now) := ⟨rfl, rfl, rfl⟩

theorem Same.offer (n : Node) (pre : List UInt8) (txid : Key) :
    n.Same (n.offer (ε := ε) pre txid).2 := by
  rcases offer_cases (ε := ε) n pre txid with ⟨ch, hoffer, _⟩ | hoffer | ⟨hoffer, _⟩ <;> rw [hoffer] <;>
    exact ⟨rfl, rfl, rfl⟩

theorem Same.receive (h : n.receive i = some (action, n')) : n.Same n' := by
  obtain ⟨_, ⟨_, _, _, rfl, _⟩ | ⟨_, rfl, _⟩⟩ := receive_cases h <;> exact ⟨rfl, rfl, rfl⟩

theorem Same.answer (h : n.answer i reply = some (action, n')) : n.Same n' := by
  obtain ⟨_, _, _, rfl⟩ := answer_cases h
  exact ⟨rfl, rfl, rfl⟩

theorem Same.beginClose (n : Node) : n.Same n.beginClose := by
  rw [Node.beginClose]
  split <;> exact ⟨rfl, rfl, rfl⟩

theorem Step.same {action : Option (MarkAction ε)} (h : Step n action n') : n.Same n' := by
  cases h with
  | touch txid now => exact .touch n txid now
  | mark pre txid => exact .offer n pre txid
  | receive i hreceive => exact .receive hreceive
  | answer i reply hanswer => exact .answer hanswer
  | close => exact .beginClose n

theorem Run.same (h : Run (ε := ε) start log n) : start.Same n := by
  induction h with
  | init => exact ⟨rfl, rfl, rfl⟩
  | step _ hstep ih =>
      have hlast := hstep.same
      exact ⟨hlast.hasBackend.trans ih.hasBackend, hlast.defaultTTL.trans ih.defaultTTL,
        hlast.ownBackend.trans ih.ownBackend⟩

/-! ## Every job is somewhere -/

structure Accounted (log : List (MarkAction ε)) (n : Node) : Prop where
  fifo : log.filterMap MarkAction.queuedJob
    = log.filterMap MarkAction.receivedJob ++ n.markCh.buffer
  inFlight : (log.filterMap MarkAction.receivedJob).Perm
    (log.filterMap MarkAction.answeredJob ++ n.calling)
  localOnly : n.hasBackend = false → n.markCh.buffer = [] ∧ n.calling = []

/-- An action that moves no job. -/
theorem Accounted.silent (h : Accounted log n) (hqueued : action.queuedJob = none)
    (hreceived : action.receivedJob = none) (hanswered : action.answeredJob = none) :
    Accounted (log ++ [action]) n := by
  constructor
  · rw [Steps.filterMap_concat, Steps.filterMap_concat, hqueued, hreceived]
    simpa using h.fifo
  · rw [Steps.filterMap_concat, Steps.filterMap_concat, hreceived, hanswered]
    simpa using h.inFlight
  · exact h.localOnly

theorem Accounted.receive (h : Accounted log n) (hreceive : n.receive i = some (action, n')) :
    Accounted (log ++ [action]) n' := by
  obtain ⟨hworker, ⟨job, ch, rfl, rfl, hvalue⟩ | ⟨rfl, rfl, hclosed⟩⟩ := receive_cases hreceive
  · obtain ⟨_, _, hbuffer⟩ := Chan.receive_value hvalue
    have hcalling := calling_setWorker hworker (.calling job)
    constructor
    · rw [Steps.filterMap_concat, Steps.filterMap_concat, h.fifo, hbuffer]
      simp [MarkAction.queuedJob, MarkAction.receivedJob, setWorker]
    · rw [Steps.filterMap_concat, Steps.filterMap_concat, List.append_assoc]
      refine (h.inFlight.append_right [job]).trans ?_
      rw [List.append_assoc]
      exact (List.perm_append_comm.trans hcalling.symm).append_left _
    · intro hbackend
      have hempty := (h.localOnly hbackend).1
      rw [hbuffer] at hempty
      cases hempty
  · have hcalling := calling_setWorker hworker .stopped
    have hsame : (n.setWorker i .stopped).calling.Perm n.calling := hcalling
    have hsilent : Accounted (log ++ [MarkAction.left]) n := h.silent rfl rfl rfl
    refine ⟨hsilent.fifo, hsilent.inFlight.trans (hsame.symm.append_left _), fun hbackend => ?_⟩
    refine ⟨(h.localOnly hbackend).1, ?_⟩
    rw [(h.localOnly hbackend).2] at hsame
    exact List.perm_nil.mp hsame

theorem Accounted.answer (h : Accounted log n) (hanswer : n.answer i reply = some (action, n')) :
    Accounted (log ++ [action]) n' := by
  obtain ⟨job, hworker, rfl, rfl⟩ := answer_cases hanswer
  have hcalling : ([job] ++ (n.setWorker i .receiving).calling).Perm n.calling :=
    calling_setWorker hworker .receiving
  constructor
  · rw [Steps.filterMap_concat, Steps.filterMap_concat, h.fifo]
    simp [MarkAction.queuedJob, MarkAction.receivedJob, setWorker]
  · rw [Steps.filterMap_concat, Steps.filterMap_concat, List.append_assoc]
    refine List.Perm.trans ?_ (h.inFlight.trans (hcalling.symm.append_left _))
    simp [MarkAction.receivedJob]
  · intro hbackend
    rw [(h.localOnly hbackend).2] at hcalling
    cases List.perm_nil.mp hcalling

theorem Accounted.mark (h : Accounted log n) (pre : List UInt8) (txid : Key) :
    Accounted (log ++ [(n.offer pre txid).1]) (n.offer (ε := ε) pre txid).2 := by
  rcases offer_cases (ε := ε) n pre txid with ⟨ch, hoffer, hbackend, hsent⟩ | hoffer | ⟨hoffer, _⟩
  · obtain ⟨_, _, _, hbuffer⟩ := Chan.trySend_sent hsent
    rw [hoffer]
    constructor
    · rw [Steps.filterMap_concat, Steps.filterMap_concat, h.fifo, hbuffer, List.append_assoc, List.append_assoc]
      rfl
    · rw [Steps.filterMap_concat, Steps.filterMap_concat]
      simpa [MarkAction.receivedJob, MarkAction.answeredJob, calling] using h.inFlight
    · intro hnone
      exact absurd hbackend (Bool.eq_false_iff.mp hnone)
  · rw [hoffer]
    exact h.silent rfl rfl rfl
  · rw [hoffer]
    exact h.silent rfl rfl rfl

theorem Accounted.step {action : Option (MarkAction ε)} (h : Accounted log n)
    (hstep : Step n action n') : Accounted (log ++ action.toList) n' := by
  cases hstep with
  | touch txid now =>
      rw [Option.toList_none, List.append_nil]
      exact ⟨h.fifo, h.inFlight, h.localOnly⟩
  | mark pre txid => exact h.mark pre txid
  | receive i hreceive => exact h.receive hreceive
  | answer i reply hanswer => exact h.answer hanswer
  | close =>
      have hsilent : Accounted (log ++ [MarkAction.closed]) n := h.silent rfl rfl rfl
      constructor
      · rw [beginClose_buffer]
        exact hsilent.fifo
      · rw [calling, beginClose_workers]
        exact hsilent.inFlight
      · rw [(Same.beginClose n).hasBackend, beginClose_buffer, calling, beginClose_workers]
        exact hsilent.localOnly

theorem Run.accounted (hidle : start.markCh.buffer = [] ∧ start.calling = [])
    (h : Run (ε := ε) start log n) : Accounted log n := by
  induction h with
  | init => exact ⟨hidle.1.symm, by rw [hidle.2]; exact List.Perm.nil, fun _ => hidle⟩
  | step _ hstep ih => exact ih.step hstep

/-! ## A new store -/

variable {dial : RedisOptions → Option ε} {cfg : Config}

/-- A store has a backend if one was injected or an address given, and owns it in the second case. -/
theorem new_ok (h : new dial cfg = .ok start) :
    0 < cfg.ttl ∧ start = .fresh cfg (cfg.hasBackend || decide (cfg.redisAddr ≠ ""))
      (!cfg.hasBackend && decide (cfg.redisAddr ≠ "")) := by
  rw [new] at h
  split at h
  · cases h
  · next httl =>
      refine ⟨by omega, ?_⟩
      split at h
      · next hinjected =>
          cases h
          rw [hinjected]
          rfl
      · next hnone =>
          rw [Bool.not_eq_true] at hnone
          rw [hnone]
          split at h
          · next haddr =>
              rw [decide_eq_true haddr]
              split at h <;> cases h
              rfl
          · next haddr =>
              rw [decide_eq_false haddr]
              cases h
              rfl

/-- The configuration settles what `Close` does with the backend and what `Healthy` asks: a store
closes the backend it dialled and leaves an injected one alone, and without any it is healthy. -/
theorem Run.backend_of_config (hnew : new dial cfg = .ok start) (h : Run (ε := ε) start log n) :
    (n.closesBackend = true ↔ cfg.hasBackend = false ∧ cfg.redisAddr ≠ "") ∧
      ∀ probe, n.healthy probe = true ↔
        probe = true ∨ cfg.hasBackend = false ∧ cfg.redisAddr = "" := by
  have hsame := h.same
  rw [(new_ok hnew).2] at hsame
  refine ⟨?_, fun probe => ?_⟩
  · rw [closesBackend, hsame.hasBackend, hsame.ownBackend]
    cases cfg.hasBackend <;> simp [fresh]
  · rw [healthy, hsame.hasBackend]
    cases cfg.hasBackend <;> by_cases haddr : cfg.redisAddr = "" <;> simp [fresh, haddr]

theorem fresh_calling (cfg : Config) (hasBackend ownBackend : Bool) :
    (fresh cfg hasBackend ownBackend).calling = [] := by
  rw [calling, List.filterMap_eq_nil_iff]
  intro w hw
  rw [List.eq_of_mem_replicate hw]
  rfl

theorem Step.cap_eq {action : Option (MarkAction ε)} (h : Step n action n') :
    n'.markCh.cap = n.markCh.cap := by
  cases h with
  | touch txid now => rfl
  | mark pre txid =>
      rcases offer_cases (ε := ε) n pre txid with ⟨ch, hoffer, _, hsent⟩ | hoffer | ⟨hoffer, _⟩
      · rw [hoffer]
        exact (Chan.trySend_sent hsent).2.2.1
      · rw [hoffer]
      · rw [hoffer]
  | receive i hreceive =>
      obtain ⟨_, ⟨job, ch, _, rfl, hvalue⟩ | ⟨_, rfl, _⟩⟩ := receive_cases hreceive
      · exact (Chan.receive_value hvalue).2.1
      · rfl
  | answer i reply hanswer =>
      obtain ⟨job, _, _, rfl⟩ := answer_cases hanswer
      rfl
  | close =>
      rw [beginClose]
      split <;> rfl

theorem Run.cap_eq (h : Run (ε := ε) start log n) : n.markCh.cap = start.markCh.cap := by
  induction h with
  | init => rfl
  | step _ hstep ih => rw [hstep.cap_eq, ih]

/-- The flag of `Close` and the channel go together. -/
theorem Step.stopped_iff {action : Option (MarkAction ε)} (h : Step n action n')
    (hsame : n.stopped = n.markCh.closed) : n'.stopped = n'.markCh.closed := by
  cases h with
  | touch txid now => exact hsame
  | mark pre txid =>
      rcases offer_cases (ε := ε) n pre txid with ⟨ch, hoffer, _, hsent⟩ | hoffer | ⟨hoffer, _⟩
      · obtain ⟨hopen, hstill, _⟩ := Chan.trySend_sent hsent
        rw [hoffer]
        exact hsame.trans (hopen.trans hstill.symm)
      · rwa [hoffer]
      · rwa [hoffer]
  | receive i hreceive =>
      obtain ⟨_, ⟨job, ch, _, rfl, hvalue⟩ | ⟨_, rfl, _⟩⟩ := receive_cases hreceive
      · exact hsame.trans (Chan.receive_value hvalue).1.symm
      · exact hsame
  | answer i reply hanswer =>
      obtain ⟨job, _, _, rfl⟩ := answer_cases hanswer
      exact hsame
  | close =>
      rw [beginClose]
      split
      · exact hsame
      · rfl

theorem Run.stopped_iff (h : Run (ε := ε) start log n)
    (hsame : start.stopped = start.markCh.closed) : n.stopped = n.markCh.closed := by
  induction h with
  | init => exact hsame
  | step _ hstep ih => exact hstep.stopped_iff ih

/-- A mark panics on a closed channel only, and a store once stopped stays so. -/
theorem Step.panic_free {action : Option (MarkAction ε)} (h : Step n action n')
    (hsame : n.stopped = n.markCh.closed) (hopen : n'.stopped = false) :
    n.stopped = false ∧ action.toList.filterMap MarkAction.panic = [] := by
  cases h with
  | touch txid now => exact ⟨hopen, rfl⟩
  | mark pre txid =>
      rcases offer_cases (ε := ε) n pre txid with ⟨ch, hoffer, _⟩ | hoffer | ⟨hoffer, hclosed⟩
      · rw [hoffer] at hopen ⊢
        exact ⟨hopen, rfl⟩
      · rw [hoffer] at hopen ⊢
        exact ⟨hopen, rfl⟩
      · rw [hoffer, hsame, hclosed] at hopen
        cases hopen
  | receive i hreceive =>
      obtain ⟨_, ⟨job, ch, rfl, rfl, _⟩ | ⟨rfl, rfl, _⟩⟩ := receive_cases hreceive
      · exact ⟨hopen, rfl⟩
      · exact ⟨hopen, rfl⟩
  | answer i reply hanswer =>
      obtain ⟨job, _, rfl, rfl⟩ := answer_cases hanswer
      exact ⟨hopen, rfl⟩
  | close =>
      rw [beginClose] at hopen
      split at hopen
      · exact ⟨hopen, rfl⟩
      · cases hopen

theorem Run.panic_free (h : Run (ε := ε) start log n)
    (hsame : start.stopped = start.markCh.closed) (hopen : n.stopped = false) :
    log.filterMap MarkAction.panic = [] := by
  induction h with
  | init => rfl
  | step hrun hstep ih =>
      obtain ⟨hbefore, hnone⟩ := hstep.panic_free (hrun.stopped_iff hsame) hopen
      rw [List.filterMap_append, ih hbefore, hnone, List.nil_append]

/-- Counted under one namespace, a call of `Mark` is a queued job, a drop or a panic, and the
recorder hears of drops and answers. -/
theorem called_count (log : List (MarkAction ε)) (pre : List UInt8) :
    (log.filterMap MarkAction.called).count pre
        + (log.filterMap MarkAction.answeredJob).countP (·.pre = pre)
      = (log.filterMap MarkAction.event).countP (·.1 = pre)
        + (log.filterMap MarkAction.panic).count pre
        + (log.filterMap MarkAction.queuedJob).countP (·.pre = pre) := by
  induction log with
  | nil => rfl
  | cons action log ih =>
      cases action <;>
        simp only [List.filterMap_cons, MarkAction.called, MarkAction.answeredJob, MarkAction.event,
          MarkAction.panic, MarkAction.queuedJob, List.count_cons, List.countP_cons, beq_iff_eq,
          decide_eq_true_eq] <;>
        omega

/-- **Every mark is accounted for.** After any steps of the goroutines of a new store, jobs have been
received in the order they were queued, never more of them waiting than the queue is deep; under
every namespace the calls of `Mark` are those the recorder heard of, those that panicked and those
still on their way. Marks panic only when `Close` has begun, and a store without a backend never
queues a job. -/
theorem marks_accounted (hnew : new dial cfg = .ok start) (hrun : Run start log n) :
    log.filterMap MarkAction.queuedJob = log.filterMap MarkAction.receivedJob ++ n.markCh.buffer ∧
      n.markCh.buffer.length ≤ (orDefault cfg.markQueueDepth 4096).toNat ∧
      (∀ pre, (log.filterMap MarkAction.called).count pre =
        (log.filterMap MarkAction.event).countP (·.1 = pre)
          + (log.filterMap MarkAction.panic).count pre
          + (n.markCh.buffer ++ n.calling).countP (·.pre = pre)) ∧
      (n.stopped = false → log.filterMap MarkAction.panic = []) ∧
      (n.hasBackend = false → n.markCh.buffer = [] ∧ n.calling = []) := by
  obtain ⟨_, rfl⟩ := new_ok hnew
  have hacc := hrun.accounted ⟨rfl, fresh_calling cfg _ _⟩
  refine ⟨hacc.fifo, n.markCh.within.trans_eq hrun.cap_eq, ?_, hrun.panic_free rfl, hacc.localOnly⟩
  · intro pre
    have hcalled := called_count log pre
    have hreceived := hacc.inFlight.countP_eq (·.pre = pre)
    rw [hacc.fifo, List.countP_append, hreceived, List.countP_append] at hcalled
    rw [List.countP_append]
    omega

def smallConfig : Config := ⟨true, "", 5, 8, 1, 1, 0, 0⟩

def smallJob : MarkJob := (fresh smallConfig true false).job [] (.copy 32 [])

/-- A queue of one takes the first mark and drops the second while no worker moves. -/
theorem marks_accounted_drop : ∃ n, Run (ε := Unit) (fresh smallConfig true false)
    [.queued smallJob, .dropped [7]] n ∧ n.markCh.buffer.length ≤ 1 := by
  have hnew : new (fun _ => (none : Option Unit)) smallConfig
      = .ok (fresh smallConfig true false) := rfl
  have hrun := Run.step (.step .init (.mark (ε := Unit) (fresh smallConfig true false) []
    (.copy 32 []))) (.mark _ [7] (.copy 32 []))
  exact ⟨_, hrun, (marks_accounted hnew hrun).2.1⟩

/-! ## Closing -/

theorem work_receive (h : n.receive i = some (action, n')) :
    action.ofWorker = true ∧ n'.work + 1 = n.work := by
  obtain ⟨hworker, ⟨job, ch, rfl, rfl, hvalue⟩ | ⟨rfl, rfl, _⟩⟩ := receive_cases h
  · obtain ⟨_, _, hbuffer⟩ := Chan.receive_value hvalue
    have hsteps := steps_setWorker hworker (.calling job)
    have hsame : ({ n with markCh := ch }.setWorker i (.calling job)).workers
        = (n.setWorker i (.calling job)).workers := rfl
    refine ⟨rfl, ?_⟩
    rw [work, work, hsame, hbuffer, List.length_cons]
    simp only [Worker.steps] at hsteps
    show 2 * ch.buffer.length + _ + 1 = _
    omega
  · have hsteps := steps_setWorker hworker .stopped
    refine ⟨rfl, ?_⟩
    rw [work, work]
    simp only [Worker.steps] at hsteps
    show 2 * n.markCh.buffer.length + _ + 1 = _
    omega

theorem work_answer (h : n.answer i reply = some (action, n')) :
    action.ofWorker = true ∧ n'.work + 1 = n.work := by
  obtain ⟨job, hworker, rfl, rfl⟩ := answer_cases h
  have hsteps := steps_setWorker hworker .receiving
  refine ⟨rfl, ?_⟩
  rw [work, work]
  simp only [Worker.steps] at hsteps
  show 2 * n.markCh.buffer.length + _ + 1 = _
  omega

/-- A closed channel refuses every mark, so only workers change anything. -/
theorem Step.of_closed {action : Option (MarkAction ε)} (hclosed : n.stopped = true)
    (hch : n.markCh.closed = true) (h : Step n action n') :
    n'.stopped = true ∧ n'.markCh.closed = true ∧
      (action.toList.countP (·.ofWorker)) + n'.work = n.work ∧
      action.toList.filterMap MarkAction.queuedJob = [] := by
  cases h with
  | touch txid now => exact ⟨hclosed, hch, Nat.zero_add _, rfl⟩
  | mark pre txid =>
      rcases offer_cases (ε := ε) n pre txid with ⟨ch, _, _, hsent⟩ | hoffer | ⟨hoffer, _⟩
      · rw [Chan.trySend_of_closed hch] at hsent
        cases hsent
      · rw [hoffer]
        exact ⟨hclosed, hch, Nat.zero_add _, rfl⟩
      · rw [hoffer]
        exact ⟨hclosed, hch, Nat.zero_add _, rfl⟩
  | @receive _ action i hreceive =>
      obtain ⟨hof, hwork⟩ := work_receive hreceive
      have hcount : (some action).toList.countP (·.ofWorker) = 1 := by simp [hof]
      obtain ⟨_, ⟨job, ch, rfl, rfl, hvalue⟩ | ⟨rfl, rfl, _⟩⟩ := receive_cases hreceive
      · exact ⟨hclosed, (Chan.receive_value hvalue).1.trans hch, by omega, rfl⟩
      · exact ⟨hclosed, hch, by omega, rfl⟩
  | @answer _ action i reply hanswer =>
      obtain ⟨hof, hwork⟩ := work_answer hanswer
      have hcount : (some action).toList.countP (·.ofWorker) = 1 := by simp [hof]
      obtain ⟨job, _, rfl, rfl⟩ := answer_cases hanswer
      exact ⟨hclosed, hch, by omega, rfl⟩
  | close =>
      rw [beginClose, if_pos hclosed]
      exact ⟨hclosed, hch, Nat.zero_add _, rfl⟩

theorem Run.of_closed {rest : List (MarkAction ε)} (hclosed : n.stopped = true)
    (hch : n.markCh.closed = true) (h : Run n rest n') :
    n'.stopped = true ∧ n'.markCh.closed = true ∧
      rest.countP (·.ofWorker) + n'.work = n.work ∧
      rest.filterMap MarkAction.queuedJob = [] := by
  induction h with
  | init => exact ⟨hclosed, hch, Nat.zero_add _, rfl⟩
  | step _ hstep ih =>
      obtain ⟨hstopped, hclosed, hwork, hnone⟩ := ih
      obtain ⟨hstopped', hclosed', hwork', hnone'⟩ := hstep.of_closed hstopped hclosed
      refine ⟨hstopped', hclosed', ?_, ?_⟩
      · rw [List.countP_append]
        omega
      · rw [List.filterMap_append, hnone, hnone', List.nil_append]

/-- Some worker can move: at the head of its loop, or with the next reply of the backend. -/
def WorkerEnabled (ε : Type) (n : Node) : Prop :=
  ∃ i, (n.receive (ε := ε) i).isSome = true ∨ ∀ reply : SetNXReply ε, (n.answer i reply).isSome = true

/-- On a closed channel no worker waits for ever. -/
theorem workerEnabled_of_mem (hch : n.markCh.closed = true) {w : Worker} (hw : w ∈ n.workers)
    (hrunning : w ≠ .stopped) : n.WorkerEnabled ε := by
  obtain ⟨i, hi, hget⟩ := List.mem_iff_getElem.mp hw
  have hget : n.workers[i]? = some w := List.getElem?_eq_some_iff.mpr ⟨hi, hget⟩
  refine ⟨i, ?_⟩
  cases w with
  | receiving =>
      left
      rw [receive, hget]
      dsimp only
      cases hreceive : n.markCh.receive with
      | value job ch => rfl
      | closed => rfl
      | waits =>
          rw [(Chan.receive_waits hreceive).1] at hch
          cases hch
  | calling job =>
      right
      intro reply
      rw [answer, hget]
      rfl
  | stopped => exact absurd rfl hrunning

theorem mem_setWorker {w w' : Worker} (h : w ∈ (n.setWorker i w').workers) :
    w = w' ∨ w ∈ n.workers := List.mem_or_eq_of_mem_set h |>.symm

/-- Workers are at least one, and one that has left saw the closed channel empty. -/
structure Drained (n : Node) : Prop where
  some_worker : n.workers ≠ []
  left_empty : .stopped ∈ n.workers → n.markCh.closed = true ∧ n.markCh.buffer = []

theorem Drained.fresh (cfg : Config) (hasBackend ownBackend : Bool) :
    (Node.fresh cfg hasBackend ownBackend).Drained := by
  constructor
  · intro hnone
    have hlength := congrArg List.length hnone
    simp only [Node.fresh, List.length_replicate, List.length_nil, orDefault] at hlength
    split at hlength <;> omega
  · intro hleft
    cases List.eq_of_mem_replicate hleft

theorem Drained.step {action : Option (MarkAction ε)} (h : n.Drained) (hstep : Step n action n') :
    n'.Drained := by
  have hset : ∀ {i w}, (n.setWorker i w).workers ≠ [] := by
    intro i w hnone
    have hlength := congrArg List.length hnone
    rw [setWorker, List.length_set] at hlength
    exact h.some_worker (List.length_eq_zero_iff.mp hlength)
  cases hstep with
  | touch txid now => exact ⟨h.some_worker, h.left_empty⟩
  | mark pre txid =>
      rcases offer_cases (ε := ε) n pre txid with ⟨ch, hoffer, _, hsent⟩ | hoffer | ⟨hoffer, _⟩
      · rw [hoffer]
        refine ⟨h.some_worker, fun hleft => ?_⟩
        have hclosed := (h.left_empty hleft).1
        rw [(Chan.trySend_sent hsent).1] at hclosed
        cases hclosed
      · rwa [hoffer]
      · rwa [hoffer]
  | receive i hreceive =>
      obtain ⟨_, ⟨job, ch, _, rfl, hvalue⟩ | ⟨_, rfl, hclosed⟩⟩ := receive_cases hreceive
      · refine ⟨hset, fun hleft => ?_⟩
        rcases mem_setWorker hleft with hw | hw
        · cases hw
        · have hempty := (h.left_empty hw).2
          rw [(Chan.receive_value hvalue).2.2] at hempty
          cases hempty
      · exact ⟨hset, fun _ => Chan.receive_closed hclosed⟩
  | answer i reply hanswer =>
      obtain ⟨job, _, _, rfl⟩ := answer_cases hanswer
      refine ⟨hset, fun hleft => ?_⟩
      rcases mem_setWorker hleft with hw | hw
      · cases hw
      · exact h.left_empty hw
  | close =>
      rw [beginClose]
      split
      · exact h
      · exact ⟨h.some_worker, fun hleft => ⟨rfl, (h.left_empty hleft).2⟩⟩

theorem Run.drained (h : Run (ε := ε) start log n) (hstart : start.Drained) : n.Drained := by
  induction h with
  | init => exact hstart
  | step _ hstep ih => exact ih.step hstep

theorem Run.append {rest : List (MarkAction ε)} (h : Run start log n) (hrest : Run n rest n') :
    Run start (log ++ rest) n' := by
  induction hrest with
  | init => rwa [List.append_nil]
  | step _ hstep ih =>
      rw [← List.append_assoc]
      exact .step ih hstep

/-- When all workers have left, nothing is queued and nothing in flight. -/
theorem Drained.empty (h : n.Drained) (hall : ∀ w ∈ n.workers, w = .stopped) :
    n.markCh.buffer = [] ∧ n.calling = [] ∧ n.work = 0 := by
  obtain ⟨w, hw⟩ := List.exists_mem_of_ne_nil _ h.some_worker
  have hempty := (h.left_empty (hall w hw ▸ hw)).2
  refine ⟨hempty, ?_, ?_⟩
  · rw [calling, List.filterMap_eq_nil_iff]
    intro w hw
    rw [hall w hw]
    rfl
  · rw [work, hempty, List.length_nil, Nat.mul_zero, Nat.zero_add, List.sum_eq_zero]
    intro k hk
    obtain ⟨w, hw, rfl⟩ := List.mem_map.mp hk
    rw [hall w hw]
    rfl

/-- **Close drains the queue.** Once `Close` has begun, nothing more is queued, and whichever workers
move and however the backend replies, exactly `work` steps of theirs remain. Until then one of them
can move; when `Close` returns there are none left, and every job ever queued has been answered
exactly once. -/
theorem close_drains {rest : List (MarkAction ε)} (hnew : new dial cfg = .ok start)
    (hrun : Run start log n) (hclosed : n.stopped = true) (hrest : Run n rest n') :
    rest.countP (·.ofWorker) + n'.work = n.work ∧
      rest.filterMap MarkAction.queuedJob = [] ∧
      (n'.closeReturns = false → n'.WorkerEnabled ε) ∧
      (n'.closeReturns = true → n'.work = 0 ∧ (log.filterMap MarkAction.queuedJob).Perm
        ((log ++ rest).filterMap MarkAction.answeredJob)) := by
  obtain ⟨_, rfl⟩ := new_ok hnew
  have hch : n.markCh.closed = true := hrun.stopped_iff rfl ▸ hclosed
  obtain ⟨hclosed', hch', hwork, hnone⟩ := hrest.of_closed hclosed hch
  have hall := hrun.append hrest
  refine ⟨hwork, hnone, fun hwaits => ?_, fun hreturns => ?_⟩
  · rw [closeReturns, hclosed', Bool.true_and, List.all_eq_false] at hwaits
    obtain ⟨w, hw, hrunning⟩ := hwaits
    exact workerEnabled_of_mem hch' hw (by simpa using hrunning)
  · rw [closeReturns, hclosed', Bool.true_and, List.all_eq_true] at hreturns
    obtain ⟨hbuffer, hcalling, hzero⟩ := (hall.drained (.fresh cfg _ _)).empty
      fun w hw => by simpa using hreturns w hw
    have hacc := hall.accounted ⟨rfl, fresh_calling cfg _ _⟩
    have hfifo := hacc.fifo
    have hflight := hacc.inFlight
    rw [hbuffer, List.append_nil, List.filterMap_append, hnone, List.append_nil] at hfifo
    rw [hcalling, List.append_nil, ← hfifo] at hflight
    exact ⟨hzero, hflight⟩

def closedNode : Node :=
  ((fresh smallConfig true false).offer (ε := Unit) [] (.copy 32 [])).2.beginClose

/-- A store closed with one job queued: its worker takes the job, writes it and leaves. -/
theorem close_drains_job : ∃ rest n', Run (ε := Unit) closedNode rest n' ∧
    n'.closeReturns = true ∧ n'.work = 0 := by
  have hnew : new (fun _ => (none : Option Unit)) smallConfig
      = .ok (fresh smallConfig true false) := rfl
  have hrun : Run (ε := Unit) (fresh smallConfig true false) [.queued smallJob, .closed] closedNode :=
    .step (.step .init (.mark _ [] (.copy 32 []))) (.close _)
  have htake : Run (ε := Unit) closedNode _ _ := .step .init (.receive 0 rfl)
  have hwrite := htake.step (.answer 0 .created rfl)
  have hrest := hwrite.step (.receive 0 rfl)
  exact ⟨_, _, hrest, rfl, ((close_drains hnew hrun rfl hrest).2.2.2 rfl).1⟩

end Node

end ShardCommon.TxidSet
