import RocketMQClient.Client.Construct
import RocketMQClient.Client.WindDown

namespace RocketMQClient.Example

open Js Library Marshal Client

def body (i : Nat) : String := "baz " ++ toString i

def messageOptions : JsValue := .object [("keys", .string "foo"), ("tags", .string "bar")]

def producerOptions : Argument :=
  .object (some (utf16 "[object Object]")) (some
    [("nameServer", .string "127.0.0.1:9876"), ("groupName", .string "testGroupName"),
      ("logFileNum", .number (.finite 5)), ("logFileSize", .number (.finite 1048576000)),
      ("logLevel", .string "debug"), ("compressLevel", .number (.finite 3)),
      ("sendMessageTimeout", .number (.finite 5000)),
      ("maxMessageSize", .number (.finite (1024 * 256)))])

def newProducer (sdk : Bool) : Option Construction :=
  construct .producer (fun _ => sdk) (.string (utf16 "testGroup")) producerOptions .undefined

inductive Yield
  | start
  | send (i : Nat)
  | shutdown

namespace Yield

def call : Yield → Call
  | start => .start none
  | send i => .send (.string "test") (.string (body i)) messageOptions none
  | shutdown => .shutdown none

def loop (messageCount i : Nat) : Yield := if i < messageCount then send i else shutdown

def next (messageCount : Nat) : Yield → Option Yield
  | start => some (loop messageCount 0)
  | send i => some (loop messageCount (i + 1))
  | shutdown => none

end Yield

/-- Where the generator is: suspended at a `yield` until a promise settles, returned, or
left by an exception that rejects the promise of `co`. -/
inductive Point
  | begin
  | suspended (y : Yield) (promise : Nat)
  | finished
  | rejected

structure Producing where
  producer : JsModule := {}
  point : Point := .begin
  settled : Option Answer := none
  exit : Option Nat := none

inductive Event
  | run (sdk : Bool)
  | native (e : Client.Event)
  | resume

namespace Producing

/-- The first two are yielded inside a `try` whose handler exits. -/
def throw (s : Producing) : Yield → Producing
  | .shutdown => { s with point := .rejected }
  | _ => { s with exit := some 4 }

def await (s : Producing) (y : Yield) : Producing :=
  match s.producer.call .producer 0 y.call with
  | some (.promise w, m) => { s with producer := m, point := .suspended y w, settled := none }
  | some (_, m) => { s with producer := m }.throw y
  | none => { s with exit := some 134 }

def run (s : Producing) (sdk : Bool) : Producing :=
  match newProducer sdk with
  | some _ =>
    { s with
      producer := { s.producer with status := s.producer.status ++ [StartStatus.stopped] } }.await
      .start
  | none => { s with point := .rejected }

def resume (s : Producing) (messageCount : Nat) (y : Yield) : Answer → Producing
  | .error _ => s.throw y
  | .success _ =>
    match y.next messageCount with
    | some y => s.await y
    | none => { s with point := .finished }

def heard (s : Producing) (e : Client.Event) : Option Answer :=
  match s.point, e with
  | .suspended _ promise, .complete w =>
    if w = promise then (s.producer.workers w).map Worker.answer else s.settled
  | _, _ => s.settled

def step (messageCount : Nat) (s : Producing) (e : Event) : Option Producing :=
  if s.exit.isSome then none else
    match e with
    | .run sdk =>
      match s.point with
      | .begin => some (s.run sdk)
      | _ => none
    | .native e =>
      if e.serves then
        (Client.step .producer s.producer e).map fun m =>
          { s with producer := m, settled := s.heard e }
      else none
    | .resume =>
      match s.point, s.settled with
      | .suspended y _, some answer => some (s.resume messageCount y answer)
      | _, _ => none

end Producing

/-- The example, with any number of messages for the 10 of `example/common.js`. -/
def producing (messageCount : Nat) : Machine Producing Event where
  init := {}
  step := Producing.step messageCount

namespace Yield

def request (i : Nat) : SendRequest where
  topic := "test"
  body := .string (body i)
  options := messageOptions
  callback := none

def job : Yield → Job
  | start => .startOrShutdown .start
  | send i => .sendMessage (request i).message
  | shutdown => .startOrShutdown .shutdown

def required : Yield → StartStatus
  | start => .stopped
  | _ => .started

def pending : Yield → StartStatus
  | start => .starting
  | send _ => .started
  | shutdown => .stopping

def target : Yield → StartStatus
  | shutdown => .stopped
  | _ => .started

def before (messageCount : Nat) : Yield → List Yield
  | start => []
  | send i => start :: (List.range i).map send
  | shutdown => start :: (List.range messageCount).map send

def after (messageCount : Nat) : Yield → Nat
  | start => messageCount + 1
  | send i => messageCount - i
  | shutdown => 0

end Yield

def yields (messageCount : Nat) : List Yield := Yield.shutdown.before messageCount ++ [.shutdown]

def requested : Client.Effect → Option Job
  | .queued _ _ job _ => some job
  | _ => none

def requests (trace : List Client.Effect) : List Job := trace.filterMap requested

def answers (trace : List Client.Effect) : List Answer :=
  (trace.filterMap Effect.answer?).map Prod.snd

def Succeeded (l : List Answer) : Prop := ∀ a ∈ l, a.isError = false

def AfterSuccess (past : List Client.Effect) (e : Client.Effect) : Prop :=
  (requested e).isSome → (answers past).length = (requests past).length ∧
    Succeeded (answers past)

def told (m : JsModule) : Client.Event → Option Answer
  | .complete w => (m.workers w).map Worker.answer
  | _ => none

section Trace

variable {m m' : JsModule} {e : Client.Event} {es trace : List Client.Effect}

theorem preceded_append (h : Preceded AfterSuccess trace)
    (hes : ∀ e ∈ es, requested e = none) : Preceded AfterSuccess (trace ++ es) := by
  induction es using List.reverseRecOn with
  | nil => simpa using h
  | append_singleton es e ih =>
    rw [← List.append_assoc, preceded_concat]
    refine ⟨ih fun d hd => hes d (List.mem_append_left _ hd), fun hsome => ?_⟩
    simp [hes e (by simp)] at hsome

theorem requests_append (hes : ∀ e ∈ es, requested e = none) :
    requests (trace ++ es) = requests trace := by
  rw [requests, List.filterMap_append, List.filterMap_eq_nil_iff.mpr hes, List.append_nil, requests]

theorem answers_append : answers (trace ++ es) = answers trace ++ answers es := by
  simp [answers]

theorem serves_trace (ht : Transition m e m') (he : e.serves = true) :
    ∃ es, m'.trace = m.trace ++ es ∧ (∀ d ∈ es, requested d = none) ∧
      answers es = (told m e).toList := by
  cases ht with
  | construct | rejected | accepted => cases he
  | executing | executed => exact ⟨_, rfl, by simp [requested], rfl⟩
  | @settled w wk method hw =>
    obtain ⟨es, htrace, hes⟩ := settle_trace (m.finish w wk) w wk.self method
    have huntimed : ∀ d ∈ es, requested d = none ∧ Effect.answer? d = none := by
      intro d hd
      have := hes d hd
      cases d <;> first | exact ⟨rfl, rfl⟩ | cases this
    have hnil : es.filterMap Effect.answer? = [] :=
      List.filterMap_eq_nil_iff.mpr fun d hd => (huntimed d hd).2
    refine ⟨.completed w wk.self wk.job wk.errmsg :: .statusSet w wk.self (target method) :: es ++
      [.answered w wk.callback wk.answer], ?_, ?_, ?_⟩
    · simp [htrace]
    · intro d hd
      simp only [List.cons_append, List.mem_cons, List.mem_append, List.not_mem_nil, or_false] at hd
      obtain rfl | rfl | hd | rfl := hd
      · rfl
      · rfl
      · exact (huntimed d hd).1
      · rfl
    · rw [told, hw, answers, List.filterMap_append, List.filterMap_cons_none rfl,
        List.filterMap_cons_none rfl, hnil]
      rfl
  | @failed w wk _ _ hw | @sendCompleted w wk _ hw =>
    refine ⟨[.completed w wk.self wk.job wk.errmsg, .answered w wk.callback wk.answer], ?_, ?_, ?_⟩
    · simp
    · simp [requested]
    · rw [told, hw]
      rfl

end Trace

namespace Yield

def queue (y : Yield) (m : JsModule) : JsModule :=
  (m.setStatus 0 y.pending).asyncQueueWorker { self := 0, job := y.job, callback := none }

/-- A body of the example is too long only for an `i` that no Number counts up to. -/
def Convertible : Yield → Prop
  | send i => Js.Convertible (utf16 (body i))
  | _ => True

variable {m : JsModule} {y z : Yield} {n : Nat}

theorem send_request_eq_some {i : Nat} {msg : CMessage} :
    RocketMQProducer.send (request i) = some msg ↔
      (send i).Convertible ∧ (request i).message = msg := by
  rw [send_eq_some]
  refine and_congr_left fun _ => ⟨fun h => h.body (body i) rfl, fun h => ?_⟩
  refine ⟨?_, ?_, ?_, ?_⟩
  · exact (by decide : Js.Convertible (utf16 "test"))
  · exact (by decide : Js.Convertible (utf16 "bar"))
  · exact (by decide : Js.Convertible (utf16 "foo"))
  · rintro _ ⟨⟩
    exact h

theorem call_eq (h : m.status = [y.required]) (hy : y.Convertible) :
    m.call .producer 0 y.call = some (.promise m.nextWorker, y.queue m) := by
  cases y with
  | start =>
    have hs : m.status[0]? = some .stopped := by simp [h, required]
    exact congrArg some (if_pos hs)
  | shutdown =>
    have hs : m.status[0]? = some .started := by simp [h, required]
    exact congrArg some (if_pos hs)
  | send i =>
    have hsame : m.setStatus 0 .started = m := by
      rw [JsModule.setStatus, h]
      exact congrArg (fun status => { m with status }) h.symm
    have hmsg := send_request_eq_some.mpr ⟨hy, rfl⟩
    rw [queue, pending, hsame]
    exact Option.map_eq_some_iff.mpr ⟨_, hmsg, rfl⟩

theorem call_eq_none (hy : ¬y.Convertible) : m.call .producer 0 y.call = none := by
  cases y with
  | start | shutdown => exact absurd trivial hy
  | send i =>
    have hnone : RocketMQProducer.send (request i) = none :=
      Option.eq_none_iff_forall_ne_some.mpr fun msg hmsg => hy (send_request_eq_some.mp hmsg).1
    exact Option.map_eq_none_iff.mpr hnone

theorem step_call (h : m.status = [y.required]) (hy : y.Convertible) :
    (machine .producer).step m (.call 0 y.call) = some (y.queue m) := by
  simp [machine, Client.step, h, call_eq h hy]

theorem before_loop {i : Nat} (h : i ≤ n) :
    (loop n i).before n = start :: (List.range i).map send := by
  unfold loop
  split_ifs with hi
  · rfl
  · rw [Nat.le_antisymm h (Nat.le_of_not_lt hi)]
    rfl

theorem after_loop {i : Nat} (h : i ≤ n) : (loop n i).after n + 1 = n + 1 - i := by
  unfold loop
  split_ifs with hi <;> simp only [after] <;> omega

theorem required_loop (i : Nat) : (loop n i).required = .started := by
  unfold loop
  split_ifs <;> rfl

end Yield

section Yields

variable {y z : Yield} {n : Nat}

theorem mem_yields : y ∈ yields n ↔ ∀ i, y = .send i → i < n := by
  cases y <;> simp [yields, Yield.before]

theorem loop_mem (i : Nat) : Yield.loop n i ∈ yields n := by
  unfold Yield.loop
  split_ifs with hi <;> simp [mem_yields, hi]

theorem next_cases (hy : y ∈ yields n) (h : y.next n = some z) :
    z ∈ yields n ∧ z.required = y.target ∧ z.before n = y.before n ++ [y] ∧
      z.after n + 1 = y.after n := by
  cases y with
  | start =>
    cases h
    refine ⟨loop_mem 0, Yield.required_loop 0, Yield.before_loop n.zero_le, ?_⟩
    exact Yield.after_loop n.zero_le
  | send i =>
    cases h
    have hi : i < n := mem_yields.mp hy i rfl
    refine ⟨loop_mem _, Yield.required_loop _, ?_, ?_⟩
    · rw [Yield.before_loop hi, Yield.before, List.range_succ, List.map_append]
      rfl
    · rw [Yield.after_loop hi, Yield.after]
      omega
  | shutdown => cases h

theorem before_isPrefix (hy : y ∈ yields n) : y.before n ++ [y] <+: yields n := by
  cases y with
  | start => exact ⟨_, rfl⟩
  | send i =>
    have hi : i < n := mem_yields.mp hy i rfl
    refine List.IsPrefix.trans ?_ (List.prefix_append _ _)
    rw [Yield.before, Yield.before, List.cons_append]
    refine (List.prefix_cons_inj _).mpr ?_
    have hrange : (List.range i).map Yield.send ++ [.send i] = (List.range (i + 1)).map .send := by
      simp [List.range_succ]
    obtain ⟨k, rfl⟩ := Nat.exists_eq_add_of_le (Nat.succ_le_of_lt hi)
    rw [hrange, @List.range_add (i + 1), List.map_append]
    exact List.prefix_append _ _
  | shutdown => exact List.prefix_rfl

end Yields

structure Ready (n : Nat) (y : Yield) (m : JsModule) : Prop where
  status : m.status = [y.required]
  workers : m.workers = fun _ => none
  nextWorker : m.nextWorker = (y.before n).length
  reachable : (machine .producer).Reachable m
  requests : requests m.trace = (y.before n).map Yield.job
  succeeded : Succeeded (answers m.trace)
  answered : (answers m.trace).length = (y.before n).length
  ordered : Preceded AfterSuccess m.trace

structure Suspended (n : Nat) (y : Yield) (s : Producing) : Prop where
  mem : y ∈ yields n
  exit : s.exit = none
  point : s.point = .suspended y (y.before n).length
  nextWorker : s.producer.nextWorker = (y.before n).length + 1
  reachable : (machine .producer).Reachable s.producer
  requests : requests s.producer.trace = (y.before n ++ [y]).map Yield.job
  ordered : Preceded AfterSuccess s.producer.trace

structure Pending (n : Nat) (y : Yield) (wk : Worker) (s : Producing) : Prop extends
    Suspended n y s where
  settled : s.settled = none
  workers : s.producer.workers = Function.update (fun _ => none) (y.before n).length (some wk)
  self : wk.self = 0
  job : wk.job = y.job
  status : s.producer.status = [y.pending]
  succeeded : Succeeded (answers s.producer.trace)
  answered : (answers s.producer.trace).length = (y.before n).length

structure Settled (n : Nat) (y : Yield) (answer : Answer) (s : Producing) : Prop extends
    Suspended n y s where
  settled : s.settled = some answer
  workers : s.producer.workers = fun _ => none
  status : s.producer.status = [if answer.isError then y.pending else y.target]
  answered : ∃ l, answers s.producer.trace = l ++ [answer] ∧ l.length = (y.before n).length ∧
    Succeeded l

inductive Ending (n : Nat) (s : Producing) : Prop
  | finished : s.exit = none → s.point = .finished →
      requests s.producer.trace = (yields n).map Yield.job →
      (answers s.producer.trace).length = n + 2 → Succeeded (answers s.producer.trace) →
      s.producer.Quiet → Ending n s
  | exited : s.exit = some 4 → y ∈ yields n → y ≠ .shutdown →
      requests s.producer.trace = (y.before n ++ [y]).map Yield.job →
      answers s.producer.trace = l ++ [.error err] → l.length = (y.before n).length →
      Succeeded l → Ending n s
  | hungUp : s.exit = none → s.point = .rejected →
      requests s.producer.trace = (yields n).map Yield.job →
      answers s.producer.trace = l ++ [.error err] → l.length = n + 1 → Succeeded l →
      s.producer.HungUp 0 → (∀ w, s.producer.workers w = none) → Ending n s
  | aborted : s.exit = some 134 → y ∈ yields n → ¬y.Convertible →
      requests s.producer.trace = (y.before n).map Yield.job →
      (answers s.producer.trace).length = (y.before n).length →
      Succeeded (answers s.producer.trace) → Ending n s
  | unconstructed : s.exit = none → s.point = .rejected → s.producer = {} → Ending n s

inductive Stage (n : Nat) (s : Producing) : Prop
  | begin : s = {} → Stage n s
  | pending : Pending n y wk s → Stage n s
  | settled : Settled n y answer s → Stage n s
  | ended : Ending n s → Preceded AfterSuccess s.producer.trace → Stage n s

section Stage

variable {n : Nat} {y : Yield} {s t : Producing} {wk : Worker} {answer : Answer}

theorem await_eq (h : s.producer.status = [y.required]) (hconv : y.Convertible) : s.await y =
    { s with
      producer := y.queue s.producer
      point := .suspended y s.producer.nextWorker
      settled := none } := by
  rw [Producing.await, Yield.call_eq h hconv]

theorem Ready.aborted (h : Ready n y s.producer) (hy : y ∈ yields n) (hconv : ¬y.Convertible) :
    Ending n (s.await y) ∧ (s.await y).producer = s.producer := by
  rw [Producing.await, Yield.call_eq_none hconv]
  exact ⟨.aborted rfl hy hconv h.requests h.answered h.succeeded, rfl⟩

theorem Ready.await (h : Ready n y s.producer) (hy : y ∈ yields n) (hconv : y.Convertible)
    (hexit : s.exit = none) :
    Pending n y { self := 0, job := y.job, callback := none } (s.await y) := by
  rw [await_eq h.status hconv]
  have htrace : (y.queue s.producer).trace =
      s.producer.trace ++ [.queued s.producer.nextWorker 0 y.job none] := rfl
  have hanswers : answers (y.queue s.producer).trace = answers s.producer.trace := by
    rw [htrace, answers_append]
    exact List.append_nil _
  have hreachable : (machine .producer).Reachable (y.queue s.producer) :=
    h.reachable.step (Yield.step_call h.status hconv)
  refine {
    mem := hy
    exit := hexit
    point := by rw [h.nextWorker]
    nextWorker := congrArg (· + 1) h.nextWorker
    reachable := hreachable
    requests := ?_
    ordered := ?_
    settled := rfl
    workers := ?_
    self := rfl
    job := rfl
    status := ?_
    succeeded := hanswers ▸ h.succeeded
    answered := by rw [hanswers, h.answered] }
  · rw [htrace, Example.requests, List.filterMap_append, List.map_append]
    exact congrArg (· ++ [y.job]) h.requests
  · rw [htrace, preceded_concat]
    refine ⟨h.ordered, fun _ => ⟨?_, h.succeeded⟩⟩
    rw [h.answered, h.requests, List.length_map]
  · rw [← h.nextWorker, ← h.workers]
    rfl
  · change s.producer.status.set 0 y.pending = [y.pending]
    rw [h.status]
    rfl

theorem answer_isError (wk : Worker) : wk.answer.isError = wk.errmsg.isSome := by
  unfold Worker.answer
  split
  · next h => rw [h]; rfl
  · next h _ => rw [h]; rfl
  · next h _ => rw [h]; rfl

theorem serves_nextWorker {m m' : JsModule} {e : Client.Event} (ht : Transition m e m')
    (he : e.serves = true) : m'.nextWorker = m.nextWorker := by
  cases ht with
  | construct | rejected | accepted => cases he
  | settled => simp
  | _ => rfl

theorem Suspended.serve {e : Client.Event} {m : JsModule} (h : Suspended n y s)
    (he : e.serves = true) (hst : (machine .producer).step s.producer e = some m)
    (settled : Option Answer) : Suspended n y { s with producer := m, settled } := by
  obtain ⟨es, htrace, hes, -⟩ := serves_trace (Client.step_cases hst) he
  exact {
    mem := h.mem
    exit := h.exit
    point := h.point
    nextWorker := (serves_nextWorker (Client.step_cases hst) he).trans h.nextWorker
    reachable := h.reachable.step hst
    requests := by rw [htrace, requests_append hes, h.requests]
    ordered := htrace ▸ preceded_append h.ordered hes }

theorem Pending.worker_eq (h : Pending n y wk s) {w : Nat} {wk' : Worker}
    (hw : s.producer.workers w = some wk') : w = (y.before n).length ∧ wk' = wk := by
  rw [h.workers, Function.update_apply] at hw
  split_ifs at hw with hj
  exact ⟨hj, (Option.some.inj hw).symm⟩

theorem Pending.update_workers (h : Pending n y wk s) (wk? : Option Worker) :
    Function.update s.producer.workers (y.before n).length wk? =
      Function.update (fun _ => none) (y.before n).length wk? := by
  rw [h.workers, Function.update_idem]

theorem Pending.heard_complete (h : Pending n y wk s) :
    s.heard (.complete (y.before n).length) = some wk.answer := by
  simp [Producing.heard, h.point, h.workers]

theorem Pending.completed_status (h : Pending n y wk s) {w : Nat} {m : JsModule}
    (ht : Transition s.producer (.complete w) m) :
    m.status = [if wk.answer.isError then y.pending else y.target] := by
  have hsame : wk.job ≠ .startOrShutdown .start → wk.job ≠ .startOrShutdown .shutdown →
      y.pending = y.target := by
    rw [h.job]
    cases y <;> simp [Yield.job, Yield.pending, Yield.target]
  rw [answer_isError]
  cases ht with
  | @settled _ wk' method hw _ hj he =>
    obtain ⟨-, rfl⟩ := h.worker_eq hw
    have htarget : target method = y.target := by
      rw [h.job] at hj
      cases y <;> cases hj <;> rfl
    simp [he, h.self, h.status, htarget]
  | @failed _ wk' method err hw _ hj he =>
    obtain ⟨-, rfl⟩ := h.worker_eq hw
    simp [he, h.status]
  | @sendCompleted _ wk' msg hw _ hj =>
    obtain ⟨-, rfl⟩ := h.worker_eq hw
    rw [hsame (by simp [hj]) (by simp [hj]), ite_self]
    exact h.status.trans (by rw [hsame (by simp [hj]) (by simp [hj])])

theorem Pending.native (h : Pending n y wk s) {e : Client.Event} {m : JsModule}
    (he : e.serves = true) (hst : (machine .producer).step s.producer e = some m) :
    (∃ wk', Pending n y wk' { s with producer := m, settled := s.heard e }) ∨
      ∃ answer, Settled n y answer { s with producer := m, settled := s.heard e } := by
  have ht := Client.step_cases hst
  have hsuspended := h.toSuspended.serve he hst (s.heard e)
  obtain ⟨es, htrace, -, hes⟩ := serves_trace ht he
  have hanswers : answers m.trace = answers s.producer.trace ++ (told s.producer e).toList := by
    rw [htrace, answers_append, hes]
  cases e with
  | construct | call => cases he
  | execute w =>
    left
    have hsame : answers m.trace = answers s.producer.trace := hanswers.trans (List.append_nil _)
    cases ht with
    | @executing _ wk' hw =>
      obtain ⟨rfl, rfl⟩ := h.worker_eq hw
      refine ⟨{ wk' with phase := .executing }, { hsuspended with
        settled := ?_
        workers := ?_
        self := h.self
        job := h.job
        status := h.status
        succeeded := hsame ▸ h.succeeded
        answered := hsame ▸ h.answered }⟩
      · simp [Producing.heard, h.settled]
      · exact h.update_workers _
  | nativeReturn w outcome =>
    left
    have hsame : answers m.trace = answers s.producer.trace := hanswers.trans (List.append_nil _)
    cases ht with
    | @executed _ wk' _ wk'' hw _ hex =>
      obtain ⟨rfl, rfl⟩ := h.worker_eq hw
      refine ⟨wk'', { hsuspended with
        settled := ?_
        workers := ?_
        self := (execute_some hex).1.trans h.self
        job := (execute_some hex).2.1.trans h.job
        status := h.status
        succeeded := hsame ▸ h.succeeded
        answered := hsame ▸ h.answered }⟩
      · simp [Producing.heard, h.settled]
      · exact h.update_workers _
  | complete w =>
    right
    have hw : w = (y.before n).length := by
      cases ht with
      | settled hw | failed hw | sendCompleted hw => exact (h.worker_eq hw).1
    subst hw
    have hworkers : m.workers = Function.update s.producer.workers (y.before n).length none := by
      cases ht with
      | settled => funext v; simp
      | failed | sendCompleted => rfl
    refine ⟨wk.answer, { hsuspended with
      settled := h.heard_complete
      workers := ?_
      status := h.completed_status ht
      answered := ⟨answers s.producer.trace, ?_, h.answered, h.succeeded⟩ }⟩
    · rw [hworkers, h.update_workers]
      exact Function.update_eq_self _ _
    · rw [hanswers, told, h.workers, Function.update_self]
      rfl

theorem Settled.throw {err : String} (h : Settled n y (.error err) s) : Ending n (s.throw y) := by
  obtain ⟨l, hl, hlength, hsucceeded⟩ := h.answered
  cases y with
  | start | send =>
    exact .exited rfl h.mem (by simp) h.requests hl hlength hsucceeded
  | shutdown =>
    refine .hungUp h.exit rfl h.requests hl (by simp [hlength, Yield.before]) hsucceeded ⟨?_, ?_⟩ ?_
    · exact congrArg (·[0]?) h.status
    · intro w wk hw
      cases (congrFun h.workers w).symm.trans hw
    · exact congrFun h.workers

theorem Settled.finished {reply : Reply} (h : Settled n .shutdown (.success reply) s) :
    Ending n { s with point := .finished } := by
  obtain ⟨l, hl, hlength, hsucceeded⟩ := h.answered
  have hidle : s.producer.live = 0 := by
    rw [JsModule.live, h.status]
    rfl
  refine .finished h.exit rfl h.requests ?_ ?_ ⟨?_, congrFun h.workers⟩
  · simp [hl, hlength, Yield.before]
  · intro a ha
    rw [hl] at ha
    rcases List.mem_append.mp ha with ha | ha
    · exact hsucceeded a ha
    · exact List.mem_singleton.mp ha ▸ rfl
  · exact (keepAlive_of_reachable h.reachable).idle hidle

theorem Settled.ready {reply : Reply} {z : Yield} (h : Settled n y (.success reply) s)
    (hz : y.next n = some z) : Ready n z s.producer := by
  obtain ⟨-, hrequired, hbefore, -⟩ := next_cases h.mem hz
  obtain ⟨l, hl, hlength, hsucceeded⟩ := h.answered
  refine {
    status := h.status.trans (by rw [hrequired]; rfl)
    workers := h.workers
    nextWorker := by simp [h.nextWorker, hbefore]
    reachable := h.reachable
    requests := by rw [h.requests, hbefore]
    succeeded := ?_
    answered := by simp [hl, hlength, hbefore]
    ordered := h.ordered }
  intro a ha
  rw [hl] at ha
  rcases List.mem_append.mp ha with ha | ha
  · exact hsucceeded a ha
  · exact List.mem_singleton.mp ha ▸ rfl

theorem Settled.resume (h : Settled n y answer s) :
    Ending n (s.resume n y answer) ∧ (s.resume n y answer).producer = s.producer ∨
      ∃ z, y.next n = some z ∧ z.Convertible ∧ Ready n z s.producer ∧
        s.resume n y answer = s.await z := by
  cases answer with
  | error err =>
    refine .inl ⟨h.throw, ?_⟩
    cases y <;> rfl
  | success reply =>
    simp only [Producing.resume]
    split
    · next z hz =>
      by_cases hconv : z.Convertible
      · exact .inr ⟨z, hz, hconv, h.ready hz, rfl⟩
      · exact .inl ((h.ready hz).aborted (next_cases h.mem hz).1 hconv)
    · next hnone =>
      cases y with
      | start | send => cases hnone
      | shutdown => exact .inl ⟨h.finished, rfl⟩

theorem ready_start (n : Nat) (h : s.producer = { status := [.stopped] }) :
    Ready n .start s.producer := by
  rw [h]
  exact {
    status := rfl
    workers := rfl
    nextWorker := rfl
    reachable := ⟨[.construct], rfl⟩
    requests := rfl
    succeeded := by simp [Succeeded, answers]
    answered := rfl
    ordered := preceded_nil }

theorem run_cases (n : Nat) (sdk : Bool) :
    Ending n (({} : Producing).run sdk) ∧ (({} : Producing).run sdk).producer = {} ∨
      ∃ s : Producing, s.producer = { status := [.stopped] } ∧ s.exit = none ∧
        ({} : Producing).run sdk = s.await .start := by
  unfold Producing.run
  split
  · exact .inr ⟨_, rfl, rfl, rfl⟩
  · exact .inl ⟨.unconstructed rfl rfl rfl, rfl⟩

theorem start_mem (n : Nat) : Yield.start ∈ yields n := mem_yields.mpr (by simp)

theorem Ending.halted (h : Ending n s) : s.exit.isSome = true ∨
    (s.point = .finished ∨ s.point = .rejected) ∧ ∀ w, s.producer.workers w = none := by
  cases h with
  | finished _ hp _ _ _ hq => exact .inr ⟨.inl hp, hq.2⟩
  | exited hexit | aborted hexit => exact .inl (by simp [hexit])
  | hungUp _ hp _ _ _ _ _ hw => exact .inr ⟨.inr hp, hw⟩
  | unconstructed _ hp hm => exact .inr ⟨.inr hp, by simp [hm]⟩

theorem native_cases {e : Client.Event} (h : (producing n).step s (.native e) = some t) :
    e.serves = true ∧ ∃ m, (machine .producer).step s.producer e = some m ∧
      t = { s with producer := m, settled := s.heard e } := by
  simp only [producing, Producing.step] at h
  split_ifs at h with _ he
  obtain ⟨m, hm, rfl⟩ := Option.map_eq_some_iff.mp h
  exact ⟨he, m, hm, rfl⟩

theorem native_idle {e : Client.Event} (hw : ∀ w, s.producer.workers w = none) :
    (producing n).step s (.native e) = none := by
  by_contra hne
  obtain ⟨t, ht⟩ := Option.ne_none_iff_exists'.mp hne
  obtain ⟨he, m, hm, -⟩ := native_cases ht
  cases e with
  | construct | call => cases he
  | execute | nativeReturn | complete => simp [machine, Client.step, hw] at hm

theorem Suspended.run_eq_none (h : Suspended n y s) (sdk : Bool) :
    (producing n).step s (.run sdk) = none := by
  simp [producing, Producing.step, h.exit, h.point]

theorem Ending.stuck (h : Ending n s) (e : Event) : (producing n).step s e = none := by
  obtain hexit | ⟨hp, hw⟩ := h.halted
  · exact if_pos hexit
  · cases e with
    | run | resume => obtain hp | hp := hp <;> simp [producing, Producing.step, hp]
    | native e => exact native_idle hw

theorem Stage.step_cases (h : Stage n s) {e : Event} (hst : (producing n).step s e = some t) :
    (∃ sdk, s = {} ∧ t = s.run sdk) ∨
      (∃ y wk e m, Pending n y wk s ∧ e.serves = true ∧
        (machine .producer).step s.producer e = some m ∧
        t = { s with producer := m, settled := s.heard e }) ∨
      ∃ y answer, Settled n y answer s ∧ t = s.resume n y answer := by
  cases h with
  | begin hs =>
    subst hs
    cases e with
    | run sdk => exact .inl ⟨sdk, rfl, (Option.some.inj hst).symm⟩
    | native e => cases hst.symm.trans (native_idle fun _ => rfl)
    | resume => cases hst
  | @pending y wk h =>
    cases e with
    | run sdk => cases hst.symm.trans (h.run_eq_none sdk)
    | native e =>
      obtain ⟨he, m, hm, ht⟩ := native_cases hst
      exact .inr (.inl ⟨y, wk, e, m, h, he, hm, ht⟩)
    | resume => simp [producing, Producing.step, h.exit, h.point, h.settled] at hst
  | @settled y answer h =>
    cases e with
    | run sdk => cases hst.symm.trans (h.run_eq_none sdk)
    | native e => cases hst.symm.trans (native_idle (congrFun h.workers))
    | resume =>
      simp only [producing, Producing.step, h.exit, h.point, h.settled] at hst
      exact .inr (.inr ⟨y, answer, h, (Option.some.inj hst).symm⟩)
  | ended h _ => cases (h.stuck e).symm.trans hst

theorem Stage.step (h : Stage n s) {e : Event} (hst : (producing n).step s e = some t) :
    Stage n t := by
  obtain ⟨sdk, rfl, rfl⟩ | ⟨y, wk, e, m, hp, he, hm, rfl⟩ | ⟨y, answer, hs, rfl⟩ :=
    h.step_cases hst
  · obtain ⟨hended, hsame⟩ | ⟨s, hnew, hexit, heq⟩ := run_cases n sdk
    · exact .ended hended (by rw [hsame]; exact preceded_nil)
    · exact heq ▸ .pending ((ready_start n hnew).await (start_mem n) trivial hexit)
  · obtain ⟨wk, hpending⟩ | ⟨answer, hsettled⟩ := hp.native he hm
    · exact .pending hpending
    · exact .settled hsettled
  · obtain ⟨hended, hsame⟩ | ⟨z, hz, hconv, hready, heq⟩ := hs.resume
    · exact .ended hended (hsame ▸ hs.ordered)
    · exact heq ▸ .pending (hready.await (next_cases hs.mem hz).1 hconv hs.exit)

def Made (n : Nat) (f : Client.Event) : Prop :=
  f = .construct ∨ f.serves = true ∨ ∃ y ∈ yields n, f = .call 0 y.call

theorem await_exec {m : JsModule} (h : s.producer = m) (hready : Ready n y m)
    (hconv : y.Convertible) :
    (machine .producer).exec m [.call 0 y.call] = some (s.await y).producer := by
  subst h
  rw [await_eq hready.status hconv, Machine.exec_cons, Yield.step_call hready.status hconv]
  rfl

theorem Stage.exec (h : Stage n s) {e : Event} (hst : (producing n).step s e = some t) :
    ∃ fs, (machine .producer).exec s.producer fs = some t.producer ∧ ∀ f ∈ fs, Made n f := by
  obtain ⟨sdk, rfl, rfl⟩ | ⟨y, wk, e, m, hp, he, hm, rfl⟩ | ⟨y, answer, hs, rfl⟩ :=
    h.step_cases hst
  · obtain ⟨-, hsame⟩ | ⟨s, hnew, -, heq⟩ := run_cases n sdk
    · exact ⟨[], by rw [hsame]; rfl, by simp⟩
    · refine ⟨[.construct, .call 0 Yield.start.call], ?_, ?_⟩
      · rw [heq]
        have hconv : Yield.start.Convertible := trivial
        exact await_exec hnew (hnew ▸ ready_start n hnew) hconv
      · simp only [List.mem_cons, List.not_mem_nil, or_false]
        rintro f (rfl | rfl)
        · exact .inl rfl
        · exact .inr (.inr ⟨.start, start_mem n, rfl⟩)
  · exact ⟨[e], by simp [hm], by simp [Made, he]⟩
  · obtain ⟨-, hsame⟩ | ⟨z, hz, hconv, hready, heq⟩ := hs.resume
    · exact ⟨[], by rw [hsame]; rfl, by simp⟩
    · refine ⟨[.call 0 z.call], heq ▸ await_exec rfl hready hconv, ?_⟩
      simp only [List.mem_singleton, forall_eq]
      exact .inr (.inr ⟨z, (next_cases hs.mem hz).1, rfl⟩)

theorem stage_of_exec {es : List Event} (h : (producing n).exec {} es = some s) : Stage n s :=
  Machine.exec_invariant (fun _ _ _ hs hst => hs.step hst) (.begin rfl) h

theorem Stage.exists_step (h : Stage n s) :
    Ending n s ∨ ∃ e t, (producing n).step s e = some t := by
  cases h with
  | begin hs =>
    subst hs
    exact .inr ⟨.run true, _, rfl⟩
  | @pending y wk h =>
    have hw : s.producer.workers (y.before n).length = some wk := by
      rw [h.workers, Function.update_self]
    obtain ⟨e, he, -, hsome⟩ := Client.served .producer hw
    obtain ⟨m, hm⟩ := Option.isSome_iff_exists.mp hsome
    exact .inr ⟨.native e, { s with producer := m, settled := s.heard e },
      by simp [producing, Producing.step, h.exit, he, hm]⟩
  | settled h =>
    exact .inr ⟨.resume, _, by simp [producing, Producing.step, h.exit, h.point, h.settled]; rfl⟩
  | ended h _ => exact .inl h

def Producing.left (n : Nat) (s : Producing) : Nat :=
  if s.exit.isSome then 0
  else
    match s.point with
    | .begin => 4 * (n + 2) + 1
    | .suspended y _ => s.producer.work + 1 + 4 * y.after n
    | _ => 0

theorem Suspended.left (h : Suspended n y s) :
    s.left n = s.producer.work + 1 + 4 * y.after n := by
  simp [Producing.left, h.exit, h.point]

theorem Ending.left (h : Ending n s) : s.left n = 0 := by
  unfold Producing.left
  obtain hexit | ⟨hp | hp, -⟩ := h.halted
  · exact if_pos hexit
  · simp [hp]
  · simp [hp]

theorem work_of_idle {m : JsModule} (h : m.workers = fun _ => none) : m.work = 0 := by
  simp [JsModule.work, h, Heap.weight]

theorem Ready.left_await (h : Ready n y s.producer) (hy : y ∈ yields n) (hconv : y.Convertible)
    (hexit : s.exit = none) :
    (s.await y).left n = 4 * (y.after n + 1) := by
  have hwork : (s.await y).producer.work = 3 := by
    rw [await_eq h.status hconv]
    exact (work_asyncQueueWorker (s.producer.setStatus 0 y.pending) rfl).trans
      (congrArg (· + 3) (work_of_idle h.workers))
  rw [(h.await hy hconv hexit).left, hwork]
  omega

theorem Stage.left_lt (h : Stage n s) {e : Event} (hst : (producing n).step s e = some t) :
    t.left n < s.left n := by
  obtain ⟨sdk, rfl, rfl⟩ | ⟨y, wk, e, m, hp, he, hm, rfl⟩ | ⟨y, answer, hs, rfl⟩ :=
    h.step_cases hst
  · have hbegin : ({} : Producing).left n = 4 * (n + 2) + 1 := rfl
    obtain ⟨hended, -⟩ | ⟨s, hnew, hexit, heq⟩ := run_cases n sdk
    · rw [hended.left, hbegin]
      omega
    · rw [heq, (ready_start n hnew).left_await (start_mem n) trivial hexit, hbegin, Yield.after]
      omega
  · have hserved := hp.toSuspended.serve he hm (s.heard e)
    have hwork := (told_of_reachable hp.reachable).work_serves (Client.step_cases hm) he
    rw [hserved.left, hp.left]
    dsimp only
    omega
  · rw [hs.left]
    obtain ⟨hended, -⟩ | ⟨z, hz, hconv, hready, heq⟩ := hs.resume
    · rw [hended.left]
      omega
    · have hafter := (next_cases hs.mem hz).2.2.2
      rw [heq, hready.left_await (next_cases hs.mem hz).1 hconv hs.exit, hafter]
      omega

theorem Stage.requests_isPrefix (h : Stage n s) :
    requests s.producer.trace <+: (yields n).map Yield.job := by
  cases h with
  | begin hs => exact hs ▸ List.nil_prefix
  | pending h => exact h.requests ▸ (before_isPrefix h.mem).map Yield.job
  | settled h => exact h.requests ▸ (before_isPrefix h.mem).map Yield.job
  | ended h _ =>
    cases h with
    | finished _ _ hrequests | hungUp _ _ hrequests => exact hrequests ▸ List.prefix_rfl
    | exited _ hy _ hrequests => exact hrequests ▸ (before_isPrefix hy).map Yield.job
    | aborted _ hy _ hrequests =>
      exact hrequests ▸ ((List.prefix_append _ _).trans (before_isPrefix hy)).map Yield.job
    | unconstructed _ _ hm => exact hm ▸ List.nil_prefix

theorem Stage.ordered (h : Stage n s) : Preceded AfterSuccess s.producer.trace := by
  cases h with
  | begin hs => exact hs ▸ preceded_nil
  | pending h => exact h.ordered
  | settled h => exact h.ordered
  | ended _ h => exact h

theorem Yield.convertible_of_le (hn : n ≤ 2 ^ 53) (hy : y ∈ yields n) : y.Convertible := by
  cases y with
  | start | shutdown => trivial
  | send i =>
    have hi : i < 10 ^ 16 := (mem_yields.mp hy i rfl).trans_le (hn.trans (by decide))
    have hdigits : (Nat.toDigits 10 i).length ≤ 16 :=
      (Nat.length_toDigits_le_iff (by decide) (by decide)).mpr hi
    have hunits := length_utf16_le (body i)
    have hbody : (body i).toList.length = 4 + (Nat.toDigits 10 i).length := by simp [body]; omega
    rw [Yield.Convertible, Js.Convertible, intMax]
    omega

theorem Stage.exit_ne (h : Stage n s) (hn : n ≤ 2 ^ 53) : s.exit ≠ some 134 := by
  cases h with
  | begin hs => simp [hs]
  | pending h => simp [h.exit]
  | settled h => simp [h.exit]
  | ended h _ =>
    cases h with
    | finished hexit | exited hexit | hungUp hexit | unconstructed hexit => simp [hexit]
    | aborted _ hy hconv => exact absurd (Yield.convertible_of_le hn hy) hconv

/-- However its requests are served and however they end, the example makes them in its order
and each after the success of all before it, and it is at its end exactly when it can take no
step: finished, or out with 4 at the start or at the send that failed, or left with the
keep-alive of a producer whose shutdown failed, or without a producer at all. -/
theorem producer_outcome {es : List Event} (h : (producing n).exec {} es = some s) :
    es.length ≤ 4 * (n + 2) + 1 ∧
      requests s.producer.trace <+: (yields n).map Yield.job ∧
      Preceded AfterSuccess s.producer.trace ∧ (n ≤ 2 ^ 53 → s.exit ≠ some 134) ∧
      ((∀ e, (producing n).step s e = none) ↔ Ending n s) := by
  have hs := stage_of_exec h
  have hlength : es.length + s.left n ≤ ({} : Producing).left n :=
    Machine.Along.measure_le (P := fun _ _ => True)
      (fun _ _ _ hs _ hst => ⟨hs.step hst, hs.left_lt hst⟩) (.of_forall (fun _ _ _ => trivial) _)
      (Stage.begin rfl) h
  refine ⟨Nat.le_trans (Nat.le_add_right _ _) hlength, hs.requests_isPrefix, hs.ordered, hs.exit_ne,
    ?_, Ending.stuck⟩
  intro hstuck
  refine hs.exists_step.resolve_right ?_
  rintro ⟨e, t, hst⟩
  cases (hstuck e).symm.trans hst

end Stage

def refused : List Event :=
  [.run true, .native (.execute 0), .native (.nativeReturn 0 (.startOrShutdown (.ok ()))),
    .native (.complete 0), .resume, .native (.execute 1),
    .native (.nativeReturn 1 (.sendMessage (.ok ⟨0, "", 0⟩))), .native (.complete 1), .resume,
    .native (.execute 2), .native (.nativeReturn 2 (.sendMessage (.threw "broker"))),
    .native (.complete 2), .resume]

theorem producer_outcome_refused :
    ∃ s, (producing 3).exec {} refused = some s ∧ s.exit = some 4 ∧ Ending 3 s := by
  refine ⟨_, rfl, rfl, ?_⟩
  exact (@producer_outcome 3 _ refused rfl).2.2.2.2.mp fun _ => rfl

end RocketMQClient.Example
