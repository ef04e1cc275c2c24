import Mathlib.Tactic.Simps.Basic
import RocketMQClient.Client.Worker

/-! The lifecycle code of `lib/producer.js` and `lib/push_consumer.js`.  The two
files repeat each other word for word, so a `JsModule` is the state of either:
its module variables, its instances, the workers it has queued, and the trace of
its effects on the world outside. -/

namespace RocketMQClient.Client

open Marshal Library

inductive ClassKind
  | producer | pushConsumer
  deriving DecidableEq

inductive StartStatus
  | stopped | started | stopping | starting
  deriving DecidableEq

inductive Effect
  | queued (w self : Nat) (job : Job) (callback : Option Nat)
  | called (w self : Nat) (job : Job)
  | returned (w : Nat) (outcome : Outcome)
  | completed (w self : Nat) (job : Job) (errmsg : Option String)
  | statusSet (w self : Nat) (status : StartStatus)
  | intervalSet (id : Nat)
  | intervalCleared (id : Option Nat)
  | answered (w : Nat) (callback : Option Nat) (answer : Answer)
  | subscribed (self : Nat) (topic expression : String)
  deriving DecidableEq

structure JsModule where
  status : List StartStatus := []
  producerRef : Int := 0
  timer : Option Nat := none
  intervals : List Nat := []
  nextInterval : Nat := 0
  workers : Nat → Option Worker := fun _ => none
  nextWorker : Nat := 0
  trace : List Effect := []

inductive CallResult
  | threw (e : AssertionError)
  | nativeThrew (what : String)
  | promise (w : Nat)
  | undefined
  | number (n : Int)
  deriving DecidableEq

def CallResult.rejected : CallResult → Bool
  | .threw _ => true
  | _ => false

namespace JsModule

@[simps] def emit (m : JsModule) (e : Effect) : JsModule := { m with trace := m.trace ++ [e] }

@[simps] def setStatus (m : JsModule) (self : Nat) (status : StartStatus) : JsModule :=
  { m with status := m.status.set self status }

@[simps] def setWorker (m : JsModule) (w : Nat) (wk : Option Worker) : JsModule :=
  { m with workers := Function.update m.workers w wk }

@[simps] def setInterval (m : JsModule) : JsModule :=
  { m with
    timer := some m.nextInterval
    intervals := m.nextInterval :: m.intervals
    nextInterval := m.nextInterval + 1
    trace := m.trace ++ [.intervalSet m.nextInterval] }

/-- `clearInterval(timer)`; the variable keeps its value. -/
@[simps] def clearInterval (m : JsModule) : JsModule :=
  { m with
    intervals := m.intervals.filter fun id => some id ≠ m.timer
    trace := m.trace ++ [.intervalCleared m.timer] }

@[simps] def asyncQueueWorker (m : JsModule) (wk : Worker) : JsModule :=
  { m with
    workers := Function.update m.workers m.nextWorker (some wk)
    nextWorker := m.nextWorker + 1
    trace := m.trace ++ [.queued m.nextWorker wk.self wk.job wk.callback] }

def result (m : JsModule) (callback : Option Nat) : CallResult :=
  if callback.isNone then .promise m.nextWorker else .undefined

def startOrShutdown (m : JsModule) (self : Nat) (method : Method) (callback : Option Nat) :
    CallResult × JsModule :=
  (m.result callback, m.asyncQueueWorker { self, job := .startOrShutdown method, callback })

def changeStatus (m : JsModule) (required next : StartStatus) (self : Nat) (method : Method)
    (callback : Option Nat) : CallResult × JsModule :=
  if m.status[self]? = some required then
    (m.setStatus self next).startOrShutdown self method callback
  else (.threw .assertion, m)

def start (m : JsModule) (self : Nat) (callback : Option Nat) : CallResult × JsModule :=
  m.changeStatus .stopped .starting self .start callback

def shutdown (m : JsModule) (self : Nat) (callback : Option Nat) : CallResult × JsModule :=
  m.changeStatus .started .stopping self .shutdown callback

/-- `send` asserts the types of its arguments and no status; `none` is an abort. -/
def send (m : JsModule) (self : Nat) (topic body options : Js.JsValue) (callback : Option Nat) :
    Option (CallResult × JsModule) :=
  match Marshal.send topic body options callback with
  | .error e => some (.threw e, m)
  | .ok r => (RocketMQProducer.send r).map fun msg =>
    (m.result r.callback, m.asyncQueueWorker
      { self, job := .sendMessage msg, callback := r.callback })

def subscribe (m : JsModule) (self : Nat) (topic expression : Js.JsValue) (sdk : SdkOutcome Unit) :
    Option (CallResult × JsModule) :=
  if m.status[self]? = some .stopped then
    match topic, expressionOf expression with
    | .string topic, some expression =>
      if topic ≠ "" then
        -- the two `Nan::Utf8String` of `RocketMQPushConsumer::Subscribe`
        if Js.Convertible (utf16 topic) ∧ Js.Convertible (utf16 expression) then
          some (subscribeResult sdk, m.emit (.subscribed self topic expression))
        else none
      else some (.threw .assertion, m)
    | _, _ => some (.threw .assertion, m)
  else some (.threw .assertion, m)
where
  -- `assert(!expression || expression && typeof expression === "string")`, then `expression || ""`
  expressionOf : Js.JsValue → Option String
    | .string s => some s
    | v => if v.toBoolean then none else some ""
  subscribeResult : SdkOutcome Unit → CallResult
    | .ok () => .number 0
    | .failed status _ _ => .number status
    | .threw what => .nativeThrew what

def settle (m : JsModule) (w self : Nat) : Method → JsModule
  | .start =>
    let m := (m.setStatus self .started).emit (.statusSet w self .started)
    let m := if m.producerRef = 0 then m.setInterval else m
    { m with producerRef := m.producerRef + 1 }
  | .shutdown =>
    let m := (m.setStatus self .stopped).emit (.statusSet w self .stopped)
    let m := { m with producerRef := m.producerRef - 1 }
    if m.producerRef = 0 then m.clearInterval else m

/-- `WorkComplete` on the event loop.  The closure's last action is to answer, so
what the program does from inside its callback happens in the next events. -/
def workComplete (m : JsModule) (w : Nat) (wk : Worker) : JsModule :=
  let m := (m.setWorker w none).emit (.completed w wk.self wk.job wk.errmsg)
  let m := match wk.job, wk.errmsg with
    | .startOrShutdown method, none => m.settle w wk.self method
    | _, _ => m
  m.emit (.answered w wk.callback wk.answer)

end JsModule

inductive Call
  | start (callback : Option Nat)
  | shutdown (callback : Option Nat)
  | send (topic body options : Js.JsValue) (callback : Option Nat)
  | subscribe (topic expression : Js.JsValue) (sdk : SdkOutcome Unit)

def JsModule.call (k : ClassKind) (m : JsModule) (self : Nat) : Call → Option (CallResult × JsModule)
  | .start callback => some (m.start self callback)
  | .shutdown callback => some (m.shutdown self callback)
  | .send topic body options callback =>
    if k = .producer then m.send self topic body options callback else none
  | .subscribe topic expression sdk =>
    if k = .pushConsumer then m.subscribe self topic expression sdk else none

inductive Event
  | construct
  | call (self : Nat) (c : Call)
  | execute (w : Nat)
  | nativeReturn (w : Nat) (outcome : Outcome)
  | complete (w : Nat)

def step (k : ClassKind) (m : JsModule) : Event → Option JsModule
  | .construct => some { m with status := m.status ++ [.stopped] }
  | .call self c => if self < m.status.length then (m.call k self c).map Prod.snd else none
  | .execute w =>
    match m.workers w with
    | some wk =>
      if wk.phase = .queued then
        some ((m.setWorker w (some { wk with phase := .executing })).emit (.called w wk.self wk.job))
      else none
    | none => none
  | .nativeReturn w outcome =>
    match m.workers w with
    | some wk =>
      if wk.phase = .executing then
        (wk.execute outcome).map fun wk => (m.setWorker w (some wk)).emit (.returned w outcome)
      else none
    | none => none
  | .complete w =>
    match m.workers w with
    | some wk => if wk.phase = .executed then some (m.workComplete w wk) else none
    | none => none

def machine (k : ClassKind) : Machine JsModule Event where
  init := {}
  step := step k

def client : Machine (ClassKind → JsModule) (ClassKind × Event) := .pi machine

def startRun (outcome : SdkOutcome Unit) : List (ClassKind × Event) :=
  [.construct, .call 0 (.start none), .execute 0, .nativeReturn 0 (.startOrShutdown outcome),
    .complete 0].map (Prod.mk .producer)

def sendRun (outcome : SdkOutcome CSendResult) : List (ClassKind × Event) :=
  [.construct, .call 0 (.send (.string "topic") (.string "body") (.object []) none), .execute 0,
    .nativeReturn 0 (.sendMessage outcome), .complete 0].map (Prod.mk .producer)

end RocketMQClient.Client
