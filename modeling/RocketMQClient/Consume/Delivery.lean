import Mathlib.Tactic.Simps.Basic
import RocketMQClient.Consume.ConsumerAckInner
import RocketMQClient.Marshal.Receive

/-! The delivery of messages: `OnMessage` on the threads of the SDK, the event loop
that runs `HandleMessageInEventLoop`, and the program with the acks it was given. -/

namespace RocketMQClient.Consume

open Library Marshal

abbrev Registry := Nat → Option (Option Nat)

/-- `operator[]` inserts a `NULL` for a key that it does not find. -/
def Registry.lookup (m : Registry) (consumerPtr : Nat) : Registry × Option Nat :=
  match m consumerPtr with
  | some consumer => (m, consumer)
  | none => (Function.update m consumerPtr (some none), none)

structure MessageHandlerParam where
  consumer : Nat
  ack : Nat
  msg : Nat

/-- An activation of `OnMessage`: its locals, and the message that the SDK lends it.
The call is numbered for the trace. -/
structure Frame where
  call : Nat
  param : MessageHandlerParam
  msg : CMessageExt
  ackInner : ConsumerAckInner := {}
  sent : Bool := false

structure Async where
  data : Nat
  call : Nat

structure ConsumerAck where
  inner : Option Nat
  call : Nat
  held : Bool := false
  finalized : Bool := false

structure Handler where
  call : Nat
  consumer : Nat
  ack : Nat
  msg : Nat
  result : MessageObject := []
  rest : List String := messageHandlerParamKeys

inductive Loop
  | idle
  | building (h : Handler)
  | listening (ack : Nat)

inductive Effect
  | constructed (consumerPtr consumer : Nat)
  | onMessage (call consumerPtr consumer : Nat) (msg : CMessageExt)
  | refused (call consumerPtr : Nat)
  | listener (call consumer : Nat) (msg : MessageObject) (ack : Nat)
  | done (call ack : Nat) (args : List Js.JsValue)
  | returned (call : Nat) (status : Option CConsumeStatus)

structure Delivery where
  registry : Registry := fun _ => none
  nextConsumer : Nat := 0
  nextCall : Nat := 0
  frames : Nat → Option Frame := fun _ => none
  pending : Nat → Option Async := fun _ => none
  acks : Nat → Option ConsumerAck := fun _ => none
  loop : Loop := .idle
  trace : List Effect := []

/-- The decision of `Done`: its first argument counts as a success when it is
absent, `undefined`, `null` or truthy. -/
def decision (args : List Js.JsValue) : CConsumeStatus :=
  let succ := match args with
    | [] => true
    | arg :: _ => arg.isUndefined || arg.isNull || arg.toBoolean
  if succ then .consumeSuccess else .reconsumeLater

namespace Delivery

@[simps] def emit (s : Delivery) (e : Effect) : Delivery := { s with trace := s.trace ++ [e] }

@[simps] def setFrame (s : Delivery) (x : Nat) (f : Option Frame) : Delivery :=
  { s with frames := Function.update s.frames x f }

@[simps] def setPending (s : Delivery) (a : Nat) (async : Option Async) : Delivery :=
  { s with pending := Function.update s.pending a async }

@[simps] def setAck (s : Delivery) (k : Nat) (o : ConsumerAck) : Delivery :=
  { s with acks := Function.update s.acks k (some o) }

@[simps] def setLoop (s : Delivery) (l : Loop) : Delivery := { s with loop := l }

def construct (s : Delivery) (consumerPtr : Nat) : Delivery :=
  { s with
    registry := Function.update s.registry consumerPtr (some (some s.nextConsumer))
    nextConsumer := s.nextConsumer + 1 }.emit (.constructed consumerPtr s.nextConsumer)

@[simps] def enterCall (s : Delivery) (registry : Registry) : Delivery :=
  { s with registry, nextCall := s.nextCall + 1 }

def onMessage (s : Delivery) (x consumerPtr : Nat) (msg : CMessageExt) : Delivery :=
  match s.registry.lookup consumerPtr with
  | (registry, none) => (s.enterCall registry).emit (.refused s.nextCall consumerPtr)
  | (registry, some consumer) =>
    ((s.enterCall registry).setFrame x
      (some { call := s.nextCall, param := ⟨consumer, x, x⟩, msg })).emit
      (.onMessage s.nextCall consumerPtr consumer msg)

@[simps!] def send (s : Delivery) (x a : Nat) (f : Frame) : Delivery :=
  (s.setFrame x (some { f with sent := true })).setPending a (some ⟨x, f.call⟩)

def resume (s : Delivery) (x : Nat) (f : Frame) (inner : ConsumerAckInner) : Delivery :=
  match inner.waiter with
  | .returned status => (s.setFrame x none).emit (.returned f.call status)
  | _ => s.setFrame x (some { f with ackInner := inner })

@[simps!] def dispatch (s : Delivery) (a k : Nat) (async : Async) (f : Frame) : Delivery :=
  ((s.setPending a none).setAck k { inner := some f.param.ack, call := async.call }).setLoop
    (.building
      { call := async.call, consumer := f.param.consumer, ack := k, msg := f.param.msg })

@[simps!] def readColumn (s : Delivery) (D : Utf8Decoder) (h : Handler) (f : Frame) (name : String)
    (rest : List String) : Delivery :=
  s.setLoop (.building { h with result := h.result ++ [column D f.msg name], rest })

/-- `callback->Call`.  The program gets the ack if the emitter has a listener. -/
@[simps!] def callListener (s : Delivery) (h : Handler) (o : ConsumerAck) (registered : Bool) : Delivery :=
  ((s.setAck h.ack { o with held := registered }).setLoop (.listening h.ack)).emit
    (.listener h.call h.consumer h.result h.ack)

@[simps!] def doneAgain (s : Delivery) (k : Nat) (o : ConsumerAck) (args : List Js.JsValue) : Delivery :=
  s.emit (.done o.call k args)

@[simps!] def done (s : Delivery) (k x : Nat) (o : ConsumerAck) (f : Frame) (args : List Js.JsValue) :
    Delivery :=
  ((s.setFrame x (some { f with ackInner := f.ackInner.ack (decision args) })).setAck k
    { o with inner := none }).emit (.done o.call k args)

def pins (s : Delivery) (k : Nat) : Bool :=
  match s.loop with
  | .idle => false
  | .building h => h.ack = k
  | .listening ack => ack = k

def runsJs (s : Delivery) : Bool :=
  match s.loop with
  | .building _ => false
  | _ => true

end Delivery

/-- `wake` is `uv_cond_wait` returning, `listenerEnd` the listener returning or throwing,
`finalize` the collection of an ack. -/
inductive Event
  | construct (consumerPtr : Nat)
  | onMessage (x consumerPtr : Nat) (msg : CMessageExt)
  | send (x a : Nat)
  | wait (x : Nat)
  | wake (x : Nat)
  | dispatch (a k : Nat)
  | readColumn
  | callListener (registered : Bool)
  | listenerEnd
  | done (k : Nat) (args : List Js.JsValue)
  | drop (k : Nat)
  | finalize (k : Nat)

/-- What is read at an address with no frame is undefined, and has no next state. -/
def step (D : Utf8Decoder) (s : Delivery) : Event → Option Delivery
  | .construct consumerPtr =>
    match s.registry consumerPtr with
    | some (some _) => none
    | _ => some (s.construct consumerPtr)
  | .onMessage x consumerPtr msg =>
    if (s.frames x).isNone then some (s.onMessage x consumerPtr msg) else none
  | .send x a => do
    let f ← s.frames x
    if f.sent = false ∧ (s.pending a).isNone then some (s.send x a f) else none
  | .wait x => do
    let f ← s.frames x
    if f.sent then f.ackInner.waitResult.map (s.resume x f) else none
  | .wake x => do
    let f ← s.frames x
    f.ackInner.wake.map (s.resume x f)
  | .dispatch a k => do
    let async ← s.pending a
    let f ← s.frames async.data
    match s.loop with
    | .idle => if (s.acks k).isNone then some (s.dispatch a k async f) else none
    | _ => none
  | .readColumn =>
    match s.loop with
    | .building h => do
      let f ← s.frames h.msg
      match h.rest with
      | name :: rest => some (s.readColumn D h f name rest)
      | [] => none
    | _ => none
  | .callListener registered =>
    match s.loop with
    | .building h => do
      let o ← s.acks h.ack
      if h.rest = [] then some (s.callListener h o registered) else none
    | _ => none
  | .listenerEnd =>
    match s.loop with
    | .listening _ => some (s.setLoop .idle)
    | _ => none
  | .done k args => do
    let o ← s.acks k
    if o.held ∧ s.runsJs then
      match o.inner with
      | none => some (s.doneAgain k o args)
      | some x => (s.frames x).map fun f => s.done k x o f args
    else none
  | .drop k => do
    let o ← s.acks k
    if o.held then some (s.setAck k { o with held := false }) else none
  | .finalize k => do
    let o ← s.acks k
    if o.held = false ∧ o.finalized = false ∧ s.pins k = false then
      some (s.setAck k { o with inner := none, finalized := true })
    else none

def delivery (D : Utf8Decoder) : Machine Delivery Event where
  init := {}
  step := step D

def oneMessage : List Event :=
  [.construct 0, .onMessage 10 0 ⟨[], [], [], [], []⟩, .send 10 20, .wait 10, .dispatch 20 30] ++
    List.replicate 5 .readColumn ++ [.callListener true, .done 30 [], .listenerEnd, .wake 10]

end RocketMQClient.Consume
