import RocketMQClient.Consume.Step

/-! The delivery statement by statement: `OnMessage` on the threads of the SDK, the JS
thread inside `HandleMessageInEventLoop` and inside `Ack`, and the handle between them.

`OnMessage` calls `uv_async_init` on a thread of the SDK, where libuv allows only
`uv_async_send`. The model assumes that the call takes effect in one step all the same, as it
does when it overlaps neither another one nor the loop: otherwise a handle may be lost, and
its callback never runs. -/

namespace RocketMQClient.Consume

open Library Marshal

namespace Threads

inductive Point
  | malloc
  | init (async : Nat)
  | data (async : Nat)
  | send (async : Nat)
  | waitResult
  deriving DecidableEq

structure Activation where
  call : Nat
  param : MessageHandlerParam
  msg : CMessageExt
  point : Point := .malloc
  inner : ConsumerAckInner.State := {}

inductive Phase
  | allocated | initialized | bound | pending | running | closing
  deriving DecidableEq

structure UvAsync where
  call : Nat
  phase : Phase := .allocated
  data : Option Nat := none

/-- Where `HandleMessageInEventLoop` is: before `callback->Call`, in it, or before `uv_close`. -/
inductive Loop
  | idle
  | building (async : Nat) (h : Handler)
  | listening (async ack : Nat)
  | leaving (async ack : Nat)

/-- Where `ConsumerAck::Ack` is: before `inner->Ack(status)`, in it, or before `inner = NULL`. -/
inductive AckPoint
  | call | inside | forget
  deriving DecidableEq

structure Acking where
  ack : Nat
  inner : Nat
  args : List Js.JsValue
  point : AckPoint := .call

end Threads

open Threads in
structure Threads where
  registry : Registry := fun _ => none
  nextConsumer : Nat := 0
  nextCall : Nat := 0
  frames : Nat → Option Activation := fun _ => none
  handles : Nat → Option UvAsync := fun _ => none
  acks : Nat → Option ConsumerAck := fun _ => none
  loop : Threads.Loop := .idle
  acking : Option Acking := none
  trace : List Effect := []

namespace Threads

@[simps] def emit (s : Threads) (e : Effect) : Threads := { s with trace := s.trace ++ [e] }

@[simps] def log (s : Threads) (es : List Effect) : Threads := { s with trace := s.trace ++ es }

@[simps] def setFrame (s : Threads) (x : Nat) (f : Option Activation) : Threads :=
  { s with frames := Function.update s.frames x f }

@[simps] def setHandle (s : Threads) (a : Nat) (h : Option UvAsync) : Threads :=
  { s with handles := Function.update s.handles a h }

@[simps] def setAck (s : Threads) (k : Nat) (o : ConsumerAck) : Threads :=
  { s with acks := Function.update s.acks k (some o) }

@[simps] def setLoop (s : Threads) (l : Loop) : Threads := { s with loop := l }

@[simps] def setAcking (s : Threads) (q : Option Acking) : Threads := { s with acking := q }

@[simps!] def construct (s : Threads) (consumerPtr : Nat) : Threads :=
  { s with
    registry := Function.update s.registry consumerPtr (some (some s.nextConsumer))
    nextConsumer := s.nextConsumer + 1 }.emit (.constructed consumerPtr s.nextConsumer)

@[simps] def enterCall (s : Threads) (registry : Registry) : Threads :=
  { s with registry, nextCall := s.nextCall + 1 }

@[simps!] def refuse (s : Threads) (registry : Registry) (consumerPtr : Nat) : Threads :=
  (s.enterCall registry).emit (.refused s.nextCall consumerPtr)

@[simps!] def enter (s : Threads) (registry : Registry) (x consumerPtr consumer : Nat)
    (msg : CMessageExt) : Threads :=
  ((s.enterCall registry).setFrame x
    (some { call := s.nextCall, param := ⟨consumer, x, x⟩, msg })).emit
    (.onMessage s.nextCall consumerPtr consumer msg)

def onMessage (s : Threads) (x consumerPtr : Nat) (msg : CMessageExt) : Threads :=
  match s.registry.lookup consumerPtr with
  | (registry, none) => s.refuse registry consumerPtr
  | (registry, some consumer) => s.enter registry x consumerPtr consumer msg

@[simps!] def malloc (s : Threads) (x a : Nat) (f : Activation) : Threads :=
  (s.setHandle a (some { call := f.call })).setFrame x (some { f with point := .init a })

@[simps!] def init (s : Threads) (x a : Nat) (f : Activation) (h : UvAsync) : Threads :=
  (s.setHandle a (some { h with phase := .initialized })).setFrame x
    (some { f with point := .data a })

@[simps!] def data (s : Threads) (x a : Nat) (f : Activation) (h : UvAsync) : Threads :=
  (s.setHandle a (some { h with phase := .bound, data := some x })).setFrame x
    (some { f with point := .send a })

@[simps!] def send (s : Threads) (x a : Nat) (f : Activation) (h : UvAsync) : Threads :=
  (s.setHandle a (some { h with phase := .pending })).setFrame x
    (some { f with point := .waitResult })

/-- The next statement of `OnMessage` between `malloc` and `WaitResult`; `uv_async_init` is
assumed to be one of them. -/
def advance (s : Threads) (x : Nat) (f : Activation) : Option Threads :=
  match f.point with
  | .init a => (s.handles a).map (s.init x a f)
  | .data a => (s.handles a).map (s.data x a f)
  | .send a => (s.handles a).map (s.send x a f)
  | _ => none

/-- `WaitResult` is logged with the read of `status` that it returns. -/
def returns (f : Activation) (inner : ConsumerAckInner.State) : List Effect :=
  match inner.waiter with
  | .returned status => [.returned f.call status]
  | _ => []

@[simps!] def wait (s : Threads) (x : Nat) (f : Activation) (inner : ConsumerAckInner.State) :
    Threads :=
  (s.setFrame x (some { f with inner })).log (returns f inner)

@[simps!] def dispatch (s : Threads) (a k : Nat) (h : UvAsync) (f : Activation) : Threads :=
  ((s.setHandle a (some { h with phase := .running })).setAck k
    { inner := some f.param.ack, call := h.call }).setLoop
    (.building a { call := h.call, consumer := f.param.consumer, ack := k, msg := f.param.msg })

@[simps!] def readColumn (s : Threads) (D : Utf8Decoder) (a : Nat) (h : Handler) (f : Activation)
    (name : String) (rest : List String) : Threads :=
  s.setLoop (.building a { h with result := h.result ++ [column D f.msg name], rest })

@[simps!] def callListener (s : Threads) (a : Nat) (h : Handler) (o : ConsumerAck)
    (registered : Bool) : Threads :=
  ((s.setAck h.ack { o with held := registered }).setLoop (.listening a h.ack)).emit
    (.listener h.call h.consumer h.result h.ack)

@[simps!] def close (s : Threads) (a : Nat) (h : UvAsync) : Threads :=
  (s.setHandle a (some { h with phase := .closing })).setLoop .idle

@[simps!] def lockAck (s : Threads) (q : Acking) (f : Activation) (inner : ConsumerAckInner.State) :
    Threads :=
  (s.setFrame q.inner (some { f with inner })).setAcking (some { q with point := .inside })

def answers (q : Acking) (o : ConsumerAck) (f : Activation) : List Effect :=
  match ConsumerAckInner.completes f.inner .ack with
  | [] => []
  | _ => [.done o.call q.ack q.args]

@[simps!] def ack (s : Threads) (q : Acking) (o : ConsumerAck) (f : Activation)
    (inner : ConsumerAckInner.State) : Threads :=
  ((s.setFrame q.inner (some { f with inner })).setAcking
    (some { q with point := if inner.mutex = .free then .forget else .inside })).log (answers q o f)

@[simps!] def forget (s : Threads) (q : Acking) (o : ConsumerAck) : Threads :=
  (s.setAck q.ack { o with inner := none }).setAcking none

def pins (s : Threads) (k : Nat) : Bool :=
  match s.loop with
  | .idle => false
  | .building _ h => h.ack = k
  | .listening _ ack => ack = k
  | .leaving _ ack => ack = k

def runsJs (s : Threads) : Bool :=
  s.acking.isNone && match s.loop with
    | .idle => true
    | .listening _ _ => true
    | _ => false

/-- `wait` is a statement of `WaitResult`, `closed` is `close_async_done`, and `ackLock`, `ack`
and `forget` are the statements of `Ack`. -/
inductive Event
  | construct (consumerPtr : Nat)
  | onMessage (x consumerPtr : Nat) (msg : CMessageExt)
  | malloc (x a : Nat)
  | advance (x : Nat)
  | wait (x : Nat) (e : ConsumerAckInner.Event)
  | leave (x : Nat)
  | dispatch (a k : Nat)
  | readColumn
  | callListener (registered : Bool)
  | listenerEnd
  | close
  | closed (a : Nat)
  | done (k : Nat) (args : List Js.JsValue)
  | ackLock
  | ack
  | forget
  | drop (k : Nat)
  | finalize (k : Nat)

def ofWaitResult : ConsumerAckInner.Event → Bool
  | .ackLock _ | .ack => false
  | .waitLock | .wait | .wake | .relock => true

def step (D : Utf8Decoder) (s : Threads) : Event → Option Threads
  | .construct consumerPtr =>
    match s.registry consumerPtr with
    | some (some _) => none
    | _ => if s.runsJs then some (s.construct consumerPtr) else none
  | .onMessage x consumerPtr msg =>
    if (s.frames x).isNone then some (s.onMessage x consumerPtr msg) else none
  | .malloc x a => do
    let f ← s.frames x
    if f.point = .malloc ∧ (s.handles a).isNone then some (s.malloc x a f) else none
  | .advance x => do
    let f ← s.frames x
    s.advance x f
  | .wait x e => do
    let f ← s.frames x
    if f.point = .waitResult ∧ ofWaitResult e then
      (ConsumerAckInner.step f.inner e).map (s.wait x f)
    else none
  | .leave x => do
    let f ← s.frames x
    match f.inner.waiter with
    | .returned _ => some (s.setFrame x none)
    | _ => none
  | .dispatch a k => do
    let h ← s.handles a
    let f ← s.frames (← h.data)
    match s.loop with
    | .idle =>
      if h.phase = .pending ∧ s.acking.isNone ∧ (s.acks k).isNone then
        some (s.dispatch a k h f)
      else none
    | _ => none
  | .readColumn =>
    match s.loop with
    | .building a h => do
      let f ← s.frames h.msg
      match h.rest with
      | name :: rest => some (s.readColumn D a h f name rest)
      | [] => none
    | _ => none
  | .callListener registered =>
    match s.loop with
    | .building a h => do
      let o ← s.acks h.ack
      if h.rest = [] then some (s.callListener a h o registered) else none
    | _ => none
  | .listenerEnd =>
    match s.loop with
    | .listening a k => if s.acking.isNone then some (s.setLoop (.leaving a k)) else none
    | _ => none
  | .close =>
    match s.loop with
    | .leaving a _ => (s.handles a).map (s.close a)
    | _ => none
  | .closed a => do
    let h ← s.handles a
    match s.loop with
    | .idle => if h.phase = .closing ∧ s.acking.isNone then some (s.setHandle a none) else none
    | _ => none
  | .done k args => do
    let o ← s.acks k
    if o.held ∧ s.runsJs then
      match o.inner with
      | none => some (s.emit (.done o.call k args))
      | some x => some (s.setAcking (some { ack := k, inner := x, args }))
    else none
  | .ackLock => do
    let q ← s.acking
    let f ← s.frames q.inner
    if q.point = .call then
      (ConsumerAckInner.step f.inner (.ackLock (decision q.args))).map (s.lockAck q f)
    else none
  | .ack => do
    let q ← s.acking
    let o ← s.acks q.ack
    let f ← s.frames q.inner
    if q.point = .inside then (ConsumerAckInner.step f.inner .ack).map (s.ack q o f) else none
  | .forget => do
    let q ← s.acking
    let o ← s.acks q.ack
    if q.point = .forget then some (s.forget q o) else none
  | .drop k => do
    let o ← s.acks k
    if o.held ∧ s.acking.isNone then some (s.setAck k { o with held := false }) else none
  | .finalize k => do
    let o ← s.acks k
    if o.held = false ∧ o.finalized = false ∧ s.pins k = false ∧ s.acking.isNone then
      some (s.setAck k { o with inner := none, finalized := true })
    else none

inductive Transition (D : Utf8Decoder) (s : Threads) : Event → Threads → Prop
  | construct : (∀ n, s.registry consumerPtr ≠ some (some n)) → s.runsJs = true →
      Transition D s (.construct consumerPtr) (s.construct consumerPtr)
  | refused : s.frames x = none → s.registry.lookup consumerPtr = (map, none) →
      Transition D s (.onMessage x consumerPtr msg) (s.refuse map consumerPtr)
  | entered : s.frames x = none → s.registry.lookup consumerPtr = (map, some consumer) →
      Transition D s (.onMessage x consumerPtr msg) (s.enter map x consumerPtr consumer msg)
  | malloc : s.frames x = some f → f.point = .malloc → s.handles a = none →
      Transition D s (.malloc x a) (s.malloc x a f)
  | init : s.frames x = some f → f.point = .init a → s.handles a = some h →
      Transition D s (.advance x) (s.init x a f h)
  | data : s.frames x = some f → f.point = .data a → s.handles a = some h →
      Transition D s (.advance x) (s.data x a f h)
  | send : s.frames x = some f → f.point = .send a → s.handles a = some h →
      Transition D s (.advance x) (s.send x a f h)
  | wait : s.frames x = some f → f.point = .waitResult → ofWaitResult e = true →
      ConsumerAckInner.Transition f.inner e next → Transition D s (.wait x e) (s.wait x f next)
  | left : s.frames x = some f → f.inner.waiter = .returned r →
      Transition D s (.leave x) (s.setFrame x none)
  | dispatched : s.handles a = some h → h.data = some x → s.frames x = some f → s.loop = .idle →
      h.phase = .pending → s.acking = none → s.acks k = none →
      Transition D s (.dispatch a k) (s.dispatch a k h f)
  | column : s.loop = .building a h → s.frames h.msg = some f → h.rest = name :: rest →
      Transition D s .readColumn (s.readColumn D a h f name rest)
  | listener : s.loop = .building a h → h.rest = [] → s.acks h.ack = some o →
      Transition D s (.callListener registered) (s.callListener a h o registered)
  | listenerEnd : s.loop = .listening a k → s.acking = none →
      Transition D s .listenerEnd (s.setLoop (.leaving a k))
  | close : s.loop = .leaving a k → s.handles a = some h → Transition D s .close (s.close a h)
  | closed : s.handles a = some h → s.loop = .idle → h.phase = .closing → s.acking = none →
      Transition D s (.closed a) (s.setHandle a none)
  | doneAgain : s.acks k = some o → o.held = true → s.runsJs = true → o.inner = none →
      Transition D s (.done k args) (s.emit (.done o.call k args))
  | done : s.acks k = some o → o.held = true → s.runsJs = true → o.inner = some x →
      Transition D s (.done k args) (s.setAcking (some { ack := k, inner := x, args }))
  | ackLock : s.acking = some q → s.frames q.inner = some f → q.point = .call →
      ConsumerAckInner.Transition f.inner (.ackLock (decision q.args)) next →
      Transition D s .ackLock (s.lockAck q f next)
  | ack : s.acking = some q → s.acks q.ack = some o → s.frames q.inner = some f →
      q.point = .inside → ConsumerAckInner.Transition f.inner .ack next →
      Transition D s .ack (s.ack q o f next)
  | forget : s.acking = some q → s.acks q.ack = some o → q.point = .forget →
      Transition D s .forget (s.forget q o)
  | dropped : s.acks k = some o → o.held = true → s.acking = none →
      Transition D s (.drop k) (s.setAck k { o with held := false })
  | finalized : s.acks k = some o → o.held = false → o.finalized = false → s.pins k = false →
      s.acking = none →
      Transition D s (.finalize k) (s.setAck k { o with inner := none, finalized := true })

theorem advance_cases {D : Utf8Decoder} {s t : Threads} {x : Nat} {f : Activation}
    (hf : s.frames x = some f) (h : s.advance x f = some t) : Transition D s (.advance x) t := by
  unfold advance at h
  split at h
  · next a hp =>
    obtain ⟨u, hu, rfl⟩ := Option.map_eq_some_iff.mp h
    exact .init hf hp hu
  · next a hp =>
    obtain ⟨u, hu, rfl⟩ := Option.map_eq_some_iff.mp h
    exact .data hf hp hu
  · next a hp =>
    obtain ⟨u, hu, rfl⟩ := Option.map_eq_some_iff.mp h
    exact .send hf hp hu
  · cases h

theorem step_cases {D : Utf8Decoder} {s t : Threads} {e : Event} (h : step D s e = some t) :
    Transition D s e t := by
  cases e with
  | construct consumerPtr =>
    simp only [step] at h
    split at h
    · cases h
    · next hnew =>
      split_ifs at h with hjs
      cases h
      exact .construct hnew hjs
  | onMessage x consumerPtr msg =>
    simp only [step] at h
    split_ifs at h with hx
    cases h
    unfold onMessage
    split
    · exact .refused (by simpa using hx) ‹_›
    · exact .entered (by simpa using hx) ‹_›
  | malloc x a =>
    obtain ⟨f, hf, h⟩ := Option.bind_eq_some_iff.mp h
    split_ifs at h with hguard
    cases h
    exact .malloc hf hguard.1 (by simpa using hguard.2)
  | advance x =>
    obtain ⟨f, hf, h⟩ := Option.bind_eq_some_iff.mp h
    exact advance_cases hf h
  | wait x e =>
    obtain ⟨f, hf, h⟩ := Option.bind_eq_some_iff.mp h
    split_ifs at h with hguard
    obtain ⟨inner, hinner, rfl⟩ := Option.map_eq_some_iff.mp h
    exact .wait hf hguard.1 hguard.2 (ConsumerAckInner.step_cases hinner)
  | leave x =>
    obtain ⟨f, hf, h⟩ := Option.bind_eq_some_iff.mp h
    split at h
    · next r hr =>
      cases h
      exact .left hf hr
    · cases h
  | dispatch a k =>
    obtain ⟨u, hu, h⟩ := Option.bind_eq_some_iff.mp h
    obtain ⟨x, hx, h⟩ := Option.bind_eq_some_iff.mp h
    obtain ⟨f, hf, h⟩ := Option.bind_eq_some_iff.mp h
    split at h
    · next hidle =>
      split_ifs at h with hguard
      cases h
      exact .dispatched hu hx hf hidle hguard.1 (by simpa using hguard.2.1) (by simpa using hguard.2.2)
    · cases h
  | readColumn =>
    simp only [step] at h
    split at h
    · next a hd hloop =>
      obtain ⟨f, hf, h⟩ := Option.bind_eq_some_iff.mp h
      split at h
      · next name rest hrest =>
        cases h
        exact .column hloop hf hrest
      · cases h
    · cases h
  | callListener registered =>
    simp only [step] at h
    split at h
    · next a hd hloop =>
      obtain ⟨o, ho, h⟩ := Option.bind_eq_some_iff.mp h
      split_ifs at h with hrest
      cases h
      exact .listener hloop hrest ho
    · cases h
  | listenerEnd =>
    simp only [step] at h
    split at h
    · next a k hloop =>
      split_ifs at h with hack
      cases h
      exact .listenerEnd hloop (by simpa using hack)
    · cases h
  | close =>
    simp only [step] at h
    split at h
    · next a k hloop =>
      obtain ⟨u, hu, rfl⟩ := Option.map_eq_some_iff.mp h
      exact .close hloop hu
    · cases h
  | closed a =>
    obtain ⟨u, hu, h⟩ := Option.bind_eq_some_iff.mp h
    split at h
    · next hidle =>
      split_ifs at h with hguard
      cases h
      exact .closed hu hidle hguard.1 (by simpa using hguard.2)
    · cases h
  | done k args =>
    obtain ⟨o, ho, h⟩ := Option.bind_eq_some_iff.mp h
    split_ifs at h with hguard
    split at h
    · next hinner =>
      cases h
      exact .doneAgain ho hguard.1 hguard.2 hinner
    · next x hinner =>
      cases h
      exact .done ho hguard.1 hguard.2 hinner
  | ackLock =>
    obtain ⟨q, hq, h⟩ := Option.bind_eq_some_iff.mp h
    obtain ⟨f, hf, h⟩ := Option.bind_eq_some_iff.mp h
    split_ifs at h with hp
    obtain ⟨inner, hinner, rfl⟩ := Option.map_eq_some_iff.mp h
    exact .ackLock hq hf hp (ConsumerAckInner.step_cases hinner)
  | ack =>
    obtain ⟨q, hq, h⟩ := Option.bind_eq_some_iff.mp h
    obtain ⟨o, ho, h⟩ := Option.bind_eq_some_iff.mp h
    obtain ⟨f, hf, h⟩ := Option.bind_eq_some_iff.mp h
    split_ifs at h with hp
    obtain ⟨inner, hinner, rfl⟩ := Option.map_eq_some_iff.mp h
    exact .ack hq ho hf hp (ConsumerAckInner.step_cases hinner)
  | forget =>
    obtain ⟨q, hq, h⟩ := Option.bind_eq_some_iff.mp h
    obtain ⟨o, ho, h⟩ := Option.bind_eq_some_iff.mp h
    split_ifs at h with hp
    cases h
    exact .forget hq ho hp
  | drop k =>
    obtain ⟨o, ho, h⟩ := Option.bind_eq_some_iff.mp h
    split_ifs at h with hguard
    cases h
    exact .dropped ho hguard.1 (by simpa using hguard.2)
  | finalize k =>
    obtain ⟨o, ho, h⟩ := Option.bind_eq_some_iff.mp h
    split_ifs at h with hguard
    cases h
    exact .finalized ho hguard.1 hguard.2.1 hguard.2.2.1 (by simpa using hguard.2.2.2)

end Threads

def threads (D : Utf8Decoder) : Machine Threads Threads.Event where
  init := {}
  step := Threads.step D

theorem Threads.Transition.enabled {D : Utf8Decoder} {s t : Threads} {e : Threads.Event}
    (h : Threads.Transition D s e t) : (threads D).step s e = some t := by
  cases h with
  | construct hnew hjs =>
    simp only [threads, Threads.step]
    exact if_pos hjs
  | refused hx hl => simp [threads, Threads.step, hx, Threads.onMessage, hl]
  | entered hx hl => simp [threads, Threads.step, hx, Threads.onMessage, hl]
  | malloc hf hp ha => simp [threads, Threads.step, hf, hp, ha]
  | init hf hp ha => simp [threads, Threads.step, hf, Threads.advance, hp, ha]
  | data hf hp ha => simp [threads, Threads.step, hf, Threads.advance, hp, ha]
  | send hf hp ha => simp [threads, Threads.step, hf, Threads.advance, hp, ha]
  | wait hf hp he hst =>
    have hinner := hst.enabled
    simp only [ConsumerAckInner.machine] at hinner
    simp [threads, Threads.step, hf, hp, he, hinner]
  | left hf hr => simp [threads, Threads.step, hf, hr]
  | dispatched ha hx hf hl hp hq hk => simp [threads, Threads.step, ha, hx, hf, hl, hp, hq, hk]
  | column hl hf hr => simp [threads, Threads.step, hl, hf, hr]
  | listener hl hr ho => simp [threads, Threads.step, hl, hr, ho]
  | listenerEnd hl hq => simp [threads, Threads.step, hl, hq]
  | close hl ha => simp [threads, Threads.step, hl, ha]
  | closed ha hl hp hq => simp [threads, Threads.step, ha, hl, hp, hq]
  | doneAgain ho hheld hjs hx => simp [threads, Threads.step, ho, hheld, hjs, hx]
  | done ho hheld hjs hx => simp [threads, Threads.step, ho, hheld, hjs, hx]
  | ackLock hq hf hp hst =>
    have hinner := hst.enabled
    simp only [ConsumerAckInner.machine] at hinner
    simp [threads, Threads.step, hq, hf, hp, hinner]
  | ack hq ho hf hp hst =>
    have hinner := hst.enabled
    simp only [ConsumerAckInner.machine] at hinner
    simp [threads, Threads.step, hq, ho, hf, hp, hinner]
  | forget hq ho hp => simp [threads, Threads.step, hq, ho, hp]
  | dropped ho hheld hq => simp [threads, Threads.step, ho, hheld, hq]
  | finalized ho hheld hfin hpins hq => simp [threads, Threads.step, ho, hheld, hfin, hpins, hq]

theorem Threads.Transition.grows {D : Utf8Decoder} {s t : Threads} {e : Threads.Event}
    (h : Threads.Transition D s e t) : s.trace <+: t.trace := by
  cases h with
  | construct | refused | entered | listener | doneAgain => exact List.prefix_append _ _
  | wait | ack => exact List.prefix_append _ _
  | _ => exact List.prefix_rfl

end RocketMQClient.Consume
