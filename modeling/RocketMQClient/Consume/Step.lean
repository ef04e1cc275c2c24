import RocketMQClient.Consume.Delivery

namespace RocketMQClient.Consume

open Library Marshal

theorem Registry.lookup_some {m registry : Registry} {ptr n : Nat}
    (h : m.lookup ptr = (registry, some n)) : registry = m ∧ m ptr = some (some n) := by
  unfold Registry.lookup at h
  split at h
  · cases h
    exact ⟨rfl, ‹_›⟩
  · cases h

theorem Registry.lookup_none {m registry : Registry} {ptr : Nat} (h : m.lookup ptr = (registry, none))
    (p n : Nat) : registry p = some (some n) ↔ m p = some (some n) := by
  unfold Registry.lookup at h
  split at h
  · cases h
    rfl
  · cases h
    rw [Function.update_apply]
    split_ifs <;> simp_all

namespace Delivery

@[simps!] def refuse (s : Delivery) (registry : Registry) (consumerPtr : Nat) : Delivery :=
  (s.enterCall registry).emit (.refused s.nextCall consumerPtr)

@[simps!] def enter (s : Delivery) (registry : Registry) (x consumerPtr consumer : Nat)
    (msg : CMessageExt) : Delivery :=
  ((s.enterCall registry).setFrame x
    (some { call := s.nextCall, param := ⟨consumer, x, x⟩, msg })).emit
    (.onMessage s.nextCall consumerPtr consumer msg)

@[simps!] def block (s : Delivery) (x : Nat) (f : Frame) : Delivery :=
  s.setFrame x (some { f with ackInner := { f.ackInner with waiter := .waiting false } })

@[simps!] def leave (s : Delivery) (x : Nat) (f : Frame) : Delivery :=
  (s.setFrame x none).emit (.returned f.call f.ackInner.status)

@[simps!] def dropAck (s : Delivery) (k : Nat) (o : ConsumerAck) : Delivery :=
  s.setAck k { o with held := false }

@[simps!] def finalizeAck (s : Delivery) (k : Nat) (o : ConsumerAck) : Delivery :=
  s.setAck k { o with inner := none, finalized := true }

end Delivery

inductive Transition (D : Utf8Decoder) (s : Delivery) : Event → Delivery → Prop
  | construct : (∀ n, s.registry consumerPtr ≠ some (some n)) →
      Transition D s (.construct consumerPtr) (s.construct consumerPtr)
  | refused : s.frames x = none → s.registry.lookup consumerPtr = (registry, none) →
      Transition D s (.onMessage x consumerPtr msg) (s.refuse registry consumerPtr)
  | entered : s.frames x = none → s.registry.lookup consumerPtr = (registry, some consumer) →
      Transition D s (.onMessage x consumerPtr msg) (s.enter registry x consumerPtr consumer msg)
  | sent : s.frames x = some f → f.sent = false → s.pending a = none →
      Transition D s (.send x a) (s.send x a f)
  | blocked : s.frames x = some f → f.sent = true → f.ackInner.waiter = .entry →
      f.ackInner.acked = false → Transition D s (.wait x) (s.block x f)
  | waited : s.frames x = some f → f.sent = true → f.ackInner.waiter = .entry →
      f.ackInner.acked = true → Transition D s (.wait x) (s.leave x f)
  | woken : s.frames x = some f → f.ackInner.waiter = .waiting b →
      Transition D s (.wake x) (s.leave x f)
  | dispatched : s.pending a = some async → s.frames async.data = some f → s.loop = .idle →
      s.acks k = none → Transition D s (.dispatch a k) (s.dispatch a k async f)
  | column : s.loop = .building h → s.frames h.msg = some f → h.rest = name :: rest →
      Transition D s .readColumn (s.readColumn D h f name rest)
  | listener : s.loop = .building h → h.rest = [] → s.acks h.ack = some o →
      Transition D s (.callListener registered) (s.callListener h o registered)
  | listenerEnd : s.loop = .listening k → Transition D s .listenerEnd (s.setLoop .idle)
  | doneAgain : s.acks k = some o → o.held = true → s.runsJs = true → o.inner = none →
      Transition D s (.done k args) (s.doneAgain k o args)
  | done : s.acks k = some o → o.held = true → s.runsJs = true → o.inner = some x →
      s.frames x = some f → Transition D s (.done k args) (s.done k x o f args)
  | dropped : s.acks k = some o → o.held = true → Transition D s (.drop k) (s.dropAck k o)
  | finalized : s.acks k = some o → o.held = false → o.finalized = false → s.pins k = false →
      Transition D s (.finalize k) (s.finalizeAck k o)

theorem resume_waitResult {s : Delivery} {x : Nat} {f : Frame} {inner : ConsumerAckInner}
    (h : f.ackInner.waitResult = some inner) :
    f.ackInner.waiter = .entry ∧
      (f.ackInner.acked = false ∧ s.resume x f inner = s.block x f ∨
        f.ackInner.acked = true ∧ s.resume x f inner = s.leave x f) := by
  unfold ConsumerAckInner.waitResult at h
  split at h
  · next hentry =>
    split_ifs at h with ha
    · cases h
      exact ⟨hentry, .inr ⟨ha, rfl⟩⟩
    · cases h
      exact ⟨hentry, .inl ⟨by simpa using ha, rfl⟩⟩
  · cases h

theorem resume_wake {s : Delivery} {x : Nat} {f : Frame} {inner : ConsumerAckInner}
    (h : f.ackInner.wake = some inner) :
    (∃ b, f.ackInner.waiter = .waiting b) ∧ s.resume x f inner = s.leave x f := by
  unfold ConsumerAckInner.wake at h
  split at h
  · next b hb =>
    cases h
    exact ⟨⟨b, hb⟩, rfl⟩
  · cases h

theorem step_cases {D : Utf8Decoder} {s t : Delivery} {e : Event} (h : step D s e = some t) :
    Transition D s e t := by
  cases e with
  | construct consumerPtr =>
    simp only [step] at h
    split at h
    · cases h
    · next hnew =>
      cases h
      exact .construct hnew
  | onMessage x consumerPtr msg =>
    simp only [step] at h
    split_ifs at h with hx
    cases h
    unfold Delivery.onMessage
    split
    · exact .refused (by simpa using hx) ‹_›
    · exact .entered (by simpa using hx) ‹_›
  | send x a =>
    obtain ⟨f, hf, h⟩ := Option.bind_eq_some_iff.mp h
    split_ifs at h with hguard
    cases h
    exact .sent hf hguard.1 (by simpa using hguard.2)
  | wait x =>
    obtain ⟨f, hf, h⟩ := Option.bind_eq_some_iff.mp h
    split_ifs at h with hsent
    obtain ⟨inner, hinner, rfl⟩ := Option.map_eq_some_iff.mp h
    obtain ⟨hentry, ⟨ha, hr⟩ | ⟨ha, hr⟩⟩ := resume_waitResult (s := s) (x := x) hinner
    · rw [hr]
      exact .blocked hf hsent hentry ha
    · rw [hr]
      exact .waited hf hsent hentry ha
  | wake x =>
    obtain ⟨f, hf, h⟩ := Option.bind_eq_some_iff.mp h
    obtain ⟨inner, hinner, rfl⟩ := Option.map_eq_some_iff.mp h
    obtain ⟨⟨b, hb⟩, hr⟩ := resume_wake (s := s) (x := x) hinner
    rw [hr]
    exact .woken hf hb
  | dispatch a k =>
    obtain ⟨async, hasync, h⟩ := Option.bind_eq_some_iff.mp h
    obtain ⟨f, hf, h⟩ := Option.bind_eq_some_iff.mp h
    split at h
    · next hidle =>
      split_ifs at h with hk
      cases h
      exact .dispatched hasync hf hidle (by simpa using hk)
    · cases h
  | readColumn =>
    simp only [step] at h
    split at h
    · next hd hloop =>
      obtain ⟨f, hf, h⟩ := Option.bind_eq_some_iff.mp h
      split at h
      · next name rest hrest =>
        cases h
        exact .column hloop hf hrest
      · cases h
    · cases h
  | callListener registered =>
    simp only [step] at h
    split at h
    · next hd hloop =>
      obtain ⟨o, ho, h⟩ := Option.bind_eq_some_iff.mp h
      split_ifs at h with hrest
      cases h
      exact .listener hloop hrest ho
    · cases h
  | listenerEnd =>
    simp only [step] at h
    split at h
    · next k hloop =>
      cases h
      exact .listenerEnd hloop
    · cases h
  | done k args =>
    obtain ⟨o, ho, h⟩ := Option.bind_eq_some_iff.mp h
    split_ifs at h with hguard
    split at h
    · next hinner =>
      cases h
      exact .doneAgain ho hguard.1 hguard.2 hinner
    · next x hinner =>
      obtain ⟨f, hf, rfl⟩ := Option.map_eq_some_iff.mp h
      exact .done ho hguard.1 hguard.2 hinner hf
  | drop k =>
    obtain ⟨o, ho, h⟩ := Option.bind_eq_some_iff.mp h
    split_ifs at h with hheld
    cases h
    exact .dropped ho hheld
  | finalize k =>
    obtain ⟨o, ho, h⟩ := Option.bind_eq_some_iff.mp h
    split_ifs at h with hguard
    cases h
    exact .finalized ho hguard.1 hguard.2.1 hguard.2.2

theorem Transition.enabled {D : Utf8Decoder} {s t : Delivery} {e : Event}
    (h : Transition D s e t) : (delivery D).step s e = some t := by
  cases h with
  | construct hnew =>
    simp only [delivery, step]
  | refused hx hl => simp [delivery, step, hx, Delivery.onMessage, hl, Delivery.refuse]
  | entered hx hl => simp [delivery, step, hx, Delivery.onMessage, hl, Delivery.enter]
  | sent hf hs ha => simp [delivery, step, hf, hs, ha]
  | blocked hf hs hw ha =>
    simp [delivery, step, hf, hs, ConsumerAckInner.waitResult, hw, ha, Delivery.resume,
      Delivery.block]
  | waited hf hs hw ha =>
    simp [delivery, step, hf, hs, ConsumerAckInner.waitResult, hw, ha, Delivery.resume,
      Delivery.leave]
  | woken hf hw =>
    simp [delivery, step, hf, ConsumerAckInner.wake, hw, Delivery.resume, Delivery.leave]
  | dispatched ha hf hl hk => simp [delivery, step, ha, hf, hl, hk]
  | column hl hf hr => simp [delivery, step, hl, hf, hr]
  | listener hl hr ho => simp [delivery, step, hl, hr, ho]
  | listenerEnd hl => simp [delivery, step, hl]
  | doneAgain ho hheld hjs hx => simp [delivery, step, ho, hheld, hjs, hx]
  | done ho hheld hjs hx hf => simp [delivery, step, ho, hheld, hjs, hx, hf]
  | dropped ho hheld => simp [delivery, step, ho, hheld, Delivery.dropAck]
  | finalized ho hheld hfin hpins =>
    simp [delivery, step, ho, hheld, hfin, hpins, Delivery.finalizeAck]

end RocketMQClient.Consume
