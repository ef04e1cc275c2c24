import RocketMQClient.Consume.ConsumerAckInner

namespace RocketMQClient.Consume.ConsumerAckInner

open Library

variable {s t : State}

/-- A waiter that sleeps although `acked` is set is signalled by the next statement of
the holder of the mutex. -/
def Attended (s : State) : Prop :=
  s.acked = true → s.waiter = .waiting → ∃ status, s.mutex = .ack status .signal

theorem Attended.init : Attended {} := by simp [Attended]

theorem Attended.not_waiting (h : Attended s) (ha : s.acked = true)
    (hm : ∀ status, s.mutex ≠ .ack status .signal) : s.waiter ≠ .waiting := by
  intro hw
  obtain ⟨status, hstatus⟩ := h ha hw
  exact hm status hstatus

theorem Attended.ack (h : Attended s) {status : CConsumeStatus} {point : AckPoint}
    (hm : s.mutex = .ack status point) : Attended (ackStep s status point) := by
  intro ha hw
  cases point with
  | check =>
    rw [ackStep] at ha hw ⊢
    split at hw
    · next hacked => exact absurd hw (h.not_waiting hacked (by simp [hm]))
    · next hacked =>
      rw [if_neg hacked] at ha
      exact absurd ha hacked
  | setAcked => exact ⟨status, rfl⟩
  | signal =>
    rw [ackStep] at hw
    split at hw
    · cases hw
    · exact absurd hw ‹_›
  | unlock => exact absurd hw (h.not_waiting ha (by simp [hm]))

theorem Attended.wait (h : Attended s) {point : WaitPoint} (hm : s.mutex = .wait point) :
    Attended (waitStep s point) := by
  intro ha hw
  cases point with
  | check =>
    rw [waitStep] at ha hw
    split at hw
    · next hacked => exact absurd hw (h.not_waiting hacked (by simp [hm]))
    · next hacked =>
      rw [if_neg hacked] at ha
      exact absurd ha hacked
  | found => cases hw
  | reacquired => cases hw

theorem Attended.step {e : Event} (h : Attended s) (hst : machine.step s e = some t) :
    Attended t := by
  cases step_cases hst with
  | ackLock status hfree => exact fun ha hw => absurd hw (h.not_waiting ha (by simp [hfree]))
  | ack hm => exact h.ack hm
  | wait hm => exact h.wait hm
  | waitLock | wake | relock => exact fun _ hw => by cases hw

theorem reachable_attended (h : machine.Reachable s) : Attended s :=
  h.invariant Attended.init fun _ _ _ hs hst => hs.step hst

theorem reachable_firstWins (h : machine.Reachable s) : FirstWins s :=
  h.invariant FirstWins.init fun _ _ _ hs hst => hs.step hst

theorem latch_exec (ha : s.acked = true) {es : List Event} (h : machine.exec s es = some t) :
    t.acked = true ∧ t.status = s.status := by
  refine Machine.exec_invariant (I := fun t => t.acked = true ∧ t.status = s.status)
    (fun u e v hu huv => ?_) ⟨ha, rfl⟩ h
  obtain ⟨hacked, hstatus⟩ := latch hu.1 huv
  exact ⟨hacked, hstatus.trans hu.2⟩

/-- Once `acked` is set, the status is that of the first `Ack` for good, and a waiter that
still sleeps is woken by the next statement under the mutex. -/
theorem acked_first_and_attended (h : machine.Reachable s) (ha : s.acked = true) :
    (s.waiter = .waiting → ∃ status, s.mutex = .ack status .signal ∧
        (machine.step s .ack).map State.waiter = some .woken) ∧
      ∃ first, s.order.head? = some first ∧
        ∀ es t, machine.exec s es = some t → t.acked = true ∧ t.status = some first := by
  refine ⟨fun hw => ?_, ?_⟩
  · obtain ⟨status, hm⟩ := reachable_attended h ha hw
    exact ⟨status, hm, by simp [machine, step, hm, ackStep, hw]⟩
  · obtain ⟨first, hstatus, hhead⟩ := (reachable_firstWins h).value ha
    refine ⟨first, hhead, fun es t ht => ?_⟩
    obtain ⟨hacked, hsame⟩ := latch_exec ha ht
    exact ⟨hacked, hsame.trans hstatus⟩

theorem acked_first_and_attended_pending :
    (Waiter.waiting = .waiting → ∃ status,
        Mutex.ack .reconsumeLater .signal = .ack status .signal ∧
          (machine.step
            { acked := true, status := some .reconsumeLater,
              mutex := .ack .reconsumeLater .signal, waiter := .waiting,
              order := [.reconsumeLater] } .ack).map State.waiter = some .woken) ∧
      ∃ first, [CConsumeStatus.reconsumeLater].head? = some first ∧
        ∀ es t, machine.exec
            { acked := true, status := some .reconsumeLater,
              mutex := .ack .reconsumeLater .signal, waiter := .waiting,
              order := [.reconsumeLater] } es = some t →
          t.acked = true ∧ t.status = some first :=
  acked_first_and_attended ⟨[.waitLock, .wait, .ackLock .reconsumeLater, .ack, .ack], rfl⟩ rfl

theorem acked_before_signal :
    ∃ s, machine.exec machine.init
        [.waitLock, .wait, .ackLock .consumeSuccess, .ack, .ack] = some s ∧
      s.acked = true ∧ s.waiter = .waiting :=
  ⟨_, rfl, rfl, rfl⟩

theorem signal_ne_unsignalled (w : WaitState) : w.signal ≠ .waiting false := by
  cases w <;> simp [WaitState.signal]

theorem sections_signalled {inner : ConsumerAckInner} (h : sections.Reachable inner)
    (ha : inner.acked = true) : inner.waiter ≠ .waiting false := by
  refine h.invariant (I := fun inner => inner.acked = true → inner.waiter ≠ .waiting false)
    (by simp [sections]) ?_ ha
  intro i e j hi hij hj
  cases e with
  | ack status =>
    cases hij
    by_cases hacked : i.acked = true
    · rw [ConsumerAckInner.ack, if_pos hacked]
      exact hi hacked
    · rw [ConsumerAckInner.ack, if_neg hacked]
      exact signal_ne_unsignalled i.waiter
  | waitResult =>
    simp only [sections, waitResult] at hij
    split at hij
    · split_ifs at hij with hacked
      · cases hij
        simp
      · cases hij
        exact absurd hj hacked
    · cases hij
  | wake =>
    simp only [sections, wake] at hij
    split at hij
    · cases hij
      simp
    · cases hij

end RocketMQClient.Consume.ConsumerAckInner
