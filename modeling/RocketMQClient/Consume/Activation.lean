import RocketMQClient.Consume.Tracking

namespace RocketMQClient.Consume

open Library Marshal

inductive Touches (s : Delivery) : Event → Nat → Nat → Prop
  | param : s.pending a = some async → Touches s (.dispatch a k) async.data async.call
  | msg : s.loop = .building h → Touches s .readColumn h.msg h.call
  | inner : s.acks k = some o → o.inner = some x → Touches s (.done k args) x o.call

def TouchesRunning (s : Delivery) (e : Event) : Prop :=
  ∀ x c, Touches s e x c → ∃ f, s.frames x = some f ∧ f.call = c

def AcksRunning (s : Delivery) : Prop :=
  ∀ k o x, s.acks k = some o → o.inner = some x →
    ∃ f, s.frames x = some f ∧ f.call = o.call ∧ f.ackInner.acked = false

def WakeSignalled (s : Delivery) : Event → Prop
  | .wake x => ∀ f, s.frames x = some f → f.ackInner.waiter ≠ .waiting false
  | _ => True

instance (s : Delivery) : (e : Event) → Decidable (WakeSignalled s e)
  | .wake x => inferInstanceAs (Decidable (∀ f ∈ s.frames x, f.ackInner.waiter ≠ .waiting false))
  | .construct _ | .onMessage _ _ _ | .send _ _ | .wait _ | .dispatch _ _ | .readColumn
  | .callListener _ | .listenerEnd | .done _ _ | .drop _ | .finalize _ => isTrue trivial

section Tracked

variable {D : Utf8Decoder} {s t : Delivery} {e : Event}

theorem Tracked.touchesRunning (h : Tracked D s) : TouchesRunning s e := by
  intro x c htouch
  cases htouch with
  | param ha =>
    obtain ⟨f, hf, hat, -⟩ := h.of_pending ha
    exact ⟨f, hf, hat.call⟩
  | msg hl =>
    obtain ⟨f, -, hf, hat, -⟩ := h.of_handler hl
    exact ⟨f, hf, hat.call⟩
  | inner ho hx =>
    obtain ⟨f, hf, hat, -⟩ := h.of_bound ho hx
    exact ⟨f, hf, hat.call⟩

theorem Tracked.acksRunning (h : Tracked D s) : AcksRunning s := by
  intro k o x ho hx
  obtain ⟨f, hf, hat, hi, -⟩ := h.of_bound ho hx
  exact ⟨f, hf, hat.call, hi.acked⟩

theorem Tracked.wake (h : Tracked D s) (hP : WakeSignalled s e) (hst : Transition D s e t) :
    Tracked D t := by
  cases e with
  | wake x =>
    cases hst with
    | @woken _ f b hf hw =>
      refine h.left hf ?_
      cases b with
      | false => exact absurd hw (hP f hf)
      | true =>
        -- only an `Ack` signals, and it sets `acked` first
        obtain ⟨-, hi | ⟨r, hi⟩⟩ := h.of_frame hf
        · cases hi.signalled true hw
        · exact hi.acked
  | _ =>
    refine h.step ?_ hst
    trivial

end Tracked

/-- As long as `uv_cond_wait` returns only after a signal, nothing touches an activation
that has returned. -/
theorem touchesRunning_of_wakeSignalled (D : Utf8Decoder) {es : List Event}
    (h : (delivery D).Along WakeSignalled (delivery D).init es) :
    (delivery D).Along TouchesRunning (delivery D).init es ∧
      (delivery D).Throughout AcksRunning (delivery D).init es := by
  have hstep : ∀ s e t, Tracked D s → WakeSignalled s e → (delivery D).step s e = some t →
      Tracked D t := fun s e t hs hP hst => hs.wake hP (step_cases hst)
  constructor
  · exact h.along (fun s e hs _ => hs.touchesRunning) hstep (.init D)
  · exact h.throughout (fun s hs => hs.acksRunning) hstep (.init D)

theorem touchesRunning_oneMessage :
    (delivery replacing).Along TouchesRunning (delivery replacing).init oneMessage ∧
      (delivery replacing).Throughout AcksRunning (delivery replacing).init oneMessage :=
  touchesRunning_of_wakeSignalled replacing (by decide)

end RocketMQClient.Consume
