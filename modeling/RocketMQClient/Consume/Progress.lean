import RocketMQClient.Consume.Lifetimes
import RocketMQClient.Consume.Wakeup
import RocketMQClient.Library.Fairness

namespace RocketMQClient.Consume

open Library Marshal

namespace ConsumerAckInner

variable {s : State}

theorem reachable_inside (h : machine.Reachable s) (hw : s.waiter = .inside) :
    ∃ point, s.mutex = .wait point := by
  refine h.invariant (I := fun s => s.waiter = .inside → ∃ point, s.mutex = .wait point)
    (by simp [machine]) ?_ hw
  intro s e t hs hst ht
  cases step_cases hst with
  | ackLock _ hfree =>
    obtain ⟨point, hm⟩ := hs ht
    cases hfree.symm.trans hm
  | @ack status point hm =>
    have hinside : s.waiter = .inside := by
      cases point with
      | check =>
        rw [ackStep] at ht
        split at ht <;> exact ht
      | signal =>
        rw [ackStep] at ht
        split at ht
        · cases ht
        · exact ht
      | setAcked => exact ht
      | unlock => exact ht
    obtain ⟨point, hm'⟩ := hs hinside
    cases hm.symm.trans hm'
  | waitLock => exact ⟨_, rfl⟩
  | @wait point hm =>
    cases point with
    | check =>
      rw [waitStep] at ht ⊢
      split at ht
      · next ha => exact ⟨.found, by rw [if_pos ha]⟩
      · cases ht
    | found => cases ht
    | reacquired => cases ht
  | wake => cases ht
  | relock => exact ⟨_, rfl⟩

end ConsumerAckInner

namespace Threads

structure Finite (s : Threads) : Prop where
  frames : Heap.Bounded s.frames
  handles : Heap.Bounded s.handles
  acks : Heap.Bounded s.acks

structure Activation.Sound (f : Activation) : Prop where
  reachable : ConsumerAckInner.machine.Reachable f.inner
  early : f.point ≠ .waitResult → ∀ point, f.inner.mutex ≠ .wait point

structure Sound (D : Utf8Decoder) (s : Threads) : Prop where
  simulated : ∃ a, Simulates D s a ∧ Synchronous D a
  accounted : Accounted s
  signalled : AllSignalled s
  activations : ∀ x f, s.frames x = some f → f.Sound
  finite : Finite s

section Sound

variable {D : Utf8Decoder} {s t : Threads} {e : Event} {x : Nat} {f : Activation}

theorem Finite.step (h : Finite s) (hst : Transition D s e t) : Finite t := by
  refine ⟨?_, ?_, ?_⟩
  · cases hst with
    | entered | malloc | init | data | send | wait | left | ackLock | ack => exact h.frames.update _ _
    | _ => exact h.frames
  · cases hst with
    | malloc | init | data | send | dispatched | close | closed => exact h.handles.update _ _
    | _ => exact h.handles
  · cases hst with
    | dispatched | listener | forget | dropped | finalized => exact h.acks.update _ _
    | _ => exact h.acks

theorem Sound.init (D : Utf8Decoder) : Sound D {} where
  simulated := Simulates.init D
  accounted := .init
  signalled _ _ hf := by cases hf
  activations _ _ hf := by cases hf
  finite := ⟨Heap.bounded_empty, Heap.bounded_empty, Heap.bounded_empty⟩

theorem mutex_of_transition {i : ConsumerAckInner.Event} {inner next : ConsumerAckInner.State}
    (hst : ConsumerAckInner.Transition inner i next) (hof : ofWaitResult i ≠ true)
    {point : ConsumerAckInner.WaitPoint} : next.mutex ≠ .wait point := by
  cases hst with
  | ackLock => simp
  | @ack status p hm =>
    cases p with
    | check =>
      rw [ConsumerAckInner.ackStep]
      split <;> simp
    | _ => simp [ConsumerAckInner.ackStep]
  | waitLock | wait | wake | relock => exact absurd rfl hof

theorem Sound.step (h : Sound D s) (he : ¬Spurious e) (hst : Transition D s e t) : Sound D t := by
  obtain ⟨a, hsim, hsync⟩ := h.simulated
  have hP : WokenAcked s e := h.signalled.wokenAcked
  refine ⟨Simulates.keep ⟨a, hsim, hsync⟩ hP hst.enabled,
    h.accounted.step hsim.owned (fun _ _ _ => hsim.related.returned) hst, h.signalled.step he hst, ?_,
    h.finite.step hst⟩
  refine each_step h.activations hst (fun _ _ _ => ⟨.init, by simp⟩)
    (fun f point hf hp => ⟨hf.reachable, fun _ => hf.early hp⟩) ?_
  intro f i inner hf hinner hof
  refine ⟨hf.reachable.step hinner.enabled, fun hp point => mutex_of_transition hinner fun hi => ?_⟩
  exact hp (hof hi).1

end Sound

/-- Who executes a statement: the SDK thread of an activation, the JS thread in the addon, a
listener by its return, or the loop for a handle. -/
inductive Task
  | sdk (x : Nat)
  | js
  | listener
  | handle (a : Nat)
  deriving DecidableEq

def Event.task : Event → Option Task
  | .malloc x _ | .advance x | .leave x => some (.sdk x)
  | .wait x e => if e = .wake then none else some (.sdk x)
  | .readColumn | .callListener _ | .close | .ackLock | .ack | .forget => some .js
  | .listenerEnd => some .listener
  | .dispatch a _ | .closed a => some (.handle a)
  | .construct _ | .onMessage _ _ _ | .done _ _ | .drop _ | .finalize _ => none

theorem Event.task_wait {x : Nat} {i : ConsumerAckInner.Event} {j : Task}
    (h : (Event.wait x i).task = some j) : j = .sdk x := by
  simp only [Event.task] at h
  split_ifs at h
  exact (Option.some.inj h).symm

def holder (x : Nat) : ConsumerAckInner.Mutex → Option Task
  | .free => none
  | .ack _ _ => some .js
  | .wait _ => some (.sdk x)

def ackHelper (s : Threads) : Task :=
  match s.acking with
  | none => .js
  | some q =>
    if q.point = .forget then .js
    else ((s.frames q.inner).bind fun f => holder q.inner f.inner.mutex).getD .js

def waitHelper (s : Threads) (x : Nat) : Task :=
  ((s.frames x).bind fun f => holder x f.inner.mutex).getD (.sdk x)

section Enabled

variable {D : Utf8Decoder} {s t : Threads} {e : Event} {x a k : Nat} {f : Activation} {q : Acking}

abbrev Enabled (D : Utf8Decoder) (i : Task) (s : Threads) : Prop :=
  (threads D).Enabled Event.task i s

theorem Transition.task_enabled {i : Task} (hst : Transition D s e t) (he : e.task = some i) :
    Enabled D i s :=
  ⟨e, t, he, hst.enabled⟩

theorem AckRel.ack {acks : Nat → Option ConsumerAck} (h : AckRel s acks) (hq : s.acking = some q) :
    ∃ o, s.acks q.ack = some o := by
  cases h with
  | outside hq' => cases hq.symm.trans hq'
  | before hq' ho | after hq' ho =>
    cases hq.symm.trans hq'
    exact ⟨_, ho⟩

theorem Sound.running (h : Sound D s) (hq : s.acking = some q) (hp : q.point ≠ .forget) :
    ∃ f, s.frames q.inner = some f ∧ ∀ r, f.inner.waiter ≠ .returned r := by
  obtain ⟨a, hsim, -⟩ := h.simulated
  obtain ⟨o, ho⟩ := hsim.related.acks.ack hq
  cases hpoint : q.point with
  | call =>
    obtain ⟨f, hf, -, hrun⟩ := hsim.touchesRunning (e := .ackLock) _ _ (.lock hq hpoint ho)
    exact ⟨f, hf, hrun⟩
  | inside =>
    obtain ⟨f, hf, -, hrun⟩ := hsim.touchesRunning (e := .ack) _ _ (.inner hq hpoint ho)
    exact ⟨f, hf, hrun⟩
  | forget => exact absurd hpoint hp

theorem Sound.of_locked (h : Sound D s) (hf : s.frames x = some f) {status : CConsumeStatus}
    {point : ConsumerAckInner.AckPoint} (hm : f.inner.mutex = .ack status point) :
    ∃ q, s.acking = some q ∧ q.inner = x ∧ q.point = .inside := by
  obtain ⟨a, hsim, -⟩ := h.simulated
  exact hsim.related.locked x f.call status point ⟨f, hf, rfl, hm⟩

theorem Sound.locked (h : Sound D s) (hq : s.acking = some q) (hp : q.point = .inside) :
    ∃ f status point, s.frames q.inner = some f ∧ f.inner.mutex = .ack status point := by
  obtain ⟨a, hsim, -⟩ := h.simulated
  cases hsim.related.acks with
  | outside hq' => cases hq.symm.trans hq'
  | before hq' _ _ _ _ hl =>
    cases hq.symm.trans hq'
    obtain ⟨point, -, f, hf, -, hm⟩ := hl hp
    exact ⟨f, _, point, hf, hm⟩
  | after hq' _ _ hl =>
    cases hq.symm.trans hq'
    obtain ⟨f, hf, -, hm⟩ := hl hp
    exact ⟨f, _, _, hf, hm⟩

theorem Sound.waitResult_of_wait (h : Sound D s) (hf : s.frames x = some f)
    {point : ConsumerAckInner.WaitPoint} (hm : f.inner.mutex = .wait point) :
    f.point = .waitResult := by
  by_contra hp
  exact (h.activations x f hf).early hp point hm

theorem Sound.enabled_holder (h : Sound D s) (hf : s.frames x = some f) {i : Task}
    (hi : holder x f.inner.mutex = some i) : Enabled D i s := by
  cases hm : f.inner.mutex with
  | free => simp [holder, hm] at hi
  | wait point =>
    obtain rfl : .sdk x = i := by simpa [holder, hm] using hi
    have hst : Transition D s (.wait x .wait) _ := .wait hf (h.waitResult_of_wait hf hm) rfl (.wait hm)
    exact hst.task_enabled rfl
  | ack status point =>
    obtain rfl : Task.js = i := by simpa [holder, hm] using hi
    obtain ⟨q, hq, rfl, hp⟩ := h.of_locked hf hm
    obtain ⟨a, hsim, -⟩ := h.simulated
    obtain ⟨o, ho⟩ := hsim.related.acks.ack hq
    have hst : Transition D s .ack _ := .ack hq ho hf hp (.ack hm)
    exact hst.task_enabled rfl

theorem Sound.enabled_ack (h : Sound D s) (hq : s.acking = some q) :
    Enabled D s.ackHelper s := by
  simp only [ackHelper, hq]
  split_ifs with hp
  · obtain ⟨a, hsim, -⟩ := h.simulated
    obtain ⟨o, ho⟩ := hsim.related.acks.ack hq
    have hst : Transition D s .forget _ := .forget hq ho hp
    exact hst.task_enabled rfl
  · obtain ⟨f, hf, -⟩ := h.running hq hp
    rw [hf, Option.bind_some]
    cases hi : holder q.inner f.inner.mutex with
    | some i => exact h.enabled_holder hf hi
    | none =>
      have hfree : f.inner.mutex = .free := by
        cases hm : f.inner.mutex with
        | free => rfl
        | wait | ack => simp [holder, hm] at hi
      cases hpoint : q.point with
      | forget => exact absurd hpoint hp
      | call =>
        have hst : Transition D s .ackLock _ := .ackLock hq hf hpoint (.ackLock _ hfree)
        exact hst.task_enabled rfl
      | inside =>
        obtain ⟨f', status, point, hf', hm⟩ := h.locked hq hpoint
        cases hf.symm.trans hf'
        cases hfree.symm.trans hm

theorem Sound.enabled_setup (h : Sound D s) (hf : s.frames x = some f) (hp : f.point ≠ .waitResult) :
    Enabled D (.sdk x) s := by
  obtain ⟨a, hsim, -⟩ := h.simulated
  have hun := hsim.owned.unsent x f
  cases hpoint : f.point with
  | waitResult => exact absurd hpoint hp
  | malloc =>
    obtain ⟨n, hn⟩ := h.finite.handles.fresh
    have hst : Transition D s (.malloc x n) _ := .malloc hf hpoint hn
    exact hst.task_enabled rfl
  | init n =>
    have hst : Transition D s (.advance x) _ :=
      .init hf hpoint (hun _ _ hf (by rw [Activation.unsent, hpoint]))
    exact hst.task_enabled rfl
  | data n =>
    have hst : Transition D s (.advance x) _ :=
      .data hf hpoint (hun _ _ hf (by rw [Activation.unsent, hpoint]))
    exact hst.task_enabled rfl
  | send n =>
    have hst : Transition D s (.advance x) _ :=
      .send hf hpoint (hun _ _ hf (by rw [Activation.unsent, hpoint]))
    exact hst.task_enabled rfl

theorem Sound.enabled_wait (h : Sound D s) (hf : s.frames x = some f) (hp : f.point = .waitResult)
    (hawake : f.inner.waiter = .waiting → f.inner.acked = true) : Enabled D (s.waitHelper x) s := by
  rw [waitHelper, hf, Option.bind_some]
  cases hi : holder x f.inner.mutex with
  | some i => exact h.enabled_holder hf hi
  | none =>
    have hfree : f.inner.mutex = .free := by
      cases hm : f.inner.mutex with
      | free => rfl
      | wait | ack => simp [holder, hm] at hi
    have hreach := (h.activations x f hf).reachable
    cases hw : f.inner.waiter with
    | entry =>
      have hst : Transition D s (.wait x .waitLock) _ := .wait hf hp rfl (.waitLock hfree hw)
      exact hst.task_enabled rfl
    | woken =>
      have hst : Transition D s (.wait x .relock) _ := .wait hf hp rfl (.relock hfree hw)
      exact hst.task_enabled rfl
    | returned r =>
      have hst : Transition D s (.leave x) _ := .left hf hw
      exact hst.task_enabled rfl
    | inside =>
      obtain ⟨point, hm⟩ := ConsumerAckInner.reachable_inside hreach hw
      cases hfree.symm.trans hm
    | waiting =>
      obtain ⟨status, hm⟩ := ConsumerAckInner.reachable_attended hreach (hawake hw) hw
      cases hfree.symm.trans hm

theorem Sound.not_acking_of_building (h : Sound D s) {hd : Handler} (hl : s.loop = .building a hd) :
    s.acking = none := by
  obtain ⟨b, hsim, -⟩ := h.simulated
  exact hsim.related.of_building hl

theorem Sound.enabled_building (h : Sound D s) {hd : Handler} (hl : s.loop = .building a hd) :
    Enabled D .js s := by
  obtain ⟨b, hsim, -⟩ := h.simulated
  obtain ⟨g, o, hg, -, -, ho, -⟩ := hsim.tracked.of_handler (by rw [hsim.related.loop, hl]; rfl)
  obtain ⟨f, hf, -⟩ := hsim.related.of_frame hg
  cases hr : hd.rest with
  | nil =>
    have hack : s.acks hd.ack = some o := by
      rw [← hsim.related.acks.of_outside (h.not_acking_of_building hl), ho]
    have hst : Transition D s (.callListener true) _ := .listener hl hr hack
    exact hst.task_enabled rfl
  | cons name rest =>
    have hst : Transition D s .readColumn _ := .column hl hf hr
    exact hst.task_enabled rfl

theorem Sound.not_acking_of_leaving (h : Sound D s) (hl : s.loop = .leaving a k) :
    s.acking = none := by
  obtain ⟨b, hsim, -⟩ := h.simulated
  cases hq : s.acking with
  | none => rfl
  | some q =>
    obtain hi | ⟨_, _, hi⟩ := hsim.related.inJs q hq
    · cases hl.symm.trans hi
    · cases hl.symm.trans hi

theorem Sound.enabled_leaving (h : Sound D s) (hl : s.loop = .leaving a k) : Enabled D .js s := by
  obtain ⟨b, hsim, -⟩ := h.simulated
  obtain ⟨u, hu, -⟩ := hsim.owned.running a (by rw [hl]; rfl)
  have hst : Transition D s .close _ := .close hl hu
  exact hst.task_enabled rfl

theorem enabled_listening (hl : s.loop = .listening a k) (hq : s.acking = none) :
    Enabled D .listener s := by
  have hst : Transition D s .listenerEnd _ := .listenerEnd hl hq
  exact hst.task_enabled rfl

theorem Sound.enabled_pending (h : Sound D s) {u : UvAsync} (hu : s.handles a = some u)
    (hp : u.phase = .pending) (hl : s.loop = .idle) (hq : s.acking = none) :
    Enabled D (.handle a) s := by
  obtain ⟨b, hsim, -⟩ := h.simulated
  obtain ⟨k, hk⟩ := h.finite.acks.fresh
  obtain ⟨x, hx⟩ := h.accounted.pending a u hu hp
  obtain ⟨f, hf, -⟩ := hsim.touchesRunning (e := .dispatch a k) x u.call (.param hu hp hx)
  have hst : Transition D s (.dispatch a k) _ := .dispatched hu hx hf hl hp hq hk
  exact hst.task_enabled rfl

end Enabled

end Threads

end RocketMQClient.Consume
