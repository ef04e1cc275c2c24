import RocketMQClient.Consume.Tracking

namespace RocketMQClient.Consume

open Library

/-- The inner ack of the frame at `x` can still be acked, through the handle of its own
call or through an ack that is not finalized. -/
inductive Answerable (s : Delivery) (x : Nat) (f : Frame) : Prop
  | pending : s.pending a = some async → async.data = x → async.call = f.call → Answerable s x f
  | ack : s.acks k = some o → o.finalized = false → o.inner = some x → Answerable s x f

def NoOrphan (s : Delivery) : Prop :=
  ∀ x f b, s.frames x = some f → f.ackInner.waiter = .waiting b → f.ackInner.acked = false →
    Answerable s x f

/-- An ack is finalized only when its call has been acked, or has returned. -/
def FinalizedAcked (s : Delivery) : Event → Prop
  | .finalize k => ∀ o, s.acks k = some o → ∀ x, o.inner = some x → ∀ f, s.frames x = some f →
      f.call = o.call → f.ackInner.acked = true
  | _ => True

instance (s : Delivery) : (e : Event) → Decidable (FinalizedAcked s e)
  | .finalize k =>
    inferInstanceAs (Decidable (∀ o ∈ s.acks k, ∀ x ∈ o.inner, ∀ f ∈ s.frames x,
      f.call = o.call → f.ackInner.acked = true))
  | .construct _ | .onMessage _ _ _ | .send _ _ | .wait _ | .wake _ | .dispatch _ _ | .readColumn
  | .callListener _ | .listenerEnd | .done _ _ | .drop _ => isTrue trivial

inductive Owed (s : Delivery) (x c : Nat) : Prop
  | pending : s.pending a = some ⟨x, c⟩ → Owed s x c
  | ack : s.acks k = some o → o.finalized = false → o.inner = some x → o.call = c → Owed s x c

structure Obliges (s : Delivery) (x : Nat) (f : Frame) : Prop where
  ack : f.param.ack = x
  waiting : ∀ b, f.ackInner.waiter = .waiting b → f.sent = true
  owed : f.sent = true → f.ackInner.acked = false → Owed s x f.call

def Obliged (s : Delivery) : Prop := ∀ x f, s.frames x = some f → Obliges s x f

section Step

variable {s t : Delivery}

theorem Owed.answerable {x : Nat} {f : Frame} (h : Owed s x f.call) : Answerable s x f := by
  cases h with
  | pending ha => exact .pending ha rfl rfl
  | ack ho hfin hx => exact .ack ho hfin hx

theorem Obliged.noOrphan (h : Obliged s) : NoOrphan s := by
  intro x f b hf hw ha
  have hx := h x f hf
  exact (hx.owed (hx.waiting b hw) ha).answerable

theorem Obliges.mono {x : Nat} {f : Frame} (h : Obliges s x f)
    (howed : f.ackInner.acked = false → Owed s x f.call → Owed t x f.call) : Obliges t x f where
  ack := h.ack
  waiting := h.waiting
  owed hs ha := howed ha (h.owed hs ha)

theorem Obliged.keep (h : Obliged s) (hframes : t.frames = s.frames)
    (howed : ∀ x f, s.frames x = some f → f.ackInner.acked = false → Owed s x f.call →
      Owed t x f.call) : Obliged t := by
  intro x f hf
  rw [hframes] at hf
  exact (h x f hf).mono (howed x f hf)

theorem Obliged.update (h : Obliged s) {x : Nat} {f? : Option Frame}
    (hframes : t.frames = Function.update s.frames x f?) (hx : ∀ f, f? = some f → Obliges t x f)
    (howed : ∀ y c, y ≠ x → Owed s y c → Owed t y c) : Obliged t := by
  intro y f hf
  rw [hframes, Function.update_apply] at hf
  split_ifs at hf with hy
  · subst hy
    exact hx f hf
  · exact (h y f hf).mono fun _ => howed y f.call hy

theorem Owed.of_eq {x c : Nat} (h : Owed s x c) (hpending : t.pending = s.pending)
    (hacks : t.acks = s.acks) : Owed t x c := by
  cases h with
  | pending ha => exact .pending (hpending ▸ ha)
  | ack ho hfin hx hc => exact .ack (hacks ▸ ho) hfin hx hc

theorem Owed.of_set {x c k : Nat} {o o' : ConsumerAck} (h : Owed s x c)
    (hpending : t.pending = s.pending) (hacks : t.acks = Function.update s.acks k (some o'))
    (ho : s.acks k = some o)
    (hkeep : o.inner = some x → o.call = c →
      o'.inner = o.inner ∧ o'.call = o.call ∧ o'.finalized = o.finalized) : Owed t x c := by
  cases h with
  | pending ha => exact .pending (hpending ▸ ha)
  | @ack j p hp hfin hx hc =>
    by_cases hj : j = k
    · subst hj
      cases ho.symm.trans hp
      obtain ⟨hinner, hcall, hfinal⟩ := hkeep hx hc
      refine .ack (k := j) (o := o') (by rw [hacks, Function.update_self]) ?_ ?_ ?_
      · exact hfinal.trans hfin
      · exact hinner.trans hx
      · exact hcall.trans hc
    · exact .ack (by rwa [hacks, Function.update_of_ne hj]) hfin hx hc

theorem ConsumerAckInner.ack_acked (inner : ConsumerAckInner) (r : CConsumeStatus) :
    (inner.ack r).acked = true := by
  unfold ConsumerAckInner.ack
  split
  · assumption
  · rfl

theorem ConsumerAckInner.ack_waiting {inner : ConsumerAckInner} {r : CConsumeStatus} {b : Bool}
    (h : (inner.ack r).waiter = .waiting b) : ∃ b', inner.waiter = .waiting b' := by
  unfold ConsumerAckInner.ack at h
  split at h
  · exact ⟨b, h⟩
  · cases hw : inner.waiter with
    | waiting b' => exact ⟨b', rfl⟩
    | entry | returned => simp [hw, WaitState.signal] at h

theorem ConsumerAckInner.ack_returned {inner : ConsumerAckInner} {r : CConsumeStatus}
    {result : Option CConsumeStatus} (h : (inner.ack r).waiter = .returned result) :
    inner.waiter = .returned result := by
  unfold ConsumerAckInner.ack at h
  split at h
  · exact h
  · cases hw : inner.waiter <;> simp_all [WaitState.signal]

theorem Obliged.enter (h : Obliged s) (registry : Registry) (x ptr n : Nat)
    (msg : Marshal.CMessageExt) : Obliged (s.enter registry x ptr n msg) := by
  refine h.update rfl (fun f hf => ?_) fun y c _ hy => hy.of_eq rfl rfl
  cases hf
  exact ⟨rfl, fun _ hw => (by cases hw), fun hs => by cases hs⟩

theorem Obliged.send (h : Obliged s) {x a : Nat} {f : Frame} (hf : s.frames x = some f)
    (ha : s.pending a = none) : Obliged (s.send x a f) := by
  have hx := h x f hf
  refine h.update rfl (fun f' hf' => ?_) fun y c _ hy => ?_
  · cases hf'
    exact ⟨hx.ack, fun _ _ => rfl, fun _ _ => .pending (a := a) (by simp)⟩
  · cases hy with
    | @pending a' hp =>
      refine .pending (a := a') ?_
      rw [Delivery.send_pending, Function.update_of_ne]
      · exact hp
      · rintro rfl
        cases ha.symm.trans hp
    | ack ho hfin hinner hc => exact .ack ho hfin hinner hc

theorem Obliged.block (h : Obliged s) {x : Nat} {f : Frame} (hf : s.frames x = some f)
    (hs : f.sent = true) : Obliged (s.block x f) := by
  have hx := h x f hf
  refine h.update rfl (fun f' hf' => ?_) fun y c _ hy => hy.of_eq rfl rfl
  cases hf'
  exact ⟨hx.ack, fun _ _ => hs, fun _ ha => (hx.owed hs ha).of_eq rfl rfl⟩

theorem Obliged.leave (h : Obliged s) (x : Nat) (f : Frame) : Obliged (s.leave x f) :=
  h.update rfl (fun _ hf => by cases hf) fun y c _ hy => hy.of_eq rfl rfl

theorem Obliged.dispatch (h : Obliged s) {a k : Nat} {async : Async} {f : Frame}
    (ha : s.pending a = some async) (hf : s.frames async.data = some f) (hk : s.acks k = none) :
    Obliged (s.dispatch a k async f) := by
  refine h.keep rfl fun x g _ _ howed => ?_
  cases howed with
  | @pending a' hp =>
    by_cases ha' : a' = a
    · subst ha'
      -- the obligation moves from the handle to the new ack
      cases ha.symm.trans hp
      refine .ack (k := k) (o := ⟨some f.param.ack, g.call, false, false⟩) (by simp) rfl ?_ rfl
      exact congrArg some (h _ f hf).ack
    · exact .pending (a := a') (by simpa [Function.update_of_ne ha'] using hp)
  | @ack j o ho hfin hx hc =>
    refine .ack (k := j) (o := o) ?_ hfin hx hc
    rw [Delivery.dispatch_acks, Function.update_of_ne]
    · exact ho
    · rintro rfl
      cases hk.symm.trans ho

theorem Obliged.done (h : Obliged s) {k x : Nat} {o : ConsumerAck} {f : Frame}
    (ho : s.acks k = some o) (hinner : o.inner = some x) (hf : s.frames x = some f)
    (args : List Js.JsValue) : Obliged (s.done k x o f args) := by
  have hx := h x f hf
  refine h.update rfl (fun f' hf' => ?_) fun y c hy howed => ?_
  · cases hf'
    refine ⟨hx.ack, fun b hw => ?_, fun _ ha => ?_⟩
    · obtain ⟨b', hb⟩ := ConsumerAckInner.ack_waiting hw
      exact hx.waiting b' hb
    · cases (ConsumerAckInner.ack_acked f.ackInner (decision args)).symm.trans ha
  · refine howed.of_set rfl rfl ho fun hyx => ?_
    cases hinner.symm.trans hyx
    exact absurd rfl hy

theorem Obliged.step {D : Utf8Decoder} {e : Event} (h : Obliged s) (hP : FinalizedAcked s e)
    (hst : Transition D s e t) : Obliged t := by
  cases hst with
  | construct => exact h.keep rfl fun _ _ _ _ howed => howed.of_eq rfl rfl
  | refused => exact h.keep rfl fun _ _ _ _ howed => howed.of_eq rfl rfl
  | entered => exact h.enter _ _ _ _ _
  | sent hf _ ha => exact h.send hf ha
  | blocked hf hs => exact h.block hf hs
  | waited => exact h.leave _ _
  | woken => exact h.leave _ _
  | dispatched ha hf _ hk => exact h.dispatch ha hf hk
  | column => exact h.keep rfl fun _ _ _ _ howed => howed.of_eq rfl rfl
  | listener _ _ ho =>
    exact h.keep rfl fun _ _ _ _ howed => howed.of_set rfl rfl ho fun _ _ => ⟨rfl, rfl, rfl⟩
  | listenerEnd => exact h.keep rfl fun _ _ _ _ howed => howed.of_eq rfl rfl
  | doneAgain => exact h.keep rfl fun _ _ _ _ howed => howed.of_eq rfl rfl
  | done ho _ _ hinner hf => exact h.done ho hinner hf _
  | dropped ho =>
    exact h.keep rfl fun _ _ _ _ howed => howed.of_set rfl rfl ho fun _ _ => ⟨rfl, rfl, rfl⟩
  | @finalized k o ho =>
    refine h.keep rfl fun x f hf ha howed => howed.of_set rfl rfl ho fun hx hc => ?_
    cases (hP o ho x hx f hf hc.symm).symm.trans ha

end Step

def Running (s : Delivery) : Prop := ∀ x f r, s.frames x = some f → f.ackInner.waiter ≠ .returned r

section Orphan

variable {D : Utf8Decoder} {s t : Delivery}

theorem Running.update (h : Running s) {x : Nat} {f? : Option Frame}
    (hframes : t.frames = Function.update s.frames x f?)
    (hx : ∀ f r, f? = some f → f.ackInner.waiter ≠ .returned r) : Running t := by
  intro y f r hf
  rw [hframes, Function.update_apply] at hf
  split_ifs at hf
  · exact hx f r hf
  · exact h y f r hf

theorem Running.step {e : Event} (h : Running s) (hst : Transition D s e t) : Running t := by
  cases hst with
  | entered =>
    refine h.update rfl fun f r hf hr => ?_
    cases hf
    cases hr
  | @sent x f a hf =>
    refine h.update rfl fun f' r hf' hr => ?_
    cases hf'
    exact h x f r hf hr
  | blocked =>
    refine h.update rfl fun f r hf hr => ?_
    cases hf
    cases hr
  | waited => exact h.update rfl fun _ _ hf => by cases hf
  | woken => exact h.update rfl fun _ _ hf => by cases hf
  | done _ _ _ _ hf =>
    refine h.update rfl fun f r hf' hr => ?_
    cases hf'
    exact h _ _ r hf (ConsumerAckInner.ack_returned hr)
  | _ => exact h

theorem running_of_exec {es : List Event} (h : (delivery D).exec (delivery D).init es = some s) :
    Running s :=
  Machine.exec_invariant (fun _ _ _ hs hst => hs.step (step_cases hst))
    (fun _ _ _ hf => by cases hf) h

theorem Tracked.not_answerable (h : Tracked D s) {k x : Nat} {o : ConsumerAck} {f : Frame}
    (ho : s.acks k = some o) (hx : o.inner = some x) (hc : f.call = o.call)
    (hans : Answerable t x f) (hpending : t.pending = s.pending)
    (hacks : t.acks = (s.finalizeAck k o).acks) : False := by
  obtain ⟨hunique, hnone⟩ := h.ack_unique ho
  cases hans with
  | pending ha _ hcall => exact hnone _ _ (hpending ▸ ha) (hcall.trans hc)
  | @ack j p hp hfin hinner =>
    rw [hacks, Delivery.finalizeAck_acks, Function.update_apply] at hp
    split_ifs at hp with hj
    · cases hp
      cases hfin
    · apply hj
      refine hunique j p hp ?_
      obtain ⟨g, hg, hgat, -⟩ := h.of_bound ho hx
      obtain ⟨g', hg', hgat', -⟩ := h.of_bound hp hinner
      cases hg.symm.trans hg'
      exact hgat'.call.symm.trans hgat.call

theorem finalize_orphans (h : Tracked D s) (hr : Running s) {e : Event}
    (hP : ¬FinalizedAcked s e) (hst : Transition D s e t) :
    ∃ fs u, (delivery D).exec t fs = some u ∧ ¬NoOrphan u := by
  cases hst with
  | @finalized k o ho =>
    simp only [FinalizedAcked, not_forall] at hP
    obtain ⟨o', ho', x, hx, f, hf, hc, hacked⟩ := hP
    cases ho.symm.trans ho'
    obtain ⟨f', hf', -, hi, hs⟩ := h.of_bound ho hx
    cases hf.symm.trans hf'
    cases hw : f.ackInner.waiter with
    | returned r => exact absurd hw (hr x f r hf)
    | waiting b =>
      refine ⟨[], _, rfl, fun hno => ?_⟩
      exact h.not_answerable ho hx hc (hno x f b hf hw hi.acked) rfl rfl
    | entry =>
      -- the thread has not reached the wait yet, and blocks there for ever
      have hwait : step D (s.finalizeAck k o) (.wait x) = some ((s.finalizeAck k o).block x f) := by
        simp [step, hf, hs, ConsumerAckInner.waitResult, hw, hi.acked, Delivery.resume, Delivery.block]
      refine ⟨[.wait x], _, Machine.exec_cons_eq_some.mpr ⟨_, hwait, rfl⟩, fun hno => ?_⟩
      have hblocked : ((s.finalizeAck k o).block x f).frames x =
          some { f with ackInner := { f.ackInner with waiter := .waiting false } } := by simp
      refine h.not_answerable ho hx ?_ (hno x _ false hblocked rfl hi.acked) rfl rfl
      exact hc
  | _ => exact absurd trivial hP

/-- While no ack is finalized under a call that it has not acked, every blocked call can
be answered; and any other finalization can leave one that cannot. -/
theorem noOrphan_of_finalizedAcked (D : Utf8Decoder) (es : List Event) :
    ((delivery D).Along FinalizedAcked (delivery D).init es →
        (delivery D).Throughout NoOrphan (delivery D).init es) ∧
      ∀ s e t, (delivery D).Along WokenAcked (delivery D).init es →
        (delivery D).exec (delivery D).init es = some s → (delivery D).step s e = some t →
        ¬FinalizedAcked s e →
        ∃ fs u, (delivery D).exec (delivery D).init (es ++ e :: fs) = some u ∧ ¬NoOrphan u := by
  constructor
  · intro hP
    refine hP.throughout (I := Obliged) (fun s hs => hs.noOrphan) ?_ fun _ _ hf => by cases hf
    exact fun s e t hs hPe hst => hs.step hPe (step_cases hst)
  · intro s e t hwoken hs hst hP
    have htracked := tracked_of_along hwoken hs
    obtain ⟨fs, u, hu, horphan⟩ :=
      finalize_orphans htracked (running_of_exec hs) hP (step_cases hst)
    refine ⟨fs, u, ?_, horphan⟩
    rw [Machine.exec_append, hs]
    exact Machine.exec_cons_eq_some.mpr ⟨t, hst, hu⟩

end Orphan

def unheard : List Event :=
  [.construct 0, .onMessage 10 0 ⟨[], [], [], [], []⟩, .send 10 20, .wait 10, .dispatch 20 30] ++
    List.replicate 5 .readColumn ++ [.callListener false, .listenerEnd]

theorem noOrphan_collected :
    (delivery replacing).Throughout NoOrphan (delivery replacing).init
        (oneMessage ++ [.drop 30, .finalize 30]) ∧
      ∃ fs u, (delivery replacing).exec (delivery replacing).init
        (unheard ++ .finalize 30 :: fs) = some u ∧ ¬NoOrphan u :=
  ⟨(noOrphan_of_finalizedAcked replacing _).1 (by decide),
    (noOrphan_of_finalizedAcked replacing unheard).2 _ (.finalize 30) _ (by decide) rfl rfl
      (by decide)⟩

theorem unheard_orphan :
    ∃ s, (delivery replacing).exec (delivery replacing).init (unheard ++ [.finalize 30]) = some s ∧
      ¬NoOrphan s := by
  refine ⟨_, rfl, fun hno => ?_⟩
  cases hno 10 _ false rfl rfl rfl with
  | @pending a async ha =>
    change Function.update (Function.update (fun _ => none) 20 (some _)) 20 none a = _ at ha
    simp at ha
  | @ack k o ho hfin =>
    by_cases hk : k = 30
    · subst hk
      cases ho
      cases hfin
    · change Function.update (Function.update (Function.update (fun _ => none) 30 _) 30 _) 30 _ k = _
        at ho
      simp [Function.update_of_ne hk] at ho

end RocketMQClient.Consume
