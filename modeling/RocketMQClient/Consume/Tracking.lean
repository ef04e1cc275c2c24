import RocketMQClient.Consume.Step
import RocketMQClient.Library.Handoff

namespace RocketMQClient.Consume

open Library Marshal Handoff

def Effect.handoff (D : Utf8Decoder) (c : Nat) :
    Effect → Option (Handoff.Event Nat MessageObject Nat CConsumeStatus)
  | .onMessage call _ consumer msg =>
    if call = c then some (.call consumer (messageObject D msg)) else none
  | .listener call consumer msg ack => if call = c then some (.deliver consumer msg ack) else none
  | .done call ack args => if call = c then some (.answer ack (decision args)) else none
  | .returned call status => if call = c then some (.finish status) else none
  | .constructed _ _ => none
  | .refused _ _ => none

def handoffOf (D : Utf8Decoder) (c : Nat) (trace : List Effect) :
    List (Handoff.Event Nat MessageObject Nat CConsumeStatus) :=
  trace.filterMap (Effect.handoff D c)

/-- What belongs to one call. -/
@[ext] structure View where
  frames : Nat → Option Frame := fun _ => none
  pending : Nat → Option Async := fun _ => none
  acks : Nat → Option ConsumerAck := fun _ => none
  handler : Option Handler := none

def Loop.handler : Loop → Option Handler
  | .building h => some h
  | _ => none

def Delivery.view (s : Delivery) (c : Nat) : View where
  frames x := (s.frames x).filter (·.call = c)
  pending a := (s.pending a).filter (·.call = c)
  acks k := (s.acks k).filter (·.call = c)
  handler := s.loop.handler.filter (·.call = c)

def single {β : Type} (i : Nat) (b : β) : Nat → Option β := Function.update (fun _ => none) i (some b)

structure Frame.At (f : Frame) (c x : Nat) : Prop where
  call : f.call = c
  ack : f.param.ack = x
  msg : f.param.msg = x

structure ConsumerAckInner.Unacked (inner : ConsumerAckInner) : Prop where
  acked : inner.acked = false
  status : inner.status = none
  signalled : ∀ b, inner.waiter = .waiting b → b = false

structure ConsumerAckInner.AckedWith (inner : ConsumerAckInner) (r : CConsumeStatus) : Prop where
  acked : inner.acked = true
  status : inner.status = some r
  signalled : ∀ b, inner.waiter = .waiting b → b = true

structure Handler.At (h : Handler) (D : Utf8Decoder) (c x k : Nat) (f : Frame) : Prop where
  call : h.call = c
  consumer : h.consumer = f.param.consumer
  ack : h.ack = k
  msg : h.msg = x
  result : h.result ++ h.rest.map (column D f.msg) = messageObject D f.msg

/-- An ack that is bound to the frame at `x`, until it is finalized. -/
structure ConsumerAck.Bound (o : ConsumerAck) (c x : Nat) : Prop where
  call : o.call = c
  inner : o.inner = if o.finalized then none else some x
  finalized : o.finalized = true → o.held = false

theorem ConsumerAck.Bound.eq {o : ConsumerAck} {c x y : Nat} (h : o.Bound c x)
    (hy : o.inner = some y) : x = y := by
  have hinner := h.inner
  rw [hy] at hinner
  split at hinner
  · cases hinner
  · cases hinner
    rfl

structure ConsumerAck.Unbound (o : ConsumerAck) (c : Nat) : Prop where
  call : o.call = c
  inner : o.inner = none

abbrev Stage := Handoff.Phase Nat MessageObject Nat CConsumeStatus

inductive Tracks (D : Utf8Decoder) (c : Nat) : View → Stage → Prop
  | idle : Tracks D c {} .idle
  | entered {x f} (hf : f.At c x) (hi : f.ackInner.Unacked) (hs : f.sent = false) :
      Tracks D c { frames := single x f } (.called f.param.consumer (messageObject D f.msg))
  | pending {x f a} (hf : f.At c x) (hi : f.ackInner.Unacked) (hs : f.sent = true) :
      Tracks D c { frames := single x f, pending := single a ⟨x, c⟩ }
        (.called f.param.consumer (messageObject D f.msg))
  | building {x f k o h} (hf : f.At c x) (hi : f.ackInner.Unacked) (hs : f.sent = true)
      (ho : o.Bound c x) (hh : h.At D c x k f) (hfin : o.finalized = false) (hheld : o.held = false) :
      Tracks D c { frames := single x f, acks := single k o, handler := some h }
        (.called f.param.consumer (messageObject D f.msg))
  | delivered {x f k o} (hf : f.At c x) (hi : f.ackInner.Unacked) (hs : f.sent = true)
      (ho : o.Bound c x) :
      Tracks D c { frames := single x f, acks := single k o } (.delivered k)
  | decided {x f k o r} (hf : f.At c x) (hi : f.ackInner.AckedWith r) (hs : f.sent = true)
      (ho : o.Unbound c) :
      Tracks D c { frames := single x f, acks := single k o } (.answered k r)
  | returned {k o r} (ho : o.Unbound c) : Tracks D c { acks := single k o } (.finished k r)

structure Tracked (D : Utf8Decoder) (s : Delivery) : Prop where
  tracks : ∀ c, ∃ p, Accepts (handoffOf D c s.trace) p ∧ Tracks D c (s.view c) p
  fresh : ∀ c, s.nextCall ≤ c → handoffOf D c s.trace = []

section Single

variable {β : Type} {i j : Nat} {a b : β}

theorem single_eq_some : single i a j = some b ↔ j = i ∧ a = b := by
  rw [single, Function.update_apply]
  split <;> simp_all

@[simp] theorem single_self (i : Nat) (b : β) : single i b i = some b := Function.update_self ..

@[simp] theorem update_single (b? : Option β) :
    Function.update (single i a) i b? = Function.update (fun _ => none) i b? := by
  rw [single, Function.update_idem]

@[simp] theorem update_none : Function.update (fun _ => none : Nat → Option β) i none = fun _ => none :=
  Function.update_eq_self i _

theorem update_some : Function.update (fun _ => none : Nat → Option β) i (some a) = single i a := rfl

end Single

section Inversion

variable {D : Utf8Decoder} {c x : Nat} {v : View} {p : Stage} {f : Frame}

theorem Tracks.of_frame (ht : Tracks D c v p) (hx : v.frames x = some f) :
    f.At c x ∧ (f.ackInner.Unacked ∨ ∃ r, f.ackInner.AckedWith r) := by
  cases ht with
  | idle => cases hx
  | returned => cases hx
  | decided hat hi =>
    obtain ⟨rfl, rfl⟩ := single_eq_some.mp hx
    exact ⟨hat, .inr ⟨_, hi⟩⟩
  | entered hat hi | pending hat hi | building hat hi | delivered hat hi =>
    obtain ⟨rfl, rfl⟩ := single_eq_some.mp hx
    exact ⟨hat, .inl hi⟩

theorem Tracks.of_unsent (ht : Tracks D c v p) (hx : v.frames x = some f) (hs : f.sent = false) :
    v = { frames := single x f } ∧ p = .called f.param.consumer (messageObject D f.msg) ∧
      f.At c x ∧ f.ackInner.Unacked := by
  cases ht with
  | idle => cases hx
  | returned => cases hx
  | entered hat hi =>
    obtain ⟨rfl, rfl⟩ := single_eq_some.mp hx
    exact ⟨rfl, rfl, hat, hi⟩
  | pending _ _ hs' | building _ _ hs' | delivered _ _ hs' | decided _ _ hs' =>
    obtain ⟨-, rfl⟩ := single_eq_some.mp hx
    cases hs.symm.trans hs'

theorem Tracks.of_acked (ht : Tracks D c v p) (hx : v.frames x = some f)
    (ha : f.ackInner.acked = true) :
    ∃ k o r, v = { frames := single x f, acks := single k o } ∧ p = .answered k r ∧
      f.ackInner.AckedWith r ∧ o.Unbound c := by
  cases ht with
  | idle => cases hx
  | returned => cases hx
  | decided _ hi _ ho =>
    obtain ⟨rfl, rfl⟩ := single_eq_some.mp hx
    exact ⟨_, _, _, rfl, rfl, hi, ho⟩
  | entered _ hi | pending _ hi | building _ hi | delivered _ hi =>
    obtain ⟨-, rfl⟩ := single_eq_some.mp hx
    cases hi.acked.symm.trans ha

end Inversion

section View

variable (s : Delivery) (c : Nat)

theorem filter_update {β : Type} (g : Nat → Option β) (i : Nat) (b? : Option β) (p : β → Bool) :
    (fun j => (Function.update g i b? j).filter p) =
      Function.update (fun j => (g j).filter p) i (b?.filter p) := by
  funext j
  rw [Function.update_apply, Function.update_apply]
  split <;> rfl

@[simp] theorem view_setFrame (x : Nat) (f : Option Frame) :
    (s.setFrame x f).view c =
      { s.view c with frames := Function.update (s.view c).frames x (f.filter (·.call = c)) } := by
  simp [Delivery.view, filter_update]

@[simp] theorem view_setPending (a : Nat) (async : Option Async) :
    (s.setPending a async).view c =
      { s.view c with
        pending := Function.update (s.view c).pending a (async.filter (·.call = c)) } := by
  simp [Delivery.view, filter_update]

@[simp] theorem view_setAck (k : Nat) (o : ConsumerAck) :
    (s.setAck k o).view c =
      { s.view c with
        acks := Function.update (s.view c).acks k ((some o).filter (·.call = c)) } := by
  simp [Delivery.view, filter_update]

@[simp] theorem view_setLoop (l : Loop) :
    (s.setLoop l).view c = { s.view c with handler := l.handler.filter (·.call = c) } := rfl

@[simp] theorem view_emit (e : Effect) : (s.emit e).view c = s.view c := rfl

@[simp] theorem view_enterCall (registry : Registry) : (s.enterCall registry).view c = s.view c := rfl

end View

section Own

variable {s : Delivery} {c : Nat}

theorem view_frames {x : Nat} {f : Frame} (h : s.frames x = some f) :
    (s.view f.call).frames x = some f := by
  simp [Delivery.view, h]

theorem view_pending {a : Nat} {async : Async} (h : s.pending a = some async) :
    (s.view async.call).pending a = some async := by
  simp [Delivery.view, h]

theorem view_acks {k : Nat} {o : ConsumerAck} (h : s.acks k = some o) :
    (s.view o.call).acks k = some o := by
  simp [Delivery.view, h]

theorem view_handler {h : Handler} (hl : s.loop = .building h) :
    (s.view h.call).handler = some h := by
  simp [Delivery.view, hl, Loop.handler]

theorem frames_of_view {x : Nat} {f : Frame} (h : (s.view c).frames x = some f) :
    s.frames x = some f := (Option.filter_eq_some_iff.mp h).1

theorem acks_of_view {k : Nat} {o : ConsumerAck} (h : (s.view c).acks k = some o) :
    s.acks k = some o := (Option.filter_eq_some_iff.mp h).1

theorem loop_of_view {h : Handler} (hv : (s.view c).handler = some h) : s.loop = .building h := by
  have hloop := (Option.filter_eq_some_iff.mp hv).1
  unfold Loop.handler at hloop
  split at hloop
  · cases hloop
    assumption
  · cases hloop

theorem update_frames_of_ne {x : Nat} {f : Frame} (h : s.frames x = some f) (hc : f.call ≠ c) :
    Function.update (s.view c).frames x none = (s.view c).frames := by
  simp [Delivery.view, h, hc, Option.filter_some]

theorem update_pending_of_ne {a : Nat} {async : Async} (h : s.pending a = some async)
    (hc : async.call ≠ c) : Function.update (s.view c).pending a none = (s.view c).pending := by
  simp [Delivery.view, h, hc, Option.filter_some]

theorem update_acks_of_ne {k : Nat} {o : ConsumerAck} (h : s.acks k = some o) (hc : o.call ≠ c) :
    Function.update (s.view c).acks k none = (s.view c).acks := by
  simp [Delivery.view, h, hc, Option.filter_some]

end Own

@[simp] theorem handoffOf_append (D : Utf8Decoder) (c : Nat) (trace : List Effect) (e : Effect) :
    handoffOf D c (trace ++ [e]) = handoffOf D c trace ++ (e.handoff D c).toList := by
  cases h : e.handoff D c <;> simp [handoffOf, h]

section Step

variable {D : Utf8Decoder} {s t : Delivery}

theorem Tracked.view_fresh (h : Tracked D s) {c : Nat} (hc : s.nextCall ≤ c) : s.view c = {} := by
  obtain ⟨p, hp, ht⟩ := h.tracks c
  rw [h.fresh c hc] at hp
  cases hp
  generalize s.view c = v at ht
  cases ht
  rfl

theorem Tracked.call_lt (h : Tracked D s) {c : Nat} (hc : s.view c ≠ {}) : c < s.nextCall := by
  by_contra hge
  exact hc (h.view_fresh (Nat.le_of_not_lt hge))

theorem Tracked.frame_lt (h : Tracked D s) {x : Nat} {f : Frame} (hf : s.frames x = some f) :
    f.call < s.nextCall := by
  refine h.call_lt fun hv => ?_
  have hx := view_frames hf
  rw [hv] at hx
  cases hx

theorem Tracked.pending_lt (h : Tracked D s) {a : Nat} {async : Async}
    (ha : s.pending a = some async) : async.call < s.nextCall := by
  refine h.call_lt fun hv => ?_
  have hx := view_pending ha
  rw [hv] at hx
  cases hx

theorem Tracked.ack_lt (h : Tracked D s) {k : Nat} {o : ConsumerAck} (ho : s.acks k = some o) :
    o.call < s.nextCall := by
  refine h.call_lt fun hv => ?_
  have hx := view_acks ho
  rw [hv] at hx
  cases hx

theorem Tracked.handler_lt (h : Tracked D s) {hd : Handler} (hl : s.loop = .building hd) :
    hd.call < s.nextCall := by
  refine h.call_lt fun hv => ?_
  have hx := view_handler hl
  rw [hv] at hx
  cases hx

theorem Tracked.advance (h : Tracked D s) (c : Nat) (hc : c < t.nextCall)
    (hnext : s.nextCall ≤ t.nextCall) (hview : ∀ d, c ≠ d → t.view d = s.view d)
    (htrace : ∀ d, c ≠ d → handoffOf D d t.trace = handoffOf D d s.trace)
    (hown : ∀ p, Accepts (handoffOf D c s.trace) p → Tracks D c (s.view c) p →
      ∃ q, Accepts (handoffOf D c t.trace) q ∧ Tracks D c (t.view c) q) : Tracked D t where
  tracks d := by
    obtain ⟨p, hp, ht⟩ := h.tracks d
    by_cases hd : c = d
    · subst hd
      exact hown p hp ht
    · rw [hview d hd, htrace d hd]
      exact ⟨p, hp, ht⟩
  fresh d hd := by
    rw [htrace d (by omega)]
    exact h.fresh d (by omega)

theorem Tracked.frame (h : Tracked D s) (hnext : s.nextCall ≤ t.nextCall)
    (hview : ∀ c, t.view c = s.view c)
    (htrace : ∀ c, handoffOf D c t.trace = handoffOf D c s.trace) : Tracked D t where
  tracks c := by
    rw [hview, htrace]
    exact h.tracks c
  fresh c hc := by
    rw [htrace]
    exact h.fresh c (by omega)

theorem Tracked.construct (h : Tracked D s) (consumerPtr : Nat) : Tracked D (s.construct consumerPtr) :=
  h.frame le_rfl (fun _ => rfl) fun c => by simp [Delivery.construct, Effect.handoff]

theorem Tracked.refuse (h : Tracked D s) (registry : Registry) (consumerPtr : Nat) :
    Tracked D (s.refuse registry consumerPtr) :=
  h.frame (Nat.le_succ _) (fun _ => rfl) fun c => by simp [Effect.handoff]

theorem Tracked.enter (h : Tracked D s) {x : Nat} (hx : s.frames x = none) (registry : Registry)
    (consumerPtr consumer : Nat) (msg : CMessageExt) :
    Tracked D (s.enter registry x consumerPtr consumer msg) := by
  have hnone : ∀ c, (s.view c).frames x = none := fun c => by simp [Delivery.view, hx]
  have hview : ∀ d, (s.enter registry x consumerPtr consumer msg).view d =
      { s.view d with
        frames := Function.update (s.view d).frames x
          (if s.nextCall = d then
            some { call := s.nextCall, param := ⟨consumer, x, x⟩, msg } else none) } := by
    intro d
    simp [Delivery.enter, Option.filter_some]
  refine h.advance s.nextCall (Nat.lt_succ_self _) (Nat.le_succ _) (fun d hd => ?_) (fun d hd => ?_)
    fun p hp ht => ?_
  · rw [hview, if_neg hd, Function.update_eq_self_iff.mpr (hnone d).symm]
  · simp [Effect.handoff, hd]
  · rw [h.fresh _ le_rfl] at hp
    cases hp
    refine ⟨.called consumer (messageObject D msg), ?_, ?_⟩
    · rw [Delivery.enter_trace, handoffOf_append, h.fresh _ le_rfl]
      simp [Effect.handoff, Accepts, Machine.exec, protocol, Phase.next]
    · rw [hview, h.view_fresh le_rfl, if_pos rfl]
      exact .entered ⟨rfl, rfl, rfl⟩ ⟨rfl, rfl, fun _ hb => by cases hb⟩ rfl

theorem Tracked.sent (h : Tracked D s) {x a : Nat} {f : Frame} (hf : s.frames x = some f)
    (hs : f.sent = false) (ha : s.pending a = none) : Tracked D (s.send x a f) := by
  have hnone : ∀ d, (s.view d).pending a = none := fun d => by simp [Delivery.view, ha]
  have hview : ∀ d, (s.send x a f).view d =
      { s.view d with
        frames := Function.update (s.view d).frames x
          (if f.call = d then some { f with sent := true } else none)
        pending := Function.update (s.view d).pending a
          (if f.call = d then some ⟨x, f.call⟩ else none) } := by
    intro d
    simp [Delivery.send, Option.filter_some]
  refine h.advance f.call (h.frame_lt hf) le_rfl (fun d hd => ?_) (fun _ _ => rfl) fun p hp ht => ?_
  · rw [hview, if_neg hd, if_neg hd, update_frames_of_ne hf hd,
      Function.update_eq_self_iff.mpr (hnone d).symm]
  · have hx := view_frames hf
    rw [hview, if_pos rfl, if_pos rfl]
    refine ⟨p, hp, ?_⟩
    obtain ⟨hv, rfl, hat, hi⟩ := ht.of_unsent hx hs
    rw [hv, update_single, update_some, update_some]
    exact .pending ⟨rfl, hat.ack, hat.msg⟩ hi rfl

theorem Tracked.of_pending (h : Tracked D s) {a : Nat} {async : Async}
    (ha : s.pending a = some async) :
    ∃ f, s.frames async.data = some f ∧ f.At async.call async.data ∧ f.ackInner.Unacked := by
  obtain ⟨p, -, ht⟩ := h.tracks async.call
  have hv := view_pending ha
  have hframes := fun x f => frames_of_view (s := s) (c := async.call) (x := x) (f := f)
  generalize s.view async.call = v at ht hv hframes
  cases ht with
  | @pending x f a' hat hi =>
    obtain ⟨-, hasync⟩ := single_eq_some.mp hv
    have hx : async.data = x := congrArg Async.data hasync.symm
    rw [hx]
    exact ⟨f, hframes x f (single_self x f), hat, hi⟩
  | _ => cases hv

theorem Tracked.of_handler (h : Tracked D s) {hd : Handler} (hl : s.loop = .building hd) :
    ∃ f o, s.frames hd.msg = some f ∧ f.At hd.call hd.msg ∧ f.ackInner.Unacked ∧
      s.acks hd.ack = some o ∧ o.Bound hd.call hd.msg ∧ o.held = false := by
  obtain ⟨p, -, ht⟩ := h.tracks hd.call
  have hv := view_handler hl
  have hframes := fun x f => frames_of_view (s := s) (c := hd.call) (x := x) (f := f)
  have hacks := fun k o => acks_of_view (s := s) (c := hd.call) (k := k) (o := o)
  generalize s.view hd.call = v at ht hv hframes hacks
  cases ht with
  | @building x f k o hd' hat hi hs ho hh _ hheld =>
    cases hv
    rw [hh.msg, hh.ack]
    exact ⟨f, o, hframes x f (single_self x f), hat, hi, hacks k o (single_self k o), ho, hheld⟩
  | _ => cases hv

theorem Tracked.of_frame (h : Tracked D s) {x : Nat} {f : Frame} (hf : s.frames x = some f) :
    f.At f.call x ∧ (f.ackInner.Unacked ∨ ∃ r, f.ackInner.AckedWith r) := by
  obtain ⟨p, -, ht⟩ := h.tracks f.call
  exact ht.of_frame (view_frames hf)

theorem Tracked.of_bound (h : Tracked D s) {k x : Nat} {o : ConsumerAck} (ho : s.acks k = some o)
    (hx : o.inner = some x) :
    ∃ f, s.frames x = some f ∧ f.At o.call x ∧ f.ackInner.Unacked ∧ f.sent = true := by
  obtain ⟨p, -, ht⟩ := h.tracks o.call
  have hv := view_acks ho
  have hframes := fun x f => frames_of_view (s := s) (c := o.call) (x := x) (f := f)
  generalize s.view o.call = v at ht hv hframes
  cases ht with
  | @building y f _ _ _ hat hi hs hbound | @delivered y f _ _ hat hi hs hbound =>
    obtain ⟨-, rfl⟩ := single_eq_some.mp hv
    cases hbound.eq hx
    exact ⟨f, hframes x f (single_self x f), hat, hi, hs⟩
  | decided _ _ _ hun | returned hun =>
    obtain ⟨-, rfl⟩ := single_eq_some.mp hv
    cases hun.inner.symm.trans hx
  | _ => cases hv

theorem Tracked.ack_unique (h : Tracked D s) {k : Nat} {o : ConsumerAck} (ho : s.acks k = some o) :
    (∀ j p, s.acks j = some p → p.call = o.call → j = k) ∧
      ∀ a async, s.pending a = some async → async.call ≠ o.call := by
  obtain ⟨p, -, ht⟩ := h.tracks o.call
  have hv := view_acks ho
  have hacks : ∀ j q, s.acks j = some q → q.call = o.call → (s.view o.call).acks j = some q :=
    fun j q hq hc => hc ▸ view_acks hq
  have hpending : ∀ a async, s.pending a = some async → async.call = o.call →
      (s.view o.call).pending a = some async := fun a async ha hc => hc ▸ view_pending ha
  generalize s.view o.call = v at ht hv hacks hpending
  have hsingle : v.pending = (fun _ => none) ∧ ∃ q, v.acks = single k q := by
    cases ht with
    | idle | entered | pending => cases hv
    | building | delivered | decided | returned =>
      obtain ⟨rfl, -⟩ := single_eq_some.mp hv
      exact ⟨rfl, _, rfl⟩
  obtain ⟨hnone, q, hq⟩ := hsingle
  constructor
  · intro j p hp hc
    have hj := hacks j p hp hc
    rw [hq] at hj
    exact (single_eq_some.mp hj).1
  · intro a async ha hc
    have hempty := hpending a async ha hc
    rw [hnone] at hempty
    cases hempty

theorem Tracked.blocked (h : Tracked D s) {x : Nat} {f : Frame} (hf : s.frames x = some f)
    (hs : f.sent = true) (ha : f.ackInner.acked = false) : Tracked D (s.block x f) := by
  have hview : ∀ d, (s.block x f).view d =
      { s.view d with
        frames := Function.update (s.view d).frames x
          (if f.call = d then
            some { f with ackInner := { f.ackInner with waiter := .waiting false } }
          else none) } := by
    intro d
    simp [Delivery.block, Option.filter_some]
  refine h.advance f.call (h.frame_lt hf) le_rfl (fun d hd => ?_) (fun _ _ => rfl) fun p hp ht => ?_
  · rw [hview, if_neg hd, update_frames_of_ne hf hd]
  · have hx := view_frames hf
    rw [hview, if_pos rfl]
    refine ⟨p, hp, ?_⟩
    generalize s.view f.call = v at ht hx ⊢
    have unacked : f.ackInner.Unacked →
        ConsumerAckInner.Unacked { f.ackInner with waiter := .waiting false } := fun hi =>
      ⟨hi.acked, hi.status, fun b hb => by cases hb; rfl⟩
    cases ht with
    | idle => cases hx
    | returned => cases hx
    | entered _ _ hs' => simp [(single_eq_some.mp hx).2, hs] at hs'
    | pending hat hi hs' =>
      obtain ⟨rfl, rfl⟩ := single_eq_some.mp hx
      simp only [update_single]
      exact .pending ⟨rfl, hat.ack, hat.msg⟩ (unacked hi) hs
    | building hat hi hs' ho hh hfin hheld =>
      obtain ⟨rfl, rfl⟩ := single_eq_some.mp hx
      simp only [update_single]
      exact .building ⟨rfl, hat.ack, hat.msg⟩ (unacked hi) hs ho
        ⟨hh.call, hh.consumer, hh.ack, hh.msg, hh.result⟩ hfin hheld
    | delivered hat hi hs' ho =>
      obtain ⟨rfl, rfl⟩ := single_eq_some.mp hx
      simp only [update_single]
      exact .delivered ⟨rfl, hat.ack, hat.msg⟩ (unacked hi) hs ho
    | decided _ hi =>
      obtain ⟨-, rfl⟩ := single_eq_some.mp hx
      cases hi.acked.symm.trans ha

theorem Tracked.left (h : Tracked D s) {x : Nat} {f : Frame} (hf : s.frames x = some f)
    (ha : f.ackInner.acked = true) : Tracked D (s.leave x f) := by
  have hview : ∀ d, (s.leave x f).view d =
      { s.view d with frames := Function.update (s.view d).frames x none } := by
    intro d
    simp [Delivery.leave]
  refine h.advance f.call (h.frame_lt hf) le_rfl (fun d hd => ?_) (fun d hd => ?_) fun p hp ht => ?_
  · rw [hview, update_frames_of_ne hf hd]
  · simp [Effect.handoff, hd]
  · have hx := view_frames hf
    have htrace : handoffOf D f.call (s.leave x f).trace =
        handoffOf D f.call s.trace ++ [.finish f.ackInner.status] := by
      simp [Effect.handoff]
    obtain ⟨k, o, r, hv, rfl, hi, ho⟩ := ht.of_acked hx ha
    rw [hview, htrace, hv, hi.status, update_single, update_none]
    exact ⟨_, hp.concat .finish, .returned ho⟩

theorem Tracked.dispatched (h : Tracked D s) {a k : Nat} {async : Async} {f : Frame}
    (ha : s.pending a = some async) (hf : s.frames async.data = some f) (hl : s.loop = .idle)
    (hk : s.acks k = none) : Tracked D (s.dispatch a k async f) := by
  have hnone : ∀ d, (s.view d).acks k = none := fun d => by simp [Delivery.view, hk]
  have hidle : ∀ d, (s.view d).handler = none := fun d => by simp [Delivery.view, hl, Loop.handler]
  have hview : ∀ d, (s.dispatch a k async f).view d =
      { s.view d with
        pending := Function.update (s.view d).pending a none
        acks := Function.update (s.view d).acks k
          (if async.call = d then some { inner := some f.param.ack, call := async.call } else none)
        handler := if async.call = d then
            some { call := async.call, consumer := f.param.consumer, ack := k, msg := f.param.msg }
          else none } := by
    intro d
    simp [Delivery.dispatch, Option.filter_some, Loop.handler]
  refine h.advance async.call (h.pending_lt ha) le_rfl (fun d hd => ?_) (fun _ _ => rfl)
    fun p hp ht => ?_
  · rw [hview, if_neg hd, if_neg hd, update_pending_of_ne ha hd,
      Function.update_eq_self_iff.mpr (hnone d).symm, ← hidle d]
  · have hx := view_pending ha
    have hframes := fun x f => frames_of_view (s := s) (c := async.call) (x := x) (f := f)
    rw [hview, if_pos rfl, if_pos rfl]
    refine ⟨p, hp, ?_⟩
    generalize s.view async.call = v at ht hx hframes ⊢
    cases ht with
    | @pending x f' a' hat hi hs =>
      obtain ⟨rfl, hasync⟩ := single_eq_some.mp hx
      have hdata : x = async.data := congrArg Async.data hasync
      have hf' : f' = f := Option.some.inj ((hframes x f' (single_self x f')).symm.trans (hdata ▸ hf))
      subst hf'
      rw [update_single, update_none, update_some, hat.ack, hat.msg]
      exact .building hat hi hs ⟨rfl, rfl, fun hfin => by cases hfin⟩ ⟨rfl, rfl, rfl, rfl, rfl⟩ rfl rfl
    | _ => cases hx

theorem Tracked.column (h : Tracked D s) {hd : Handler} {f : Frame} {name : String}
    {rest : List String} (hl : s.loop = .building hd) (hf : s.frames hd.msg = some f)
    (hr : hd.rest = name :: rest) : Tracked D (s.readColumn D hd f name rest) := by
  have hview : ∀ d, (s.readColumn D hd f name rest).view d =
      { s.view d with
        handler := if hd.call = d then
            some { hd with result := hd.result ++ [Marshal.column D f.msg name], rest }
          else none } := by
    intro d
    simp [Delivery.readColumn, Option.filter_some, Loop.handler]
  refine h.advance hd.call (h.handler_lt hl) le_rfl (fun d hd' => ?_) (fun _ _ => rfl)
    fun p hp ht => ?_
  · have hnone : (s.view d).handler = none := by
      simp [Delivery.view, hl, Loop.handler, Option.filter_some, hd']
    rw [hview, if_neg hd', ← hnone]
  · have hv := view_handler hl
    have hframes := fun x f => frames_of_view (s := s) (c := hd.call) (x := x) (f := f)
    rw [hview, if_pos rfl]
    refine ⟨p, hp, ?_⟩
    generalize s.view hd.call = v at ht hv hframes ⊢
    cases ht with
    | @building x f' k o hd' hat hi hs ho hh hfin hheld =>
      cases hv
      have hf' : f' = f := by
        have := hframes x f' (single_self x f')
        rw [← hh.msg] at this
        exact Option.some.inj (this.symm.trans hf)
      subst hf'
      refine .building hat hi hs ho ⟨rfl, hh.consumer, hh.ack, hh.msg, ?_⟩ hfin hheld
      rw [← hh.result, hr]
      simp
    | _ => cases hv

theorem Tracked.listener (h : Tracked D s) {hd : Handler} {o : ConsumerAck}
    (hl : s.loop = .building hd) (hr : hd.rest = []) (ho : s.acks hd.ack = some o)
    (registered : Bool) : Tracked D (s.callListener hd o registered) := by
  have hocall : o.call = hd.call := by
    obtain ⟨-, o', -, -, -, ho', hbound, -⟩ := h.of_handler hl
    cases ho.symm.trans ho'
    exact hbound.call
  have hview : ∀ d, (s.callListener hd o registered).view d =
      { s.view d with
        acks := Function.update (s.view d).acks hd.ack
          (if hd.call = d then some { o with held := registered } else none)
        handler := none } := by
    intro d
    simp [Delivery.callListener, Option.filter_some, Loop.handler, hocall]
  refine h.advance hd.call (h.handler_lt hl) le_rfl (fun d hd' => ?_) (fun d hd' => ?_)
    fun p hp ht => ?_
  · have hnone : (s.view d).handler = none := by
      simp [Delivery.view, hl, Loop.handler, Option.filter_some, hd']
    rw [hview, if_neg hd', update_acks_of_ne ho (hocall ▸ hd'), ← hnone]
  · simp [Effect.handoff, hd']
  · have hv := view_handler hl
    have hk := view_acks ho
    have htrace : handoffOf D hd.call (s.callListener hd o registered).trace =
        handoffOf D hd.call s.trace ++ [.deliver hd.consumer hd.result hd.ack] := by
      simp [Effect.handoff]
    rw [hocall] at hk
    rw [hview, if_pos rfl, htrace]
    generalize s.view hd.call = v at ht hv hk ⊢
    cases ht with
    | @building x f k o' hd' hat hi hs hbound hh hfin =>
      cases hv
      obtain ⟨hack, rfl⟩ := single_eq_some.mp hk
      -- with no column left, the object is the whole message
      have hresult : hd.result = messageObject D f.msg := by
        rw [← hh.result, hr]
        simp
      rw [hh.consumer, hresult, hh.ack, update_single, update_some]
      refine ⟨_, hp.concat .deliver, .delivered hat hi hs ⟨hbound.call, hbound.inner, ?_⟩⟩
      intro hf
      exact absurd (hfin.symm.trans hf) (by decide)
    | _ => cases hv

theorem ConsumerAckInner.Unacked.ack {inner : ConsumerAckInner} (h : inner.Unacked)
    (r : CConsumeStatus) : (inner.ack r).AckedWith r := by
  rw [ConsumerAckInner.ack, if_neg (by simp [h.acked])]
  refine ⟨rfl, rfl, fun b hb => ?_⟩
  cases hw : inner.waiter <;> simp_all [WaitState.signal]

theorem Tracked.done (h : Tracked D s) {k x : Nat} {o : ConsumerAck} {f : Frame}
    (ho : s.acks k = some o) (hheld : o.held = true) (hx : o.inner = some x)
    (hf : s.frames x = some f) (args : List Js.JsValue) : Tracked D (s.done k x o f args) := by
  have hcall : f.call = o.call := by
    obtain ⟨f', hf', hat, -⟩ := h.of_bound ho hx
    cases hf.symm.trans hf'
    exact hat.call
  have hview : ∀ d, (s.done k x o f args).view d =
      { s.view d with
        frames := Function.update (s.view d).frames x
          (if o.call = d then some { f with ackInner := f.ackInner.ack (decision args) } else none)
        acks := Function.update (s.view d).acks k
          (if o.call = d then some { o with inner := none } else none) } := by
    intro d
    simp [Delivery.done, Option.filter_some, hcall]
  refine h.advance o.call (h.ack_lt ho) le_rfl (fun d hd => ?_) (fun d hd => ?_) fun p hp ht => ?_
  · rw [hview, if_neg hd, if_neg hd, update_frames_of_ne hf (hcall ▸ hd), update_acks_of_ne ho hd]
  · simp [Effect.handoff, hd]
  · have hk := view_acks ho
    have hframe := view_frames hf
    have htrace : handoffOf D o.call (s.done k x o f args).trace =
        handoffOf D o.call s.trace ++ [.answer k (decision args)] := by
      simp [Effect.handoff]
    rw [hcall] at hframe
    rw [hview, if_pos rfl, if_pos rfl, htrace]
    generalize s.view o.call = v at ht hk hframe ⊢
    cases ht with
    | idle => cases hk
    | entered => cases hk
    | pending => cases hk
    | building _ _ _ _ _ _ hheld' =>
      obtain ⟨-, rfl⟩ := single_eq_some.mp hk
      cases hheld.symm.trans hheld'
    | delivered hat hi hs =>
      -- the first answer: the frame is acked and the ack let go
      obtain ⟨rfl, rfl⟩ := single_eq_some.mp hk
      obtain ⟨rfl, rfl⟩ := single_eq_some.mp hframe
      simp only [update_single]
      exact ⟨_, hp.concat .answer, .decided ⟨hat.call, hat.ack, hat.msg⟩ (hi.ack _) hs ⟨rfl, rfl⟩⟩
    | decided _ _ _ hun =>
      obtain ⟨-, rfl⟩ := single_eq_some.mp hk
      cases hun.inner.symm.trans hx
    | returned => cases hframe

theorem Tracked.doneAgain (h : Tracked D s) {k : Nat} {o : ConsumerAck} (ho : s.acks k = some o)
    (hheld : o.held = true) (hx : o.inner = none) (args : List Js.JsValue) :
    Tracked D (s.doneAgain k o args) := by
  refine h.advance o.call (h.ack_lt ho) le_rfl (fun _ _ => rfl) (fun d hd => ?_) fun p hp ht => ?_
  · simp [Effect.handoff, hd]
  · have hk := view_acks ho
    have htrace : handoffOf D o.call (s.doneAgain k o args).trace =
        handoffOf D o.call s.trace ++ [.answer k (decision args)] := by
      simp [Effect.handoff]
    rw [htrace, show (s.doneAgain k o args).view o.call = s.view o.call from rfl]
    generalize s.view o.call = v at ht hk ⊢
    cases ht with
    | idle => cases hk
    | entered => cases hk
    | pending => cases hk
    | building _ _ _ _ _ _ hheld' =>
      obtain ⟨-, rfl⟩ := single_eq_some.mp hk
      cases hheld.symm.trans hheld'
    | delivered _ _ _ hbound =>
      -- an ack that the program holds is not finalized, so it is still bound
      obtain ⟨-, rfl⟩ := single_eq_some.mp hk
      have hinner := hbound.inner
      rw [hx] at hinner
      split at hinner
      · next hfin => cases hheld.symm.trans (hbound.finalized hfin)
      · cases hinner
    | decided hat hi hs hun =>
      obtain ⟨rfl, rfl⟩ := single_eq_some.mp hk
      exact ⟨_, hp.concat .again, .decided hat hi hs hun⟩
    | returned hun =>
      obtain ⟨rfl, rfl⟩ := single_eq_some.mp hk
      exact ⟨_, hp.concat .late, .returned hun⟩

theorem Tracked.setAck (h : Tracked D s) {k : Nat} {o o' : ConsumerAck} (ho : s.acks k = some o)
    (hpin : ∀ hd, s.loop = .building hd → hd.ack ≠ k) (hcall : o'.call = o.call)
    (hbound : ∀ x, o.Bound o.call x → o'.Bound o.call x) (hun : o.inner = none → o'.inner = none) :
    Tracked D (s.setAck k o') := by
  have hview : ∀ d, (s.setAck k o').view d =
      { s.view d with
        acks := Function.update (s.view d).acks k (if o.call = d then some o' else none) } := by
    intro d
    simp [Option.filter_some, hcall]
  refine h.advance o.call (h.ack_lt ho) le_rfl (fun d hd => ?_) (fun _ _ => rfl) fun p hp ht => ?_
  · rw [hview, if_neg hd, update_acks_of_ne ho hd]
  · have hk := view_acks ho
    have hloop := fun hd => loop_of_view (s := s) (c := o.call) (h := hd)
    rw [hview, if_pos rfl]
    refine ⟨p, hp, ?_⟩
    generalize s.view o.call = v at ht hk hloop ⊢
    cases ht with
    | idle => cases hk
    | entered => cases hk
    | pending => cases hk
    | building _ _ _ _ hh =>
      -- the handler pins the ack it builds for
      obtain ⟨rfl, rfl⟩ := single_eq_some.mp hk
      exact absurd hh.ack (hpin _ (hloop _ rfl))
    | delivered hat hi hs ho' =>
      obtain ⟨rfl, rfl⟩ := single_eq_some.mp hk
      rw [update_single]
      exact .delivered hat hi hs (hbound _ ho')
    | decided hat hi hs ho' =>
      obtain ⟨rfl, rfl⟩ := single_eq_some.mp hk
      rw [update_single]
      exact .decided hat hi hs ⟨hcall, hun ho'.inner⟩
    | returned ho' =>
      obtain ⟨rfl, rfl⟩ := single_eq_some.mp hk
      rw [update_single]
      exact .returned ⟨hcall, hun ho'.inner⟩

theorem Tracked.dropped (h : Tracked D s) {k : Nat} {o : ConsumerAck} (ho : s.acks k = some o)
    (hheld : o.held = true) : Tracked D (s.dropAck k o) := by
  refine h.setAck ho (fun hd hl hk => ?_) rfl (fun x hb => ⟨hb.call, hb.inner, fun _ => rfl⟩) id
  obtain ⟨-, o', -, -, -, ho', -, hheld'⟩ := h.of_handler hl
  cases (hk ▸ ho').symm.trans ho
  cases hheld.symm.trans hheld'

theorem Tracked.finalized (h : Tracked D s) {k : Nat} {o : ConsumerAck} (ho : s.acks k = some o)
    (hheld : o.held = false) (hpins : s.pins k = false) : Tracked D (s.finalizeAck k o) := by
  refine h.setAck ho (fun hd hl hk => ?_) rfl (fun x hb => ⟨hb.call, rfl, fun _ => hheld⟩) fun _ => rfl
  simp [Delivery.pins, hl, hk] at hpins

/-- `uv_cond_wait` returns only with the inner ack acked. -/
def WokenAcked (s : Delivery) : Event → Prop
  | .wake x => ∀ f, s.frames x = some f → f.ackInner.acked = true
  | _ => True

instance (s : Delivery) : (e : Event) → Decidable (WokenAcked s e)
  | .wake x => inferInstanceAs (Decidable (∀ f ∈ s.frames x, f.ackInner.acked = true))
  | .construct _ | .onMessage _ _ _ | .send _ _ | .wait _ | .dispatch _ _ | .readColumn
  | .callListener _ | .listenerEnd | .done _ _ | .drop _ | .finalize _ => isTrue trivial

theorem Tracked.step (h : Tracked D s) {e : Event} (hP : WokenAcked s e)
    (ht : Transition D s e t) : Tracked D t := by
  cases ht with
  | construct => exact h.construct _
  | refused => exact h.refuse _ _
  | entered hx => exact h.enter hx _ _ _ _
  | sent hf hs ha => exact h.sent hf hs ha
  | blocked hf hs _ ha => exact h.blocked hf hs ha
  | waited hf _ _ ha => exact h.left hf ha
  | woken hf => exact h.left hf (hP _ hf)
  | dispatched ha hf hl hk => exact h.dispatched ha hf hl hk
  | column hl hf hr => exact h.column hl hf hr
  | listener hl hr ho => exact h.listener hl hr ho _
  | listenerEnd hl =>
    exact h.frame le_rfl (fun c => by simp [Delivery.view, hl, Loop.handler]) fun _ => rfl
  | doneAgain ho hheld _ hx => exact h.doneAgain ho hheld hx _
  | done ho hheld _ hx hf => exact h.done ho hheld hx hf _
  | dropped ho hheld => exact h.dropped ho hheld
  | finalized ho hheld _ hpins => exact h.finalized ho hheld hpins

end Step

theorem Tracked.init (D : Utf8Decoder) : Tracked D {} where
  tracks _ := ⟨.idle, rfl, .idle⟩
  fresh _ _ := rfl

theorem tracked_of_along {D : Utf8Decoder} {es : List Event} {s : Delivery}
    (hP : (delivery D).Along WokenAcked (delivery D).init es)
    (h : (delivery D).exec (delivery D).init es = some s) : Tracked D s :=
  hP.invariant (fun _ _ _ hs hPe hst => hs.step hPe (step_cases hst)) (Tracked.init D) h

end RocketMQClient.Consume
