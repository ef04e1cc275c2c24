import RocketMQClient.Consume.Rest

namespace RocketMQClient.Consume.Threads

open Library Marshal

/-- The SDK delivers this message only, the program constructs nothing more, and `uv_cond_wait`
returns only after a signal. -/
def Event.delivers (msg : CMessageExt) : Event → Prop
  | .construct _ => False
  | .onMessage _ _ m => m = msg
  | .wait _ e => e ≠ .wake
  | _ => True

section Deliverable

variable {D : Utf8Decoder} {s t u : Threads} {e : Event} {msg : CMessageExt} {x a k n : Nat}

theorem Event.delivers.not_spurious (he : e.delivers msg) : ¬Spurious e := by
  rintro ⟨x, rfl⟩
  exact he rfl

theorem Event.delivers_of_runs (he : e.runs = true) : e.delivers msg := by
  cases e with
  | construct | onMessage => cases he
  | wait x i =>
    rintro rfl
    cases he
  | _ => trivial

abbrev Delivers (D : Utf8Decoder) (msg : CMessageExt) (s t : Threads) : Prop :=
  (threads D).Reaches (fun _ e => e.delivers msg) s t

theorem Delivers.head (hst : Transition D s e t) (he : e.delivers msg) (h : Delivers D msg t u) :
    Delivers D msg s u :=
  Machine.Reaches.head he hst.enabled h

theorem Delivers.last (hst : Transition D s e t) (he : e.delivers msg) : Delivers D msg s t :=
  Machine.Reaches.single he hst.enabled

theorem delivers_sent (msg : CMessageExt) {consumerPtr : Nat}
    (hptr : s.registry consumerPtr = some (some n))
    (hx : s.frames x = none) (ha : s.handles a = none) :
    ∃ t, Delivers D msg s t ∧
      t.frames x = some { call := s.nextCall, param := ⟨n, x, x⟩, msg, point := .waitResult } ∧
      t.handles a = some { call := s.nextCall, phase := .pending, data := some x } ∧
      (∀ k, t.acks k = s.acks k) ∧ t.loop = s.loop ∧ t.acking = s.acking ∧
      t.trace = s.trace ++ [.onMessage s.nextCall consumerPtr n msg] := by
  have hlookup : s.registry.lookup consumerPtr = (s.registry, some n) := by
    simp [Registry.lookup, hptr]
  refine ⟨_, .head (.entered hx hlookup) rfl <|
    .head (.malloc (Function.update_self ..) rfl ha) trivial <|
    .head (.init (Function.update_self ..) rfl (Function.update_self ..)) trivial <|
    .head (.data (Function.update_self ..) rfl (Function.update_self ..)) trivial <|
    .last (.send (Function.update_self ..) rfl (Function.update_self ..)) trivial,
    by simp, by simp, fun k => by simp, by simp, by simp, by simp⟩

theorem delivers_columns {h : Handler} {f : Activation} (hl : s.loop = .building a h)
    (hf : s.frames h.msg = some f) :
    ∃ h', Delivers D msg s (s.setLoop (.building a h')) ∧ h'.rest = [] ∧ h'.ack = h.ack := by
  generalize hrest : h.rest = rest
  induction rest generalizing s h with
  | nil => exact ⟨h, by rw [← hl]; exact .refl s, hrest, rfl⟩
  | cons name rest ih =>
    obtain ⟨h', hreach, hnil, hack⟩ := @ih (s.readColumn D a h f name rest)
      { h with result := h.result ++ [column D f.msg name], rest } rfl hf rfl
    exact ⟨h', .head (.column hl hf hrest) trivial hreach, hnil, hack⟩

theorem delivers_heard (msg : CMessageExt) {f : Activation} {v : UvAsync} (hv : s.handles a = some v)
    (hp : v.phase = .pending) (hx : v.data = some x) (hf : s.frames x = some f)
    (hmsg : f.param.msg = x) (hl : s.loop = .idle) (hq : s.acking = none) (hk : s.acks k = none) :
    ∃ t, Delivers D msg s t ∧ t.frames x = some f ∧ t.loop = .listening a k ∧ t.acking = none ∧
      t.acks k = some { inner := some f.param.ack, call := v.call, held := true } ∧
      s.trace <+: t.trace := by
  have hdispatch : Transition D s (.dispatch a k) (s.dispatch a k v f) :=
    .dispatched hv hx hf hl hp hq hk
  obtain ⟨h', hcolumns, hnil, hack⟩ :=
    @delivers_columns D (s.dispatch a k v f) msg a _ f rfl (by simpa [hmsg] using hf)
  have hk' : h'.ack = k := hack
  have hlistener : Transition D ((s.dispatch a k v f).setLoop (.building a h')) (.callListener true)
      (((s.dispatch a k v f).setLoop (.building a h')).callListener a h'
        { inner := some f.param.ack, call := v.call } true) :=
    .listener rfl hnil (by simp [hk'])
  refine ⟨_, .head hdispatch trivial (hcolumns.trans (Delivers.last hlistener trivial)),
    ?_, ?_, ?_, ?_, ?_⟩
  · simpa using hf
  · simp [hk']
  · simpa using hq
  · simp [hk']
  · simp

theorem delivers_answered (msg : CMessageExt) {f : Activation} {o : ConsumerAck}
    (hf : s.frames x = some f)
    (hinner : f.inner = {}) (ho : s.acks k = some o) (hx : o.inner = some x) (hheld : o.held = true)
    (hl : s.loop = .listening a k) (hq : s.acking = none) :
    ∃ t inner, Delivers D msg s t ∧ t.frames x = some { f with inner } ∧ inner.acked = true ∧
      inner.status = some .consumeSuccess ∧ inner.mutex = .free ∧ inner.waiter = .entry ∧
      s.trace <+: t.trace := by
  have hjs : s.runsJs = true := by simp [runsJs, hl, hq]
  obtain ⟨call, param, m, point, inner⟩ := f
  obtain rfl : inner = {} := hinner
  have hdone : Transition D s (.done k []) (s.setAcking (some { ack := k, inner := x, args := [] })) :=
    .done ho hheld hjs hx
  refine ⟨_, { acked := true, status := some .consumeSuccess, order := [.consumeSuccess] },
    .head hdone trivial <|
    .head (.ackLock rfl hf rfl (.ackLock _ rfl)) trivial <|
    .head (.ack rfl ho (Function.update_self ..) rfl (.ack rfl)) trivial <|
    .head (.ack rfl ho (Function.update_self ..) rfl (.ack rfl)) trivial <|
    .head (.ack rfl ho (Function.update_self ..) rfl (.ack rfl)) trivial <|
    .last (.ack rfl ho (Function.update_self ..) rfl (.ack rfl)) trivial,
    ?_, rfl, rfl, rfl, rfl, ?_⟩
  · simp [ConsumerAckInner.ackStep, decision]
  · simp

theorem delivers_returned (msg : CMessageExt) {f : Activation} (hf : s.frames x = some f)
    (hp : f.point = .waitResult)
    (hacked : f.inner.acked = true) (hm : f.inner.mutex = .free) (hw : f.inner.waiter = .entry) :
    ∃ t, Delivers D msg s t ∧ .returned f.call f.inner.status ∈ t.trace ∧ s.trace <+: t.trace := by
  have hlock : ConsumerAckInner.Transition f.inner .waitLock
      { f.inner with mutex := .wait .check, waiter := .inside } := .waitLock hm hw
  have hcheck : ConsumerAckInner.Transition { f.inner with mutex := .wait .check, waiter := .inside }
      .wait { f.inner with mutex := .wait .found, waiter := .inside } := by
    have hstep : ConsumerAckInner.Transition _ .wait (ConsumerAckInner.waitStep
      { f.inner with mutex := .wait .check, waiter := .inside } .check) := .wait rfl
    rwa [ConsumerAckInner.waitStep, if_pos hacked] at hstep
  have hfound : ConsumerAckInner.Transition { f.inner with mutex := .wait .found, waiter := .inside }
      .wait { f.inner with mutex := .free, waiter := .returned f.inner.status } :=
    @ConsumerAckInner.Transition.wait _ .found rfl
  refine ⟨_, .head (.wait hf hp rfl hlock) (Event.delivers_of_runs rfl) <|
    .head (.wait (Function.update_self ..) hp rfl hcheck) (Event.delivers_of_runs rfl) <|
    .last (.wait (Function.update_self ..) hp rfl hfound) (Event.delivers_of_runs rfl), ?_, ?_⟩
  · simp [returns]
  · simp [List.append_assoc]

theorem Transition.registered {ptr : Nat} (hst : Transition D s e t)
    (h : s.registry ptr = some (some n)) : t.registry ptr = some (some n) := by
  cases hst with
  | @construct consumerPtr hnew =>
    have hne : ptr ≠ consumerPtr := by
      rintro rfl
      exact hnew n h
    simpa [Function.update_of_ne hne] using h
  | refused _ hl => exact (Registry.lookup_none hl ptr n).mpr h
  | entered _ hl =>
    obtain ⟨rfl, -⟩ := Registry.lookup_some hl
    exact h
  | _ => exact h

structure Ready (D : Utf8Decoder) (ptr n : Nat) (s : Threads) : Prop where
  sound : Sound D s
  registered : s.registry ptr = some (some n)

variable {ptr : Nat}

theorem Ready.delivers (h : Ready D ptr n s) (hst : Delivers D msg s t) : Ready D ptr n t := by
  refine hst.invariant (fun s e t hs he hst => ?_) h
  have htransition := step_cases hst
  exact ⟨hs.sound.step he.not_spurious htransition, htransition.registered hs.registered⟩

theorem Sound.rests (h : Sound D s) (msg : CMessageExt) :
    ∃ t, Delivers D msg s t ∧ Sound D t ∧ AtRest D t := by
  have progress : ∀ s : Threads, Sound D s →
      AtRest D s ∨ ∃ t, Delivers D msg s t ∧ Sound D t ∧ effort t < effort s := by
    intro s hs
    by_cases hrest : AtRest D s
    · exact .inl hrest
    · simp only [AtRest, not_forall] at hrest
      obtain ⟨e, he, hne⟩ := hrest
      obtain ⟨t, ht⟩ := Option.ne_none_iff_exists'.mp hne
      have hdelivers : e.delivers msg := Event.delivers_of_runs he
      have hst := step_cases ht
      exact .inr ⟨t, .last hst hdelivers, hs.step hdelivers.not_spurious hst,
        hst.effort_lt hs.finite he⟩
  exact Machine.exists_reaches progress h

theorem Ready.deliverable (h : Ready D ptr n s) (msg : CMessageExt) :
    ∃ t call, Delivers D msg s t ∧ .onMessage call ptr n msg ∈ t.trace ∧
      .returned call (some .consumeSuccess) ∈ t.trace := by
  obtain ⟨r, hr, -, hrest⟩ := h.sound.rests msg
  have hready := h.delivers hr
  obtain ⟨x, hx⟩ := hready.sound.finite.frames.fresh
  obtain ⟨k, hk⟩ := hready.sound.finite.acks.fresh
  obtain ⟨t₁, h₁, hf₁, ha₁, hk₁, hl₁, hq₁, htrace₁⟩ :=
    delivers_sent msg hready.registered hx (hready.sound.no_handle hrest 0)
  obtain ⟨t₂, h₂, hf₂, hl₂, hq₂, hk₂, hgrow₂⟩ := delivers_heard msg ha₁ rfl rfl hf₁ rfl
    (hl₁.trans (hready.sound.loop_idle hrest)) (hq₁.trans (hready.sound.not_acking hrest))
    ((hk₁ k).trans hk)
  obtain ⟨t₃, inner, h₃, hf₃, hacked, hstatus, hmutex, hwaiter, hgrow₃⟩ :=
    delivers_answered msg hf₂ rfl hk₂ rfl rfl hl₂ hq₂
  obtain ⟨t₄, h₄, hreturned, hgrow₄⟩ := delivers_returned msg hf₃ rfl hacked hmutex hwaiter
  refine ⟨t₄, r.nextCall, hr.trans (h₁.trans (h₂.trans (h₃.trans h₄))), ?_, hstatus ▸ hreturned⟩
  have hgrow := hgrow₂.trans (hgrow₃.trans hgrow₄)
  exact hgrow.subset (htrace₁ ▸ List.mem_append_right _ (List.mem_singleton_self _))

end Deliverable

end RocketMQClient.Consume.Threads
