import RocketMQClient.Client.Report
import RocketMQClient.Consume.Rest

/-! From `send` to the listener: a process with producers and one with push consumers, and
between them a broker that keeps a message until a call of `OnMessage` reports it consumed. -/

namespace RocketMQClient.System

open Library Marshal Client Consume

/-- `accepted` is what the broker ever took, `stored` what it still keeps. -/
structure Transport where
  producers : JsModule := {}
  consumers : Threads := {}
  accepted : List CMessageExt := []
  stored : List CMessageExt := []

/-- `take` is the broker taking the message of a native call that is made, `remove` the SDK
telling it that the message of a call of `OnMessage` is consumed. -/
inductive Event
  | producers (e : Client.Event)
  | consumers (e : Threads.Event)
  | take (w : Nat) (msgId : List UInt8)
  | remove (call : Nat) (msg : CMessageExt)

namespace Transport

def sent (s : Transport) (w : Nat) : Option CMessage :=
  s.producers.trace.findSome? fun
    | .called v _ (.sendMessage msg) => if v = w then some msg else none
    | _ => none

def admits (s : Transport) : Threads.Event → Bool
  | .onMessage _ _ msg => msg ∈ s.stored
  | _ => true

def reported (s : Transport) (call : Nat) (msg : CMessageExt) : Bool :=
  (s.consumers.trace.any fun
    | .onMessage c _ _ m => c = call ∧ m = msg
    | _ => false) &&
  s.consumers.trace.any fun
    | .returned c status => c = call ∧ status = some .consumeSuccess
    | _ => false

@[simps] def take (s : Transport) (msg : CMessageExt) : Transport :=
  { s with accepted := s.accepted ++ [msg], stored := s.stored ++ [msg] }

@[simps] def remove (s : Transport) (msg : CMessageExt) : Transport :=
  { s with stored := s.stored.erase msg }

def step (D : Utf8Decoder) (s : Transport) : Event → Option Transport
  | .producers e => (Client.step .producer s.producers e).map fun m => { s with producers := m }
  | .consumers e =>
    if s.admits e then (Threads.step D s.consumers e).map fun c => { s with consumers := c }
    else none
  | .take w msgId => (s.sent w).map fun msg => s.take (msg.carried msgId)
  | .remove call msg => if s.reported call msg then some (s.remove msg) else none

end Transport

def transport (D : Utf8Decoder) : Machine Transport Event where
  init := {}
  step := Transport.step D

inductive Transition (D : Utf8Decoder) (s : Transport) : Event → Transport → Prop
  | producers : Client.step .producer s.producers e = some m →
      Transition D s (.producers e) { s with producers := m }
  | consumers : (∀ x ptr msg, e = .onMessage x ptr msg → msg ∈ s.stored) →
      Threads.Transition D s.consumers e c → Transition D s (.consumers e) { s with consumers := c }
  | take : .called w self (.sendMessage msg) ∈ s.producers.trace →
      Transition D s (.take w msgId) (s.take (msg.carried msgId))
  | remove : .onMessage call ptr n msg ∈ s.consumers.trace →
      .returned call (some .consumeSuccess) ∈ s.consumers.trace →
      Transition D s (.remove call msg) (s.remove msg)

section Step

variable {D : Utf8Decoder} {s t : Transport}

theorem called_of_sent {w : Nat} {msg : CMessage} (h : s.sent w = some msg) :
    ∃ self, .called w self (.sendMessage msg) ∈ s.producers.trace := by
  obtain ⟨e, he, hmsg⟩ := List.exists_of_findSome?_eq_some h
  split at hmsg
  · split_ifs at hmsg with hw
    cases hmsg
    exact ⟨_, hw ▸ he⟩
  · cases hmsg

theorem of_reported {call : Nat} {msg : CMessageExt} (h : s.reported call msg = true) :
    (∃ ptr n, .onMessage call ptr n msg ∈ s.consumers.trace) ∧
      .returned call (some .consumeSuccess) ∈ s.consumers.trace := by
  obtain ⟨honMessage, hreturned⟩ := Bool.and_eq_true_iff.mp h
  obtain ⟨e, he, hm⟩ := List.any_eq_true.mp honMessage
  obtain ⟨e', he', hr⟩ := List.any_eq_true.mp hreturned
  constructor
  · split at hm
    · obtain ⟨rfl, rfl⟩ := of_decide_eq_true hm
      exact ⟨_, _, he⟩
    · cases hm
  · split at hr
    · obtain ⟨rfl, rfl⟩ := of_decide_eq_true hr
      exact he'
    · cases hr

theorem step_cases {e : Event} (h : (transport D).step s e = some t) : Transition D s e t := by
  cases e with
  | producers e =>
    obtain ⟨m, hm, rfl⟩ := Option.map_eq_some_iff.mp h
    exact .producers hm
  | consumers e =>
    simp only [transport, Transport.step] at h
    split_ifs at h with hadmits
    obtain ⟨c, hc, rfl⟩ := Option.map_eq_some_iff.mp h
    refine .consumers ?_ (Threads.step_cases hc)
    rintro x ptr msg rfl
    exact of_decide_eq_true hadmits
  | take w msgId =>
    obtain ⟨msg, hmsg, rfl⟩ := Option.map_eq_some_iff.mp h
    obtain ⟨self, hcalled⟩ := called_of_sent hmsg
    exact .take hcalled
  | remove call msg =>
    simp only [transport, Transport.step] at h
    split_ifs at h with hreported
    cases h
    obtain ⟨⟨ptr, n, honMessage⟩, hreturned⟩ := of_reported hreported
    exact .remove honMessage hreturned

end Step

section Traces

variable {D : Utf8Decoder} {w self : Nat} {msg : CMessage} {callback : Option Nat}

theorem queued_of_called {m : JsModule} (h : Told m) {job : Job}
    (hc : .called w self job ∈ m.trace) : ∃ given, .queued w self job given ∈ m.trace := by
  have hmem := (mem_effectsOf (w := w) rfl).mpr hc
  have hlt : w < m.nextWorker := by
    by_contra hge
    simp [(h.fresh w (Nat.le_of_not_lt hge)).2] at hmem
  have hstory := h.story w hlt
  suffices hq : ∃ given, .queued w self job given ∈ effectsOf w m.trace by
    obtain ⟨given, hq⟩ := hq
    exact ⟨given, (mem_effectsOf rfl).mp hq⟩
  generalize effectsOf w m.trace = l, m.workers w = wk? at hstory hmem
  have called_notMem : ∀ wk : Worker, .called w self job ∉ wk.closing w := by
    intro wk
    unfold Worker.closing Worker.statusEffect
    split <;> simp
  cases hstory with
  | queued => simp at hmem
  | @called _ _ given | @returned _ _ given =>
    obtain ⟨rfl, rfl⟩ : self = _ ∧ job = _ := by simpa using hmem
    exact ⟨given, by simp⟩
  | @completed _ _ given =>
    obtain ⟨rfl, rfl⟩ : self = _ ∧ job = _ := by simpa [called_notMem] using hmem
    exact ⟨given, by simp⟩

theorem queued_of_changeStatus {m : JsModule} {required next : StartStatus} {i : Nat}
    {method : Method} {given : Option Nat}
    (hq : .queued w self (.sendMessage msg) callback ∈
      (m.changeStatus required next i method given).2.trace) :
    .queued w self (.sendMessage msg) callback ∈ m.trace := by
  unfold JsModule.changeStatus at hq
  split at hq
  · simpa [JsModule.startOrShutdown] using hq
  · exact hq

theorem sent_of_call {k : ClassKind} {m : JsModule} {i : Nat} {c : Call}
    {out : CallResult × JsModule} (h : m.call k i c = some out)
    (hq : .queued w self (.sendMessage msg) callback ∈ out.2.trace) :
    .queued w self (.sendMessage msg) callback ∈ m.trace ∨
      ∃ topic body options given r, c = .send topic body options given ∧
        send topic body options given = .ok r ∧ msg = r.message := by
  cases c with
  | start given | shutdown given =>
    cases h
    exact .inl (queued_of_changeStatus hq)
  | send topic body options given =>
    simp only [JsModule.call] at h
    split_ifs at h
    unfold JsModule.send at h
    split at h
    · cases h
      exact .inl hq
    · next r hr =>
      obtain ⟨msg, hmsg, rfl⟩ := Option.map_eq_some_iff.mp h
      obtain ⟨-, rfl⟩ := send_eq_some.mp hmsg
      rcases List.mem_append.mp hq with hold | hnew
      · exact .inl hold
      · cases List.mem_singleton.mp hnew
        exact .inr ⟨topic, body, options, given, r, rfl, hr, rfl⟩
  | subscribe topic expression sdk =>
    simp only [JsModule.call] at h
    split_ifs at h
    refine .inl ?_
    unfold JsModule.subscribe at h
    split at h
    · split at h
      · split_ifs at h <;> cases h
        · simpa using hq
        · exact hq
      · cases h
        exact hq
    · cases h
      exact hq

theorem sent_of_step {k : ClassKind} {m m' : JsModule} {e : Client.Event}
    (h : Client.step k m e = some m') (hq : .queued w self (.sendMessage msg) callback ∈ m'.trace) :
    .queued w self (.sendMessage msg) callback ∈ m.trace ∨
      ∃ i topic body options given r, e = .call i (.send topic body options given) ∧
        send topic body options given = .ok r ∧ msg = r.message := by
  by_cases hc : ∃ i c, e = .call i c
  · obtain ⟨i, c, rfl⟩ := hc
    simp only [Client.step] at h
    split_ifs at h
    obtain ⟨out, hout, rfl⟩ := Option.map_eq_some_iff.mp h
    rcases sent_of_call hout hq with hold | ⟨topic, body, options, given, r, rfl, hr, hmsg⟩
    · exact .inl hold
    · exact .inr ⟨i, topic, body, options, given, r, rfl, hr, hmsg⟩
  · refine .inl ?_
    cases Client.step_cases h with
    | construct => exact hq
    | rejected | accepted => exact absurd ⟨_, _, rfl⟩ hc
    | executing | executed | failed | sendCompleted => simpa using hq
    | @settled v wk method =>
      obtain ⟨es, htrace, hes⟩ := settle_trace (m.finish v wk) v wk.self method
      have hnot : ∀ e ∈ es, e ≠ .queued w self (.sendMessage msg) callback := by
        rintro e he rfl
        cases hes _ he
      rw [JsModule.answer_trace, htrace] at hq
      have hold : .queued w self (.sendMessage msg) callback ∈ (m.finish v wk).trace := by
        have hmem : .queued w self (.sendMessage msg) callback ∉ es := fun he => hnot _ he rfl
        simpa [hmem] using hq
      simpa using hold

theorem onMessage_notMem_returns (f : Threads.Activation) (inner : ConsumerAckInner.State)
    {call ptr n : Nat} {m : CMessageExt} : .onMessage call ptr n m ∉ Threads.returns f inner := by
  unfold Threads.returns
  split <;> simp

theorem onMessage_notMem_answers (q : Threads.Acking) (o : ConsumerAck) (f : Threads.Activation)
    {call ptr n : Nat} {m : CMessageExt} : .onMessage call ptr n m ∉ Threads.answers q o f := by
  unfold Threads.answers
  split <;> simp

theorem onMessage_of_step {s t : Threads} {e : Threads.Event} (hst : Threads.Transition D s e t)
    {call ptr n : Nat} {m : CMessageExt} (h : .onMessage call ptr n m ∈ t.trace) :
    .onMessage call ptr n m ∈ s.trace ∨ ∃ x, e = .onMessage x ptr m := by
  cases hst with
  | @entered x =>
    rcases List.mem_append.mp h with hold | hnew
    · exact .inl hold
    · cases List.mem_singleton.mp hnew
      exact .inr ⟨x, rfl⟩
  | construct | refused | listener | doneAgain => exact .inl (by simpa using h)
  | wait => exact .inl (by simpa [onMessage_notMem_returns] using h)
  | ack => exact .inl (by simpa [onMessage_notMem_answers] using h)
  | _ => exact .inl h

end Traces

def Requested (es : List Event) (r : SendRequest) : Prop :=
  ∃ self topic body options callback,
    .producers (.call self (.send topic body options callback)) ∈ es ∧
      send topic body options callback = .ok r

/-- The listener got the message, and first answered that it is consumed. -/
def Consumed (D : Utf8Decoder) (trace : List Consume.Effect) (msg : CMessageExt) : Prop :=
  ∃ call n k, .listener call n (messageObject D msg) k ∈ trace ∧
    (decisionsOn k trace).head? = some .consumeSuccess

structure Sound (D : Utf8Decoder) (es : List Event) (s : Transport) : Prop where
  consumers : Threads.Sound D s.consumers
  told : Told s.producers
  requested : ∀ w self msg callback,
    .queued w self (.sendMessage msg) callback ∈ s.producers.trace →
      ∃ r, Requested es r ∧ msg = r.message
  accepted : ∀ msg ∈ s.accepted, ∃ r msgId, Requested es r ∧
    msg = r.message.carried msgId
  stored : ∀ msg ∈ s.stored, msg ∈ s.accepted
  offered : ∀ call ptr n msg, .onMessage call ptr n msg ∈ s.consumers.trace → msg ∈ s.accepted
  kept : ∀ msg ∈ s.accepted, msg ∈ s.stored ∨ Consumed D s.consumers.trace msg

section Sound

variable {D : Utf8Decoder} {es : List Event} {s t : Transport} {e : Event}

theorem Requested.concat {r : SendRequest} (h : Requested es r) (e : Event) :
    Requested (es ++ [e]) r := by
  obtain ⟨self, topic, body, options, callback, hmem, hr⟩ := h
  exact ⟨self, topic, body, options, callback, List.mem_append_left _ hmem, hr⟩

theorem decisionsOn_grows {k : Nat} {trace trace' : List Consume.Effect} (h : trace <+: trace')
    {d : CConsumeStatus} (hd : (decisionsOn k trace).head? = some d) :
    (decisionsOn k trace').head? = some d := by
  obtain ⟨l, rfl⟩ := h
  simp only [decisionsOn, List.filterMap_append] at hd ⊢
  rw [List.head?_append, hd]
  rfl

theorem Consumed.grows {trace trace' : List Consume.Effect} {msg : CMessageExt}
    (h : Consumed D trace msg) (hgrow : trace <+: trace') : Consumed D trace' msg := by
  obtain ⟨call, n, k, hlistener, hd⟩ := h
  exact ⟨call, n, k, hgrow.subset hlistener, decisionsOn_grows hgrow hd⟩

theorem Sound.handsOver (h : Sound D es s) : HandsOver D s.consumers.trace := by
  obtain ⟨a, hsim, hsync⟩ := h.consumers.simulated
  exact hsim.handsOver hsync

theorem consumed_of_returned {trace : List Consume.Effect} (h : HandsOver D trace)
    {call ptr n : Nat} {msg : CMessageExt} (hm : .onMessage call ptr n msg ∈ trace)
    (hr : .returned call (some .consumeSuccess) ∈ trace) : Consumed D trace msg := by
  obtain ⟨past, post, rfl⟩ := List.append_of_mem hr
  obtain ⟨-, n', o, k, r, hpast, hd, hresult⟩ := h.justified past _ post rfl
  cases hresult
  have hlistener := List.mem_append_left
    (.returned call (some .consumeSuccess) :: post) hpast
  obtain ⟨ptr', msg', hm', rfl⟩ := h.onMessage_of_listener hlistener
  obtain ⟨-, rfl⟩ := h.onMessage_unique hm' hm
  exact ⟨call, n', k, hlistener, decisionsOn_grows (List.prefix_append _ _) hd⟩

theorem Sound.init (D : Utf8Decoder) : Sound D [] {} where
  consumers := .init D
  told := Told.init
  requested := by simp
  accepted := by simp
  stored := by simp
  offered := by simp
  kept := by simp

theorem Sound.step (h : Sound D es s) (he : ∀ x, e ≠ .consumers (.wait x .wake))
    (hst : Transition D s e t) : Sound D (es ++ [e]) t := by
  have hrequested : ∀ w self msg callback,
      .queued w self (.sendMessage msg) callback ∈ s.producers.trace →
        ∃ r, Requested (es ++ [e]) r ∧ msg = r.message := by
    intro w self msg callback hq
    obtain ⟨r, hr, hmsg⟩ := h.requested w self msg callback hq
    exact ⟨r, hr.concat e, hmsg⟩
  have haccepted : ∀ msg ∈ s.accepted, ∃ r msgId, Requested (es ++ [e]) r ∧
      msg = r.message.carried msgId := by
    intro msg hmsg
    obtain ⟨r, msgId, hr, hcarried⟩ := h.accepted msg hmsg
    exact ⟨r, msgId, hr.concat e, hcarried⟩
  cases hst with
  | @producers e m hm =>
    refine { h with
      told := h.told.step (Client.step_cases hm)
      requested := ?_
      accepted := haccepted }
    intro w self msg callback hq
    rcases sent_of_step hm hq with hold | ⟨i, topic, body, options, given, r, rfl, hr, hmsg⟩
    · exact hrequested w self msg callback hold
    · exact ⟨r, ⟨i, topic, body, options, given, by simp, hr⟩, hmsg⟩
  | @consumers e c hoffer hc =>
    refine { h with
      consumers := h.consumers.step ?_ hc
      requested := hrequested
      accepted := haccepted
      offered := fun call ptr n msg hm => ?_
      kept := fun msg hmsg => (h.kept msg hmsg).imp_right fun hcons => hcons.grows hc.grows }
    · rintro ⟨x, rfl⟩
      exact he x rfl
    · rcases onMessage_of_step hc hm with hold | ⟨x, rfl⟩
      · exact h.offered call ptr n msg hold
      · exact h.stored msg (hoffer x ptr msg rfl)
  | take hcalled =>
    obtain ⟨given, hq⟩ := queued_of_called h.told hcalled
    obtain ⟨r, hr, rfl⟩ := hrequested _ _ _ _ hq
    refine { h with
      requested := hrequested
      accepted := fun msg hmsg => ?_
      stored := fun msg hmsg => ?_
      offered := fun call ptr n msg hm => List.mem_append_left _ (h.offered call ptr n msg hm)
      kept := fun msg hmsg => ?_ }
    · rcases List.mem_append.mp hmsg with hold | hnew
      · exact haccepted msg hold
      · exact ⟨r, _, hr, List.mem_singleton.mp hnew⟩
    · exact (List.mem_append.mp hmsg).elim (fun hold => List.mem_append_left _ (h.stored msg hold))
        fun hnew => List.mem_append_right _ hnew
    · rcases List.mem_append.mp hmsg with hold | hnew
      · exact (h.kept msg hold).imp_left (List.mem_append_left _)
      · exact .inl (List.mem_append_right _ hnew)
  | @remove call msg ptr n hm hr =>
    refine { h with
      requested := hrequested
      accepted := haccepted
      stored := fun m hmem => h.stored m (List.mem_of_mem_erase hmem)
      kept := fun m hmem => ?_ }
    by_cases hsame : m = msg
    · subst hsame
      exact .inr (consumed_of_returned h.handsOver hm hr)
    · exact (h.kept m hmem).imp_left (List.mem_erase_of_ne hsame).mpr

theorem sound_of_exec (hes : ∀ x, .consumers (.wait x .wake) ∉ es)
    (h : (transport D).exec (transport D).init es = some s) : Sound D es s := by
  refine Machine.exec_history
    (I := fun es s => (∀ x, .consumers (.wait x .wake) ∉ es) → Sound D es s)
    (fun _ => .init D) (fun es s e t hs hst hes => ?_) h hes
  refine (hs fun x hx => hes x (List.mem_append_left _ hx)).step ?_ (step_cases hst)
  rintro x rfl
  exact hes x (by simp)

theorem Sound.requested_of_listener (h : Sound D es s) {call n k : Nat} {o : MessageObject}
    (hl : .listener call n o k ∈ s.consumers.trace) :
    ∃ r msgId, Requested es r ∧ o = messageObject D (r.message.carried msgId) := by
  obtain ⟨ptr, msg, hm, rfl⟩ := h.handsOver.onMessage_of_listener hl
  obtain ⟨r, msgId, hr, rfl⟩ := h.accepted msg (h.offered call ptr n msg hm)
  exact ⟨r, msgId, hr, rfl⟩

/-- Whatever the threads, the pool and the broker do, as long as `uv_cond_wait` returns only
after a signal: what a listener gets was passed to `send`, and is read as it was up to the
first NUL of each string; and a message the broker has accepted is still stored, or a
listener got it and the program said first that it is consumed. -/
theorem nothing_invented_nothing_lost (D : Utf8Decoder) {es : List Event} {s : Transport}
    (hes : ∀ x, .consumers (.wait x .wake) ∉ es)
    (h : (transport D).exec (transport D).init es = some s) :
    (∀ call n o k, .listener call n o k ∈ s.consumers.trace →
        ∃ r, Requested es r ∧ received o = r.read D) ∧
      ∀ msg ∈ s.accepted, msg ∈ s.stored ∨ Consumed D s.consumers.trace msg := by
  have hsound := sound_of_exec hes h
  refine ⟨fun call n o k hl => ?_, hsound.kept⟩
  obtain ⟨r, msgId, hr, rfl⟩ := hsound.requested_of_listener hl
  exact ⟨r, hr, received_message D r msgId⟩

def relayed : List Event :=
  [.producers .construct,
    .producers (.call 0 (.send (.string "t") (.string "b") (.object []) none)),
    .producers (.execute 0), .take 0 [], .consumers (.construct 0),
    .consumers (.onMessage 10 0 ⟨[116], [], [], [98], []⟩), .consumers (.malloc 10 20),
    .consumers (.advance 10), .consumers (.advance 10), .consumers (.advance 10),
    .consumers (.wait 10 .waitLock), .consumers (.wait 10 .wait), .consumers (.dispatch 20 30),
    .consumers .readColumn, .consumers .readColumn, .consumers .readColumn, .consumers .readColumn,
    .consumers .readColumn, .consumers (.callListener true), .consumers (.done 30 []),
    .consumers .ackLock, .consumers .ack, .consumers .ack, .consumers .ack, .consumers .ack,
    .consumers .forget, .consumers (.wait 10 .relock), .consumers (.wait 10 .wait),
    .consumers (.leave 10), .remove 0 ⟨[116], [], [], [98], []⟩]

theorem nothing_lost_relayed : ∃ s,
    (transport replacing).exec (transport replacing).init relayed = some s ∧ s.stored = [] ∧
      (∀ call n o k, .listener call n o k ∈ s.consumers.trace →
        ∃ r, Requested relayed r ∧ received o = r.read replacing) ∧
        ∀ msg ∈ s.accepted, msg ∈ s.stored ∨ Consumed replacing s.consumers.trace msg :=
  ⟨_, rfl, rfl, nothing_invented_nothing_lost replacing (by simp [relayed]) rfl⟩

end Sound

end RocketMQClient.System
