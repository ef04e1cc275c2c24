import RocketMQClient.Consume.Tracking

namespace RocketMQClient.Consume

open Library Marshal Handoff

def decisionsOn (k : Nat) (trace : List Effect) : List CConsumeStatus :=
  trace.filterMap fun
    | .done _ ack args => if ack = k then some (decision args) else none
    | _ => none

def Effect.Justified (D : Utf8Decoder) (past : List Effect) : Effect → Prop
  | .constructed consumerPtr _ => ∀ n, .constructed consumerPtr n ∉ past
  | .onMessage c consumerPtr n _ =>
    .constructed consumerPtr n ∈ past ∧ ∀ ptr m msg, .onMessage c ptr m msg ∉ past
  | .refused _ consumerPtr => ∀ n, .constructed consumerPtr n ∉ past
  | .listener c n o k =>
    (∃ consumerPtr msg, .onMessage c consumerPtr n msg ∈ past ∧ o = messageObject D msg) ∧
      (∀ m o' k', .listener c m o' k' ∉ past) ∧ ∀ c' m o', .listener c' m o' k ∉ past
  | .done c k _ => ∃ n o, .listener c n o k ∈ past
  | .returned c result =>
    (∀ result', .returned c result' ∉ past) ∧
      ∃ n o k r, .listener c n o k ∈ past ∧ (decisionsOn k past).head? = some r ∧ result = some r

/-- Every call is a handoff, and every effect has its cause before it. -/
structure HandsOver (D : Utf8Decoder) (trace : List Effect) : Prop where
  refines : ∀ c, ∃ p, Accepts (handoffOf D c trace) p
  justified : Preceded (Effect.Justified D) trace

def Effect.onAck : Effect → Option (Nat × Nat)
  | .listener c _ _ k => some (k, c)
  | .done c k _ => some (k, c)
  | _ => none

structure Synchronous (D : Utf8Decoder) (s : Delivery) : Prop where
  tracked : Tracked D s
  justified : Preceded (Effect.Justified D) s.trace
  onAck : ∀ e ∈ s.trace, ∀ k c, e.onAck = some (k, c) → ∃ o, s.acks k = some o ∧ o.call = c
  registered : ∀ ptr n, s.registry ptr = some (some n) ↔ .constructed ptr n ∈ s.trace

section Past

variable {D : Utf8Decoder} {past : List Effect} {c : Nat}

theorem mem_handoffOf {e : Effect} {x : Handoff.Event Nat MessageObject Nat CConsumeStatus}
    (he : e ∈ past) (hx : e.handoff D c = some x) : x ∈ handoffOf D c past :=
  List.mem_filterMap.mpr ⟨e, he, hx⟩

theorem call_mem_handoffOf {n : Nat} {o : MessageObject} (h : .call n o ∈ handoffOf D c past) :
    ∃ consumerPtr msg, .onMessage c consumerPtr n msg ∈ past ∧ o = messageObject D msg := by
  obtain ⟨e, he, hx⟩ := List.mem_filterMap.mp h
  cases e with
  | onMessage d consumerPtr m msg =>
    simp only [Effect.handoff] at hx
    split_ifs at hx with hd
    cases hx
    exact ⟨consumerPtr, msg, hd ▸ he, rfl⟩
  | constructed | refused => cases hx
  | listener | done | returned =>
    simp only [Effect.handoff] at hx
    split_ifs at hx
    cases hx

theorem deliver_mem_handoffOf {n k : Nat} {o : MessageObject}
    (h : .deliver n o k ∈ handoffOf D c past) : .listener c n o k ∈ past := by
  obtain ⟨e, he, hx⟩ := List.mem_filterMap.mp h
  cases e with
  | listener d m o' k' =>
    simp only [Effect.handoff] at hx
    split_ifs at hx with hd
    cases hx
    exact hd ▸ he
  | constructed | refused => cases hx
  | onMessage | done | returned =>
    simp only [Effect.handoff] at hx
    split_ifs at hx
    cases hx

theorem finish_mem_handoffOf {r : Option CConsumeStatus} (h : .finish r ∈ handoffOf D c past) :
    .returned c r ∈ past := by
  obtain ⟨e, he, hx⟩ := List.mem_filterMap.mp h
  cases e with
  | returned d r' =>
    simp only [Effect.handoff] at hx
    split_ifs at hx with hd
    cases hx
    exact hd ▸ he
  | constructed | refused => cases hx
  | onMessage | listener | done =>
    simp only [Effect.handoff] at hx
    split_ifs at hx
    cases hx

def replyOn (k : Nat) : Handoff.Event Nat MessageObject Nat CConsumeStatus → Option CConsumeStatus
  | .answer token reply => if token = k then some reply else none
  | _ => none

theorem decisionsOn_eq {k : Nat} (h : ∀ d args, .done d k args ∈ past → d = c) :
    decisionsOn k past = (handoffOf D c past).filterMap (replyOn k) := by
  rw [handoffOf, List.filterMap_filterMap]
  apply List.filterMap_congr
  intro e he
  cases e with
  | done d ack args =>
    by_cases hk : ack = k
    · subst hk
      simp [Effect.handoff, replyOn, h d args he]
    · by_cases hd : d = c <;> simp [Effect.handoff, replyOn, hk, hd]
  | constructed | refused => rfl
  | onMessage | listener | returned =>
    simp only [Effect.handoff]
    split_ifs <;> rfl

theorem HandsOver.onMessage_unique (h : HandsOver D past) {ptr ptr' n n' : Nat} {m m' : CMessageExt}
    (hm : .onMessage c ptr n m ∈ past) (hm' : .onMessage c ptr' n' m' ∈ past) : n = n' ∧ m = m' := by
  obtain ⟨pre, post, rfl⟩ := List.append_of_mem hm
  obtain ⟨-, hfirst⟩ := h.justified pre _ post rfl
  rcases List.mem_append.mp hm' with hpre | hpost
  · exact absurd hpre (hfirst _ _ _)
  · rcases List.mem_cons.mp hpost with hsame | hlater
    · cases hsame
      exact ⟨rfl, rfl⟩
    · obtain ⟨mid, post', rfl⟩ := List.append_of_mem hlater
      obtain ⟨-, hfirst'⟩ := h.justified (pre ++ .onMessage c ptr n m :: mid)
        (.onMessage c ptr' n' m') post' (by simp)
      exact absurd (by simp) (hfirst' ptr n m)

theorem HandsOver.onMessage_of_listener (h : HandsOver D past) {n k : Nat} {o : MessageObject}
    (hl : .listener c n o k ∈ past) :
    ∃ ptr msg, .onMessage c ptr n msg ∈ past ∧ o = messageObject D msg := by
  obtain ⟨pre, post, rfl⟩ := List.append_of_mem hl
  obtain ⟨⟨ptr, msg, hm, ho⟩, -⟩ := h.justified pre _ post rfl
  exact ⟨ptr, msg, List.mem_append_left _ hm, ho⟩

end Past

section Justified

variable {D : Utf8Decoder} {s : Delivery} {past : List Effect} {c : Nat}

theorem Tracked.accepts_concat (h : Tracked D s) {e : Effect} (ht : s.trace = past ++ [e])
    {x : Handoff.Event Nat MessageObject Nat CConsumeStatus} (hx : e.handoff D c = some x) :
    ∃ p, Accepts (handoffOf D c past ++ [x]) p := by
  obtain ⟨p, hp, -⟩ := h.tracks c
  rw [ht, handoffOf_append, hx] at hp
  exact ⟨p, hp⟩

theorem Tracked.justified_listener (h : Tracked D s) {n k : Nat} {o : MessageObject}
    (ht : s.trace = past ++ [.listener c n o k])
    (hk : ∀ d m o', .listener d m o' k ∈ past → d = c) :
    Effect.Justified D past (.listener c n o k) := by
  obtain ⟨p, hp⟩ := h.accepts_concat ht (if_pos rfl)
  have hpast := hp.deliver
  have hfirst : ∀ m o' k', .listener c m o' k' ∉ past := by
    intro m o' k' hmem
    have := mem_handoffOf (D := D) hmem (if_pos rfl)
    simp [hpast] at this
  refine ⟨call_mem_handoffOf (by simp [hpast]), hfirst, fun d m o' hmem => ?_⟩
  cases hk d m o' hmem
  exact hfirst m o' k hmem

theorem Tracked.justified_done (h : Tracked D s) {k : Nat} {args : List Js.JsValue}
    (ht : s.trace = past ++ [.done c k args]) : Effect.Justified D past (.done c k args) := by
  obtain ⟨p, hp⟩ := h.accepts_concat ht (if_pos rfl)
  obtain ⟨n, o, hdeliver⟩ := hp.answer
  exact ⟨n, o, deliver_mem_handoffOf hdeliver⟩

theorem Tracked.justified_returned (h : Tracked D s) {result : Option CConsumeStatus}
    (ht : s.trace = past ++ [.returned c result])
    (hk : ∀ n o k d args, .listener c n o k ∈ past → .done d k args ∈ past → d = c) :
    Effect.Justified D past (.returned c result) := by
  obtain ⟨p, hp⟩ := h.accepts_concat ht (if_pos rfl)
  obtain ⟨n, o, k, r, answers, hresult, hanswers, hpast⟩ := hp.finish
  have hdeliver : .deliver n o k ∈ handoffOf D c past := by simp [hpast]
  have hlistener := deliver_mem_handoffOf hdeliver
  refine ⟨fun result' hmem => ?_, n, o, k, r, hlistener, ?_, hresult⟩
  · have := mem_handoffOf (D := D) hmem (if_pos rfl)
    simp only [hpast, List.mem_cons, reduceCtorEq, false_or] at this
    obtain ⟨reply, hreply⟩ := hanswers _ this
    cases hreply
  · -- the ack belongs to this call alone, so its decisions are the answers of the call
    rw [decisionsOn_eq (hk n o k · · hlistener), hpast]
    simp [replyOn, List.findSome?]

end Justified

section Step

variable {D : Utf8Decoder} {s t : Delivery}

theorem Transition.acks_call {e : Event} (ht : Transition D s e t) {k : Nat} {o : ConsumerAck}
    (ho : s.acks k = some o) : ∃ o', t.acks k = some o' ∧ o'.call = o.call := by
  have set : ∀ j (a b : ConsumerAck), s.acks j = some a → b.call = a.call →
      ∃ o', Function.update s.acks j (some b) k = some o' ∧ o'.call = o.call := by
    intro j a b ha hb
    rw [Function.update_apply]
    split_ifs with hj
    · subst hj
      cases ha.symm.trans ho
      exact ⟨b, rfl, hb⟩
    · exact ⟨o, ho, rfl⟩
  cases ht with
  | dispatched _ _ _ hk =>
    rw [Delivery.dispatch_acks, Function.update_apply]
    split_ifs with hj
    · subst hj
      cases hk.symm.trans ho
    · exact ⟨o, ho, rfl⟩
  | listener _ _ ha => exact set _ _ _ ha rfl
  | done ha => exact set _ _ _ ha rfl
  | dropped ha => exact set _ _ _ ha rfl
  | finalized ha => exact set _ _ _ ha rfl
  | _ => exact ⟨o, ho, rfl⟩

theorem Synchronous.silent (h : Synchronous D s) {e : Event} (hst : Transition D s e t)
    (ht : Tracked D t) (htrace : t.trace = s.trace) (hreg : t.registry = s.registry) :
    Synchronous D t where
  tracked := ht
  justified := htrace ▸ h.justified
  onAck d hd k c hon := by
    obtain ⟨o, ho, rfl⟩ := h.onAck d (htrace ▸ hd) k c hon
    exact hst.acks_call ho
  registered ptr n := by
    rw [hreg, htrace]
    exact h.registered ptr n

theorem Synchronous.emits (h : Synchronous D s) {e : Event} (hst : Transition D s e t)
    (ht : Tracked D t) {x : Effect} (htrace : t.trace = s.trace ++ [x])
    (hx : x.Justified D s.trace)
    (hon : ∀ k c, x.onAck = some (k, c) → ∃ o, t.acks k = some o ∧ o.call = c)
    (hreg : ∀ ptr n, t.registry ptr = some (some n) ↔
      s.registry ptr = some (some n) ∨ x = .constructed ptr n) : Synchronous D t where
  tracked := ht
  justified := by
    rw [htrace]
    exact preceded_concat.mpr ⟨h.justified, hx⟩
  onAck d hd k c hdk := by
    rw [htrace] at hd
    rcases List.mem_append.mp hd with hd | hd
    · obtain ⟨o, ho, rfl⟩ := h.onAck d hd k c hdk
      exact hst.acks_call ho
    · cases List.mem_singleton.mp hd
      exact hon k c hdk
  registered ptr n := by
    rw [hreg, htrace, h.registered]
    simp [eq_comm]

theorem Synchronous.construct (h : Synchronous D s) {ptr : Nat}
    (hnew : ∀ n, s.registry ptr ≠ some (some n)) : Synchronous D (s.construct ptr) := by
  refine h.emits (.construct hnew) (h.tracked.construct ptr) rfl (fun n hn => ?_) (fun _ _ hk => by cases hk)
    fun p n => ?_
  · exact hnew n ((h.registered ptr n).mpr hn)
  · have := hnew n
    change Function.update s.registry ptr (some (some s.nextConsumer)) p = _ ↔ _
    rw [Function.update_apply]
    split_ifs <;> simp_all [eq_comm]

theorem Synchronous.refused (h : Synchronous D s) {ptr : Nat} {registry : Registry}
    {e : Event} (hst : Transition D s e (s.refuse registry ptr))
    (hl : s.registry.lookup ptr = (registry, none)) : Synchronous D (s.refuse registry ptr) := by
  refine h.emits hst (h.tracked.refuse _ _) rfl (fun n hn => ?_)
    (fun _ _ hk => by cases hk) fun p n => ?_
  · have hreg := (h.registered ptr n).mpr hn
    simp [Registry.lookup, hreg] at hl
  · simpa using Registry.lookup_none hl p n

theorem Synchronous.entered (h : Synchronous D s) {x ptr n : Nat} {msg : CMessageExt}
    {registry : Registry} (hx : s.frames x = none) (hl : s.registry.lookup ptr = (registry, some n)) :
    Synchronous D (s.enter registry x ptr n msg) := by
  obtain ⟨rfl, hptr⟩ := Registry.lookup_some hl
  refine h.emits (.entered hx hl) (h.tracked.enter hx _ _ _ _) rfl ⟨?_, fun p m msg' hmem => ?_⟩
    (fun _ _ hk => by cases hk) fun p n => by simp
  · exact (h.registered ptr n).mp hptr
  · have := mem_handoffOf (D := D) hmem (if_pos rfl)
    simp [h.tracked.fresh _ le_rfl] at this

theorem Synchronous.left (h : Synchronous D s) {e : Event} {x : Nat} {f : Frame}
    (hst : Transition D s e (s.leave x f)) (ht : Tracked D (s.leave x f)) :
    Synchronous D (s.leave x f) := by
  refine h.emits hst ht rfl (ht.justified_returned rfl ?_) (fun _ _ hk => by cases hk) fun p n => by simp
  intro n o k d args hlistener hdone
  obtain ⟨a, ha, hcall⟩ := h.onAck _ hlistener k _ rfl
  obtain ⟨b, hb, rfl⟩ := h.onAck _ hdone k _ rfl
  cases ha.symm.trans hb
  exact hcall

theorem Synchronous.listener (h : Synchronous D s) {hd : Handler} {o : ConsumerAck}
    {registered : Bool} (hl : s.loop = .building hd) (hr : hd.rest = [])
    (ho : s.acks hd.ack = some o) : Synchronous D (s.callListener hd o registered) := by
  have hst : Transition D s (.callListener registered) _ := .listener hl hr ho
  have ht := h.tracked.listener hl hr ho registered
  have hcall : o.call = hd.call := by
    obtain ⟨-, o', -, -, -, ho', hbound, -⟩ := h.tracked.of_handler hl
    cases ho.symm.trans ho'
    exact hbound.call
  refine h.emits hst ht rfl (ht.justified_listener rfl fun d m o' hmem => ?_) (fun k c hk => ?_)
    fun p n => by simp
  · obtain ⟨a, ha, rfl⟩ := h.onAck _ hmem _ _ rfl
    cases ho.symm.trans ha
    exact hcall
  · cases hk
    obtain ⟨o', ho', hcall'⟩ := hst.acks_call ho
    exact ⟨o', ho', hcall'.trans hcall⟩

theorem Synchronous.done (h : Synchronous D s) {k : Nat} {o : ConsumerAck}
    {args : List Js.JsValue} (ho : s.acks k = some o) (hst : Transition D s (.done k args) t)
    (ht : Tracked D t) (htrace : t.trace = s.trace ++ [.done o.call k args])
    (hreg : t.registry = s.registry) : Synchronous D t := by
  refine h.emits hst ht htrace (ht.justified_done htrace) (fun j c hj => ?_) fun p n => by simp [hreg]
  cases hj
  exact hst.acks_call ho

theorem Synchronous.step (h : Synchronous D s) {e : Event} (hP : WokenAcked s e)
    (hst : Transition D s e t) : Synchronous D t := by
  have ht := h.tracked.step hP hst
  cases hst with
  | construct hnew => exact h.construct hnew
  | @refused x ptr registry msg hx hl => exact h.refused (e := .onMessage x ptr msg) (.refused hx hl) hl
  | entered hx hl => exact h.entered hx hl
  | waited hf hs hw ha => exact h.left (.waited hf hs hw ha) ht
  | woken hf hw => exact h.left (.woken hf hw) ht
  | listener hl hr ho => exact h.listener hl hr ho
  | doneAgain ho hheld hjs hx => exact h.done ho (.doneAgain ho hheld hjs hx) ht rfl rfl
  | done ho hheld hjs hx hf => exact h.done ho (.done ho hheld hjs hx hf) ht rfl rfl
  | sent hf hs ha => exact h.silent (.sent hf hs ha) ht rfl rfl
  | blocked hf hs hw ha => exact h.silent (.blocked hf hs hw ha) ht rfl rfl
  | dispatched ha hf hl hk => exact h.silent (.dispatched ha hf hl hk) ht rfl rfl
  | column hl hf hr => exact h.silent (.column hl hf hr) ht rfl rfl
  | listenerEnd hl => exact h.silent (.listenerEnd hl) ht rfl rfl
  | dropped ho hheld => exact h.silent (.dropped ho hheld) ht rfl rfl
  | finalized ho hheld hfin hpins => exact h.silent (.finalized ho hheld hfin hpins) ht rfl rfl

end Step

theorem Synchronous.init (D : Utf8Decoder) : Synchronous D {} where
  tracked := .init D
  justified := preceded_nil
  onAck _ he := absurd he List.not_mem_nil
  registered := by simp

theorem Tracked.woken_not_handsOver {D : Utf8Decoder} {s t : Delivery} {e : Event}
    (h : Tracked D s) (hP : ¬WokenAcked s e) (hst : Transition D s e t) : ¬HandsOver D t.trace := by
  intro hover
  cases hst with
  | @woken x f b hf hw =>
    have hacked : f.ackInner.acked ≠ true := by
      intro ha
      apply hP
      intro f' hf'
      cases hf.symm.trans hf'
      exact ha
    -- the trace ends with the return, and a return needs a decision before it
    obtain ⟨-, ⟨-, -, -, r, -, -, hr⟩⟩ := hover.justified s.trace _ [] rfl
    obtain ⟨-, hi | ⟨_, hi⟩⟩ := h.of_frame hf
    · cases hi.status.symm.trans hr
    · exact hacked hi.acked
  | _ => exact hP trivial

/-- The delivery is a synchronous call exactly as long as `uv_cond_wait` returns only
after the ack. -/
theorem handsOver_iff_wokenAcked (D : Utf8Decoder) {es : List Event} {s : Delivery}
    (h : (delivery D).exec (delivery D).init es = some s) :
    (delivery D).Throughout (HandsOver D ·.trace) (delivery D).init es ↔
      (delivery D).Along WokenAcked (delivery D).init es := by
  refine Machine.throughout_iff_along (I := Synchronous D) (fun s hs => ⟨fun c => ?_, hs.justified⟩)
    (fun s e t hs hP ht => hs.step hP (step_cases ht))
    (fun s e t hs hP ht => hs.tracked.woken_not_handsOver hP (step_cases ht)) (.init D) h
  obtain ⟨p, hp, -⟩ := hs.tracked.tracks c
  exact ⟨p, hp⟩

theorem handsOver_oneMessage :
    (delivery replacing).Throughout (HandsOver replacing ·.trace) (delivery replacing).init
      oneMessage :=
  (handsOver_iff_wokenAcked replacing rfl).mpr (by decide)

def wokenEarly : List Event :=
  [.construct 0, .onMessage 10 0 ⟨[], [], [], [], []⟩, .send 10 20, .wait 10, .wake 10]

theorem wokenEarly_not_handsOver :
    ∃ s, (delivery replacing).exec (delivery replacing).init wokenEarly = some s ∧
      ¬HandsOver replacing s.trace := by
  refine ⟨_, rfl, fun h => ?_⟩
  obtain ⟨-, n, o, k, r, hlistener, -⟩ := h.justified
    [.constructed 0 0, .onMessage 0 0 0 ⟨[], [], [], [], []⟩] (.returned 0 none) [] rfl
  simp at hlistener

end RocketMQClient.Consume
