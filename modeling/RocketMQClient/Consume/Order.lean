import RocketMQClient.Consume.Rest

namespace RocketMQClient.Consume

open Library Marshal Handoff

def Effect.asked (D : Utf8Decoder) (n : Nat) : Effect → Option (Nat × MessageObject)
  | .onMessage c _ m msg => if m = n then some (c, messageObject D msg) else none
  | _ => none

def Effect.heard (n : Nat) : Effect → Option (Nat × MessageObject)
  | .listener c m o _ => if m = n then some (c, o) else none
  | _ => none

def Effect.returns (c : Nat) : Effect → Bool
  | .returned d _ => d = c
  | _ => false

/-- The listener of `n` gets the messages in the order of the calls, and is at most one behind. -/
def InOrder (D : Utf8Decoder) (n : Nat) (trace : List Effect) : Prop :=
  ∃ l, l.length ≤ 1 ∧ trace.filterMap (Effect.asked D n) = trace.filterMap (Effect.heard n) ++ l

def Effect.Alone (D : Utf8Decoder) (n : Nat) (past : List Effect) (e : Effect) : Prop :=
  (e.asked D n).isSome → ∀ call ∈ past.filterMap (Effect.asked D n), past.any (Effect.returns call.1)

instance (D : Utf8Decoder) (n : Nat) (past : List Effect) (e : Effect) :
    Decidable (Effect.Alone D n past e) :=
  inferInstanceAs (Decidable (_ → _))

section InOrder

variable {D : Utf8Decoder} {n : Nat} {trace past : List Effect} {e : Effect}

theorem mem_asked {c : Nat} {o : MessageObject} : (c, o) ∈ trace.filterMap (Effect.asked D n) ↔
    ∃ ptr msg, .onMessage c ptr n msg ∈ trace ∧ o = messageObject D msg := by
  rw [List.mem_filterMap]
  constructor
  · rintro ⟨e, he, hasked⟩
    cases e with
    | onMessage d ptr m msg =>
      simp only [Effect.asked] at hasked
      split_ifs at hasked with hm
      cases hasked
      exact ⟨ptr, msg, hm ▸ he, rfl⟩
    | _ => cases hasked
  · rintro ⟨ptr, msg, he, rfl⟩
    exact ⟨_, he, if_pos rfl⟩

theorem mem_heard {c : Nat} {o : MessageObject} : (c, o) ∈ trace.filterMap (Effect.heard n) ↔
    ∃ k, .listener c n o k ∈ trace := by
  rw [List.mem_filterMap]
  constructor
  · rintro ⟨e, he, hheard⟩
    cases e with
    | listener d m o' k =>
      simp only [Effect.heard] at hheard
      split_ifs at hheard with hm
      cases hheard
      exact ⟨k, hm ▸ he⟩
    | _ => cases hheard
  · rintro ⟨k, he⟩
    exact ⟨_, he, if_pos rfl⟩

theorem HandsOver.heard_of_returned (h : HandsOver D trace) {c ptr : Nat} {msg : CMessageExt}
    (hcall : .onMessage c ptr n msg ∈ trace) {r : Option CConsumeStatus}
    (hreturned : .returned c r ∈ trace) : ∃ k, .listener c n (messageObject D msg) k ∈ trace := by
  obtain ⟨p, hp⟩ := h.refines c
  obtain ⟨k, hk⟩ := hp.deliver_of_finish (mem_handoffOf hreturned (if_pos rfl))
    (mem_handoffOf hcall (if_pos rfl))
  exact ⟨k, deliver_mem_handoffOf hk⟩

theorem HandsOver.of_append (h : HandsOver D (past ++ trace)) : HandsOver D past where
  refines c := by
    obtain ⟨p, hp⟩ := h.refines c
    rw [handoffOf, List.filterMap_append] at hp
    exact hp.of_append
  justified pre e post hpast := h.justified pre e (post ++ trace) (by simp [hpast])

theorem HandsOver.oneByOne_onMessage (h : HandsOver D past) {c ptr m : Nat} {msg : CMessageExt}
    (hnew : ∀ ptr m msg, .onMessage c ptr m msg ∉ past)
    (halone : Effect.Alone D n past (.onMessage c ptr m msg)) :
    OneByOne (Effect.asked D n) (Effect.heard n) past (.onMessage c ptr m msg) where
  new := by
    rintro ⟨d, o⟩ hd hmem
    obtain ⟨ptr', msg', hmem, -⟩ := mem_asked.mp hmem
    simp only [Effect.asked, Option.mem_def, Option.ite_none_right_eq_some, Option.some.injEq,
      Prod.mk.injEq] at hd
    exact hnew ptr' n msg' (hd.2.1 ▸ hmem)
  waits := by
    rintro b hb ⟨d, o⟩ hd
    obtain ⟨ptr', msg', hmem, rfl⟩ := mem_asked.mp hd
    obtain ⟨g, hg, hreturns⟩ := List.any_eq_true.mp (halone (Option.isSome_of_mem hb) _ hd)
    cases g with
    | returned d' r =>
      obtain rfl : d' = d := by simpa [Effect.returns] using hreturns
      exact mem_heard.mpr (h.heard_of_returned hmem hg)
    | _ => cases hreturns
  caused _ hb := by cases hb
  once _ hb := by cases hb
  apart := .inr rfl

theorem oneByOne_listener {c m k : Nat} {o : MessageObject}
    (he : Effect.Justified D past (.listener c m o k)) :
    OneByOne (Effect.asked D n) (Effect.heard n) past (.listener c m o k) where
  new _ hb := by cases hb
  waits _ hb := by cases hb
  caused := by
    obtain ⟨⟨ptr, msg, hmem, rfl⟩, -⟩ := he
    rintro ⟨d, o⟩ hd
    simp only [Effect.heard, Option.mem_def, Option.ite_none_right_eq_some, Option.some.injEq,
      Prod.mk.injEq] at hd
    obtain ⟨rfl, rfl, rfl⟩ := hd
    exact mem_asked.mpr ⟨ptr, msg, hmem, rfl⟩
  once := by
    rintro ⟨d, o'⟩ hd hmem
    obtain ⟨k', hmem⟩ := mem_heard.mp hmem
    simp only [Effect.heard, Option.mem_def, Option.ite_none_right_eq_some, Option.some.injEq,
      Prod.mk.injEq] at hd
    exact he.2.1 n o' k' (hd.2.1 ▸ hmem)
  apart := .inl rfl

theorem oneByOne_of_none (hasked : e.asked D n = none) (hheard : e.heard n = none) :
    OneByOne (Effect.asked D n) (Effect.heard n) past e := by
  constructor <;> simp [hasked, hheard]

theorem HandsOver.oneByOne (h : HandsOver D trace) (hone : Preceded (Effect.Alone D n) trace) :
    Preceded (OneByOne (Effect.asked D n) (Effect.heard n)) trace := by
  rintro past e post rfl
  have he := h.justified past e post rfl
  have halone := hone past e post rfl
  cases e with
  | onMessage => exact h.of_append.oneByOne_onMessage he.2 halone
  | listener => exact oneByOne_listener he
  | _ => exact oneByOne_of_none rfl rfl

theorem HandsOver.inOrder (h : HandsOver D trace) (hone : Preceded (Effect.Alone D n) trace) :
    InOrder D n trace :=
  (h.oneByOne hone).inOrder

end InOrder

namespace Threads

def OneThread (D : Utf8Decoder) (n : Nat) (s : Threads) : Event → Prop
  | .onMessage _ consumerPtr msg => ∀ m ∈ (s.registry.lookup consumerPtr).2,
      Effect.Alone D n s.trace (.onMessage s.nextCall consumerPtr m msg)
  | _ => True

instance (D : Utf8Decoder) (n : Nat) (s : Threads) : (e : Event) → Decidable (OneThread D n s e)
  | .onMessage _ consumerPtr msg =>
    inferInstanceAs (Decidable (∀ m ∈ (s.registry.lookup consumerPtr).2,
      Effect.Alone D n s.trace (.onMessage s.nextCall consumerPtr m msg)))
  | .construct _ | .malloc _ _ | .advance _ | .wait _ _ | .leave _ | .dispatch _ _ | .readColumn
  | .callListener _ | .listenerEnd | .close | .closed _ | .done _ _ | .ackLock | .ack | .forget
  | .drop _ | .finalize _ => isTrue trivial

section Order

variable {D : Utf8Decoder} {n : Nat} {s t : Threads} {e : Event}

theorem alone_of_none {past : List Effect} {ef : Effect} (h : ef.asked D n = none) :
    Effect.Alone D n past ef := by
  intro hsome
  simp [h] at hsome

theorem Transition.alone (hst : Transition D s e t) (hP : OneThread D n s e)
    (h : Preceded (Effect.Alone D n) s.trace) : Preceded (Effect.Alone D n) t.trace := by
  cases hst with
  | entered hx hlookup => exact preceded_concat.mpr ⟨h, hP _ (by simp [hlookup])⟩
  | construct | refused | listener | doneAgain =>
    exact preceded_concat.mpr ⟨h, alone_of_none rfl⟩
  | @wait x f e inner =>
    rw [wait_trace]
    unfold returns
    split
    · exact preceded_concat.mpr ⟨h, alone_of_none rfl⟩
    · simpa using h
  | @ack q o f inner =>
    rw [ack_trace]
    unfold answers
    split
    · simpa using h
    · exact preceded_concat.mpr ⟨h, alone_of_none rfl⟩
  | _ => exact h

/-- As long as `uv_cond_wait` returns only after a signal, and the SDK calls `OnMessage` for a
consumer one call after the other, its listener gets every message in order. -/
theorem in_order (D : Utf8Decoder) (n : Nat) {es : List Event} (hes : ∀ x, .wait x .wake ∉ es)
    (hone : (threads D).Along (OneThread D n) (threads D).init es) :
    (threads D).Throughout (InOrder D n ·.trace) (threads D).init es := by
  have hsteps : (threads D).Along (fun s e => ¬Spurious e ∧ OneThread D n s e) (threads D).init es := by
    refine .and (.of_forall ?_ _) hone
    rintro e he - ⟨x, rfl⟩
    exact hes x he
  refine hsteps.throughout (I := fun s => Sound D s ∧ Preceded (Effect.Alone D n) s.trace) ?_ ?_
    ⟨.init D, preceded_nil⟩
  · rintro s ⟨hsound, halone⟩
    obtain ⟨a, hsim, hsync⟩ := hsound.simulated
    exact (hsim.handsOver hsync).inOrder halone
  · rintro s e t ⟨hsound, halone⟩ ⟨he, hP⟩ hst
    exact ⟨hsound.step he (step_cases hst), (step_cases hst).alone hP halone⟩

end Order

def oneThread : List Event :=
  [.construct 0, .onMessage 10 0 ⟨[], [], [], [], []⟩, .malloc 10 20, .advance 10, .advance 10,
    .advance 10, .dispatch 20 30, .readColumn, .readColumn, .readColumn, .readColumn, .readColumn,
    .callListener true, .done 30 [], .ackLock, .ack, .ack, .ack, .ack, .forget, .listenerEnd,
    .close, .wait 10 .waitLock, .wait 10 .wait, .wait 10 .wait, .leave 10,
    .onMessage 10 0 ⟨[], [], [], [], [65]⟩]

theorem in_order_oneThread :
    ((threads replacing).exec (threads replacing).init oneThread).isSome = true ∧
      (threads replacing).Throughout (InOrder replacing 0 ·.trace) (threads replacing).init oneThread :=
  ⟨by decide, in_order replacing 0 (by simp [oneThread]) (by decide)⟩

end Threads

end RocketMQClient.Consume
