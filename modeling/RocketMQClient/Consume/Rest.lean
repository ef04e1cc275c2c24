import RocketMQClient.Consume.Progress

namespace RocketMQClient.Consume

open Library Marshal

namespace ConsumerAckInner

def AckPoint.effort : AckPoint → Nat
  | .check => 4
  | .setAcked => 3
  | .signal => 2
  | .unlock => 1

def Waiter.effort : Waiter → Nat
  | .entry => 5
  | .inside => 0
  | .waiting => 3
  | .woken => 3
  | .returned _ => 1

def State.effort (s : State) : Nat :=
  match s.mutex with
  | .free => s.waiter.effort
  | .ack _ point => point.effort + s.waiter.effort
  | .wait .check => 4
  | .wait _ => 2

variable {s t : State} {e : Event}

theorem ackStep_effort {status : CConsumeStatus} {point : AckPoint} (hm : s.mutex = .ack status point) :
    (ackStep s status point).effort < s.effort := by
  cases point with
  | check =>
    rw [ackStep]
    split <;> simp [State.effort, hm, AckPoint.effort]
  | setAcked => simp [ackStep, State.effort, hm, AckPoint.effort]
  | signal =>
    rw [ackStep]
    split_ifs with hw
    · simp [State.effort, hm, hw, AckPoint.effort, Waiter.effort]
    · simp [State.effort, hm, AckPoint.effort]
  | unlock => simp [ackStep, State.effort, hm, AckPoint.effort]

theorem waitStep_effort {point : WaitPoint} (hm : s.mutex = .wait point) :
    (waitStep s point).effort < s.effort := by
  cases point with
  | check =>
    rw [waitStep]
    split <;> simp [State.effort, hm, Waiter.effort]
  | found => simp [waitStep, State.effort, hm, Waiter.effort]
  | reacquired => simp [waitStep, State.effort, hm, Waiter.effort]

theorem wait_effort (hst : Transition s e t) (he : Threads.ofWaitResult e = true) (hw : e ≠ .wake) :
    t.effort < s.effort := by
  cases hst with
  | ackLock | ack => cases he
  | waitLock hfree hentry => simp [State.effort, hfree, hentry, Waiter.effort]
  | wait hm => exact waitStep_effort hm
  | wake => exact absurd rfl hw
  | relock hfree hwoken => simp [State.effort, hfree, hwoken, Waiter.effort]

theorem effort_pos {r : Option CConsumeStatus} (hr : s.waiter = .returned r) : 0 < s.effort := by
  cases hm : s.mutex with
  | wait point => cases point <;> simp [State.effort, hm]
  | _ => simp [State.effort, hm, hr, Waiter.effort]

end ConsumerAckInner

namespace Threads

/-- The statements of the threads and of the loop, as against what the program, the SDK and
the collector do. -/
def Event.runs : Event → Bool
  | .construct _ | .onMessage _ _ _ | .done _ _ | .drop _ | .finalize _ | .wait _ .wake => false
  | _ => true

def Point.effort : Point → Nat
  | .malloc => 14
  | .init _ => 13
  | .data _ => 12
  | .send _ => 11
  | .waitResult => 0

def Activation.effort (f : Activation) : Nat := f.point.effort + f.inner.effort

def UvAsync.effort (u : UvAsync) : Nat :=
  match u.phase with
  | .pending => 10
  | .closing => 1
  | _ => 0

def Loop.effort : Loop → Nat
  | .idle => 0
  | .building _ h => h.rest.length + 4
  | .listening _ _ => 3
  | .leaving _ _ => 2

def Acking.effort (q : Acking) : Nat :=
  match q.point with
  | .call => 6
  | .inside | .forget => 1

noncomputable def effort (s : Threads) : Nat :=
  Heap.total Activation.effort s.frames + Heap.total UvAsync.effort s.handles + s.loop.effort +
    s.acking.elim 0 Acking.effort

section Effort

variable {D : Utf8Decoder} {s t : Threads} {e : Event} {x a : Nat}

theorem Finite.own_lt (h : Finite s) {f : Activation} {f? : Option Activation}
    {u? v? : Option UvAsync} (hf : s.frames x = some f) (hu : s.handles a = u?)
    (hframes : t.frames = Function.update s.frames x f?)
    (hhandles : t.handles = Function.update s.handles a v?) (hloop : t.loop = s.loop)
    (hacking : t.acking = s.acking)
    (hlt : f?.elim 0 Activation.effort + v?.elim 0 UvAsync.effort <
      f.effort + u?.elim 0 UvAsync.effort) : effort t < effort s := by
  have hframe := h.frames.total_update (f := Activation.effort) x f?
  have hhandle := h.handles.total_update (f := UvAsync.effort) a v?
  rw [hf, Option.elim_some] at hframe
  rw [hu] at hhandle
  rw [effort, effort, hframes, hhandles, hloop, hacking]
  omega

theorem Finite.inner_lt (h : Finite s) {f : Activation} {f? : Option Activation}
    (hf : s.frames x = some f) (hframes : t.frames = Function.update s.frames x f?)
    (hhandles : t.handles = s.handles) (hloop : t.loop = s.loop)
    (hlt : f?.elim 0 Activation.effort + t.acking.elim 0 Acking.effort <
      f.effort + s.acking.elim 0 Acking.effort) : effort t < effort s := by
  have hframe := h.frames.total_update (f := Activation.effort) x f?
  rw [hf, Option.elim_some] at hframe
  rw [effort, effort, hframes, hhandles, hloop]
  omega

theorem Finite.loop_lt (h : Finite s) {u : UvAsync} {v? : Option UvAsync}
    (hu : s.handles a = some u) (hframes : t.frames = s.frames)
    (hhandles : t.handles = Function.update s.handles a v?) (hacking : t.acking = s.acking)
    (hlt : v?.elim 0 UvAsync.effort + t.loop.effort < u.effort + s.loop.effort) :
    effort t < effort s := by
  have hhandle := h.handles.total_update (f := UvAsync.effort) a v?
  rw [hu, Option.elim_some] at hhandle
  rw [effort, effort, hframes, hhandles, hacking]
  omega

theorem effort_lt_of_eq (hframes : t.frames = s.frames) (hhandles : t.handles = s.handles)
    (hlt : t.loop.effort + t.acking.elim 0 Acking.effort <
      s.loop.effort + s.acking.elim 0 Acking.effort) : effort t < effort s := by
  rw [effort, effort, hframes, hhandles]
  omega

theorem Transition.effort_lt (h : Finite s) (hst : Transition D s e t) (he : e.runs = true) :
    effort t < effort s := by
  cases hst with
  | construct | refused | entered | doneAgain | done | dropped | finalized => cases he
  | malloc hf hp ha | init hf hp ha | data hf hp ha =>
    refine h.own_lt hf ha rfl rfl rfl rfl ?_
    simp [Activation.effort, Point.effort, UvAsync.effort, hp]
    try omega
  | send hf hp ha =>
    refine h.own_lt hf ha rfl rfl rfl rfl ?_
    simp [Activation.effort, Point.effort, UvAsync.effort, hp]
    omega
  | wait hf _ hof hinner =>
    refine h.inner_lt hf rfl rfl rfl ?_
    have hless := ConsumerAckInner.wait_effort hinner hof (by rintro rfl; cases he)
    simpa [Activation.effort] using hless
  | left hf hr =>
    refine h.inner_lt hf rfl rfl rfl ?_
    have hpos := ConsumerAckInner.effort_pos hr
    simp [Activation.effort]
    omega
  | dispatched ha _ _ hl hp =>
    refine h.loop_lt ha rfl rfl rfl ?_
    simp [UvAsync.effort, Loop.effort, hl, hp, messageHandlerParamKeys]
  | column hl _ hr => exact effort_lt_of_eq rfl rfl (by simp [Loop.effort, hl, hr])
  | listener hl => exact effort_lt_of_eq rfl rfl (by simp [Loop.effort, hl])
  | listenerEnd hl => exact effort_lt_of_eq rfl rfl (by simp [Loop.effort, hl])
  | close hl ha =>
    refine h.loop_lt ha rfl rfl rfl ?_
    simp [UvAsync.effort, Loop.effort, hl]
  | closed ha _ hp =>
    refine h.loop_lt ha rfl rfl rfl ?_
    simp [UvAsync.effort, hp]
  | ackLock hq hf hp hst =>
    refine h.inner_lt hf rfl rfl rfl ?_
    cases hst with
    | ackLock _ hfree =>
      simp [Activation.effort, Acking.effort, ConsumerAckInner.State.effort,
        ConsumerAckInner.AckPoint.effort, hq, hp, hfree]
      omega
  | @ack q _ _ _ hq _ hf hp hst =>
    refine h.inner_lt hf rfl rfl rfl ?_
    cases hst with
    | ack hm =>
      have hless := ConsumerAckInner.ackStep_effort hm
      simp only [ack_acking, hq, Option.elim_some, Acking.effort, hp, Activation.effort]
      split_ifs <;> simp <;> omega
  | forget hq _ hp => exact effort_lt_of_eq rfl rfl (by simp [Acking.effort, hq, hp])

end Effort

def AtRest (D : Utf8Decoder) (s : Threads) : Prop :=
  ∀ e, e.runs = true → (threads D).step s e = none

section Rest

variable {D : Utf8Decoder} {s t : Threads} {e : Event} {x : Nat} {f : Activation}

theorem AtRest.not_transition (h : AtRest D s) (he : e.runs = true) : ¬Transition D s e t := by
  intro hst
  cases (h e he).symm.trans hst.enabled

theorem Event.runs_of_task {i : Task} (he : e.task = some i) : e.runs = true := by
  cases e with
  | wait x i =>
    cases i with
    | wake => cases he
    | _ => rfl
  | construct | onMessage | done | drop | finalize => cases he
  | _ => rfl

theorem AtRest.not_enabled (h : AtRest D s) (i : Task) : ¬Enabled D i s := by
  rintro ⟨e, t, he, hst⟩
  cases (h e (Event.runs_of_task he)).symm.trans hst

theorem Sound.not_acking (h : Sound D s) (hrest : AtRest D s) : s.acking = none := by
  by_contra hne
  obtain ⟨q, hq⟩ := Option.ne_none_iff_exists'.mp hne
  exact hrest.not_enabled _ (h.enabled_ack hq)

theorem Sound.mutex_free (h : Sound D s) (hrest : AtRest D s) (hf : s.frames x = some f) :
    f.inner.mutex = .free := by
  cases hm : f.inner.mutex with
  | free => rfl
  | wait | ack => exact absurd (h.enabled_holder hf (by rw [hm, holder])) (hrest.not_enabled _)

theorem Sound.loop_idle (h : Sound D s) (hrest : AtRest D s) : s.loop = .idle := by
  cases hl : s.loop with
  | idle => rfl
  | building => exact absurd (h.enabled_building hl) (hrest.not_enabled _)
  | listening => exact absurd (enabled_listening hl (h.not_acking hrest)) (hrest.not_enabled _)
  | leaving => exact absurd (h.enabled_leaving hl) (hrest.not_enabled _)

theorem Sound.waitResult (h : Sound D s) (hrest : AtRest D s) (hf : s.frames x = some f) :
    f.point = .waitResult := by
  by_contra hp
  exact hrest.not_enabled _ (h.enabled_setup hf hp)

theorem Sound.waiting (h : Sound D s) (hrest : AtRest D s) (hf : s.frames x = some f) :
    f.inner.waiter = .waiting ∧ f.inner.acked = false := by
  by_contra hne
  refine hrest.not_enabled _ (h.enabled_wait hf (h.waitResult hrest hf) fun hw => ?_)
  by_contra hacked
  exact hne ⟨hw, by simpa using hacked⟩

theorem Sound.no_handle (h : Sound D s) (hrest : AtRest D s) (a : Nat) : s.handles a = none := by
  by_contra hne
  obtain ⟨u, hu⟩ := Option.ne_none_iff_exists'.mp hne
  obtain ⟨b, hsim, -⟩ := h.simulated
  have hq := h.not_acking hrest
  have hl := h.loop_idle hrest
  cases hsim.carried h.accounted hu with
  | @setup x f hf hun => simp [Activation.unsent, h.waitResult hrest hf] at hun
  | pending hp => exact hrest.not_enabled _ (h.enabled_pending hu hp hl hq)
  | running _ ha =>
    rw [hl] at ha
    cases ha
  | closing hp => exact hrest.not_transition rfl (.closed hu hl hp hq)

theorem Sound.delivered (h : Sound D s) (hrest : AtRest D s) (hf : s.frames x = some f) :
    ∃ k o n msg, .listener f.call n msg k ∈ s.trace ∧ s.acks k = some o ∧ o.Bound f.call x := by
  obtain ⟨a, hsim, -⟩ := h.simulated
  obtain ⟨hw, hacked⟩ := h.waiting hrest hf
  have hm := h.mutex_free hrest hf
  have hpending : ∀ n, a.pending n = none := fun n => by
    simp [hsim.related.pending, h.no_handle hrest n]
  have hloop : ∀ hd, a.loop ≠ .building hd := fun hd hl => by
    simp [hsim.related.loop, h.loop_idle hrest, Loop.section] at hl
  have hrel := hsim.related.frames x
  rw [hf] at hrel
  generalize hga : a.frames x = g? at hrel
  cases hrel with
  | returned _ _ hr => cases hw.symm.trans hr
  | @running _ g hg =>
    have hsent : g.sent = true := by simp [hg.sent, h.waitResult hrest hf]
    have hunacked : g.ackInner.acked = false := by
      have hmutex := hg.inner.mutex
      rw [hm] at hmutex
      exact hmutex.1.trans hacked
    obtain ⟨p, haccepts, ht⟩ := hsim.tracked.tracks g.call
    have hv := view_frames hga
    have hp : ∀ n async, (a.view g.call).pending n = some async → False := fun n async hn => by
      cases (hpending n).symm.trans (Option.filter_eq_some_iff.mp hn).1
    have hl : ∀ hd, (a.view g.call).handler = some hd → False := fun hd hn =>
      hloop hd (loop_of_view hn)
    have hacks := fun k o => acks_of_view (s := a) (c := g.call) (k := k) (o := o)
    generalize a.view g.call = v at ht hv hp hl hacks
    cases ht with
    | idle => cases hv
    | returned => cases hv
    | pending => exact (hp _ _ (single_self _ _)).elim
    | building => exact (hl _ rfl).elim
    | entered _ _ hs =>
      obtain ⟨-, rfl⟩ := single_eq_some.mp hv
      cases hs.symm.trans hsent
    | decided _ hi =>
      obtain ⟨-, rfl⟩ := single_eq_some.mp hv
      cases hi.acked.symm.trans hunacked
    | @delivered y g k o _ _ _ hbound =>
      obtain ⟨rfl, rfl⟩ := single_eq_some.mp hv
      obtain ⟨n, msg, hhandoff⟩ := haccepts.shape
      have hdeliver : .deliver n msg k ∈ handoffOf D g.call a.trace := by simp [hhandoff]
      refine ⟨k, o, n, msg, ?_, ?_, hg.call ▸ hbound⟩
      · rw [← hg.call, ← hsim.related.trace]
        exact deliver_mem_handoffOf hdeliver
      · rw [← hsim.related.acks.of_outside (h.not_acking hrest)]
        exact hacks k o (single_self k o)

/-- The activation sleeps in `uv_cond_wait`, and the ack that the listener was called with is
bound to it, or finalized. -/
structure Asleep (s : Threads) (x : Nat) (f : Activation) : Prop where
  point : f.point = .waitResult
  waiter : f.inner.waiter = .waiting
  acked : f.inner.acked = false
  ack : ∃ k o n msg, .listener f.call n msg k ∈ s.trace ∧ s.acks k = some o ∧ o.Bound f.call x

end Rest

end Threads

end RocketMQClient.Consume
