import RocketMQClient.Consume.Interleaving
import RocketMQClient.Library.Heap

namespace RocketMQClient.Consume.Threads

open Library Marshal

inductive Touches (s : Threads) : Event → Nat → Nat → Prop
  | param : s.handles a = some u → u.phase = .pending → u.data = some x →
      Touches s (.dispatch a k) x u.call
  | msg : s.loop = .building a h → Touches s .readColumn h.msg h.call
  | lock : s.acking = some q → q.point = .call → s.acks q.ack = some o →
      Touches s .ackLock q.inner o.call
  | inner : s.acking = some q → q.point = .inside → s.acks q.ack = some o →
      Touches s .ack q.inner o.call

/-- A statement that follows a pointer into an activation finds it running, in its call. -/
def TouchesRunning (s : Threads) (e : Event) : Prop :=
  ∀ x c, Touches s e x c →
    ∃ f, s.frames x = some f ∧ f.call = c ∧ ∀ r, f.inner.waiter ≠ .returned r

section Touches

variable {D : Utf8Decoder} {s t : Threads} {a : Delivery} {e : Event}

theorem Related.of_frame (h : Related s a) {x : Nat} {g : Frame} (hg : a.frames x = some g) :
    ∃ f, s.frames x = some f ∧ f.Shows g := by
  have hrel := h.frames x
  rw [hg] at hrel
  generalize s.frames x = f? at hrel
  cases hrel with
  | running hshows => exact ⟨_, rfl, hshows⟩

theorem Activation.Shows.at {f : Activation} {g : Frame} {c x : Nat} (h : f.Shows g)
    (hat : g.At c x) : f.call = c := h.call.symm.trans hat.call

theorem Simulates.touchesRunning (h : Simulates D s a) : TouchesRunning s e := by
  intro x c htouch
  cases htouch with
  | @param n u _ _ hu hp hx =>
    have hpending : a.pending n = some ⟨x, u.call⟩ := by
      simp [h.related.pending, hu, UvAsync.async, hp, hx]
    obtain ⟨g, hg, hat, -⟩ := h.tracked.of_pending hpending
    obtain ⟨f, hf, hshows⟩ := h.related.of_frame hg
    exact ⟨f, hf, hshows.at hat, hshows.running⟩
  | msg hl =>
    obtain ⟨g, -, hg, hat, -⟩ := h.tracked.of_handler (by rw [h.related.loop, hl]; rfl)
    obtain ⟨f, hf, hshows⟩ := h.related.of_frame hg
    exact ⟨f, hf, hshows.at hat, hshows.running⟩
  | lock hq hp ho =>
    cases h.related.acks with
    | outside hq' => cases hq.symm.trans hq'
    | after hq' _ _ _ hcall =>
      cases hq.symm.trans hq'
      exact absurd hp hcall
    | before hq' ho' hx _ hacks =>
      cases hq.symm.trans hq'
      cases ho.symm.trans ho'
      obtain ⟨g, hg, hat, -⟩ := h.tracked.of_bound (hacks ▸ ho) hx
      obtain ⟨f, hf, hshows⟩ := h.related.of_frame hg
      exact ⟨f, hf, hshows.at hat, hshows.running⟩
  | @inner q o hq hp ho =>
    -- the mutex is locked, and `WaitResult` returns with the mutex free
    have hlocked : ∃ point, Locked (s.frames q.inner) o.call (decision q.args) point := by
      cases h.related.acks with
      | outside hq' => cases hq.symm.trans hq'
      | after hq' ho' _ hl =>
        cases hq.symm.trans hq'
        cases ho.symm.trans ho'
        exact ⟨.unlock, hl hp⟩
      | before hq' ho' _ _ _ hl =>
        cases hq.symm.trans hq'
        cases ho.symm.trans ho'
        obtain ⟨point, -, hpoint⟩ := hl hp
        exact ⟨point, hpoint⟩
    obtain ⟨point, f, hf, hcall, hm⟩ := hlocked
    have hrel := h.related.frames q.inner
    rw [hf] at hrel
    obtain ⟨g, -, hshows⟩ := hrel.shows (.inr (.inl (by simp [hm])))
    exact ⟨f, hf, hcall, hshows.running⟩

end Touches

structure Signalled (inner : ConsumerAckInner.State) : Prop where
  woken : inner.waiter = .woken → inner.acked = true
  reacquired : inner.mutex = .wait .reacquired → inner.acked = true
  signal : ∀ status, inner.mutex = .ack status .signal → inner.acked = true

theorem Signalled.ack {inner : ConsumerAckInner.State} (h : Signalled inner)
    {status : CConsumeStatus} {point : ConsumerAckInner.AckPoint}
    (hm : inner.mutex = .ack status point) : Signalled (ConsumerAckInner.ackStep inner status point) := by
  cases point with
  | check =>
    rw [ConsumerAckInner.ackStep]
    split
    · exact ⟨h.woken, by simp, by simp⟩
    · exact ⟨h.woken, by simp, by simp⟩
  | setAcked => exact ⟨fun _ => rfl, fun _ => rfl, fun _ _ => rfl⟩
  | signal =>
    have ha := h.signal status hm
    exact ⟨fun _ => ha, fun _ => ha, fun _ _ => ha⟩
  | unlock => exact ⟨h.woken, by simp [ConsumerAckInner.ackStep], by simp [ConsumerAckInner.ackStep]⟩

theorem Signalled.step {inner next : ConsumerAckInner.State} {e : ConsumerAckInner.Event}
    (h : Signalled inner) (he : e ≠ .wake) (hst : ConsumerAckInner.Transition inner e next) :
    Signalled next := by
  cases hst with
  | ackLock => exact ⟨h.woken, by simp, by simp⟩
  | ack hm => exact h.ack hm
  | waitLock => exact ⟨by simp, by simp, by simp⟩
  | @wait point =>
    cases point with
    | check =>
      rw [ConsumerAckInner.waitStep]
      split
      · exact ⟨h.woken, by simp, by simp⟩
      · exact ⟨by simp, by simp, by simp⟩
    | found => exact ⟨by simp [ConsumerAckInner.waitStep], by simp [ConsumerAckInner.waitStep],
        by simp [ConsumerAckInner.waitStep]⟩
    | reacquired => exact ⟨by simp [ConsumerAckInner.waitStep], by simp [ConsumerAckInner.waitStep],
        by simp [ConsumerAckInner.waitStep]⟩
  | wake => exact absurd rfl he
  | relock _ hw =>
    have ha := h.woken hw
    exact ⟨fun _ => ha, fun _ => ha, fun _ _ => ha⟩

def Spurious (e : Event) : Prop := ∃ x, e = .wait x .wake

def AllSignalled (s : Threads) : Prop := ∀ x f, s.frames x = some f → Signalled f.inner

section Signalled

variable {D : Utf8Decoder} {s t : Threads} {e : Event}

theorem each_step {P : Activation → Prop} (h : ∀ x f, s.frames x = some f → P f)
    (hst : Transition D s e t) (enter : ∀ call param msg, P { call, param, msg })
    (setup : ∀ f point, P f → f.point ≠ .waitResult → P { f with point })
    (inner : ∀ f i inner, P f → ConsumerAckInner.Transition f.inner i inner →
      (ofWaitResult i = true → f.point = .waitResult ∧ ∃ x, e = .wait x i) → P { f with inner }) :
    ∀ x f, t.frames x = some f → P f := by
  have update : ∀ {y : Nat} {f? : Option Activation},
      t.frames = Function.update s.frames y f? → (∀ f, f? = some f → P f) →
        ∀ x f, t.frames x = some f → P f := by
    intro y f? hframes hf x f hx
    rw [hframes, Function.update_apply] at hx
    split_ifs at hx
    · exact hf f hx
    · exact h x f hx
  cases hst with
  | entered => exact update rfl fun f hf => Option.some.inj hf ▸ enter _ _ _
  | malloc hf hp | init hf hp | data hf hp | send hf hp =>
    exact update rfl fun f hf' => Option.some.inj hf' ▸ setup _ _ (h _ _ hf) (by simp [hp])
  | wait hf hp _ hst =>
    exact update rfl fun f hf' =>
      Option.some.inj hf' ▸ inner _ _ _ (h _ _ hf) hst fun _ => ⟨hp, _, rfl⟩
  | left => exact update rfl fun _ hf => by cases hf
  | ackLock _ hf _ hst | ack _ _ hf _ hst =>
    exact update rfl fun f hf' =>
      Option.some.inj hf' ▸ inner _ _ _ (h _ _ hf) hst fun hof => by cases hof
  | _ => exact h

theorem AllSignalled.step (h : AllSignalled s) (he : ¬Spurious e) (hst : Transition D s e t) :
    AllSignalled t := by
  refine each_step h hst (fun _ _ _ => ⟨by simp, by simp, by simp⟩) (fun _ _ hf _ => hf) ?_
  intro f i inner hf hst hof
  refine hf.step ?_ hst
  rintro rfl
  obtain ⟨-, x, rfl⟩ := hof rfl
  exact he ⟨x, rfl⟩

theorem AllSignalled.wokenAcked (h : AllSignalled s) : WokenAcked s e := by
  cases e with
  | wait x e =>
    intro f hf
    cases e with
    | wait => exact (h x f hf).reacquired
    | _ => trivial
  | _ => trivial

end Signalled

/-- As long as `uv_cond_wait` returns only after a signal, every interleaving hands its
messages over, and no statement follows a pointer to an activation that has returned. -/
theorem handsOver_of_not_spurious (D : Utf8Decoder) {es : List Event}
    (h : ∀ x, .wait x .wake ∉ es) :
    (threads D).Throughout (HandsOver D ·.trace) (threads D).init es ∧
      (threads D).Along TouchesRunning (threads D).init es := by
  have hsound : (threads D).Along (fun _ e => ¬Spurious e) (threads D).init es := by
    refine .of_forall (fun e he _ hsp => ?_) _
    obtain ⟨x, rfl⟩ := hsp
    exact h x he
  have hwoken : (threads D).Along WokenAcked (threads D).init es :=
    hsound.along (I := AllSignalled) (fun _ _ hs _ => hs.wokenAcked)
      (fun _ _ _ hs he hst => hs.step he (step_cases hst)) fun _ _ hf => by cases hf
  constructor
  · refine hwoken.throughout (fun s hs => ?_) (fun _ _ _ => Simulates.keep) (Simulates.init D)
    obtain ⟨a, hsim, hsync⟩ := hs
    exact hsim.handsOver hsync
  · refine hwoken.along (fun s e hs _ => ?_) (fun _ _ _ => Simulates.keep) (Simulates.init D)
    obtain ⟨a, hsim, -⟩ := hs
    exact hsim.touchesRunning

theorem handsOver_of_overlapping :
    (threads replacing).Throughout (HandsOver replacing ·.trace) (threads replacing).init
        overlapping ∧
      (threads replacing).Along TouchesRunning (threads replacing).init overlapping :=
  handsOver_of_not_spurious replacing (by simp [overlapping])

/-- Who will free a handle, or hand it on to somebody who will. -/
inductive Carried (s : Threads) (a : Nat) (u : UvAsync) : Prop
  | setup : s.frames x = some f → f.unsent x = some (a, u) → Carried s a u
  | pending : u.phase = .pending → u.data = some x → s.frames x = some f → f.call = u.call →
      (∀ r, f.inner.waiter ≠ .returned r) → Carried s a u
  | running : u.phase = .running → s.loop.async = some a → Carried s a u
  | closing : u.phase = .closing → Carried s a u

inductive Settles : Event → Prop
  | forget : Settles .forget
  | listenerEnd : Settles .listenerEnd
  | close : Settles .close
  | closed : Settles (.closed a)

structure Quiet (s : Threads) : Prop where
  frames : ∀ x, s.frames x = none
  acking : s.acking = none
  loop : ∀ a h, s.loop ≠ .building a h
  handles : ∀ a u, s.handles a = some u →
    u.phase = .closing ∨ u.phase = .running ∧ s.loop.async = some a
  running : ∀ a, s.loop.async = some a → ∃ u, s.handles a = some u
  bounded : Heap.Bounded s.handles

section Handles

variable {D : Utf8Decoder} {s t : Threads} {a : Delivery}

theorem Related.returned (h : Related s a) {x : Nat} {f : Activation} {r : Option CConsumeStatus}
    (hf : s.frames x = some f) (hr : f.inner.waiter = .returned r) : f.point = .waitResult := by
  have hrel := h.frames x
  rw [hf] at hrel
  generalize a.frames x = g? at hrel
  cases hrel with
  | running hshows => exact absurd hr (hshows.running r)
  | returned hp => exact hp

theorem Simulates.carried (h : Simulates D s a) (hacc : Accounted s) {n : Nat} {u : UvAsync}
    (hu : s.handles n = some u) : Carried s n u := by
  cases hp : u.phase with
  | allocated | initialized | bound =>
    obtain ⟨x, f, hf, hun⟩ := hacc.setup n u hu (by rw [hp]; exact id)
    exact .setup hf hun
  | pending =>
    obtain ⟨x, hx⟩ := hacc.pending n u hu hp
    obtain ⟨f, hf, hcall, hrun⟩ := h.touchesRunning (e := .dispatch n 0) x u.call (.param hu hp hx)
    exact .pending hp hx hf hcall hrun
  | running => exact .running hp (hacc.running n u hu hp)
  | closing => exact .closing hp

theorem Simulates.forget (h : Simulates D s a) (hframes : ∀ x, s.frames x = none) {q : Acking}
    (hq : s.acking = some q) : q.point = .forget ∧ ∃ o, s.acks q.ack = some o := by
  cases h.related.acks with
  | outside hq' => cases hq.symm.trans hq'
  | before hq' ho hx _ hacks =>
    cases hq.symm.trans hq'
    obtain ⟨g, hg, -⟩ := h.tracked.of_bound (hacks ▸ ho) hx
    obtain ⟨f, hf, -⟩ := h.related.of_frame hg
    cases (hframes _).symm.trans hf
  | after hq' ho _ hl hcall =>
    cases hq.symm.trans hq'
    refine ⟨?_, _, ho⟩
    cases hp : q.point with
    | call => exact absurd hp hcall
    | forget => rfl
    | inside =>
      obtain ⟨f, hf, -⟩ := hl hp
      cases (hframes _).symm.trans hf

theorem Simulates.quiet (h : Simulates D s a) (hacc : Accounted s) (hframes : ∀ x, s.frames x = none)
    (hloop : t.loop = s.loop) (hhandles : t.handles = s.handles) (htframes : t.frames = s.frames)
    (hacking : t.acking = none) : Quiet t where
  frames x := by rw [htframes, hframes]
  acking := hacking
  loop n hd hl := by
    rw [hloop] at hl
    obtain ⟨g, -, hg, -⟩ := h.tracked.of_handler (by rw [h.related.loop, hl]; rfl)
    obtain ⟨f, hf, -⟩ := h.related.of_frame hg
    cases (hframes _).symm.trans hf
  handles n u hu := by
    rw [hhandles] at hu
    cases h.carried hacc hu with
    | setup hf | pending _ _ hf => cases (hframes _).symm.trans hf
    | running hp ha => exact .inr ⟨hp, hloop ▸ ha⟩
    | closing hp => exact .inl hp
  running n hn := by
    rw [hloop] at hn
    obtain ⟨u, hu, -⟩ := h.owned.running n hn
    exact ⟨u, hhandles ▸ hu⟩
  bounded := hhandles ▸ hacc.bounded

theorem Quiet.drain (n : Nat) {s : Threads} (h : Quiet s) (hl : s.loop = .idle)
    (hn : ∀ i, n ≤ i → s.handles i = none) :
    ∃ fs t, (∀ e ∈ fs, Settles e) ∧ (threads D).exec s fs = some t ∧ ∀ i, t.handles i = none := by
  induction n generalizing s with
  | zero => exact ⟨[], s, by simp, rfl, fun i => hn i i.zero_le⟩
  | succ n ih =>
    cases hu : s.handles n with
    | none =>
      refine ih h hl fun i hi => ?_
      obtain rfl | hi := hi.eq_or_lt
      · exact hu
      · exact hn i hi
    | some u =>
      have hp : u.phase = .closing := by
        obtain hp | ⟨-, hp⟩ := h.handles n u hu
        · exact hp
        · rw [hl] at hp
          cases hp
      have hstep : (threads D).step s (.closed n) = some (s.setHandle n none) := by
        simp [threads, step, hu, hl, hp, h.acking]
      have hquiet : Quiet (s.setHandle n none) := by
        refine ⟨h.frames, h.acking, h.loop, fun i v hv => ?_, fun i hi => ?_, h.bounded.update n none⟩
        · rw [setHandle_handles, Function.update_apply] at hv
          split_ifs at hv
          exact h.handles i v hv
        · rw [setHandle_loop, hl] at hi
          cases hi
      obtain ⟨fs, t, hfs, ht, hnone⟩ := ih hquiet hl fun i hi => by
        rw [setHandle_handles, Function.update_apply]
        split_ifs with hni
        · rfl
        · exact hn i (by omega)
      refine ⟨.closed n :: fs, t, ?_, Machine.exec_cons_eq_some.mpr ⟨_, hstep, ht⟩, hnone⟩
      simpa using ⟨.closed, hfs⟩

theorem Quiet.leaving (h : Quiet s) {n k : Nat} (hl : s.loop = .leaving n k) :
    ∃ t, (threads D).step s .close = some t ∧ Quiet t ∧ t.loop = .idle := by
  obtain ⟨u, hu⟩ := h.running n (by rw [hl]; rfl)
  refine ⟨s.close n u, by simp [threads, step, hl, hu], ⟨h.frames, h.acking, by simp, ?_, ?_, ?_⟩, rfl⟩
  · intro i v hv
    rw [close_handles, Function.update_apply] at hv
    split_ifs at hv with hi
    · cases hv
      exact .inl rfl
    · obtain hp | ⟨-, hp⟩ := h.handles i v hv
      · exact .inl hp
      · rw [hl] at hp
        cases hp
        exact absurd rfl hi
  · exact fun i hi => by cases hi
  · exact h.bounded.update n _

theorem Quiet.settle (h : Quiet s) :
    ∃ fs t, (∀ e ∈ fs, Settles e) ∧ (threads D).exec s fs = some t ∧ ∀ i, t.handles i = none := by
  have finish : ∀ {s : Threads}, Quiet s → s.loop = .idle → ∃ fs t, (∀ e ∈ fs, Settles e) ∧
      (threads D).exec s fs = some t ∧ ∀ i, t.handles i = none := fun hq hl => by
    obtain ⟨n, hn⟩ := hq.bounded
    exact hq.drain n hl hn
  have close : ∀ {s : Threads} {n k : Nat}, Quiet s → s.loop = .leaving n k →
      ∃ fs t, (∀ e ∈ fs, Settles e) ∧ (threads D).exec s fs = some t ∧ ∀ i, t.handles i = none :=
    fun hq hl => by
      obtain ⟨t, ht, hqt, hidle⟩ := hq.leaving (D := D) hl
      obtain ⟨fs, u, hfs, hu, hnone⟩ := finish hqt hidle
      refine ⟨.close :: fs, u, ?_, Machine.exec_cons_eq_some.mpr ⟨t, ht, hu⟩, hnone⟩
      simpa using ⟨.close, hfs⟩
  cases hl : s.loop with
  | idle => exact finish h hl
  | building n hd => exact absurd hl (h.loop n hd)
  | leaving n k => exact close h hl
  | listening n k =>
    have hstep : (threads D).step s .listenerEnd = some (s.setLoop (.leaving n k)) := by
      simp [threads, step, hl, h.acking]
    have hq : Quiet (s.setLoop (.leaving n k)) := by
      refine ⟨h.frames, h.acking, by simp, ?_, ?_, h.bounded⟩
      · have hhandles := h.handles
        rwa [hl] at hhandles
      · have hrunning := h.running
        rwa [hl] at hrunning
    obtain ⟨fs, t, hfs, ht, hnone⟩ := close hq rfl
    refine ⟨.listenerEnd :: fs, t, ?_, Machine.exec_cons_eq_some.mpr ⟨_, hstep, ht⟩, hnone⟩
    simpa using ⟨.listenerEnd, hfs⟩

theorem accounted_of_along {es : List Event} (hP : (threads D).Along WokenAcked (threads D).init es)
    (h : (threads D).exec (threads D).init es = some s) :
    (∃ a, Simulates D s a ∧ Synchronous D a) ∧ Accounted s := by
  refine hP.invariant (I := fun s => (∃ a, Simulates D s a ∧ Synchronous D a) ∧ Accounted s) ?_
    ⟨Simulates.init D, .init⟩ h
  rintro s e t ⟨⟨a, hsim, hsync⟩, hacc⟩ hPe hst
  refine ⟨Simulates.keep ⟨a, hsim, hsync⟩ hPe hst, ?_⟩
  exact hacc.step hsim.owned (fun _ _ _ => hsim.related.returned) (step_cases hst)

/-- As long as `uv_cond_wait` returns only after the ack, every handle is on its way to
`close_async_done`, and none is left once the calls have returned and the loop has run. -/
theorem handles_accounted (D : Utf8Decoder) {es : List Event} {s : Threads}
    (hP : (threads D).Along WokenAcked (threads D).init es)
    (h : (threads D).exec (threads D).init es = some s) :
    (∀ a u, s.handles a = some u → Carried s a u) ∧
      ((∀ x, s.frames x = none) → ∃ fs t, (∀ e ∈ fs, Settles e) ∧
        (threads D).exec s fs = some t ∧ ∀ a, t.handles a = none) := by
  obtain ⟨⟨a, hsim, -⟩, hacc⟩ := accounted_of_along hP h
  refine ⟨fun n u hu => hsim.carried hacc hu, fun hframes => ?_⟩
  cases hq : s.acking with
  | none => exact (hsim.quiet hacc hframes rfl rfl rfl hq).settle
  | some q =>
    obtain ⟨hp, o, ho⟩ := hsim.forget hframes hq
    have hstep : (threads D).step s .forget = some (s.forget q o) := by
      simp [threads, step, hq, ho, hp]
    have hquiet : Quiet (s.forget q o) := hsim.quiet hacc hframes rfl rfl rfl rfl
    obtain ⟨fs, t, hfs, ht, hnone⟩ := hquiet.settle (D := D)
    refine ⟨.forget :: fs, t, ?_, Machine.exec_cons_eq_some.mpr ⟨_, hstep, ht⟩, hnone⟩
    simpa using ⟨.forget, hfs⟩

theorem handles_overlapping : ∃ s,
    (threads replacing).exec (threads replacing).init overlapping = some s ∧
      (∀ a u, s.handles a = some u → Carried s a u) ∧
      ((∀ x, s.frames x = none) → ∃ fs t, (∀ e ∈ fs, Settles e) ∧
        (threads replacing).exec s fs = some t ∧ ∀ a, t.handles a = none) :=
  ⟨_, rfl, handles_accounted replacing overlapping_wokenAcked rfl⟩

end Handles

end RocketMQClient.Consume.Threads
