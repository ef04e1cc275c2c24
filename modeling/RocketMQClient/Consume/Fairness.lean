import RocketMQClient.Consume.Courses

namespace RocketMQClient.Consume.Threads

open Library Marshal Handoff

section Stages

variable {D : Utf8Decoder} {s : Threads} {call k : Nat}

theorem Sound.stage (h : Sound D s) {ptr n : Nat} {msg : CMessageExt}
    (hcall : .onMessage call ptr n msg ∈ s.trace) :
    (∃ x, (enterCourse x call).On s) ∨ (∃ a, (handleCourse a call).On s) ∨
      (listenerCourse call).On s ∨ (listenerCourse call).Goal s := by
  obtain ⟨b, hsim, -⟩ := h.simulated
  obtain ⟨p, hp, ht⟩ := hsim.tracked.tracks call
  have hmem : .call n (messageObject D msg) ∈ handoffOf D call b.trace :=
    mem_handoffOf (e := .onMessage call ptr n msg) (hsim.related.trace ▸ hcall) (if_pos rfl)
  have hheard : ∀ n o k, .deliver n o k ∈ handoffOf D call b.trace →
      (listenerCourse call).Goal s := fun n o k hd =>
    ⟨n, o, k, hsim.related.trace ▸ deliver_mem_handoffOf hd⟩
  have hframes := fun x f => frames_of_view (s := b) (c := call) (x := x) (f := f)
  have hpending : ∀ a async, (b.view call).pending a = some async → b.pending a = some async :=
    fun a async ha => (Option.filter_eq_some_iff.mp ha).1
  have hloop := fun hd => loop_of_view (s := b) (c := call) (h := hd)
  have hshape := hp.shape
  generalize b.view call = v at ht hframes hpending hloop
  generalize handoffOf D call b.trace = events at hmem hheard hshape
  cases ht with
  | idle =>
    cases hshape
    simp at hmem
  | @entered x g hat _ hs =>
    obtain ⟨f, hf, hshows⟩ := hsim.related.of_frame (hframes x g (single_self _ _))
    exact .inl ⟨x, f, hf, hshows.at hat, by simpa [hshows.sent] using hs⟩
  | @pending x g a =>
    have ha := hpending a _ (single_self _ _)
    rw [hsim.related.pending, Option.bind_eq_some_iff] at ha
    obtain ⟨u, hu, hasync⟩ := ha
    simp only [UvAsync.async] at hasync
    split_ifs at hasync with hphase
    obtain ⟨y, -, hy⟩ := Option.map_eq_some_iff.mp hasync
    cases hy
    exact .inr (.inl ⟨a, u, hu, hphase, rfl⟩)
  | @building x g k o hd _ _ _ _ hh =>
    have hl := hloop hd rfl
    rw [hsim.related.loop] at hl
    cases hsl : s.loop with
    | building a hd' =>
      rw [hsl] at hl
      cases hl
      exact .inr (.inr (.inl ⟨a, hd, hsl, hh.call⟩))
    | idle | listening | leaving =>
      rw [hsl] at hl
      cases hl
  | @delivered _ _ token =>
    obtain ⟨server, request, rfl⟩ := hshape
    exact .inr (.inr (.inr (hheard server request token (by simp))))
  | @decided _ _ token =>
    obtain ⟨server, request, _, -, rfl⟩ := hshape
    exact .inr (.inr (.inr (hheard server request token (by simp))))
  | @returned token =>
    obtain ⟨server, request, _, _, -, -, rfl⟩ := hshape
    exact .inr (.inr (.inr (hheard server request token (by simp))))

theorem Sound.answered (h : Sound D s) {args : List Js.JsValue}
    (hdone : .done call k args ∈ s.trace) :
    (∃ x, (returnCourse x call).On s) ∨ ∃ r, .returned call r ∈ s.trace := by
  obtain ⟨b, hsim, -⟩ := h.simulated
  obtain ⟨p, hp, ht⟩ := hsim.tracked.tracks call
  have hmem : .answer k (decision args) ∈ handoffOf D call b.trace :=
    mem_handoffOf (e := .done call k args) (hsim.related.trace ▸ hdone) (if_pos rfl)
  have hreturned : ∀ r, .finish r ∈ handoffOf D call b.trace → .returned call r ∈ s.trace :=
    fun r hr => hsim.related.trace ▸ finish_mem_handoffOf hr
  have hframes := fun x f => frames_of_view (s := b) (c := call) (x := x) (f := f)
  have hshape := hp.shape
  generalize b.view call = v at ht hframes
  generalize handoffOf D call b.trace = events at hmem hreturned hshape
  cases ht with
  | idle | entered | pending | building =>
    cases hshape
    simp at hmem
  | delivered =>
    obtain ⟨_, _, rfl⟩ := hshape
    simp at hmem
  | @decided x g _ _ _ hat =>
    obtain ⟨f, hf, hshows⟩ := hsim.related.of_frame (hframes x g (single_self _ _))
    exact .inl ⟨x, ⟨k, args, hdone⟩, f, hf, hshows.at hat, hshows.running⟩
  | @returned _ _ r =>
    obtain ⟨_, _, _, _, -, -, rfl⟩ := hshape
    exact .inr ⟨_, hreturned (some r) (by simp)⟩

end Stages

structure Unneglected {D : Utf8Decoder} (b : Behaviour (threads D)) : Prop where
  fair : b.Fair Event.task
  signalled : ∀ n x, b.event n ≠ some (.wait x .wake)

section Unneglected

variable {D : Utf8Decoder} {b : Behaviour (threads D)} {n call : Nat}

theorem Unneglected.not_spurious (h : Unneglected b) (n : Nat) (e : Event)
    (he : b.event n = some e) : ¬Spurious e := by
  rintro ⟨x, rfl⟩
  exact h.signalled n x he

theorem Unneglected.sound (h : Unneglected b) (n : Nat) : Sound D (b.state n) :=
  Behaviour.invariant h.not_spurious (Sound.init D)
    (fun _ _ _ hs he hst => hs.step he (step_cases hst)) n

theorem trace_grows {m : Nat} (hm : n ≤ m) : (b.state n).trace <+: (b.state m).trace := by
  induction m, hm using Nat.le_induction with
  | base => exact List.prefix_rfl
  | succ m _ ih =>
    obtain ⟨-, hsame⟩ | ⟨e, -, hst⟩ := b.state_succ m
    · rwa [hsame]
    · exact ih.trans (step_cases hst).grows

theorem Unneglected.arrives (h : Unneglected b) {C : Course Threads Task}
    (follows : ∀ {s t e}, Sound D s → ¬Spurious e → Transition D s e t → C.On s →
      C.Follows Event.task s e t)
    (enabled : ∀ n, (∀ m ≥ n, C.On (b.state m)) →
      ∃ m ≥ n, Enabled D (C.helper (b.state m)) (b.state m))
    (hn : C.On (b.state n)) : b.Eventually n C.Goal :=
  h.fair.arrives
    (fun n e he hst hon => follows (h.sound n) (h.not_spurious n e he) (step_cases hst) hon)
    enabled hn

theorem Unneglected.ack_ends (h : Unneglected b) (hq : (b.state n).acking ≠ none) :
    b.Eventually n fun s => s.acking = none ∧ s.loop = (b.state n).loop := by
  refine h.arrives (C := ackCourse (b.state n).loop) Sound.acking_follows (fun m hm => ?_) ⟨hq, rfl⟩
  obtain ⟨q, hq⟩ := Option.ne_none_iff_exists'.mp (hm m le_rfl).1
  exact ⟨m, le_rfl, (h.sound m).enabled_ack hq⟩

theorem Unneglected.back (h : Unneglected b) (n : Nat) :
    b.Eventually n fun s => s.loop = .idle ∧ s.acking = none := by
  by_cases hl : (b.state n).loop = .idle
  · by_cases hq : (b.state n).acking = none
    · exact ⟨n, le_rfl, hl, hq⟩
    · exact (h.ack_ends hq).mono fun m hm => ⟨hm.2.trans hl, hm.1⟩
  · refine h.arrives (C := loopCourse) (fun hs _ => hs.loop_follows) (fun m hm => ?_) hl
    have hon := hm m le_rfl
    cases hlm : (b.state m).loop with
    | idle => exact absurd hlm hon
    | building => exact ⟨m, le_rfl, by simpa [loopCourse, hlm] using (h.sound m).enabled_building hlm⟩
    | leaving => exact ⟨m, le_rfl, by simpa [loopCourse, hlm] using (h.sound m).enabled_leaving hlm⟩
    | listening =>
      have hlistening : ∀ k ≥ m, (b.state k).acking = none → (b.state k).loop = (b.state m).loop →
          Enabled D (loopCourse.helper (b.state k)) (b.state k) := fun k _ hq hsame => by
        simpa [loopCourse, hsame, hlm] using enabled_listening (hsame.trans hlm) hq
      by_cases hq : (b.state m).acking = none
      · exact ⟨m, le_rfl, hlistening m le_rfl hq rfl⟩
      · obtain ⟨k, hk, hq', hsame⟩ := h.ack_ends hq
        exact ⟨k, hk, hlistening k hk hq' hsame⟩

theorem Unneglected.heard_of_building (h : Unneglected b) (hon : (listenerCourse call).On (b.state n)) :
    b.Eventually n (listenerCourse call).Goal := by
  refine h.arrives (fun hs _ => hs.listener_follows) (fun m hm => ?_) hon
  obtain ⟨a, hd, hl, -⟩ := hm m le_rfl
  exact ⟨m, le_rfl, (h.sound m).enabled_building hl⟩

theorem Unneglected.heard_of_pending (h : Unneglected b) {a : Nat}
    (hon : (handleCourse a call).On (b.state n)) : b.Eventually n (listenerCourse call).Goal := by
  have hdispatched : b.Eventually n (handleCourse a call).Goal := by
    refine h.arrives (fun hs _ => hs.handle_follows) (fun m hm => ?_) hon
    obtain ⟨k, hk, hl, hq⟩ := h.back m
    obtain ⟨u, hu, hp, -⟩ := hm k hk
    exact ⟨k, hk, (h.sound k).enabled_pending hu hp hl hq⟩
  refine hdispatched.trans fun m _ hgoal => ?_
  obtain ⟨hd, hl, hcall⟩ := hgoal
  exact h.heard_of_building ⟨a, hd, hl, hcall⟩

theorem Unneglected.heard (h : Unneglected b) {ptr c : Nat} {msg : CMessageExt}
    (hcall : .onMessage call ptr c msg ∈ (b.state n).trace) :
    b.Eventually n (listenerCourse call).Goal := by
  obtain ⟨x, hon⟩ | ⟨a, hon⟩ | hon | hgoal := (h.sound n).stage hcall
  · have hentered : b.Eventually n (enterCourse x call).Goal := by
      refine h.arrives (fun hs _ => hs.enter_follows) (fun m hm => ?_) hon
      obtain ⟨f, hf, -, hp⟩ := hm m le_rfl
      exact ⟨m, le_rfl, (h.sound m).enabled_setup hf hp⟩
    refine hentered.trans fun m hm hgoal => ?_
    obtain ⟨f, hf, hfcall, hp⟩ := hgoal
    obtain ⟨y, g, hg, hgcall, hgp⟩ | ⟨a, hon⟩ | hon | hgoal :=
      (h.sound m).stage ((trace_grows hm).subset hcall)
    · -- a call has one activation
      obtain ⟨a, hsim, -⟩ := (h.sound m).simulated
      obtain rfl := hsim.owned.unique y x g f hg hf (hgcall.trans hfcall.symm)
      cases hf.symm.trans hg
      exact absurd hp hgp
    · exact h.heard_of_pending hon
    · exact h.heard_of_building hon
    · exact ⟨m, le_rfl, hgoal⟩
  · exact h.heard_of_pending hon
  · exact h.heard_of_building hon
  · exact ⟨n, le_rfl, hgoal⟩

theorem Unneglected.returned (h : Unneglected b) {k : Nat} {args : List Js.JsValue}
    (hdone : .done call k args ∈ (b.state n).trace) :
    b.Eventually n fun s => ∃ r, .returned call r ∈ s.trace := by
  obtain ⟨x, hon⟩ | hreturned := (h.sound n).answered hdone
  · refine h.arrives (C := returnCourse x call) Sound.return_follows (fun m hm => ?_) hon
    obtain ⟨⟨k, args, hdone⟩, f, hf, hcall, hrun⟩ := hm m le_rfl
    obtain ⟨hacked, hp, -⟩ := (h.sound m).decided hdone hf hcall hrun
    exact ⟨m, le_rfl, (h.sound m).enabled_wait hf hp fun _ => hacked⟩
  · exact ⟨n, le_rfl, hreturned⟩

/-- Where no thread, no listener and no handle is neglected (libuv neglects none that was
initialized on the thread of the loop), the listener gets every message, and every call of
`OnMessage` whose ack is answered returns. -/
theorem every_call_heard_and_returned (D : Utf8Decoder) (b : Behaviour (threads D))
    (hfair : b.Fair Event.task) (hes : ∀ n x, b.event n ≠ some (.wait x .wake)) (n call : Nat) :
    (∀ ptr c msg, .onMessage call ptr c msg ∈ (b.state n).trace →
        b.Eventually n fun s => ∃ k, .listener call c (messageObject D msg) k ∈ s.trace) ∧
      ∀ k args, .done call k args ∈ (b.state n).trace →
        b.Eventually n fun s => ∃ r, .returned call r ∈ s.trace := by
  have h : Unneglected b := ⟨hfair, hes⟩
  refine ⟨fun ptr c msg hcall => ?_, fun k args hdone => h.returned hdone⟩
  refine (h.heard hcall).trans fun m hm hgoal => ⟨m, le_rfl, ?_⟩
  obtain ⟨c', o, k, hlistener⟩ := hgoal
  obtain ⟨a, hsim, hsync⟩ := (h.sound m).simulated
  have hover := hsim.handsOver hsync
  obtain ⟨ptr', msg', hcall', rfl⟩ := hover.onMessage_of_listener hlistener
  obtain ⟨rfl, rfl⟩ := hover.onMessage_unique ((trace_grows hm).subset hcall) hcall'
  exact ⟨k, hlistener⟩

theorem not_enabled {s : Threads} (hframes : ∀ x, s.frames x = none)
    (hhandles : ∀ a, s.handles a = none) (hl : s.loop = .idle) (hq : s.acking = none) (i : Task) :
    ¬Enabled D i s := by
  rintro ⟨e, t, htask, hst⟩
  cases step_cases hst with
  | malloc hf | init hf | data hf | send hf | wait hf | left hf => cases (hframes _).symm.trans hf
  | dispatched ha | closed ha => cases (hhandles _).symm.trans ha
  | column hl' | listener hl' | listenerEnd hl' | close hl' => cases hl.symm.trans hl'
  | ackLock hq' | ack hq' | forget hq' => cases hq.symm.trans hq'
  | _ => cases htask

def answeredAtOnce : List Event :=
  [.construct 0, .onMessage 10 0 ⟨[], [], [], [], []⟩, .malloc 10 20, .advance 10, .advance 10,
    .advance 10, .dispatch 20 30, .readColumn, .readColumn, .readColumn, .readColumn, .readColumn,
    .callListener true, .done 30 [], .ackLock, .ack, .ack, .ack, .ack, .forget, .wait 10 .waitLock,
    .wait 10 .wait, .wait 10 .wait, .leave 10, .listenerEnd, .close, .closed 20]

theorem every_call_answeredAtOnce : ∃ b : Behaviour (threads replacing),
    .onMessage 0 0 0 ⟨[], [], [], [], []⟩ ∈ (b.state 2).trace ∧
      (b.Eventually 2 fun s =>
        ∃ k, .listener 0 0 (messageObject replacing ⟨[], [], [], [], []⟩) k ∈ s.trace) ∧
      b.Eventually 18 fun s => ∃ r, .returned 0 r ∈ s.trace := by
  obtain ⟨s, hs, hend⟩ : ∃ s,
      (threads replacing).exec (threads replacing).init answeredAtOnce = some s ∧
      ∀ i, ¬Enabled replacing i s := by
    refine ⟨_, rfl, not_enabled (fun x => ?_) (fun a => ?_) rfl rfl⟩
    · by_cases hx : x = 10
      · subst hx
        rfl
      · simp [threads, hx, onMessage, Registry.lookup]
    · by_cases ha : a = 20
      · subst ha
        rfl
      · simp [threads, ha, onMessage, Registry.lookup]
  have hes : ∀ n x, (Behaviour.ofExec hs).event n ≠ some (.wait x .wake) := by
    intro n x hn
    have hmem : Event.wait x .wake ∈ answeredAtOnce := List.mem_of_getElem? hn
    simp [answeredAtOnce] at hmem
  have hlive := fun n => every_call_heard_and_returned replacing (Behaviour.ofExec hs)
    (Behaviour.fair_ofExec hs hend) hes n 0
  have hcall : .onMessage 0 0 0 ⟨[], [], [], [], []⟩ ∈ ((Behaviour.ofExec hs).state 2).trace :=
    List.mem_cons_of_mem _ (List.mem_singleton_self _)
  have hdone : .done 0 30 [] ∈ ((Behaviour.ofExec hs).state 18).trace :=
    List.mem_append_right _ (List.mem_singleton_self _)
  exact ⟨Behaviour.ofExec hs, hcall, (hlive 2).1 _ _ _ hcall, (hlive 18).2 _ _ hdone⟩

end Unneglected

end RocketMQClient.Consume.Threads
