import RocketMQClient.Consume.Rest

namespace RocketMQClient.Consume.Threads

open Library Marshal Handoff

inductive OnFrame (s : Threads) (e : Event) (t : Threads) (x : Nat) (f : Activation) : Prop
  | other : t.frames x = some f → e.task ≠ some (.sdk x) →
      (∀ q, s.acking = some q → q.inner = x → e ≠ .ackLock ∧ e ≠ .ack) → OnFrame s e t x f
  | setup : t.frames x = some { f with point } → f.point ≠ .waitResult →
      point.effort < f.point.effort → OnFrame s e t x f
  | wait : t.frames x = some { f with inner := next } → f.point = .waitResult → e = .wait x i →
      ofWaitResult i = true → ConsumerAckInner.Transition f.inner i next →
      t.trace = s.trace ++ returns f next → OnFrame s e t x f
  | ackLock : t.frames x = some { f with inner := next } → s.acking = some q → q.inner = x →
      q.point = .call → e = .ackLock → ConsumerAckInner.Transition f.inner (.ackLock status) next →
      OnFrame s e t x f
  | ack : t.frames x = some { f with inner := next } → e = .ack →
      ConsumerAckInner.Transition f.inner .ack next → OnFrame s e t x f
  | left : f.inner.waiter = .returned r → OnFrame s e t x f

section OnFrame

variable {D : Utf8Decoder} {s t : Threads} {e : Event} {x y : Nat} {f : Activation}

theorem OnFrame.of_ne {g? : Option Activation} (hf : s.frames x = some f) (hy : x ≠ y)
    (hframes : t.frames = Function.update s.frames y g?) (htask : e.task ≠ some (.sdk x))
    (hack : ∀ q, s.acking = some q → q.inner = x → e ≠ .ackLock ∧ e ≠ .ack) : OnFrame s e t x f :=
  .other (by rw [hframes, Function.update_of_ne hy, hf]) htask hack

theorem Transition.onFrame (hst : Transition D s e t) (hf : s.frames x = some f) :
    OnFrame s e t x f := by
  cases hst with
  | @entered y _ _ _ _ hy =>
    refine .of_ne (y := y) hf ?_ rfl (by simp [Event.task]) (by simp)
    rintro rfl
    cases hf.symm.trans hy
  | @malloc y g a hg hp | @init y g a h hg hp | @data y g a h hg hp | @send y g a h hg hp =>
    by_cases hy : x = y
    · subst hy
      cases hf.symm.trans hg
      exact .setup (Function.update_self ..) (by simp [hp]) (by simp [hp, Point.effort])
    · exact .of_ne hf hy rfl (by simpa [Event.task] using Ne.symm hy) (by simp)
  | @wait y g i next hg hp hof hst =>
    by_cases hy : x = y
    · subst hy
      cases hf.symm.trans hg
      exact .wait (Function.update_self ..) hp rfl hof hst rfl
    · refine .of_ne hf hy rfl (fun htask => hy ?_) (by simp)
      cases Event.task_wait htask
      rfl
  | @left y g r hg hr =>
    by_cases hy : x = y
    · subst hy
      cases hf.symm.trans hg
      exact .left hr
    · exact .of_ne hf hy rfl (by simpa [Event.task] using Ne.symm hy) (by simp)
  | @ackLock q g next hq hg hp hst =>
    by_cases hy : x = q.inner
    · subst hy
      cases hf.symm.trans hg
      exact .ackLock (Function.update_self ..) hq rfl hp rfl hst
    · refine .of_ne hf hy rfl (by simp [Event.task]) fun q' hq' hx => ?_
      cases hq.symm.trans hq'
      exact absurd hx.symm hy
  | @ack q o g next hq _ hg _ hst =>
    by_cases hy : x = q.inner
    · subst hy
      cases hf.symm.trans hg
      exact .ack (Function.update_self ..) rfl hst
    · refine .of_ne hf hy rfl (by simp [Event.task]) fun q' hq' hx => ?_
      cases hq.symm.trans hq'
      exact absurd hx.symm hy
  | _ => exact .other hf (by simp [Event.task]) (by simp)

end OnFrame

inductive OnLoop (s : Threads) (e : Event) (t : Threads) : Prop
  | other : t.loop = s.loop → e.task ≠ some .listener → (e.task = some .js → s.acking ≠ none) →
      OnLoop s e t
  | dispatched : s.loop = .idle → OnLoop s e t
  | column : s.loop = .building a h → t.loop = .building a { h with result, rest } →
      rest.length < h.rest.length → OnLoop s e t
  | listener : s.loop = .building a h → t.loop = .listening a h.ack →
      .listener h.call h.consumer h.result h.ack ∈ t.trace → OnLoop s e t
  | ended : s.loop = .listening a k → t.loop = .leaving a k → OnLoop s e t
  | closed : s.loop = .leaving a k → t.loop = .idle → t.acking = s.acking → OnLoop s e t

theorem Transition.onLoop {D : Utf8Decoder} {s t : Threads} {e : Event} (hst : Transition D s e t) :
    OnLoop s e t := by
  cases hst with
  | dispatched _ _ _ hl => exact .dispatched hl
  | column hl _ hr => exact .column hl rfl (by simp [hr])
  | listener hl => exact .listener hl rfl (List.mem_append_right _ (List.mem_singleton_self _))
  | listenerEnd hl => exact .ended hl rfl
  | close hl => exact .closed hl rfl rfl
  | ackLock hq | ack hq | forget hq => exact .other rfl (by simp [Event.task]) (by simp [hq])
  | wait => exact .other rfl (fun h => by cases Event.task_wait h) fun h => by cases Event.task_wait h
  | _ => exact .other rfl (by simp [Event.task]) (by simp [Event.task])

section Decided

variable {D : Utf8Decoder} {s t : Threads} {e : Event} {x k : Nat} {f : Activation} {q : Acking}

theorem Sound.waitResult_of_returned (h : Sound D s) (hf : s.frames x = some f)
    {r : Option CConsumeStatus} (hr : f.inner.waiter = .returned r) : f.point = .waitResult := by
  obtain ⟨b, hsim, -⟩ := h.simulated
  have hrel := hsim.related.frames x
  rw [hf] at hrel
  generalize b.frames x = g? at hrel
  cases hrel with
  | running hg => exact absurd hr (hg.running r)
  | returned hp => exact hp

theorem Sound.ack_of_js (h : Sound D s) (hst : Transition D s e t) (hq : s.acking = some q)
    (hp : q.point = .inside) (hjs : e.task = some .js) : e = .ack := by
  cases hst with
  | ack => rfl
  | column hl | listener hl => cases hq.symm.trans (h.not_acking_of_building hl)
  | close hl => cases hq.symm.trans (h.not_acking_of_leaving hl)
  | ackLock hq' _ hp' | forget hq' _ hp' =>
    cases hq.symm.trans hq'
    cases hp.symm.trans hp'
  | wait => cases Event.task_wait hjs
  | _ => cases hjs

theorem Sound.decided (h : Sound D s) {call : Nat} {args : List Js.JsValue}
    (hdone : .done call k args ∈ s.trace) (hf : s.frames x = some f) (hcall : f.call = call)
    (hrun : ∀ r, f.inner.waiter ≠ .returned r) :
    f.inner.acked = true ∧ f.point = .waitResult ∧
      ∀ q, s.acking = some q → q.inner = x → q.point ≠ .call := by
  obtain ⟨b, hsim, -⟩ := h.simulated
  have hrel := hsim.related.frames x
  rw [hf] at hrel
  generalize hga : b.frames x = g? at hrel
  cases hrel with
  | returned _ _ hr => exact absurd hr (hrun _)
  | @running _ g hg =>
    obtain ⟨p, hp, ht⟩ := hsim.tracked.tracks g.call
    have hv := view_frames hga
    have hanswer : .answer k (decision args) ∈ handoffOf D g.call b.trace :=
      mem_handoffOf (e := .done call k args) (hsim.related.trace ▸ hdone)
        (if_pos (hg.call.trans hcall).symm)
    generalize b.view g.call = v at ht hv
    generalize handoffOf D g.call b.trace = events at hp hanswer
    have hshape := hp.shape
    cases ht with
    | idle => cases hv
    | returned => cases hv
    | entered | pending | building =>
      cases hshape
      simp at hanswer
    | delivered =>
      obtain ⟨_, _, rfl⟩ := hshape
      simp at hanswer
    | decided _ hi hs =>
      obtain ⟨rfl, rfl⟩ := single_eq_some.mp hv
      refine ⟨?_, by simpa [hg.sent] using hs, ?_⟩
      · have hmutex := hg.inner.mutex
        have hacked := hi.acked
        cases hm : f.inner.mutex with
        | free =>
          rw [hm] at hmutex
          exact hmutex.1.symm.trans hacked
        | wait point =>
          rw [hm] at hmutex
          cases point with
          | check => exact hmutex.1.1.symm.trans hacked
          | found => exact hmutex.1.1.symm.trans hacked
          | reacquired => exact hmutex.1.1.symm.trans hacked
        | ack status point =>
          rw [hm] at hmutex
          cases point with
          | check => exact hmutex.1.symm.trans hacked
          | setAcked => cases hmutex.2.2.1.symm.trans hacked
          | signal => exact hmutex.1
          | unlock => exact hmutex.1.symm.trans hacked
      · rintro q hq rfl hpoint
        cases hsim.related.acks with
        | outside hq' => cases hq.symm.trans hq'
        | after hq' _ _ _ hcall' =>
          cases hq.symm.trans hq'
          exact hcall' hpoint
        | before hq' ho hx _ hacks =>
          cases hq.symm.trans hq'
          obtain ⟨g', hg', -, hunacked, -⟩ := hsim.tracked.of_bound (hacks ▸ ho) hx
          cases hga.symm.trans hg'
          cases hunacked.acked.symm.trans hi.acked

end Decided

def ackCourse (l : Loop) : Course Threads Task where
  On s := s.acking ≠ none ∧ s.loop = l
  Goal s := s.acking = none ∧ s.loop = l
  left s := s.acking.elim 0 fun q =>
    if q.point = .forget then 0 else q.effort + (s.frames q.inner).elim 0 (·.inner.effort)
  helper := ackHelper

def loopCourse : Course Threads Task where
  On s := s.loop ≠ .idle
  Goal s := s.loop = .idle ∧ s.acking = none
  left s := s.loop.effort
  helper s :=
    match s.loop with
    | .listening _ _ => .listener
    | _ => .js

def listenerCourse (call : Nat) : Course Threads Task where
  On s := ∃ a h, s.loop = .building a h ∧ h.call = call
  Goal s := ∃ n o k, .listener call n o k ∈ s.trace
  left s := s.loop.effort
  helper _ := .js

def handleCourse (a call : Nat) : Course Threads Task where
  On s := ∃ u, s.handles a = some u ∧ u.phase = .pending ∧ u.call = call
  Goal s := ∃ h, s.loop = .building a h ∧ h.call = call
  left _ := 0
  helper _ := .handle a

def enterCourse (x call : Nat) : Course Threads Task where
  On s := ∃ f, s.frames x = some f ∧ f.call = call ∧ f.point ≠ .waitResult
  Goal s := ∃ f, s.frames x = some f ∧ f.call = call ∧ f.point = .waitResult
  left s := (s.frames x).elim 0 (·.point.effort)
  helper _ := .sdk x

def returnCourse (x call : Nat) : Course Threads Task where
  On s := (∃ k args, .done call k args ∈ s.trace) ∧
    ∃ f, s.frames x = some f ∧ f.call = call ∧ ∀ r, f.inner.waiter ≠ .returned r
  Goal s := ∃ r, .returned call r ∈ s.trace
  left s := (s.frames x).elim 0 (·.inner.effort)
  helper s := s.waitHelper x

section Courses

variable {D : Utf8Decoder} {s t : Threads} {e : Event} {x a k call : Nat} {l : Loop} {f : Activation}
  {q : Acking}

theorem Sound.acking_other (h : Sound D s) (he : ¬Spurious e) (hst : Transition D s e t)
    (hq : s.acking = some q) (hl : s.loop = l) (hacking : t.acking = s.acking)
    (hloop : t.loop = s.loop) (hjs : e.task ≠ some .js) : (ackCourse l).Follows Event.task s e t := by
  have hon : (ackCourse l).On t := ⟨by simp [hacking, hq], hloop.trans hl⟩
  have hq' : t.acking = some q := hacking.trans hq
  by_cases hp : q.point = .forget
  · exact .waits hon (by simp [ackCourse, hq, hq', hp]) (by simp [ackCourse, ackHelper, hq, hq', hp])
      (by simpa [ackCourse, ackHelper, hq, hp] using hjs)
  · obtain ⟨f, hf, hrun⟩ := h.running hq hp
    cases hst.onFrame hf with
    | left hr => exact absurd hr (hrun _)
    | ackLock _ _ _ _ he' | ack _ he' =>
      subst he'
      exact absurd rfl hjs
    | other hf' htask =>
      refine .waits hon (by simp [ackCourse, hq, hq', hf, hf'])
        (by simp [ackCourse, ackHelper, hq, hq', hf, hf']) ?_
      simp only [ackCourse, ackHelper, hq, if_neg hp, hf, Option.bind_some]
      cases hm : f.inner.mutex with
      | free | ack => exact hjs
      | wait => exact htask
    | setup hf' hpoint =>
      refine .waits hon (by simp [ackCourse, hq, hq', hf, hf'])
        (by simp [ackCourse, ackHelper, hq, hq', hf, hf']) ?_
      simp only [ackCourse, ackHelper, hq, if_neg hp, hf, Option.bind_some]
      cases hm : f.inner.mutex with
      | free | ack => exact hjs
      | wait => exact absurd (h.waitResult_of_wait hf hm) hpoint
    | wait hf' _ he' hof hinner =>
      have hless := ConsumerAckInner.wait_effort hinner hof fun hw => he ⟨q.inner, hw ▸ he'⟩
      exact .advances hon (by simpa [ackCourse, hq, hq', hf, hf', hp] using hless)

theorem Sound.acking_follows (h : Sound D s) (he : ¬Spurious e) (hst : Transition D s e t)
    (hon : (ackCourse l).On s) : (ackCourse l).Follows Event.task s e t := by
  obtain ⟨hne, hl⟩ := hon
  obtain ⟨q, hq⟩ := Option.ne_none_iff_exists'.mp hne
  have hother := h.acking_other he hst hq hl
  cases hst with
  | refused | entered | malloc | init | data | send | left =>
    exact hother rfl rfl (by simp [Event.task])
  | wait => exact hother rfl rfl fun h => by cases Event.task_wait h
  | construct _ hjs | doneAgain _ _ hjs | done _ _ hjs =>
    simp [runsJs, hq] at hjs
  | dispatched _ _ _ _ _ hq' | listenerEnd _ hq' | closed _ _ _ hq' | dropped _ _ hq'
  | finalized _ _ _ _ hq' =>
    cases hq.symm.trans hq'
  | column hl' | listener hl' => cases hq.symm.trans (h.not_acking_of_building hl')
  | close hl' => cases hq.symm.trans (h.not_acking_of_leaving hl')
  | ackLock hq' hf hp hinner =>
    cases hq.symm.trans hq'
    cases hinner with
    | ackLock _ hfree =>
      refine .advances ⟨by simp, hl⟩ ?_
      simp [ackCourse, hq, hf, hp, Acking.effort, ConsumerAckInner.State.effort,
        ConsumerAckInner.AckPoint.effort, hfree]
      omega
  | ack hq' ho hf hp hinner =>
    cases hq.symm.trans hq'
    cases hinner with
    | ack hm =>
      have hless := ConsumerAckInner.ackStep_effort hm
      refine .advances ⟨by simp, hl⟩ ?_
      simp only [ackCourse, hq, hf, hp, Option.elim_some, Acking.effort, ack_acking, ack_frames,
        Function.update_self]
      split_ifs <;> simp <;> omega
  | forget => exact .arrives ⟨rfl, hl⟩

theorem Sound.loop_follows (h : Sound D s) (hst : Transition D s e t) (hon : loopCourse.On s) :
    loopCourse.Follows Event.task s e t := by
  cases hst.onLoop with
  | dispatched hl => exact absurd hl hon
  | column hl hl' hless =>
    exact .advances (by simp [loopCourse, hl']) (by simp [loopCourse, hl, hl', Loop.effort, hless])
  | listener hl hl' =>
    exact .advances (by simp [loopCourse, hl']) (by simp [loopCourse, hl, hl', Loop.effort])
  | ended hl hl' =>
    exact .advances (by simp [loopCourse, hl']) (by simp [loopCourse, hl, hl', Loop.effort])
  | closed hl hl' hq => exact .arrives ⟨hl', hq.trans (h.not_acking_of_leaving hl)⟩
  | other hloop hlistener hjs =>
    have hon' : t.loop ≠ .idle := hloop ▸ hon
    refine .waits hon' (by simp [loopCourse, hloop]) (by simp [loopCourse, hloop]) ?_
    cases hl : s.loop with
    | idle => exact absurd hl hon
    | listening => simpa [loopCourse, hl] using hlistener
    | building => simpa [loopCourse, hl] using fun htask => hjs htask (h.not_acking_of_building hl)
    | leaving => simpa [loopCourse, hl] using fun htask => hjs htask (h.not_acking_of_leaving hl)

theorem Sound.listener_follows (h : Sound D s) (hst : Transition D s e t)
    (hon : (listenerCourse call).On s) : (listenerCourse call).Follows Event.task s e t := by
  obtain ⟨a, hd, hl, rfl⟩ := hon
  cases hst.onLoop with
  | column hl' hnext hless =>
    cases hl.symm.trans hl'
    exact .advances ⟨a, _, hnext, rfl⟩ (by simp [listenerCourse, hl, hnext, Loop.effort, hless])
  | listener hl' _ hlistener =>
    cases hl.symm.trans hl'
    exact .arrives ⟨_, _, _, hlistener⟩
  | other hloop _ hjs =>
    refine .waits ⟨a, hd, hloop.trans hl, rfl⟩ (by simp [listenerCourse, hloop]) rfl ?_
    exact fun htask => hjs htask (h.not_acking_of_building hl)
  | dispatched hl' | ended hl' | closed hl' => cases hl.symm.trans hl'

theorem Sound.handle_follows (h : Sound D s) (hst : Transition D s e t)
    (hon : (handleCourse a call).On s) : (handleCourse a call).Follows Event.task s e t := by
  obtain ⟨u, hu, hp, hcall⟩ := hon
  obtain ⟨b, hsim, -⟩ := h.simulated
  have hother : t.handles a = s.handles a → e.task ≠ some (.handle a) →
      (handleCourse a call).Follows Event.task s e t := fun hsame htask =>
    .waits ⟨u, hsame.trans hu, hp, hcall⟩ rfl rfl htask
  have hunsent : ∀ {x f n v}, s.frames x = some f → f.unsent x = some (n, v) → a ≠ n := by
    rintro x f n v hf hun rfl
    obtain ⟨-, hsent⟩ := Activation.unsent_spec hun
    cases hu.symm.trans (hsim.owned.unsent x f a v hf hun)
    exact hsent (by rw [hp]; trivial)
  cases hst with
  | @malloc x f n _ _ hn =>
    refine hother (Function.update_of_ne ?_ ..) (by simp [Event.task])
    rintro rfl
    cases hu.symm.trans hn
  | init hf hpoint | data hf hpoint | send hf hpoint =>
    exact hother (Function.update_of_ne (hunsent hf (by rw [Activation.unsent, hpoint])) ..)
      (by simp [Event.task])
  | @dispatched n v x g k hn hx hg =>
    by_cases ha : a = n
    · subst ha
      cases hu.symm.trans hn
      exact .arrives ⟨_, rfl, hcall⟩
    · exact hother (Function.update_of_ne ha ..) (by simpa [Event.task] using Ne.symm ha)
  | @close n k v hl hn =>
    refine hother (Function.update_of_ne ?_ ..) (by simp [Event.task])
    rintro rfl
    obtain ⟨w, hw, hrunning⟩ := hsim.owned.running a (by rw [hl]; rfl)
    cases hu.symm.trans hw
    cases hp.symm.trans hrunning
  | @closed n v hn _ hclosing =>
    have ha : a ≠ n := by
      rintro rfl
      cases hu.symm.trans hn
      cases hp.symm.trans hclosing
    exact hother (Function.update_of_ne ha ..) (by simpa [Event.task] using ha.symm)
  | wait => exact hother rfl fun h => by cases Event.task_wait h
  | _ => exact hother rfl (by simp [Event.task])

theorem Sound.enter_follows (h : Sound D s) (hst : Transition D s e t)
    (hon : (enterCourse x call).On s) : (enterCourse x call).Follows Event.task s e t := by
  obtain ⟨f, hf, hcall, hp⟩ := hon
  cases hst.onFrame hf with
  | other hf' htask =>
    exact .waits ⟨f, hf', hcall, hp⟩ (by simp [enterCourse, hf, hf']) rfl htask
  | @setup point hf' _ hless =>
    by_cases hp' : point = .waitResult
    · exact .arrives ⟨_, hf', hcall, hp'⟩
    · exact .advances ⟨_, hf', hcall, hp'⟩ (by simpa [enterCourse, hf, hf'] using hless)
  | wait _ hp' => exact absurd hp' hp
  | ackLock hf' _ _ _ he | ack hf' he =>
    subst he
    exact .waits ⟨_, hf', hcall, hp⟩ (by simp [enterCourse, hf, hf']) rfl
      (by simp [enterCourse, Event.task])
  | left hr => exact absurd (h.waitResult_of_returned hf hr) hp

theorem Sound.return_follows (h : Sound D s) (he : ¬Spurious e) (hst : Transition D s e t)
    (hon : (returnCourse x call).On s) : (returnCourse x call).Follows Event.task s e t := by
  obtain ⟨⟨k, args, hdone⟩, f, hf, hcall, hrun⟩ := hon
  obtain ⟨-, hpoint, hnotcall⟩ := h.decided hdone hf hcall hrun
  have hdone' := hst.grows.subset hdone
  have hwaits : ∀ {f'}, t.frames x = some f' → f'.call = call → f'.inner = f.inner →
      e.task ≠ some (s.waitHelper x) → (returnCourse x call).Follows Event.task s e t := by
    intro f' hf' hcall' hinner htask
    exact .waits ⟨⟨k, args, hdone'⟩, f', hf', hcall', hinner ▸ hrun⟩
      (by simp [returnCourse, hf, hf', hinner])
      (by simp [returnCourse, waitHelper, hf, hf', hinner]) htask
  cases hst.onFrame hf with
  | left hr => exact absurd hr (hrun _)
  | setup _ hp => exact absurd hpoint hp
  | ackLock _ hq hx hp => exact absurd hp (hnotcall _ hq hx)
  | @wait next i hf' _ he' hof hinner htrace =>
    have hless := ConsumerAckInner.wait_effort hinner hof fun hw => he ⟨x, hw ▸ he'⟩
    by_cases hret : ∃ r, next.waiter = .returned r
    · obtain ⟨r, hr⟩ := hret
      refine .arrives ⟨r, ?_⟩
      rw [htrace, returns_of_returned hr, hcall]
      exact List.mem_append_right _ (List.mem_singleton_self _)
    · exact .advances ⟨⟨k, args, hdone'⟩, _, hf', hcall, fun r hr => hret ⟨r, hr⟩⟩
        (by simpa [returnCourse, hf, hf'] using hless)
  | ack hf' _ hinner =>
    cases hinner with
    | ack hm =>
      refine .advances ⟨⟨k, args, hdone'⟩, _, hf', hcall, fun r hr => ?_⟩ ?_
      · exact hrun r (ConsumerAckInner.ackStep_returned hr)
      · simpa [returnCourse, hf, hf'] using ConsumerAckInner.ackStep_effort hm
  | other hf' htask hnotack =>
    refine hwaits hf' hcall rfl ?_
    simp only [waitHelper, hf, Option.bind_some]
    cases hm : f.inner.mutex with
    | free | wait => exact htask
    | ack status point =>
      -- the `Ack` that holds the mutex is the one under way
      obtain ⟨q, hq, hx, hp⟩ := h.of_locked hf hm
      exact fun hjs => (hnotack q hq hx).2 (h.ack_of_js hst hq hp hjs)

end Courses

end RocketMQClient.Consume.Threads
