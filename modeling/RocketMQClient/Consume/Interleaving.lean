import RocketMQClient.Consume.Handles
import RocketMQClient.Consume.Synchronous

namespace RocketMQClient.Consume.Threads

open Library Marshal

structure Activation.Shows (f : Activation) (g : Frame) : Prop where
  call : g.call = f.call
  param : g.param = f.param
  msg : g.msg = f.msg
  sent : g.sent = decide (f.point = .waitResult)
  inner : ConsumerAckInner.Matches f.inner g.ackInner
  running : ∀ r, f.inner.waiter ≠ .returned r

/-- The delivery lets go of a frame when `WaitResult` reads the status it returns. -/
inductive FrameRel : Option Activation → Option Frame → Prop
  | absent : FrameRel none none
  | running : f.Shows g → FrameRel (some f) (some g)
  | returned : f.point = .waitResult → f.inner.mutex = .free → f.inner.waiter = .returned r →
      FrameRel (some f) none

def UvAsync.async (h : UvAsync) : Option Async :=
  if h.phase = .pending then h.data.map fun x => ⟨x, h.call⟩ else none

def Loop.section : Loop → Consume.Loop
  | .idle => .idle
  | .building _ h => .building h
  | .listening _ k => .listening k
  | .leaving _ _ => .idle

def Locked (f? : Option Activation) (call : Nat) (status : CConsumeStatus)
    (point : ConsumerAckInner.AckPoint) : Prop :=
  ∃ f, f? = some f ∧ f.call = call ∧ f.inner.mutex = .ack status point

/-- `Ack` has not taken effect, or has and `inner` is still to be cleared. -/
inductive AckRel (s : Threads) (acks : Nat → Option ConsumerAck) : Prop
  | outside : s.acking = none → acks = s.acks → AckRel s acks
  | before : s.acking = some q → s.acks q.ack = some o → o.inner = some q.inner → o.held = true →
      acks = s.acks → (q.point = .inside → ∃ point, point ≠ .unlock ∧
        Locked (s.frames q.inner) o.call (decision q.args) point) → q.point ≠ .forget → AckRel s acks
  | after : s.acking = some q → s.acks q.ack = some o →
      acks = Function.update s.acks q.ack (some { o with inner := none }) →
      (q.point = .inside → Locked (s.frames q.inner) o.call (decision q.args) .unlock) →
      q.point ≠ .call → AckRel s acks

structure Related (s : Threads) (a : Delivery) : Prop where
  registry : a.registry = s.registry
  nextConsumer : a.nextConsumer = s.nextConsumer
  nextCall : a.nextCall = s.nextCall
  frames : ∀ x, FrameRel (s.frames x) (a.frames x)
  pending : ∀ n, a.pending n = (s.handles n).bind UvAsync.async
  acks : AckRel s a.acks
  loop : a.loop = s.loop.section
  trace : a.trace = s.trace
  locked : ∀ x call status point, Locked (s.frames x) call status point →
    ∃ q, s.acking = some q ∧ q.inner = x ∧ q.point = .inside
  inJs : ∀ q, s.acking = some q → s.loop = .idle ∨ ∃ a k, s.loop = .listening a k

section Related

variable {s t : Threads} {a b : Delivery}

theorem AckRel.of_outside {acks : Nat → Option ConsumerAck} (h : AckRel s acks)
    (hq : s.acking = none) : acks = s.acks := by
  cases h with
  | outside _ hacks => exact hacks
  | before hq' | after hq' => cases hq.symm.trans hq'

theorem AckRel.congr {acks : Nat → Option ConsumerAck} (h : AckRel s acks)
    (hacking : t.acking = s.acking) (hacks : t.acks = s.acks)
    (hlocked : ∀ x call status point, Locked (s.frames x) call status point →
      Locked (t.frames x) call status point) : AckRel t acks := by
  cases h with
  | outside hq hold => exact .outside (hacking.trans hq) (hold.trans hacks.symm)
  | before hq ho hinner hheld hold hp hf =>
    refine .before (hacking.trans hq) (hacks ▸ ho) hinner hheld (hold.trans hacks.symm)
      (fun hin => ?_) hf
    obtain ⟨point, hne, hl⟩ := hp hin
    exact ⟨point, hne, hlocked _ _ _ _ hl⟩
  | after hq ho hold hp hf =>
    exact .after (hacking.trans hq) (hacks ▸ ho) (hacks ▸ hold) (fun hin => hlocked _ _ _ _ (hp hin)) hf

theorem locked_update {frames : Nat → Option Activation} {x : Nat} {f? : Option Activation}
    (hl : ∀ call status point, Locked (frames x) call status point ↔ Locked f? call status point)
    {y call : Nat}
    {status : CConsumeStatus} {point : ConsumerAckInner.AckPoint} :
    Locked (Function.update frames x f? y) call status point ↔
      Locked (frames y) call status point := by
  rw [Function.update_apply]
  split_ifs with hy
  · subst hy
    exact (hl call status point).symm
  · exact Iff.rfl

theorem Related.setFrame (h : Related s a) {x : Nat} {f? : Option Activation} {g? : Option Frame}
    (hrel : FrameRel f? g?)
    (hl : ∀ call status point, Locked (s.frames x) call status point ↔ Locked f? call status point) :
    Related (s.setFrame x f?) (a.setFrame x g?) where
  registry := h.registry
  nextConsumer := h.nextConsumer
  nextCall := h.nextCall
  frames y := by
    rw [setFrame_frames, Delivery.setFrame_frames, Function.update_apply, Function.update_apply]
    split_ifs
    · exact hrel
    · exact h.frames y
  pending := h.pending
  acks := h.acks.congr rfl rfl fun y call status point hy => (locked_update hl).mpr hy
  loop := h.loop
  trace := h.trace
  locked y call status point hy := h.locked y call status point ((locked_update hl).mp hy)
  inJs := h.inJs

theorem Related.setHandle (h : Related s a) {n : Nat} {u : Option UvAsync} :
    Related (s.setHandle n u) (a.setPending n (u.bind UvAsync.async)) where
  registry := h.registry
  nextConsumer := h.nextConsumer
  nextCall := h.nextCall
  frames := h.frames
  pending m := by
    rw [setHandle_handles, Delivery.setPending_pending, Function.update_apply, Function.update_apply]
    split_ifs
    · rfl
    · exact h.pending m
  acks := h.acks.congr rfl rfl fun _ _ _ _ hy => hy
  loop := h.loop
  trace := h.trace
  locked := h.locked
  inJs := h.inJs

theorem Related.setAck (h : Related s a) (hq : s.acking = none) {k : Nat} {o : ConsumerAck} :
    Related (s.setAck k o) (a.setAck k o) where
  registry := h.registry
  nextConsumer := h.nextConsumer
  nextCall := h.nextCall
  frames := h.frames
  pending := h.pending
  acks := by
    refine .outside hq ?_
    change Function.update a.acks k _ = Function.update s.acks k _
    rw [h.acks.of_outside hq]
  loop := h.loop
  trace := h.trace
  locked := h.locked
  inJs := h.inJs

theorem Related.setLoop (h : Related s a) {l : Loop}
    (hq : ∀ q, s.acking = some q → l = .idle ∨ ∃ a k, l = .listening a k) :
    Related (s.setLoop l) (a.setLoop l.section) where
  registry := h.registry
  nextConsumer := h.nextConsumer
  nextCall := h.nextCall
  frames := h.frames
  pending := h.pending
  acks := h.acks.congr rfl rfl fun _ _ _ _ hy => hy
  loop := rfl
  trace := h.trace
  locked := h.locked
  inJs := hq

theorem Related.log (h : Related s a) (es : List Effect) :
    Related (s.log es) { a with trace := a.trace ++ es } where
  registry := h.registry
  nextConsumer := h.nextConsumer
  nextCall := h.nextCall
  frames := h.frames
  pending := h.pending
  acks := h.acks.congr rfl rfl fun _ _ _ _ hy => hy
  loop := h.loop
  trace := congrArg (· ++ es) h.trace
  locked := h.locked
  inJs := h.inJs

theorem Related.enterCall (h : Related s a) (m : Registry) :
    Related (s.enterCall m) (a.enterCall m) where
  registry := rfl
  nextConsumer := h.nextConsumer
  nextCall := congrArg (· + 1) h.nextCall
  frames := h.frames
  pending := h.pending
  acks := h.acks.congr rfl rfl fun _ _ _ _ hy => hy
  loop := h.loop
  trace := h.trace
  locked := h.locked
  inJs := h.inJs

theorem Related.construct (h : Related s a) (ptr : Nat) :
    Related (s.construct ptr) (a.construct ptr) where
  registry := by
    change Function.update a.registry ptr (some (some a.nextConsumer)) = _
    rw [h.registry, h.nextConsumer]
    rfl
  nextConsumer := congrArg (· + 1) h.nextConsumer
  nextCall := h.nextCall
  frames := h.frames
  pending := h.pending
  acks := h.acks.congr rfl rfl fun _ _ _ _ hy => hy
  loop := h.loop
  trace := by
    change a.trace ++ [.constructed ptr a.nextConsumer] = _
    rw [h.trace, h.nextConsumer]
    rfl
  locked := h.locked
  inJs := h.inJs

end Related

inductive WaitCase (s : ConsumerAckInner.State) (e : ConsumerAckInner.Event)
    (t : ConsumerAckInner.State) (inner : ConsumerAckInner) : Prop
  | silent : ConsumerAckInner.WokenAcked s e → ConsumerAckInner.Matches t inner →
      (∀ r, t.waiter ≠ .returned r) → WaitCase s e t inner
  | blocked : ConsumerAckInner.WokenAcked s e → inner.waiter = .entry → inner.acked = false →
      ConsumerAckInner.Matches t { inner with waiter := .waiting false } →
      (∀ r, t.waiter ≠ .returned r) → WaitCase s e t inner
  | found : ConsumerAckInner.WokenAcked s e → inner.waiter = .entry → inner.acked = true →
      t.mutex = .free → t.waiter = .returned inner.status → WaitCase s e t inner
  | woken : (ConsumerAckInner.WokenAcked s e ↔ inner.acked = true) → inner.waiter = .waiting b →
      t.mutex = .free → t.waiter = .returned inner.status → WaitCase s e t inner

section Inner

open ConsumerAckInner (Matches)

variable {s t : ConsumerAckInner.State} {e : ConsumerAckInner.Event} {inner : ConsumerAckInner}

theorem waitCase_statement (h : Matches s inner) {point : ConsumerAckInner.WaitPoint}
    (hm : s.mutex = .wait point) (hw : ∀ r, s.waiter ≠ .returned r) :
    WaitCase s .wait (ConsumerAckInner.waitStep s point) inner := by
  have hmutex := h.mutex
  rw [hm] at hmutex
  have hstep := h.wait hm
  cases point with
  | check =>
    have hP : ConsumerAckInner.WokenAcked s .wait := fun hr => by cases hm.symm.trans hr
    obtain ⟨hsame, hentry⟩ := hmutex
    by_cases ha : s.acked = true
    · obtain ⟨_, hi, hmatch⟩ := hstep
      simp only [ConsumerAckInner.completes, hm, if_pos ha] at hi
      cases hi
      refine .silent hP hmatch fun r hr => hw r ?_
      rwa [ConsumerAckInner.waitStep, if_pos ha] at hr
    · refine .blocked hP hentry (hsame.1.trans (by simpa using ha)) ?_ fun r hr => ?_
      · rw [ConsumerAckInner.waitStep, if_neg ha]
        exact ⟨hsame, false, rfl⟩
      · rw [ConsumerAckInner.waitStep, if_neg ha] at hr
        cases hr
  | found =>
    obtain ⟨hsame, hentry, ha⟩ := hmutex
    exact .found (fun _ => ha) hentry (hsame.1.trans ha) rfl (congrArg _ hsame.2.1.symm)
  | reacquired =>
    obtain ⟨hsame, b, hb⟩ := hmutex
    refine .woken ?_ hb rfl (congrArg _ hsame.2.1.symm)
    simp [ConsumerAckInner.WokenAcked, hm, hsame.1]

theorem waitCase (h : Matches s inner) (hst : ConsumerAckInner.Transition s e t)
    (he : ofWaitResult e = true) (hw : ∀ r, s.waiter ≠ .returned r) : WaitCase s e t inner := by
  have hmutex := h.mutex
  have hwaiter := h.waiter
  cases hst with
  | ackLock | ack => cases he
  | wait hm => exact waitCase_statement h hm hw
  | wake hwaiting =>
    rw [hwaiting] at hwaiter
    exact .silent trivial ⟨hmutex.congr rfl rfl, hwaiter⟩ fun r hr => by cases hr
  | waitLock hfree hoff | relock hfree hoff =>
    rw [hfree] at hmutex
    rw [hoff] at hwaiter
    exact .silent trivial ⟨⟨hmutex, hwaiter⟩, trivial⟩ fun r hr => by cases hr

theorem wait_locked (hst : ConsumerAckInner.Transition s e t) (he : ofWaitResult e = true)
    (status : CConsumeStatus) (point : ConsumerAckInner.AckPoint) :
    s.mutex = .ack status point ↔ t.mutex = .ack status point := by
  cases hst with
  | ackLock | ack => cases he
  | wake => exact Iff.rfl
  | waitLock hfree | relock hfree => simp [hfree]
  | @wait point hm =>
    cases point with
    | check =>
      rw [ConsumerAckInner.waitStep]
      split <;> simp [hm]
    | found => simp [hm, ConsumerAckInner.waitStep]
    | reacquired => simp [hm, ConsumerAckInner.waitStep]

theorem ack_cases {status : CConsumeStatus} {point : ConsumerAckInner.AckPoint}
    (hm : s.mutex = .ack status point) (hp : point ≠ .unlock) :
    ConsumerAckInner.completes s .ack = [] ∧
        (∃ next, next ≠ .unlock ∧ (ConsumerAckInner.ackStep s status point).mutex = .ack status next) ∨
      ConsumerAckInner.completes s .ack = [.ack status] ∧
        (ConsumerAckInner.ackStep s status point).mutex = .ack status .unlock := by
  rw [ConsumerAckInner.completes, hm]
  cases point with
  | check =>
    rw [ConsumerAckInner.ackStep]
    by_cases ha : s.acked = true
    · exact .inr ⟨by simp [ha], by simp [ha]⟩
    · exact .inl ⟨by simp [ha], .setAcked, by simp, by simp [ha]⟩
  | setAcked => exact .inl ⟨rfl, .signal, by simp, rfl⟩
  | signal => exact .inr ⟨rfl, rfl⟩
  | unlock => exact absurd rfl hp

theorem wait_returned (hst : ConsumerAckInner.Transition s e t) (he : ofWaitResult e = true)
    (hm : s.mutex = .free) {r : Option CConsumeStatus} (hr : s.waiter = .returned r) : False := by
  cases hst with
  | ackLock | ack => cases he
  | wait hw => cases hm.symm.trans hw
  | waitLock _ hoff | wake hoff | relock _ hoff => cases hr.symm.trans hoff

end Inner

def WokenAcked (s : Threads) : Event → Prop
  | .wait x e => ∀ f, s.frames x = some f → ConsumerAckInner.WokenAcked f.inner e
  | _ => True

instance (s : Threads) : (e : Event) → Decidable (WokenAcked s e)
  | .wait x .wait =>
    inferInstanceAs (Decidable (∀ f ∈ s.frames x,
      f.inner.mutex = .wait .reacquired → f.inner.acked = true))
  | .wait _ (.ackLock _) | .wait _ .ack | .wait _ .waitLock | .wait _ .wake | .wait _ .relock =>
    isTrue fun _ _ => trivial
  | .construct _ | .onMessage _ _ _ | .malloc _ _ | .advance _ | .leave _ | .dispatch _ _
  | .readColumn | .callListener _ | .listenerEnd | .close | .closed _ | .done _ _ | .ackLock | .ack
  | .forget | .drop _ | .finalize _ => isTrue trivial

/-- What a statement is to the delivery. -/
inductive Matched (D : Utf8Decoder) (s : Threads) (e : Event) (t : Threads) (a : Delivery) : Prop
  | silent : WokenAcked s e → Related t a → Matched D s e t a
  | seen : Consume.Transition D a f b → (WokenAcked s e ↔ Consume.WokenAcked a f) → Related t b →
      Matched D s e t a

section Matched

variable {D : Utf8Decoder} {s t : Threads} {a : Delivery}

theorem FrameRel.of_none {g? : Option Frame} (h : FrameRel none g?) : g? = none := by
  cases h
  rfl

theorem FrameRel.shows {f : Activation} {g? : Option Frame} (h : FrameRel (some f) g?)
    (hf : f.point ≠ .waitResult ∨ f.inner.mutex ≠ .free ∨ g? ≠ none) :
    ∃ g, g? = some g ∧ f.Shows g := by
  cases h with
  | running hg => exact ⟨_, rfl, hg⟩
  | returned hp hm => simp [hp, hm] at hf

theorem setFrame_self {x : Nat} {g? : Option Frame} (h : a.frames x = g?) : a.setFrame x g? = a := by
  subst h
  simp [Delivery.setFrame]

theorem setPending_self {n : Nat} {async? : Option Async} (h : a.pending n = async?) :
    a.setPending n async? = a := by
  subst h
  simp [Delivery.setPending]

theorem Related.runsJs (h : Related s a) (hjs : s.runsJs = true) :
    s.acking = none ∧ a.runsJs = true ∧ (s.loop = .idle ∨ ∃ n k, s.loop = .listening n k) := by
  obtain ⟨hq, hl⟩ : s.acking = none ∧ _ := by simpa [Threads.runsJs] using hjs
  refine ⟨hq, ?_, ?_⟩
  · rw [Delivery.runsJs, h.loop]
    split at hl
    · next hloop => simp [hloop, Loop.section]
    · next hloop => simp [hloop, Loop.section]
    · cases hl
  · split at hl
    · exact .inl ‹_›
    · exact .inr ⟨_, _, ‹_›⟩
    · cases hl

theorem Related.of_building (h : Related s a) {n : Nat} {hd : Handler}
    (hl : s.loop = .building n hd) : s.acking = none := by
  cases hq : s.acking with
  | none => rfl
  | some q =>
    obtain hi | ⟨_, _, hi⟩ := h.inJs q hq
    · cases hl.symm.trans hi
    · cases hl.symm.trans hi

theorem Related.emit (h : Related s a) (e : Effect) : Related (s.emit e) (a.emit e) := h.log [e]

theorem Related.refuse (h : Related s a) (m : Registry) (ptr : Nat) :
    Related (s.refuse m ptr) (a.refuse m ptr) := by
  rw [Delivery.refuse, h.nextCall]
  exact (h.enterCall m).emit _

theorem Related.enter (h : Related s a) {x : Nat} (hx : s.frames x = none) (m : Registry)
    (ptr n : Nat) (msg : CMessageExt) : Related (s.enter m x ptr n msg) (a.enter m x ptr n msg) := by
  rw [Delivery.enter, h.nextCall]
  refine ((h.enterCall m).setFrame ?_ fun call status point => ?_).emit _
  · exact .running ⟨rfl, rfl, rfl, rfl, ConsumerAckInner.atomic.init, fun r hr => by cases hr⟩
  · simp [Locked, hx]

theorem Related.setup (h : Related s a) {x n : Nat} {f : Activation} {point : Point} {v : UvAsync}
    (hf : s.frames x = some f) (hp : f.point ≠ .waitResult) (hpoint : point ≠ .waitResult)
    (hold : (s.handles n).bind UvAsync.async = none) (hv : v.async = none) :
    Related ((s.setHandle n (some v)).setFrame x (some { f with point })) a := by
  have hrel := h.frames x
  rw [hf] at hrel
  obtain ⟨g, hg, hshows⟩ := hrel.shows (.inl hp)
  have hnext : Activation.Shows { f with point } g :=
    ⟨hshows.call, hshows.param, hshows.msg, by simp [hshows.sent, hp, hpoint], hshows.inner,
      hshows.running⟩
  have hset := (h.setHandle (n := n) (u := some v)).setFrame (x := x) (.running hnext)
    fun _ _ _ => by simp [Locked, hf]
  rwa [setPending_self (by simp [h.pending, hold, hv]), setFrame_self hg] at hset

theorem Related.send (h : Related s a) {x n : Nat} {f : Activation} {u : UvAsync}
    (hf : s.frames x = some f) (hp : f.point = .send n) (hu : s.handles n = some u)
    (hown : u = { call := f.call, phase := .bound, data := some x }) :
    Matched D s (.advance x) (s.send x n f u) a := by
  have hrel := h.frames x
  rw [hf] at hrel
  obtain ⟨g, hg, hshows⟩ := hrel.shows (.inl (by simp [hp]))
  have hpending : a.pending n = none := by simp [h.pending, hu, hown, UvAsync.async]
  refine .seen (.sent (x := x) (a := n) hg (by simp [hshows.sent, hp]) hpending) Iff.rfl ?_
  have hnext : Activation.Shows { f with point := .waitResult } { g with sent := true } :=
    ⟨hshows.call, hshows.param, hshows.msg, rfl, hshows.inner, hshows.running⟩
  have hset := (h.setHandle (n := n) (u := some { u with phase := .pending })).setFrame (x := x)
    (.running hnext) fun _ _ _ => by simp [Locked, hf]
  have hasync : (some { u with phase := .pending }).bind UvAsync.async = some ⟨x, g.call⟩ := by
    simp [UvAsync.async, hown, hshows.call]
  rwa [hasync] at hset

theorem wokenAcked_iff {x : Nat} {f : Activation} {e : ConsumerAckInner.Event}
    (hf : s.frames x = some f) :
    WokenAcked s (.wait x e) ↔ ConsumerAckInner.WokenAcked f.inner e := by
  simp [WokenAcked, hf]

theorem returns_of_running {f : Activation} {inner : ConsumerAckInner.State}
    (h : ∀ r, inner.waiter ≠ .returned r) : returns f inner = [] := by
  unfold returns
  split
  · exact absurd ‹_› (h _)
  · rfl

theorem returns_of_returned {f : Activation} {inner : ConsumerAckInner.State}
    {r : Option CConsumeStatus} (h : inner.waiter = .returned r) :
    returns f inner = [.returned f.call r] := by
  simp [returns, h]

theorem Related.wait (h : Related s a) {x : Nat} {f : Activation} {e : ConsumerAckInner.Event}
    {inner : ConsumerAckInner.State} (hf : s.frames x = some f) (hp : f.point = .waitResult)
    (he : ofWaitResult e = true) (hst : ConsumerAckInner.Transition f.inner e inner) :
    Matched D s (.wait x e) (s.wait x f inner) a := by
  have hrel := h.frames x
  rw [hf] at hrel
  have hlock : ∀ call status point, Locked (s.frames x) call status point ↔
      Locked (some { f with inner }) call status point := fun call status point => by
    simp [Locked, hf, wait_locked hst he status point]
  have hset : ∀ g?, FrameRel (some { f with inner }) g? → Related (s.wait x f inner)
      { a.setFrame x g? with trace := a.trace ++ returns f inner } :=
    fun g? hg => (h.setFrame hg hlock).log (returns f inner)
  have hshows : ∀ {g i}, f.Shows g → ConsumerAckInner.Matches inner i →
      (∀ r, inner.waiter ≠ .returned r) →
      FrameRel (some { f with inner }) (some { g with ackInner := i }) := fun hg hmatch hnot =>
    .running ⟨hg.call, hg.param, hg.msg, hg.sent, hmatch, hnot⟩
  generalize hga : a.frames x = g? at hrel
  cases hrel with
  | returned _ hm hr => exact (wait_returned hst he hm hr).elim
  | @running _ g hg =>
    have hsent : g.sent = true := by simp [hg.sent, hp]
    cases waitCase hg.inner hst he hg.running with
    | silent hP hmatch hnot =>
      refine .silent ((wokenAcked_iff hf).mpr hP) ?_
      have hrel := hset _ (hshows hg hmatch hnot)
      rw [returns_of_running hnot, List.append_nil, setFrame_self hga] at hrel
      exact hrel
    | blocked hP hentry ha hmatch hnot =>
      refine .seen (.blocked hga hsent hentry ha) (iff_of_true ((wokenAcked_iff hf).mpr hP) trivial) ?_
      have hrel := hset _ (hshows hg hmatch hnot)
      rw [returns_of_running hnot, List.append_nil] at hrel
      exact hrel
    | found hP hentry ha hfree hret =>
      refine .seen (.waited hga hsent hentry ha) (iff_of_true ((wokenAcked_iff hf).mpr hP) trivial) ?_
      have hrel := hset _ (.returned hp hfree hret)
      rw [returns_of_returned hret, ← hg.call] at hrel
      exact hrel
    | woken hP hw hfree hret =>
      refine .seen (.woken hga hw) ((wokenAcked_iff hf).trans (hP.trans ?_)) ?_
      · simp [Consume.WokenAcked, hga]
      · have hrel := hset _ (.returned hp hfree hret)
        rw [returns_of_returned hret, ← hg.call] at hrel
        exact hrel

theorem Related.leave (h : Related s a) {x : Nat} {f : Activation} {r : Option CConsumeStatus}
    (hf : s.frames x = some f) (hr : f.inner.waiter = .returned r) :
    Related (s.setFrame x none) a := by
  have hrel := h.frames x
  rw [hf] at hrel
  generalize hga : a.frames x = g? at hrel
  cases hrel with
  | running hg => exact absurd hr (hg.running r)
  | returned _ hm =>
    have hset := h.setFrame (x := x) .absent fun _ _ _ => by simp [Locked, hf, hm]
    rwa [setFrame_self hga] at hset

theorem Related.dispatch (h : Related s a) (ht : Tracked D a) {n x k : Nat} {u : UvAsync}
    {f : Activation} (hu : s.handles n = some u) (hx : u.data = some x) (hf : s.frames x = some f)
    (hl : s.loop = .idle) (hp : u.phase = .pending) (hq : s.acking = none) (hk : s.acks k = none) :
    Matched D s (.dispatch n k) (s.dispatch n k u f) a := by
  have hpending : a.pending n = some ⟨x, u.call⟩ := by simp [h.pending, hu, UvAsync.async, hp, hx]
  obtain ⟨g, hg, -⟩ := ht.of_pending hpending
  have hrel := h.frames x
  rw [hf, hg] at hrel
  obtain ⟨g', hg', hshows⟩ := hrel.shows (.inr (.inr (by simp)))
  cases hg'
  have hacks : a.acks k = none := by rw [h.acks.of_outside hq, hk]
  refine .seen (.dispatched hpending hg (by rw [h.loop, hl]; rfl) hacks) Iff.rfl ?_
  have hset := (((h.setHandle (n := n) (u := some { u with phase := .running })).setAck hq (k := k)
    (o := { inner := some f.param.ack, call := u.call })).setLoop (l := .building n
      { call := u.call, consumer := f.param.consumer, ack := k, msg := f.param.msg })
    fun q hq' => by cases hq.symm.trans hq')
  rw [← hshows.param] at hset
  rw [Threads.dispatch, ← hshows.param]
  exact hset

theorem Related.column (h : Related s a) (ht : Tracked D a) {n : Nat} {hd : Handler}
    {f : Activation} {name : String} {rest : List String} (hl : s.loop = .building n hd)
    (hf : s.frames hd.msg = some f) (hr : hd.rest = name :: rest) :
    Matched D s .readColumn (s.readColumn D n hd f name rest) a := by
  have hloop : a.loop = .building hd := by rw [h.loop, hl]; rfl
  obtain ⟨g, -, hg, -⟩ := ht.of_handler hloop
  have hrel := h.frames hd.msg
  rw [hf, hg] at hrel
  obtain ⟨g', hg', hshows⟩ := hrel.shows (.inr (.inr (by simp)))
  cases hg'
  refine .seen (.column hloop hg hr) Iff.rfl ?_
  rw [Threads.readColumn, ← hshows.msg]
  exact h.setLoop fun q hq => by cases (h.of_building hl).symm.trans hq

theorem Related.listener (h : Related s a) {n : Nat} {hd : Handler} {o : ConsumerAck}
    {registered : Bool} (hl : s.loop = .building n hd) (hr : hd.rest = [])
    (ho : s.acks hd.ack = some o) :
    Matched D s (.callListener registered) (s.callListener n hd o registered) a := by
  have hq := h.of_building hl
  have hloop : a.loop = .building hd := by rw [h.loop, hl]; rfl
  refine .seen (f := .callListener registered) (.listener hloop hr (by rw [h.acks.of_outside hq, ho]))
    Iff.rfl ?_
  exact ((h.setAck hq).setLoop (l := .listening n hd.ack) fun q hq' => by
    cases hq.symm.trans hq').emit _

theorem Related.close (h : Related s a) {n k : Nat} {u : UvAsync} (hl : s.loop = .leaving n k)
    (hu : s.handles n = some u) (hp : u.phase = .running) : Related (s.close n u) a := by
  have hset := (h.setHandle (n := n) (u := some { u with phase := .closing })).setLoop (l := .idle)
    fun _ _ => .inl rfl
  have hloop : a.setLoop Loop.idle.section = a := by
    rw [Loop.section, Delivery.setLoop, ← show a.loop = .idle by rw [h.loop, hl]; rfl]
  rw [setPending_self (by simp [h.pending, hu, UvAsync.async, hp]), hloop] at hset
  exact hset

theorem Related.closed (h : Related s a) {n : Nat} {u : UvAsync} (hu : s.handles n = some u)
    (hp : u.phase = .closing) : Related (s.setHandle n none) a := by
  have hset := h.setHandle (n := n) (u := none)
  rwa [setPending_self (by simp [h.pending, hu, UvAsync.async, hp])] at hset

theorem Related.done (h : Related s a) {k x : Nat} {o : ConsumerAck} {args : List Js.JsValue}
    (ho : s.acks k = some o) (hheld : o.held = true) (hjs : s.runsJs = true)
    (hx : o.inner = some x) :
    Related (s.setAcking (some { ack := k, inner := x, args })) a := by
  obtain ⟨hq, -, hl⟩ := h.runsJs hjs
  refine { h with acks := ?_, locked := fun y call status point hy => ?_, inJs := fun _ _ => hl }
  · exact .before rfl ho hx hheld (h.acks.of_outside hq) (fun hin => by cases hin) (by simp)
  · obtain ⟨q, hq', -⟩ := h.locked y call status point hy
    cases hq.symm.trans hq'

section Ack

variable {q : Acking} {f : Activation} {g : Frame} {inner : ConsumerAckInner.State}

theorem Related.of_before (h : Related s a) (ht : Tracked D a) {o : ConsumerAck}
    (hf : s.frames q.inner = some f) (ho : s.acks q.ack = some o) (hx : o.inner = some q.inner)
    (hacks : a.acks = s.acks) : ∃ g, a.frames q.inner = some g ∧ f.Shows g ∧ f.call = o.call := by
  obtain ⟨g, hg, hat, -⟩ := ht.of_bound (hacks ▸ ho) hx
  have hrel := h.frames q.inner
  rw [hf, hg] at hrel
  obtain ⟨g', hg', hshows⟩ := hrel.shows (.inr (.inr (by simp)))
  cases hg'
  exact ⟨g, hg, hshows, hshows.call.symm.trans hat.call⟩

theorem Related.acking (h : Related s a) (hq : s.acking = some q) {p : AckPoint}
    {acks : Nat → Option ConsumerAck} (hshows : f.Shows g)
    (hp : ∀ status point, f.inner.mutex = .ack status point → p = .inside)
    (hacks : AckRel ((s.setFrame q.inner (some f)).setAcking (some { q with point := p })) acks) :
    Related ((s.setFrame q.inner (some f)).setAcking (some { q with point := p }))
      { a.setFrame q.inner (some g) with acks } where
  registry := h.registry
  nextConsumer := h.nextConsumer
  nextCall := h.nextCall
  frames y := by
    simp only [setAcking_frames, setFrame_frames, Delivery.setFrame_frames, Function.update_apply]
    split_ifs
    · exact .running hshows
    · exact h.frames y
  pending := h.pending
  acks := hacks
  loop := h.loop
  trace := h.trace
  locked y call status point hy := by
    simp only [setAcking_frames, setFrame_frames, Function.update_apply] at hy
    split_ifs at hy with hx
    · obtain ⟨f', hf', -, hm⟩ := hy
      cases hf'
      exact ⟨_, rfl, hx.symm, hp status point hm⟩
    · obtain ⟨q', hq', hinner, -⟩ := h.locked y call status point hy
      cases hq.symm.trans hq'
      exact absurd hinner.symm hx
  inJs _ _ := h.inJs q hq

theorem Related.ackLock (h : Related s a) (ht : Tracked D a) (hq : s.acking = some q)
    (hf : s.frames q.inner = some f) (hp : q.point = .call)
    (hst : ConsumerAckInner.Transition f.inner (.ackLock (decision q.args)) inner) :
    Related (s.lockAck q f inner) a := by
  cases hst with
  | ackLock _ hfree =>
    cases h.acks with
    | outside hq' => cases hq.symm.trans hq'
    | after hq' _ _ _ hcall =>
      cases hq.symm.trans hq'
      exact absurd hp hcall
    | @before _ o hq' ho hx hheld hacks =>
      cases hq.symm.trans hq'
      obtain ⟨g, hg, hshows, hcall⟩ := h.of_before ht hf ho hx hacks
      have hmutex := hshows.inner.mutex
      rw [hfree] at hmutex
      have hnext : Activation.Shows { f with inner := { f.inner with
          mutex := .ack (decision q.args) .check
          order := f.inner.order ++ [decision q.args] } } g :=
        ⟨hshows.call, hshows.param, hshows.msg, hshows.sent, ⟨hmutex, hshows.inner.waiter⟩,
          hshows.running⟩
      have hset := h.acking hq (p := .inside) hnext (fun _ _ _ => rfl)
        (.before rfl ho hx hheld hacks
          (fun _ => ⟨.check, by simp, _, Function.update_self .., hcall, rfl⟩)
          (by simp))
      rw [setFrame_self hg] at hset
      exact hset

theorem Activation.Shows.ack (h : f.Shows g) {status : CConsumeStatus}
    {point : ConsumerAckInner.AckPoint} (hm : f.inner.mutex = .ack status point) :
    ∃ i, ConsumerAckInner.sections.exec g.ackInner (ConsumerAckInner.completes f.inner .ack) = some i ∧
      Activation.Shows { f with inner := ConsumerAckInner.ackStep f.inner status point }
        { g with ackInner := i } := by
  obtain ⟨i, hi, hmatch⟩ := h.inner.ack hm
  refine ⟨i, hi, h.call, h.param, h.msg, h.sent, hmatch, fun r hr => ?_⟩
  exact h.running r (ConsumerAckInner.ackStep_returned hr)

theorem Related.runsJs_of_acking (h : Related s a) (hq : s.acking = some q) : a.runsJs = true := by
  rw [Delivery.runsJs, h.loop]
  obtain hl | ⟨_, _, hl⟩ := h.inJs q hq
  · rw [hl]
    rfl
  · rw [hl]
    rfl

theorem Related.unlock (h : Related s a) {o : ConsumerAck} (hq : s.acking = some q)
    (ho : s.acks q.ack = some o) (hf : s.frames q.inner = some f)
    (hm : f.inner.mutex = .ack (decision q.args) .unlock)
    (hacks : a.acks = Function.update s.acks q.ack (some { o with inner := none })) :
    Related (s.ack q o f (ConsumerAckInner.ackStep f.inner (decision q.args) .unlock)) a := by
  have hrel := h.frames q.inner
  rw [hf] at hrel
  obtain ⟨g, hg, hshows⟩ := hrel.shows (.inr (.inl (by simp [hm])))
  have hnone : ConsumerAckInner.completes f.inner .ack = [] := by simp [ConsumerAckInner.completes, hm]
  obtain ⟨i, hi, hnext⟩ := hshows.ack hm
  rw [hnone] at hi
  cases hi
  have hset := (h.acking hq (p := .forget) hnext (fun _ _ hfree => by cases hfree)
    (.after rfl ho hacks (fun hin => by cases hin) (by simp))).log (answers q o f)
  simp only [setFrame_self hg, answers, hnone, List.append_nil] at hset
  simpa [Threads.ack, answers, hnone, ConsumerAckInner.ackStep] using hset

theorem Related.ack (h : Related s a) (ht : Tracked D a) {o : ConsumerAck}
    (hq : s.acking = some q) (ho : s.acks q.ack = some o) (hf : s.frames q.inner = some f)
    (hp : q.point = .inside) (hst : ConsumerAckInner.Transition f.inner .ack inner) :
    Matched D s .ack (s.ack q o f inner) a := by
  cases hst with
  | @ack status point hm =>
    cases h.acks with
    | outside hq' => cases hq.symm.trans hq'
    | after hq' ho' hacks hl =>
      cases hq.symm.trans hq'
      cases ho.symm.trans ho'
      obtain ⟨f', hf', hcall, hm'⟩ := hl hp
      cases hf.symm.trans hf'
      cases hm.symm.trans hm'
      exact .silent trivial (h.unlock hq ho hf hm hacks)
    | before hq' ho' hx hheld hacks hl =>
      cases hq.symm.trans hq'
      cases ho.symm.trans ho'
      obtain ⟨_, hne, f', hf', hcall, hm'⟩ := hl hp
      cases hf.symm.trans hf'
      cases hm.symm.trans hm'
      obtain ⟨g, hg, hshows, -⟩ := h.of_before ht hf ho hx hacks
      obtain ⟨i, hi, hnext⟩ := hshows.ack hm
      obtain ⟨hnone, next, hne', hm'⟩ | ⟨htakes, hm'⟩ := ack_cases hm hne
      · rw [hnone] at hi
        cases hi
        have hset := (h.acking hq (p := .inside) hnext (fun _ _ _ => rfl)
          (.before rfl ho hx hheld hacks
            (fun _ => ⟨next, hne', _, Function.update_self .., hcall, hm'⟩) (by simp))).log
          (answers q o f)
        refine .silent trivial ?_
        simp only [setFrame_self hg, answers, hnone, List.append_nil] at hset
        simpa [Threads.ack, answers, hnone, hm'] using hset
      · rw [htakes] at hi
        cases hi
        have hafter : Function.update a.acks q.ack (some { o with inner := none }) =
            Function.update s.acks q.ack (some { o with inner := none }) := by rw [hacks]
        have hset := (h.acking hq (p := .inside) hnext (fun _ _ _ => rfl)
          (.after rfl ho hafter (fun _ => ⟨_, Function.update_self .., hcall, hm'⟩) (by simp))).log
          (answers q o f)
        refine .seen (f := .done q.ack q.args)
          (.done (hacks ▸ ho) hheld (h.runsJs_of_acking hq) hx hg) Iff.rfl ?_
        simp only [answers, htakes] at hset
        simp only [Threads.ack, answers, htakes, hm', reduceCtorEq, if_false]
        exact hset

theorem Related.forget (h : Related s a) {o : ConsumerAck} (hq : s.acking = some q)
    (ho : s.acks q.ack = some o) (hp : q.point = .forget) : Related (s.forget q o) a := by
  cases h.acks with
  | outside hq' => cases hq.symm.trans hq'
  | before hq' _ _ _ _ _ hforget =>
    cases hq.symm.trans hq'
    exact absurd hp hforget
  | after hq' ho' hacks =>
    cases hq.symm.trans hq'
    cases ho.symm.trans ho'
    refine { h with
      acks := .outside rfl hacks, locked := fun y call status point hy => ?_, inJs := nofun }
    obtain ⟨q', hq', -, hin⟩ := h.locked y call status point hy
    cases hq.symm.trans hq'
    cases hp.symm.trans hin

end Ack

theorem Related.step {e : Event} (h : Related s a) (hown : Owned s) (ht : Tracked D a)
    (hst : Transition D s e t) : Matched D s e t a := by
  cases hst with
  | construct hnew =>
    exact .seen (.construct (h.registry ▸ hnew)) Iff.rfl (h.construct _)
  | @refused x ptr m msg hx hl =>
    refine .seen (f := .onMessage x ptr msg) (.refused ?_ (h.registry ▸ hl)) Iff.rfl (h.refuse _ _)
    exact FrameRel.of_none (hx ▸ h.frames x)
  | @entered x ptr m n msg hx hl =>
    refine .seen (f := .onMessage x ptr msg) (.entered ?_ (h.registry ▸ hl)) Iff.rfl
      (h.enter hx _ _ _ _)
    exact FrameRel.of_none (hx ▸ h.frames x)
  | malloc hf hp ha =>
    exact .silent trivial (h.setup hf (by simp [hp]) (by simp) (by simp [ha]) rfl)
  | init hf hp ha =>
    cases (hown.unsent _ _ _ _ hf (by rw [Activation.unsent, hp])).symm.trans ha
    exact .silent trivial (h.setup hf (by simp [hp]) (by simp) (by rw [ha]; rfl) rfl)
  | data hf hp ha =>
    cases (hown.unsent _ _ _ _ hf (by rw [Activation.unsent, hp])).symm.trans ha
    exact .silent trivial (h.setup hf (by simp [hp]) (by simp) (by rw [ha]; rfl) rfl)
  | send hf hp ha =>
    cases (hown.unsent _ _ _ _ hf (by rw [Activation.unsent, hp])).symm.trans ha
    exact h.send hf hp ha rfl
  | wait hf hp he hst => exact h.wait hf hp he hst
  | left hf hr => exact .silent trivial (h.leave hf hr)
  | dispatched ha hx hf hl hp hq hk => exact h.dispatch ht ha hx hf hl hp hq hk
  | column hl hf hr => exact h.column ht hl hf hr
  | listener hl hr ho => exact h.listener hl hr ho
  | listenerEnd hl hq =>
    refine .seen (.listenerEnd (by rw [h.loop, hl]; rfl)) Iff.rfl ?_
    exact h.setLoop fun q hq' => by cases hq.symm.trans hq'
  | close hl ha =>
    obtain ⟨u, hu, hp⟩ := hown.running _ (by rw [hl]; rfl)
    cases ha.symm.trans hu
    exact .silent trivial (h.close hl ha hp)
  | closed ha _ hp => exact .silent trivial (h.closed ha hp)
  | doneAgain ho hheld hjs hx =>
    obtain ⟨hq, hjs', -⟩ := h.runsJs hjs
    exact .seen (f := .done _ _) (.doneAgain (h.acks.of_outside hq ▸ ho) hheld hjs' hx) Iff.rfl
      (h.emit _)
  | done ho hheld hjs hx => exact .silent trivial (h.done ho hheld hjs hx)
  | ackLock hq hf hp hst => exact .silent trivial (h.ackLock ht hq hf hp hst)
  | ack hq ho hf hp hst => exact h.ack ht hq ho hf hp hst
  | forget hq ho hp => exact .silent trivial (h.forget hq ho hp)
  | dropped ho hheld hq =>
    exact .seen (.dropped (h.acks.of_outside hq ▸ ho) hheld) Iff.rfl (h.setAck hq)
  | finalized ho hheld hfin hpins hq =>
    refine .seen (.finalized (h.acks.of_outside hq ▸ ho) hheld hfin ?_) Iff.rfl (h.setAck hq)
    rw [Delivery.pins, h.loop]
    rw [pins] at hpins
    split at hpins <;> simp_all [Loop.section]

end Matched

theorem Related.init : Related {} {} where
  registry := rfl
  nextConsumer := rfl
  nextCall := rfl
  frames _ := .absent
  pending _ := rfl
  acks := .outside rfl rfl
  loop := rfl
  trace := rfl
  locked _ _ _ _ hl := by
    obtain ⟨f, hf, -⟩ := hl
    cases hf
  inJs _ hq := by cases hq

structure Simulates (D : Utf8Decoder) (s : Threads) (a : Delivery) : Prop where
  owned : Owned s
  related : Related s a
  tracked : Tracked D a

theorem Simulates.step {D : Utf8Decoder} {s t : Threads} {a : Delivery} {e : Event}
    (h : Simulates D s a) (hP : WokenAcked s e) (hst : Transition D s e t) :
    ∃ fs b, (delivery D).exec a fs = some b ∧ (delivery D).Along Consume.WokenAcked a fs ∧
      Simulates D t b := by
  cases h.related.step h.owned h.tracked hst with
  | silent _ hrel => exact ⟨[], a, rfl, trivial, h.owned.step hst, hrel, h.tracked⟩
  | @seen f b hab hiff hrel =>
    refine ⟨[f], b, by simp [hab.enabled], ⟨hiff.mp hP, fun _ _ => trivial⟩, ?_⟩
    exact ⟨h.owned.step hst, hrel, h.tracked.step (hiff.mp hP) hab⟩

def refinement (D : Utf8Decoder) :
    Machine.Refinement (threads D) (delivery D) WokenAcked Consume.WokenAcked where
  rel := Simulates D
  init := ⟨.init, .init, .init D⟩
  step _ _ _ _ h hP hst := h.step hP (step_cases hst)

theorem Simulates.handsOver {D : Utf8Decoder} {s : Threads} {a : Delivery} (h : Simulates D s a)
    (hsync : Synchronous D a) : HandsOver D s.trace := by
  rw [← h.related.trace]
  refine ⟨fun c => ?_, hsync.justified⟩
  obtain ⟨p, hp, -⟩ := hsync.tracked.tracks c
  exact ⟨p, hp⟩

theorem Simulates.keep {D : Utf8Decoder} {s t : Threads} {e : Event}
    (hs : ∃ a, Simulates D s a ∧ Synchronous D a) (hP : WokenAcked s e)
    (hst : (threads D).step s e = some t) : ∃ b, Simulates D t b ∧ Synchronous D b :=
  (refinement D).keep (fun _ _ _ ha hf hab => ha.step hf (Consume.step_cases hab)) hs hP hst

theorem Simulates.init (D : Utf8Decoder) :
    ∃ a, Simulates D (threads D).init a ∧ Synchronous D a :=
  ⟨{}, (refinement D).init, .init D⟩

/-- Whatever the interleaving of the statements shows, a run of the delivery shows. -/
theorem trace_of_interleaving (D : Utf8Decoder) {es : List Event} {s : Threads}
    (hP : (threads D).Along WokenAcked (threads D).init es)
    (h : (threads D).exec (threads D).init es = some s) :
    ∃ fs a, (delivery D).exec (delivery D).init fs = some a ∧
      (delivery D).Along Consume.WokenAcked (delivery D).init fs ∧ a.trace = s.trace := by
  obtain ⟨fs, a, ha, hfs, hsim⟩ := (refinement D).exec (refinement D).init hP h
  exact ⟨fs, a, ha, hfs, hsim.related.trace⟩

def overlapping : List Event :=
  [.construct 0, .onMessage 10 0 ⟨[], [], [], [], []⟩, .onMessage 11 0 ⟨[], [], [], [], []⟩,
    .malloc 10 20, .malloc 11 21, .advance 11, .advance 10, .advance 11, .advance 11, .advance 10,
    .advance 10, .wait 10 .waitLock, .wait 10 .wait, .dispatch 21 30, .readColumn, .readColumn,
    .readColumn, .readColumn, .readColumn, .callListener true, .done 30 [], .ackLock, .ack, .ack,
    .ack, .ack, .wait 11 .waitLock, .forget, .wait 11 .wait, .listenerEnd, .close, .wait 11 .wait,
    .leave 11, .dispatch 20 31, .readColumn, .readColumn, .readColumn, .readColumn, .readColumn,
    .callListener true, .listenerEnd, .close, .closed 21, .done 31 [.undefined], .ackLock, .ack,
    .ack, .ack, .ack, .wait 10 .relock, .wait 10 .wait, .leave 10, .forget, .drop 31]

theorem overlapping_wokenAcked :
    (threads replacing).Along WokenAcked (threads replacing).init overlapping := by decide

theorem trace_of_overlapping : ∃ s,
    (threads replacing).exec (threads replacing).init overlapping = some s ∧ ∃ fs a,
      (delivery replacing).exec (delivery replacing).init fs = some a ∧
        (delivery replacing).Along Consume.WokenAcked (delivery replacing).init fs ∧
        a.trace = s.trace :=
  ⟨_, rfl, trace_of_interleaving replacing overlapping_wokenAcked rfl⟩

/-- The interleaving of the statements is a synchronous call exactly as long as
`uv_cond_wait` returns only after the ack. -/
theorem interleaving_handsOver_iff (D : Utf8Decoder) {es : List Event} {s : Threads}
    (h : (threads D).exec (threads D).init es = some s) :
    (threads D).Throughout (HandsOver D ·.trace) (threads D).init es ↔
      (threads D).Along WokenAcked (threads D).init es := by
  refine Machine.throughout_iff_along
    (I := fun s => ∃ a, Simulates D s a ∧ Synchronous D a) ?_ ?_ ?_ ?_ h
  · rintro s ⟨a, hsim, hsync⟩
    exact hsim.handsOver hsync
  · exact fun s e t hs hP hst => Simulates.keep hs hP hst
  · rintro s e t ⟨a, hsim, -⟩ hP hst hover
    cases hsim.related.step hsim.owned hsim.tracked (step_cases hst) with
    | silent hP' => exact hP hP'
    | seen hab hiff hrel =>
      exact hsim.tracked.woken_not_handsOver (hiff.not.mp hP) hab (hrel.trace ▸ hover)
  · exact Simulates.init D

theorem overlapping_handsOver :
    (threads replacing).Throughout (HandsOver replacing ·.trace) (threads replacing).init
      overlapping :=
  (interleaving_handsOver_iff replacing rfl).mpr overlapping_wokenAcked

end RocketMQClient.Consume.Threads
