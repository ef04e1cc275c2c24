import RocketMQClient.Consume.Obligation
import RocketMQClient.Library.Heap

namespace RocketMQClient.Consume

open Library Marshal

def InCall (s : Delivery) (c : Nat) : Prop := ∃ x f, s.frames x = some f ∧ f.call = c

def Unanswered (s : Delivery) (x c : Nat) : Prop :=
  ∃ f, s.frames x = some f ∧ f.call = c ∧ f.ackInner.acked = false

/-- The program has no reference to the ack, and gets none. -/
def OutOfReach (s : Delivery) (k c : Nat) : Prop :=
  ∃ o, s.acks k = some o ∧ o.call = c ∧ o.held = false ∧ ∀ h, s.loop = .building h → h.ack ≠ k

/-- The ack of the call was given to nobody, or let go, before it was answered. -/
def Abandoned (s : Delivery) (c : Nat) : Prop := ∃ x k, Unanswered s x c ∧ OutOfReach s k c

section Abandoned

variable {D : Utf8Decoder} {s t : Delivery} {e : Event} {c x k : Nat}

theorem Abandoned.inCall (h : Abandoned s c) : InCall s c := by
  obtain ⟨x, -, ⟨f, hf, hc, -⟩, -⟩ := h
  exact ⟨x, f, hf, hc⟩

theorem Unanswered.update (h : Unanswered s x c) {y : Nat} {g : Option Frame}
    (hframes : t.frames = Function.update s.frames y g)
    (hy : ∀ f, y = x → s.frames x = some f → f.call = c → f.ackInner.acked = false →
      ∃ f', g = some f' ∧ f'.call = f.call ∧ f'.ackInner.acked = false) : Unanswered t x c := by
  obtain ⟨f, hf, hc, ha⟩ := h
  by_cases hx : y = x
  · obtain ⟨f', hf', hc', ha'⟩ := hy f hx hf hc ha
    exact ⟨f', by rw [hframes, hx, Function.update_self, hf'], hc'.trans hc, ha'⟩
  · exact ⟨f, by rw [hframes, Function.update_of_ne (Ne.symm hx), hf], hc, ha⟩

theorem OutOfReach.update (h : OutOfReach s k c) {j : Nat} {p : ConsumerAck}
    (hacks : t.acks = Function.update s.acks j (some p))
    (hj : ∀ o, j = k → s.acks k = some o → o.held = false → p.call = o.call ∧ p.held = false)
    (hl : ∀ hd, t.loop = .building hd → s.loop = .building hd ∨ hd.ack ≠ k) : OutOfReach t k c := by
  obtain ⟨o, ho, hc, hheld, hloop⟩ := h
  have hnext : ∀ hd, t.loop = .building hd → hd.ack ≠ k := fun hd ht =>
    (hl hd ht).elim (hloop hd) id
  by_cases hk : j = k
  · obtain ⟨hc', hheld'⟩ := hj o hk ho hheld
    exact ⟨p, by rw [hacks, hk, Function.update_self], hc'.trans hc, hheld', hnext⟩
  · exact ⟨o, by rw [hacks, Function.update_of_ne (Ne.symm hk), ho], hc, hheld, hnext⟩

theorem OutOfReach.setLoop (h : OutOfReach s k c) {l : Loop}
    (hl : ∀ hd, l = .building hd → ∃ hd', s.loop = .building hd' ∧ hd'.ack = hd.ack) :
    OutOfReach (s.setLoop l) k c := by
  obtain ⟨o, ho, hc, hheld, hloop⟩ := h
  refine ⟨o, ho, hc, hheld, fun hd ht => ?_⟩
  obtain ⟨hd', hl', hack⟩ := hl hd ht
  rw [← hack]
  exact hloop hd' hl'

theorem Abandoned.step (h : Abandoned s c) (ht : Tracked D s) (hP : WokenAcked s e)
    (hst : Transition D s e t) : Abandoned t c := by
  obtain ⟨x, k, hun, hout⟩ := h
  cases hst with
  | construct | refused | doneAgain => exact ⟨x, k, hun, hout⟩
  | entered hy =>
    refine ⟨x, k, hun.update rfl fun f hx hf => ?_, hout⟩
    subst hx
    cases hy.symm.trans hf
  | sent hg =>
    refine ⟨x, k, hun.update rfl fun f hx hf _ ha => ?_, hout⟩
    subst hx
    cases hg.symm.trans hf
    exact ⟨_, rfl, rfl, ha⟩
  | blocked hg =>
    refine ⟨x, k, hun.update rfl fun f hx hf _ ha => ?_, hout⟩
    subst hx
    cases hg.symm.trans hf
    exact ⟨_, rfl, rfl, ha⟩
  | waited hg _ _ hga =>
    refine ⟨x, k, hun.update rfl fun f hx hf _ ha => ?_, hout⟩
    subst hx
    cases hg.symm.trans hf
    cases hga.symm.trans ha
  | woken hg =>
    refine ⟨x, k, hun.update rfl fun f hx hf _ ha => ?_, hout⟩
    subst hx
    cases hg.symm.trans hf
    cases (hP _ hg).symm.trans ha
  | @dispatched a async f j ha hf hloop hj =>
    refine ⟨x, k, hun, hout.update rfl (fun o hk ho => ?_) fun hd hl => ?_⟩
    · subst hk
      cases hj.symm.trans ho
    · cases hl
      refine .inr fun hjk => ?_
      obtain ⟨o, ho, -⟩ := hout
      cases hj.symm.trans (hjk ▸ ho)
  | column hloop =>
    refine ⟨x, k, hun, hout.setLoop fun hd hl => ?_⟩
    cases hl
    exact ⟨_, hloop, rfl⟩
  | listener hloop hr ho =>
    refine ⟨x, k, hun, hout.update rfl (fun o hk => ?_) fun hd hl => by cases hl⟩
    obtain ⟨-, -, -, -, hne⟩ := hout
    exact absurd hk (hne _ hloop)
  | listenerEnd => exact ⟨x, k, hun, hout.setLoop fun hd hl => by cases hl⟩
  | @done j o y g args ho hheld hjs hx hg =>
    have hcall : y = x → o.call = c := fun hxy => by
      obtain ⟨f, hf, hfc, -⟩ := hun
      subst hxy
      obtain ⟨g', hg', hat, -⟩ := ht.of_bound ho hx
      cases hf.symm.trans hg'
      exact hat.call.symm.trans hfc
    have hne : j ≠ k := by
      rintro rfl
      obtain ⟨o', ho', -, hheld', -⟩ := hout
      cases ho.symm.trans ho'
      cases hheld.symm.trans hheld'
    refine ⟨x, k, hun.update rfl fun f hxy => ?_, hout.update rfl (fun _ hk => absurd hk hne)
      fun hd hl => .inl hl⟩
    -- the ack of the call is out of reach, and a call has no other
    obtain ⟨o', ho', hc', -⟩ := hout
    exact absurd ((ht.ack_unique ho').1 j o ho ((hcall hxy).trans hc'.symm)) hne
  | @dropped j o ho hheld =>
    refine ⟨x, k, hun, hout.update rfl (fun o' hk ho' _ => ?_) fun hd hl => .inl hl⟩
    subst hk
    cases ho.symm.trans ho'
    exact ⟨rfl, rfl⟩
  | @finalized j o ho hheld =>
    refine ⟨x, k, hun, hout.update rfl (fun o' hk ho' _ => ?_) fun hd hl => .inl hl⟩
    subst hk
    cases ho.symm.trans ho'
    exact ⟨rfl, hheld⟩

end Abandoned

structure Live (D : Utf8Decoder) (s : Delivery) : Prop where
  tracked : Tracked D s
  running : Running s
  acks : Heap.Bounded s.acks
  pending : Heap.Bounded s.pending

section Live

variable {D : Utf8Decoder} {s t : Delivery} {e : Event} {c x : Nat}

theorem Live.init (D : Utf8Decoder) : Live D {} where
  tracked := .init D
  running _ _ _ hf := by cases hf
  acks := Heap.bounded_empty
  pending := Heap.bounded_empty

theorem Live.step (h : Live D s) (hst : Transition D s e t) (hP : WokenAcked s e) : Live D t := by
  refine ⟨h.tracked.step hP hst, h.running.step hst, ?_, ?_⟩
  · cases hst with
    | dispatched | listener | done | dropped | finalized => exact h.acks.update _ _
    | _ => exact h.acks
  · cases hst with
    | sent | dispatched => exact h.pending.update _ _
    | _ => exact h.pending

theorem Live.reaches (hst : Transition D s e t) (hP : WokenAcked s e) :
    (delivery D).Reaches WokenAcked s t := .single hP hst.enabled

theorem Tracks.frame_unique {v : View} {p : Stage} (h : Tracks D c v p) {y : Nat} {f g : Frame}
    (hf : v.frames x = some f) (hg : v.frames y = some g) : x = y := by
  cases h with
  | idle => cases hf
  | returned => cases hf
  | entered | pending | building | delivered | decided =>
    exact (single_eq_some.mp hf).1.trans (single_eq_some.mp hg).1.symm

theorem Tracked.frame_unique (h : Tracked D s) {y : Nat} {f g : Frame} (hf : s.frames x = some f)
    (hg : s.frames y = some g) (hc : f.call = g.call) : x = y := by
  obtain ⟨p, -, ht⟩ := h.tracks f.call
  exact ht.frame_unique (view_frames hf) (hc ▸ view_frames hg)

theorem Tracked.not_inCall_leave (h : Tracked D s) {f : Frame} (hf : s.frames x = some f) :
    ¬InCall (s.leave x f) f.call := by
  rintro ⟨y, g, hg, hc⟩
  rw [Delivery.leave_frames, Function.update_apply] at hg
  split_ifs at hg with hy
  exact hy (h.frame_unique hg hf hc)

theorem Live.leave (h : Live D s) {f : Frame} (hf : s.frames x = some f)
    (ha : f.ackInner.acked = true) :
    ∃ t, (delivery D).Reaches WokenAcked s t ∧ ¬InCall t f.call := by
  have hnot := h.tracked.not_inCall_leave hf
  have hsent : f.sent = true := by
    by_contra hs
    obtain ⟨p, -, ht⟩ := h.tracked.tracks f.call
    obtain ⟨-, -, -, hi⟩ := ht.of_unsent (view_frames hf) (by simpa using hs)
    cases hi.acked.symm.trans ha
  cases hw : f.ackInner.waiter with
  | returned r => exact absurd hw (h.running x f r hf)
  | entry =>
    have hst : Transition D s (.wait x) (s.leave x f) := .waited hf hsent hw ha
    exact ⟨_, Live.reaches hst trivial, hnot⟩
  | waiting b =>
    have hst : Transition D s (.wake x) (s.leave x f) := .woken hf hw
    refine ⟨_, Live.reaches hst fun g hg => ?_, hnot⟩
    cases hf.symm.trans hg
    exact ha

theorem Live.answer (h : Live D s) {k : Nat} {o : ConsumerAck} (ho : s.acks k = some o)
    (hheld : o.held = true) (hx : o.inner = some x) (hjs : s.runsJs = true) :
    ∃ t, (delivery D).Reaches WokenAcked s t ∧ ¬InCall t o.call := by
  obtain ⟨f, hf, hat, -⟩ := h.tracked.of_bound ho hx
  have hst : Transition D s (.done k []) (s.done k x o f []) := .done ho hheld hjs hx hf
  obtain ⟨t, ht, hnot⟩ := (h.step hst trivial).leave (x := x)
    (f := { f with ackInner := f.ackInner.ack (decision []) }) (by simp)
    (ConsumerAckInner.ack_acked _ _)
  exact ⟨t, (Live.reaches hst trivial).trans ht, hat.call ▸ hnot⟩

theorem Live.build (n : Nat) {s : Delivery} (h : Live D s) {hd : Handler}
    (hl : s.loop = .building hd) (hn : hd.rest.length = n) :
    ∃ t, (delivery D).Reaches WokenAcked s t ∧ Live D t ∧ t.loop = .listening hd.ack ∧
      t.frames = s.frames ∧ t.pending = s.pending ∧ ∃ o, s.acks hd.ack = some o ∧
        t.acks = Function.update s.acks hd.ack (some { o with held := true }) := by
  induction n generalizing s hd with
  | zero =>
    obtain ⟨f, o, hf, -, -, ho, -⟩ := h.tracked.of_handler hl
    have hst : Transition D s (.callListener true) _ := .listener hl (List.length_eq_zero_iff.mp hn) ho
    exact ⟨_, Live.reaches hst trivial, h.step hst trivial, rfl, rfl, rfl, o, ho, rfl⟩
  | succ n ih =>
    obtain ⟨f, o, hf, -⟩ := h.tracked.of_handler hl
    obtain ⟨name, rest, hr⟩ := List.exists_cons_of_length_eq_add_one hn
    have hst : Transition D s .readColumn _ := .column hl hf hr
    obtain ⟨t, ht, hlive, hloop, hframes, hpending, hacks⟩ :=
      ih (h.step hst trivial) rfl (by simpa [hr] using hn)
    exact ⟨t, (Live.reaches hst trivial).trans ht, hlive, hloop, hframes, hpending, hacks⟩

theorem Live.rest (h : Live D s) :
    ∃ t, (delivery D).Reaches WokenAcked s t ∧ Live D t ∧ t.loop = .idle ∧
      t.frames = s.frames ∧ t.pending = s.pending ∧
        ∀ k, (∀ hd, s.loop = .building hd → hd.ack ≠ k) → t.acks k = s.acks k := by
  cases hl : s.loop with
  | idle => exact ⟨s, .refl s, h, hl, rfl, rfl, fun _ _ => rfl⟩
  | listening k =>
    have hst : Transition D s .listenerEnd _ := .listenerEnd hl
    exact ⟨_, Live.reaches hst trivial, h.step hst trivial, rfl, rfl, rfl, fun _ _ => rfl⟩
  | building hd =>
    obtain ⟨t, ht, hlive, hloop, hframes, hpending, o, -, hacks⟩ := h.build _ hl rfl
    have hst : Transition D t .listenerEnd _ := .listenerEnd hloop
    refine ⟨_, ht.trans (Live.reaches hst trivial), hlive.step hst trivial, rfl, hframes,
      hpending, fun k hk => ?_⟩
    rw [Delivery.setLoop_acks, hacks, Function.update_of_ne (hk hd rfl).symm]

theorem Live.answerHeld (h : Live D s) {k : Nat} {o : ConsumerAck} (ho : s.acks k = some o)
    (hheld : o.held = true) (hx : o.inner = some x) :
    ∃ t, (delivery D).Reaches WokenAcked s t ∧ ¬InCall t o.call := by
  obtain ⟨t, ht, hlive, hloop, -, -, hacks⟩ := h.rest
  have hk : t.acks k = some o := by
    rw [hacks k, ho]
    rintro hd hl rfl
    obtain ⟨-, o', -, -, -, ho', -, hheld'⟩ := h.tracked.of_handler hl
    cases ho.symm.trans ho'
    cases hheld.symm.trans hheld'
  obtain ⟨u, hu, hnot⟩ := hlive.answer hk hheld hx (by simp [Delivery.runsJs, hloop])
  exact ⟨u, ht.trans hu, hnot⟩

theorem Live.answerBuilt (h : Live D s) {hd : Handler} {o : ConsumerAck}
    (hl : s.loop = .building hd) (ho : s.acks hd.ack = some o) (hx : o.inner = some x) :
    ∃ t, (delivery D).Reaches WokenAcked s t ∧ ¬InCall t o.call := by
  obtain ⟨t, ht, hlive, hloop, -, -, o', ho', hacks⟩ := h.build _ hl rfl
  cases ho.symm.trans ho'
  obtain ⟨u, hu, hnot⟩ := hlive.answer (k := hd.ack) (o := { o with held := true })
    (by rw [hacks, Function.update_self]) rfl hx (by simp [Delivery.runsJs, hloop])
  exact ⟨u, ht.trans hu, hnot⟩

theorem Live.answerPending (h : Live D s) {a : Nat} {async : Async} (ha : s.pending a = some async) :
    ∃ t, (delivery D).Reaches WokenAcked s t ∧ ¬InCall t async.call := by
  obtain ⟨t, ht, hlive, hloop, -, hpending, -⟩ := h.rest
  obtain ⟨k, hk⟩ := hlive.acks.fresh
  rw [← hpending] at ha
  obtain ⟨f, hf, -⟩ := hlive.tracked.of_pending ha
  have hst : Transition D t (.dispatch a k) (t.dispatch a k async f) := .dispatched ha hf hloop hk
  obtain ⟨u, hu, hnot⟩ := (hlive.step hst trivial).answerBuilt rfl
    (o := { inner := some f.param.ack, call := async.call }) (by simp) rfl
  exact ⟨u, ht.trans ((Live.reaches hst trivial).trans hu), hnot⟩

theorem Live.answerEntered (h : Live D s) {f : Frame} (hf : s.frames x = some f)
    (hs : f.sent = false) : ∃ t, (delivery D).Reaches WokenAcked s t ∧ ¬InCall t f.call := by
  obtain ⟨a, ha⟩ := h.pending.fresh
  have hst : Transition D s (.send x a) (s.send x a f) := .sent hf hs ha
  have hpending : (s.send x a f).pending a = some ⟨x, f.call⟩ := by simp
  obtain ⟨u, hu, hnot⟩ := (h.step hst trivial).answerPending hpending
  exact ⟨u, (Live.reaches hst trivial).trans hu, hnot⟩

theorem Live.returns (h : Live D s) (hc : InCall s c) (hnot : ¬Abandoned s c) :
    ∃ t, (delivery D).Reaches WokenAcked s t ∧ ¬InCall t c := by
  obtain ⟨x, f, hf, rfl⟩ := hc
  obtain ⟨p, -, ht⟩ := h.tracked.tracks f.call
  have hv := view_frames hf
  have hpending : ∀ a async, (s.view f.call).pending a = some async → s.pending a = some async :=
    fun a async ha => (Option.filter_eq_some_iff.mp ha).1
  have hacks := fun k o => acks_of_view (s := s) (c := f.call) (k := k) (o := o)
  have hloop := fun hd => loop_of_view (s := s) (c := f.call) (h := hd)
  have hidle : (s.view f.call).handler = none → ∀ hd, s.loop = .building hd → hd.call ≠ f.call :=
    fun hn hd hl hcall => by simp [Delivery.view, hl, Loop.handler, hcall] at hn
  generalize s.view f.call = v at ht hv hpending hacks hloop hidle
  cases ht with
  | idle => cases hv
  | returned => cases hv
  | entered _ _ hs =>
    obtain ⟨rfl, rfl⟩ := single_eq_some.mp hv
    exact h.answerEntered hf hs
  | pending => exact h.answerPending (hpending _ _ (single_self _ _))
  | building _ _ _ hbound hh hfin =>
    have ho := hacks _ _ (single_self _ _)
    obtain ⟨t, hreach, hout⟩ :=
      h.answerBuilt (hloop _ rfl) (hh.ack ▸ ho) (by rw [hbound.inner, hfin]; rfl)
    exact ⟨t, hreach, hbound.call ▸ hout⟩
  | @delivered y g k o hat hi _ hbound =>
    obtain ⟨rfl, rfl⟩ := single_eq_some.mp hv
    have ho := hacks k o (single_self k o)
    -- a call whose ack is not held would be abandoned
    have hheld : o.held = true := by
      by_contra hne
      refine hnot ⟨x, k, ⟨g, hf, rfl, hi.acked⟩, o, ho, hbound.call, by simpa using hne, ?_⟩
      rintro hd hl rfl
      obtain ⟨-, o', -, -, -, ho', hbound', -⟩ := h.tracked.of_handler hl
      cases ho.symm.trans ho'
      exact hidle rfl hd hl (hbound'.call.symm.trans hbound.call)
    have hfin : o.finalized = false := by
      by_contra hfin
      cases hheld.symm.trans (hbound.finalized (by simpa using hfin))
    obtain ⟨t, hreach, hout⟩ := h.answerHeld ho hheld (x := x) (by rw [hbound.inner, hfin]; rfl)
    exact ⟨t, hreach, hbound.call ▸ hout⟩
  | decided _ hi =>
    obtain ⟨rfl, rfl⟩ := single_eq_some.mp hv
    exact h.leave hf hi.acked

end Live

end RocketMQClient.Consume
