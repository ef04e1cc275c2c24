import RocketMQClient.Client.Ownership
import RocketMQClient.Library.ObjectGraph

/-! The collector and the objects of both classes.  A native object is destroyed with the
JS object that wraps it, which no root may lead to: neither a variable of the program, nor
the callback of an outstanding worker, nor `listener_func` of a push consumer. -/

namespace RocketMQClient.Client

open Library

inductive JsObject
  | wrapper (k : ClassKind) (i : Nat)
  | core (k : ClassKind) (i : Nat)
  | listener (i : Nat)
  | closure (k : ClassKind) (w : Nat)

structure JsHeap where
  clients : ClassKind → JsModule := fun _ => {}
  held : ClassKind → Nat → Bool := fun _ _ => false
  alive : ClassKind → Nat → Bool := fun _ _ => false

namespace JsHeap

/-- `listener_func` and the callbacks of workers are persistent handles. -/
inductive Root (s : JsHeap) : JsObject → Prop
  | held : s.held k i = true → Root s (.wrapper k i)
  | listenerFunc : s.alive .pushConsumer i = true → Root s (.listener i)
  | callback : (s.clients k).workers w = some wk → Root s (.closure k w)

inductive Refers (s : JsHeap) : JsObject → JsObject → Prop
  | core : Refers s (.wrapper k i) (.core k i)
  | bound : Refers s (.listener i) (.wrapper .pushConsumer i)
  | captured : (s.clients k).workers w = some wk → wk.captures = some i →
      Refers s (.closure k w) (.wrapper k i)

def graph (s : JsHeap) : ObjectGraph JsObject where
  root := s.Root
  edge := s.Refers

def admits (s : JsHeap) (k : ClassKind) : Event → Bool
  | .call self _ => s.held k self
  | _ => true

def mark (set : ClassKind → Nat → Bool) (k : ClassKind) (i : Nat) (b : Bool) : ClassKind → Nat → Bool :=
  Function.update set k (Function.update (set k) i b)

@[simps] def setClient (s : JsHeap) (k : ClassKind) (m : JsModule) : JsHeap :=
  { s with clients := Function.update s.clients k m }

def after (s : JsHeap) (k : ClassKind) (e : Event) (m : JsModule) : JsHeap :=
  match e with
  | .construct =>
    { clients := Function.update s.clients k m
      held := mark s.held k (s.clients k).status.length true
      alive := mark s.alive k (s.clients k).status.length true }
  | _ => s.setClient k m

@[simps] def drop (s : JsHeap) (k : ClassKind) (i : Nat) : JsHeap :=
  { s with held := mark s.held k i false }

@[simps] def finalize (s : JsHeap) (k : ClassKind) (i : Nat) : JsHeap :=
  { s with alive := mark s.alive k i false }

end JsHeap

inductive HeapEvent
  | client (k : ClassKind) (e : Event)
  | drop (k : ClassKind) (i : Nat)
  | finalize (k : ClassKind) (i : Nat)

open Classical in
noncomputable def collection : Machine JsHeap HeapEvent where
  init := {}
  step s
    | .client k e =>
      if s.admits k e then (step k (s.clients k) e).map (s.after k e) else none
    | .drop k i => if s.held k i then some (s.drop k i) else none
    | .finalize k i =>
      if s.alive k i ∧ ¬s.graph.Live (.core k i) then some (s.finalize k i) else none

section Live

variable {s : JsHeap} {k : ClassKind} {i : Nat}

theorem live_core : s.graph.Live (.core k i) ↔ s.graph.Live (.wrapper k i) := by
  rw [ObjectGraph.live_iff]
  constructor
  · rintro (hr | ⟨u, hu, huv⟩)
    · cases hr
    · cases huv
      exact hu
  · exact fun h => .inr ⟨_, h, .core⟩

theorem live_listener : s.graph.Live (.listener i) ↔ s.alive .pushConsumer i = true := by
  rw [ObjectGraph.live_iff]
  constructor
  · rintro (hr | ⟨u, hu, huv⟩)
    · cases hr
      assumption
    · cases huv
  · exact fun h => .inl (.listenerFunc h)

theorem live_wrapper : s.graph.Live (.wrapper k i) ↔
    s.held k i = true ∨ (k = .pushConsumer ∧ s.alive .pushConsumer i = true) ∨
      ∃ w wk, (s.clients k).workers w = some wk ∧ wk.captures = some i := by
  rw [ObjectGraph.live_iff]
  constructor
  · rintro (hr | ⟨u, hu, huv⟩)
    · cases hr
      exact .inl ‹_›
    · cases huv with
      | bound => exact .inr (.inl ⟨rfl, live_listener.mp hu⟩)
      | captured hw hc => exact .inr (.inr ⟨_, _, hw, hc⟩)
  · rintro (h | ⟨rfl, h⟩ | ⟨w, wk, hw, hc⟩)
    · exact .inl (.held h)
    · exact .inr ⟨_, live_listener.mpr h, .bound⟩
    · exact .inr ⟨_, .of_root (.callback hw : s.Root _), .captured hw hc⟩

end Live

inductive HeapTransition (s : JsHeap) : HeapEvent → JsHeap → Prop
  | client : s.admits k e = true → step k (s.clients k) e = some m →
      HeapTransition s (.client k e) (s.after k e m)
  | drop : s.held k i = true → HeapTransition s (.drop k i) (s.drop k i)
  | finalize : s.alive k i = true → ¬s.graph.Live (.core k i) →
      HeapTransition s (.finalize k i) (s.finalize k i)

section Step

variable {s t : JsHeap} {k : ClassKind} {e : HeapEvent}

theorem heap_step_cases (h : collection.step s e = some t) : HeapTransition s e t := by
  cases e with
  | client k e =>
    simp only [collection] at h
    split_ifs at h with hadmits
    obtain ⟨m, hm, rfl⟩ := Option.map_eq_some_iff.mp h
    exact .client hadmits hm
  | drop k i =>
    simp only [collection] at h
    split_ifs at h with hheld
    cases h
    exact .drop hheld
  | finalize k i =>
    simp only [collection] at h
    split_ifs at h with hguard
    cases h
    exact .finalize hguard.1 hguard.2

@[simp] theorem heap_after_clients (e : Event) (m : JsModule) :
    (s.after k e m).clients = Function.update s.clients k m := by
  cases e <;> rfl

theorem mark_apply (set : ClassKind → Nat → Bool) (k l : ClassKind) (i j : Nat) (b : Bool) :
    JsHeap.mark set k i b l j = if l = k ∧ j = i then b else set l j := by
  rw [JsHeap.mark, Function.update_apply]
  split_ifs <;> simp_all

theorem heap_after_alive {l : ClassKind} {i : Nat} {e : Event} {m : JsModule}
    (h : s.alive l i = true) : (s.after k e m).alive l i = true := by
  cases e with
  | construct => simp [JsHeap.after, mark_apply, h]
  | _ => exact h

theorem status_length {m m' : JsModule} {e : Event} (ht : Transition m e m') :
    m'.status.length = m.status.length ∨ e = .construct ∧ m'.status.length = m.status.length + 1 := by
  cases ht with
  | construct => exact .inr ⟨rfl, by simp⟩
  | accepted _ ha => cases ha <;> exact .inl (by simp)
  | _ => exact .inl (by simp)

def SelfLt (m : JsModule) : Prop := ∀ w wk, m.workers w = some wk → wk.self < m.status.length

theorem SelfLt.step {m m' : JsModule} {e : Event} (h : SelfLt m) (ht : Transition m e m') :
    SelfLt m' := by
  intro w wk hw
  have hlength : m.status.length ≤ m'.status.length := by
    rcases status_length ht with hl | ⟨-, hl⟩ <;> omega
  rcases workers_of_transition ht hw with ⟨v, wk₀, hv, hself, -⟩ | ⟨c, rfl⟩
  · rw [hself]
    exact (h v wk₀ hv).trans_le hlength
  · cases ht with
    | rejected => exact h w wk hw
    | accepted hlt => exact hlt.trans_le hlength

def JsHeap.ConsumersAlive (s : JsHeap) : Prop :=
  ∀ i < (s.clients .pushConsumer).status.length, s.alive .pushConsumer i = true

structure JsHeap.Sound (s : JsHeap) : Prop where
  selfLt : SelfLt (s.clients .pushConsumer)
  consumers : s.ConsumersAlive

theorem JsHeap.Sound.init : JsHeap.Sound {} where
  selfLt _ _ hw := by cases hw
  consumers i hi := absurd hi (Nat.not_lt_zero i)

theorem JsHeap.Sound.step (h : s.Sound) (hst : HeapTransition s e t) : t.Sound := by
  cases hst with
  | drop => exact ⟨h.selfLt, h.consumers⟩
  | @finalize k i halive hdead =>
    refine ⟨h.selfLt, fun j hj => ?_⟩
    rw [JsHeap.finalize_alive, mark_apply, if_neg]
    · exact h.consumers j hj
    · rintro ⟨rfl, rfl⟩
      exact hdead (live_core.mpr (live_wrapper.mpr (.inr (.inl ⟨rfl, halive⟩))))
  | @client k e m hadmits hm =>
    have ht := step_cases hm
    cases k with
    | producer =>
      refine ⟨by simpa using h.selfLt, fun i hi => heap_after_alive (h.consumers i ?_)⟩
      simpa using hi
    | pushConsumer =>
      refine ⟨by simpa using h.selfLt.step ht, fun i hi => ?_⟩
      rw [heap_after_clients, Function.update_self] at hi
      rcases status_length ht with hl | ⟨rfl, hl⟩
      · exact heap_after_alive (h.consumers i (hl ▸ hi))
      · by_cases hnew : i = (s.clients .pushConsumer).status.length
        · simp [JsHeap.after, mark_apply, hnew]
        · exact heap_after_alive (h.consumers i (by omega))

end Step

def JsHeap.producers (s : JsHeap) : Process where
  client := s.clients .producer
  held := s.held .producer
  alive := s.alive .producer

def HeapSendsFinished (s : JsHeap) : HeapEvent → Prop
  | .finalize .producer i => SendsFinished s.producers (.finalize i)
  | _ => True

section Producers

variable {s t : JsHeap} {e : HeapEvent} {i : Nat}

theorem captured_iff {m : JsModule} (h : Tracked m) :
    m.captured i = true ↔ ∃ w wk, m.workers w = some wk ∧ wk.captures = some i := by
  simp only [JsModule.captured, List.any_eq_true, List.mem_range, Option.any_eq_true,
    decide_eq_true_eq]
  constructor
  · rintro ⟨w, -, wk, hw, hc⟩
    exact ⟨w, wk, hw, hc⟩
  · rintro ⟨w, wk, hw, hc⟩
    exact ⟨w, h.fresh w wk hw, wk, hw, hc⟩

theorem live_producer (h : Tracked (s.clients .producer)) : s.graph.Live (.core .producer i) ↔
    s.held .producer i = true ∨ (s.clients .producer).captured i = true := by
  rw [live_core, live_wrapper, captured_iff h]
  simp

theorem mark_producer (set : ClassKind → Nat → Bool) (i : Nat) (b : Bool) :
    JsHeap.mark set .producer i b .producer = Function.update (set .producer) i b :=
  Function.update_self ..

theorem mark_pushConsumer (set : ClassKind → Nat → Bool) (i : Nat) (b : Bool) :
    JsHeap.mark set .pushConsumer i b .producer = set .producer :=
  Function.update_of_ne (by decide) ..

theorem producers_after (e : Event) (m : JsModule) :
    (s.after .producer e m).producers = s.producers.after e m := by
  cases e with
  | construct => simp [JsHeap.producers, JsHeap.after, Process.after, mark_producer]
  | _ => simp [JsHeap.producers, JsHeap.after, Process.after, JsHeap.setClient]

theorem producers_after_pushConsumer (e : Event) (m : JsModule) :
    (s.after .pushConsumer e m).producers = s.producers := by
  cases e with
  | construct => simp [JsHeap.producers, JsHeap.after, mark_pushConsumer]
  | _ => simp [JsHeap.producers, JsHeap.after, JsHeap.setClient]

theorem producers_admits (e : Event) : s.producers.admits e = s.admits .producer e := by
  cases e <;> rfl

theorem producers_client {m : JsModule} {e : Event} (hadmits : s.admits .producer e = true)
    (hm : step .producer (s.clients .producer) e = some m) :
    ownership.step s.producers (.client e) = some (s.producers.after e m) := by
  rw [← producers_admits] at hadmits
  have hm' : step .producer s.producers.client e = some m := hm
  simp [ownership, Process.step, hadmits, hm']

theorem producers_drop (h : s.held .producer i = true) :
    ownership.step s.producers (.drop i) = some (s.producers.drop i) :=
  if_pos h

theorem producers_finalize (h : Tracked (s.clients .producer)) (halive : s.alive .producer i = true)
    (hdead : ¬s.graph.Live (.core .producer i)) :
    ownership.step s.producers (.finalize i) = some (s.producers.finalize i) := by
  rw [live_producer h, not_or] at hdead
  exact if_pos ⟨halive, hdead.1, hdead.2⟩

def producersRefinement : Machine.Refinement collection ownership HeapSendsFinished SendsFinished where
  rel s a := Tracked (s.clients .producer) ∧ s.producers = a
  init := ⟨Tracked.init, rfl⟩
  step s e t a hr hP hst := by
    obtain ⟨h, rfl⟩ := hr
    cases heap_step_cases hst with
    | @client k e m hadmits hm =>
      cases k with
      | producer =>
        refine ⟨[.client e], s.producers.after e m, ?_, ⟨trivial, fun _ _ => trivial⟩, ?_⟩
        · simp [producers_client hadmits hm]
        · exact ⟨by simpa using h.step (step_cases hm), producers_after e m⟩
      | pushConsumer =>
        refine ⟨[], s.producers, rfl, trivial, ?_⟩
        exact ⟨by simpa using h, producers_after_pushConsumer e m⟩
    | @drop k i hheld =>
      cases k with
      | producer =>
        refine ⟨[.drop i], s.producers.drop i, ?_, ⟨trivial, fun _ _ => trivial⟩, h, ?_⟩
        · simp [producers_drop hheld]
        · simp [JsHeap.producers, JsHeap.drop, Process.drop, mark_producer]
      | pushConsumer =>
        refine ⟨[], s.producers, rfl, trivial, h, ?_⟩
        simp [JsHeap.producers, JsHeap.drop, mark_pushConsumer]
    | @finalize k i halive hdead =>
      cases k with
      | producer =>
        refine ⟨[.finalize i], s.producers.finalize i, ?_, ⟨hP, fun _ _ => trivial⟩, h, ?_⟩
        · simp [producers_finalize h halive hdead]
        · simp [JsHeap.producers, JsHeap.finalize, Process.finalize, mark_producer]
      | pushConsumer =>
        refine ⟨[], s.producers, rfl, trivial, h, ?_⟩
        simp [JsHeap.producers, JsHeap.finalize, mark_pushConsumer]

end Producers

def JsHeap.ExecutesAlive (s : JsHeap) (k : ClassKind) : Prop :=
  ∀ w wk, (s.clients k).workers w = some wk → wk.phase = .executing → s.alive k wk.self = true

section Executes

variable {s : JsHeap}

theorem JsHeap.Sound.executesAlive (h : s.Sound) : s.ExecutesAlive .pushConsumer :=
  fun _ _ hw _ => h.consumers _ (h.selfLt _ _ hw)

theorem executesAlive_of_owned (h : ∃ a, producersRefinement.rel s a ∧ a.Owned) :
    s.ExecutesAlive .producer := by
  intro w wk hw hphase
  obtain ⟨_, ⟨-, rfl⟩, ha⟩ := h
  exact ha.pending w wk hw (by simp [hphase])

/-- No push consumer is ever destroyed, for its own `listener_func` leads back to it, and so
its workers execute against a living one; those of a producer do as long as no producer is
finalized under a send that is not finished. -/
theorem collected_safely (es : List HeapEvent) :
    collection.Throughout (fun s => s.ConsumersAlive ∧ s.ExecutesAlive .pushConsumer)
        collection.init es ∧
      (collection.Along HeapSendsFinished collection.init es →
        collection.Throughout (fun s => ∀ k, s.ExecutesAlive k) collection.init es) := by
  constructor
  · have hall : collection.Along (fun _ _ => True) collection.init es :=
      .of_forall (fun _ _ _ => trivial) _
    refine hall.throughout (I := JsHeap.Sound) (fun s hs => ⟨hs.consumers, hs.executesAlive⟩) ?_ .init
    exact fun s e t hs _ hst => hs.step (heap_step_cases hst)
  · intro hP
    refine hP.throughout (I := fun s => s.Sound ∧ ∃ a, producersRefinement.rel s a ∧ a.Owned)
      (fun s hs k => ?_) ?_ ⟨.init, _, producersRefinement.init, Process.Owned.init⟩
    · cases k with
      | producer => exact executesAlive_of_owned hs.2
      | pushConsumer => exact hs.1.executesAlive
    · intro s e t hs hPe hst
      refine ⟨hs.1.step (heap_step_cases hst), ?_⟩
      exact producersRefinement.keep (fun a f b ha hQ => ha.step hQ) hs.2 hPe hst

end Executes

def droppedBoth : List HeapEvent :=
  [.client .pushConsumer .construct, .client .producer .construct,
    .client .producer (.call 0 (.send (.string "topic") (.string "body") (.object []) none)),
    .client .producer (.execute 0),
    .client .producer (.nativeReturn 0 (.sendMessage (.ok ⟨0, "id", 0⟩))),
    .client .pushConsumer (.call 0 (.start none)), .drop .producer 0, .drop .pushConsumer 0,
    .client .pushConsumer (.execute 0)]

theorem collected_safely_droppedBoth :
    (∃ s wk, collection.exec collection.init (droppedBoth ++ [.finalize .producer 0]) = some s ∧
        s.alive .producer 0 = false ∧
        (s.clients .pushConsumer).workers 0 = some wk ∧ wk.phase = .executing) ∧
      collection.Throughout (fun s => ∀ k, s.ExecutesAlive k) collection.init
        (droppedBoth ++ [.finalize .producer 0]) := by
  have hbefore : collection.Along HeapSendsFinished collection.init droppedBoth :=
    .of_forall (by simp [droppedBoth, HeapSendsFinished]) _
  refine ⟨?_, (collected_safely _).2 ?_⟩
  · obtain ⟨s, wk, hs, halive, hheld, hcaptures, hw, hphase⟩ : ∃ s wk,
        collection.exec collection.init droppedBoth = some s ∧ s.alive .producer 0 = true ∧
          s.held .producer 0 = false ∧
          (∀ w wk, (s.clients .producer).workers w = some wk → wk.captures = none) ∧
          (s.clients .pushConsumer).workers 0 = some wk ∧ wk.phase = .executing := by
      refine ⟨_, _, rfl, rfl, rfl, fun w wk hw => ?_, rfl, rfl⟩
      rcases w with _ | w <;> cases hw
      rfl
    have hdead : ¬s.graph.Live (.core .producer 0) := by
      rw [live_core, live_wrapper]
      rintro (h | ⟨h, -⟩ | ⟨w, wk, hw, hc⟩)
      · cases hheld.symm.trans h
      · cases h
      · cases (hcaptures w wk hw).symm.trans hc
    have hstep : collection.step s (.finalize .producer 0) = some (s.finalize .producer 0) :=
      if_pos ⟨halive, hdead⟩
    refine ⟨s.finalize .producer 0, wk, ?_, ?_, hw, hphase⟩
    · rw [Machine.exec_append, hs]
      exact Machine.exec_cons_eq_some.mpr ⟨_, hstep, rfl⟩
    · simp [mark_apply]
  · refine (Machine.along_append rfl).mpr ⟨hbefore, ?_, fun _ _ => trivial⟩
    intro w wk msg hw _ hj
    rcases w with _ | w
    · cases hw
      rfl
    · cases hw

end RocketMQClient.Client
