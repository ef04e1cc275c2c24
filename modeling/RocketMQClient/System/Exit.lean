import RocketMQClient.Client.WindDown
import RocketMQClient.Consume.Rest

namespace RocketMQClient.System

open Library Marshal Client Consume

structure NodeProcess where
  client : ClassKind → JsModule := fun _ => {}
  threads : Threads := {}

inductive NodeEvent
  | client (k : ClassKind) (e : Client.Event)
  | threads (e : Threads.Event)

namespace NodeProcess

def admits (s : NodeProcess) : Client.Event → Bool
  | .construct | .call _ _ => s.threads.runsJs
  | .complete _ =>
    s.threads.acking.isNone && match s.threads.loop with
      | .idle => true
      | _ => false
  | _ => true

@[simps] def setClient (s : NodeProcess) (k : ClassKind) (m : JsModule) : NodeProcess :=
  { s with client := Function.update s.client k m }

@[simps] def setThreads (s : NodeProcess) (t : Threads) : NodeProcess := { s with threads := t }

def step (D : Utf8Decoder) (s : NodeProcess) : NodeEvent → Option NodeProcess
  | .client k e => if s.admits e then (Client.step k (s.client k) e).map (s.setClient k) else none
  | .threads e => (Threads.step D s.threads e).map s.setThreads

/-- A handle counts from `uv_async_init` until it is closed. -/
structure LoopEmpty (s : NodeProcess) : Prop where
  client : ∀ k, (s.client k).Quiet
  loop : s.threads.loop = .idle
  acking : s.threads.acking = none
  handles : ∀ a u, s.threads.handles a = some u → u.phase = .allocated

end NodeProcess

def node (D : Utf8Decoder) : Machine NodeProcess NodeEvent where
  init := {}
  step := NodeProcess.step D

def Spurious (e : NodeEvent) : Prop := ∃ x, e = .threads (.wait x .wake)

structure NodeProcess.Kept (s : NodeProcess) : Prop where
  tracked : ∀ k, Tracked (s.client k)
  told : ∀ k, Told (s.client k)
  keepAlive : ∀ k, KeepAlive (s.client k)

structure NodeProcess.Sound (D : Utf8Decoder) (s : NodeProcess) : Prop extends s.Kept where
  threads : Threads.Sound D s.threads

inductive NodeTransition (D : Utf8Decoder) (s : NodeProcess) : NodeEvent → NodeProcess → Prop
  | client : Client.Transition (s.client k) e m → NodeTransition D s (.client k e) (s.setClient k m)
  | threads : Threads.Transition D s.threads e t →
      NodeTransition D s (.threads e) (s.setThreads t)

section Sound

variable {D : Utf8Decoder} {s t : NodeProcess} {e : NodeEvent}

theorem node_step_cases (h : (node D).step s e = some t) : NodeTransition D s e t := by
  cases e with
  | client k e =>
    simp only [node, NodeProcess.step] at h
    split_ifs at h
    obtain ⟨m, hm, rfl⟩ := Option.map_eq_some_iff.mp h
    exact .client (Client.step_cases hm)
  | threads e =>
    obtain ⟨u, hu, rfl⟩ := Option.map_eq_some_iff.mp h
    exact .threads (Threads.step_cases hu)

theorem setClient_forall {P : JsModule → Prop} {k : ClassKind} {m : JsModule}
    (h : ∀ k, P (s.client k)) (hm : P m) (l : ClassKind) : P ((s.setClient k m).client l) := by
  rw [NodeProcess.setClient_client, Function.update_apply]
  split_ifs
  · exact hm
  · exact h l

theorem NodeProcess.Kept.init : NodeProcess.Kept {} where
  tracked _ := Tracked.init
  told _ := Told.init
  keepAlive _ := KeepAlive.init

theorem NodeProcess.Kept.step (h : s.Kept) (hst : NodeTransition D s e t) : t.Kept := by
  cases hst with
  | @client k e m hst =>
    refine ⟨setClient_forall h.tracked ?_, setClient_forall h.told ?_, setClient_forall h.keepAlive ?_⟩
    · exact (h.tracked k).step hst
    · exact (h.told k).step hst
    · exact (h.keepAlive k).step (h.tracked k) hst
  | threads => exact ⟨h.tracked, h.told, h.keepAlive⟩

theorem NodeProcess.Sound.step (h : s.Sound D) (he : ¬Spurious e) (hst : NodeTransition D s e t) :
    t.Sound D where
  toKept := h.toKept.step hst
  threads := by
    cases hst with
    | client => exact h.threads
    | threads hst =>
      refine h.threads.step ?_ hst
      rintro ⟨x, rfl⟩
      exact he ⟨x, rfl⟩

theorem hungUp_step {k : ClassKind} {i : Nat} (h : s.Kept) (hup : (s.client k).HungUp i)
    (hst : NodeTransition D s e t) : (t.client k).HungUp i := by
  cases hst with
  | @client l e m hst =>
    rw [NodeProcess.setClient_client]
    by_cases hl : k = l
    · subst hl
      rw [Function.update_self]
      exact hup.step (h.tracked k) hst
    · rwa [Function.update_of_ne hl]
  | threads => exact hup

def NodeEvent.winds : NodeEvent → Bool
  | .client _ e => e.winds
  | .threads e => e.runs

noncomputable def NodeProcess.effort (s : NodeProcess) : Nat :=
  (s.client .producer).effort + (s.client .pushConsumer).effort + Threads.effort s.threads

theorem not_spurious_of_winds (he : e.winds = true) : ¬Spurious e := by
  rintro ⟨x, rfl⟩
  cases he

theorem NodeProcess.Sound.closable (h : s.Sound D) {k : ClassKind}
    (hfree : ∀ i, ¬(s.client k).HungUp i) : Closable (s.client k) :=
  ⟨h.tracked k, h.told k, h.keepAlive k, hfree⟩

theorem effort_setClient {k : ClassKind} {m : JsModule} (h : m.effort < (s.client k).effort) :
    (s.setClient k m).effort < s.effort := by
  cases k <;> simp [NodeProcess.effort, NodeProcess.setClient] <;> omega

theorem node_progress (h : s.Sound D) (hfree : ∀ k i, ¬(s.client k).HungUp i) :
    s.LoopEmpty ∨ ∃ e t, e.winds = true ∧ (node D).step s e = some t ∧
      (t.Sound D ∧ ∀ k i, ¬(t.client k).HungUp i) ∧ t.effort < s.effort := by
  by_cases hrest : Threads.AtRest D s.threads
  · have hloop := h.threads.loop_idle hrest
    have hacking := h.threads.not_acking hrest
    by_cases hquiet : ∀ k, (s.client k).Quiet
    · refine .inl ⟨hquiet, hloop, hacking, fun a u hu => ?_⟩
      cases (h.threads.no_handle hrest a).symm.trans hu
    · simp only [not_forall] at hquiet
      obtain ⟨k, hk⟩ := hquiet
      obtain hq | ⟨e, m, he, hm, hclosable, hless⟩ := (h.closable (hfree k)).progress k
      · exact absurd hq hk
      · have hadmits : s.admits e = true := by
          cases e <;> simp [NodeProcess.admits, Threads.runsJs, hloop, hacking]
        have hstep : (node D).step s (.client k e) = some (s.setClient k m) := by
          simp [node, NodeProcess.step, hadmits, hm]
        have hwinds : NodeEvent.winds (.client k e) = true := he
        have hsound := h.step (not_spurious_of_winds hwinds) (node_step_cases hstep)
        refine .inr ⟨_, _, hwinds, hstep, ⟨hsound, ?_⟩, effort_setClient hless⟩
        exact setClient_forall (P := fun m => ∀ i, ¬m.HungUp i) hfree hclosable.free
  · right
    simp only [Threads.AtRest, not_forall] at hrest
    obtain ⟨e, he, hne⟩ := hrest
    obtain ⟨u, hu⟩ := Option.ne_none_iff_exists'.mp hne
    have hstep : (node D).step s (.threads e) = some (s.setThreads u) := by
      simpa [node, NodeProcess.step] using ⟨u, hu, rfl⟩
    have hwinds : NodeEvent.winds (.threads e) = true := he
    have hsound := h.step (not_spurious_of_winds hwinds) (node_step_cases hstep)
    refine ⟨_, _, hwinds, hstep, ⟨hsound, hfree⟩, ?_⟩
    have hless := (Threads.step_cases hu).effort_lt h.threads.finite he
    simpa [NodeProcess.effort] using hless

theorem hungUp_exec {k : ClassKind} {i : Nat} {es : List NodeEvent} (h : s.Kept)
    (hup : (s.client k).HungUp i) (hst : (node D).exec s es = some t) : ¬t.LoopEmpty := by
  have hlast : t.Kept ∧ (t.client k).HungUp i := by
    refine Machine.exec_invariant (I := fun s => s.Kept ∧ (s.client k).HungUp i) ?_ ⟨h, hup⟩ hst
    exact fun s e t hs hst =>
      ⟨hs.1.step (node_step_cases hst), hungUp_step hs.1 hs.2 (node_step_cases hst)⟩
  exact fun hempty => hlast.2.not_quiet (hlast.1.keepAlive k) (hempty.client k)

theorem winds_down (h : s.Sound D) (hfree : ∀ k i, ¬(s.client k).HungUp i) :
    ∃ fs t, (∀ e ∈ fs, e.winds = true) ∧ (node D).exec s fs = some t ∧ t.LoopEmpty := by
  have progress : ∀ s : NodeProcess, (s.Sound D ∧ ∀ k i, ¬(s.client k).HungUp i) →
      s.LoopEmpty ∨ ∃ t, (node D).Reaches (fun _ e => e.winds = true) s t ∧
        (t.Sound D ∧ ∀ k i, ¬(t.client k).HungUp i) ∧ t.effort < s.effort := by
    intro s hs
    refine (node_progress hs.1 hs.2).imp_right ?_
    rintro ⟨e, t, he, hst, ht⟩
    exact ⟨t, .single he hst, ht⟩
  obtain ⟨t, ⟨fs, ht, hfs⟩, -, hempty⟩ := Machine.exists_reaches progress ⟨h, hfree⟩
  exact ⟨fs, t, hfs.forall_mem ht, ht, hempty⟩

end Sound

def failedShutdown : List NodeEvent :=
  [.construct, .call 0 (.start none), .execute 0, .nativeReturn 0 (.startOrShutdown (.ok ())),
    .complete 0, .call 0 (.shutdown none), .execute 1,
    .nativeReturn 1 (.startOrShutdown (.threw "broker")), .complete 1].map (.client .producer)

end RocketMQClient.System
