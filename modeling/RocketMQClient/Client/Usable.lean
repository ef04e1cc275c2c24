import RocketMQClient.Client.Tracking

namespace RocketMQClient.Client

open Library Lifecycle

def JsModule.Outstanding (m : JsModule) (i : Nat) : Prop := ∃ w, m.carried i w ≠ none

def restStatus : Option Method → StartStatus
  | some .start => .started
  | _ => .stopped

def JsModule.Usable (m : JsModule) : Prop :=
  ∀ i, i < m.status.length → ¬ m.Outstanding i →
    m.status[i]? = some (restStatus (lastSuccess (lifecycleOf i m.trace)))

def Usable (s : ClassKind → JsModule) : Prop := ∀ k, (s k).Usable

def JsModule.NoFailedCompletion (m : JsModule) : Event → Prop
  | .complete w => ∀ wk method, m.workers w = some wk → wk.job = .startOrShutdown method →
      wk.errmsg = none
  | _ => True

def NoFailedCompletion (s : ClassKind → JsModule) (e : ClassKind × Event) : Prop :=
  (s e.1).NoFailedCompletion e.2

def Effect.isFailure : Effect → Bool
  | .completed _ _ (.startOrShutdown _) (some _) => true
  | _ => false

structure JsModule.Sound (m : JsModule) : Prop extends Tracked m where
  failureless : ∀ e ∈ m.trace, e.isFailure = false

theorem failed_mem {i w : Nat} {op : Op} {trace : List Effect}
    (h : .finish w op false ∈ lifecycleOf i trace) : ∃ e ∈ trace, e.isFailure = true := by
  obtain ⟨e, he, hf⟩ := List.mem_filterMap.mp h
  refine ⟨e, he, ?_⟩
  unfold Effect.lifecycle at hf
  split at hf <;> simp at hf
  next errmsg =>
    cases errmsg with
    | none => simp at hf
    | some err => rfl

theorem JsModule.Sound.not_broken {m : JsModule} (h : m.Sound) {i : Nat} {p : Phase}
    (hp : Tracks m i p) : p ≠ .broken := by
  rintro rfl
  obtain ⟨w, op, hf⟩ := hp.accepts.failed
  obtain ⟨e, he, hfail⟩ := failed_mem hf
  simp [h.failureless e he] at hfail

theorem JsModule.Sound.usable {m : JsModule} (h : m.Sound) : m.Usable := by
  intro i hi hout
  obtain ⟨p, hp⟩ := h.tracks i
  have hnone : ∀ w, carriedIn p w = none := by
    intro w
    rw [← hp.carried]
    exact not_not.mp fun hw => hout ⟨w, hw⟩
  have hstatus := hp.status
  rw [List.getElem?_eq_getElem hi] at hstatus ⊢
  cases p with
  | stopped =>
    have hdown : lastSuccess (lifecycleOf i m.trace) ≠ some .start := by
      simpa using hp.accepts.facts.success false rfl
    have hrest : restStatus (lastSuccess (lifecycleOf i m.trace)) = .stopped := by
      unfold restStatus
      split
      · contradiction
      · rfl
    simpa [statusIn, hrest] using hstatus
  | started =>
    have hup : lastSuccess (lifecycleOf i m.trace) = some .start := by
      simpa using hp.accepts.facts.success true rfl
    simpa [statusIn, hup, restStatus] using hstatus
  | requested w op => simpa [carriedIn] using hnone w
  | issued w op => simpa [carriedIn] using hnone w
  | broken => exact absurd rfl (h.not_broken hp)

theorem not_failure_of_timed {e : Effect} (h : e.untimed = false) : e.isFailure = false := by
  cases e <;> first | rfl | cases h

theorem JsModule.Sound.step {m m' : JsModule} {e : Event} (h : m.Sound)
    (hP : m.NoFailedCompletion e) (ht : Transition m e m') : m'.Sound where
  toTracked := h.toTracked.step ht
  failureless := by
    have hold := h.failureless
    cases ht with
    | construct => exact hold
    | rejected => exact hold
    | accepted _ ha =>
      cases ha <;> simp_all [or_imp, Effect.isFailure]
    | executing => simp_all [or_imp, Effect.isFailure]
    | executed => simp_all [or_imp, Effect.isFailure]
    | @settled w wk method _ _ _ he =>
      obtain ⟨es, htrace, hes⟩ := settle_trace (m.finish w wk) w wk.self method
      have hes : ∀ e ∈ es, e.isFailure = false := fun e he => not_failure_of_timed (hes e he)
      simp_all [or_imp, Effect.isFailure]
    | failed hw _ hj he => simp [hP _ _ hw hj] at he
    | sendCompleted _ _ hj => simp_all [or_imp, Effect.isFailure]

theorem JsModule.Sound.init : JsModule.Sound {} where
  toTracked := Tracked.init
  failureless := by simp

theorem not_usable_of_unsettled {m : JsModule} {w : Nat} {wk : Worker} {method : Method}
    (h : Tracked m) (hw : m.workers w = some wk) (hq : wk.phase = .executed)
    (hj : wk.job = .startOrShutdown method) :
    ¬ ((m.finish w wk).answer w wk).Usable := by
  intro husable
  have hs := h.status_of_executed hw hq hj
  obtain ⟨hlt, -⟩ := List.getElem?_eq_some_iff.mp hs
  have hout : ¬ ((m.finish w wk).answer w wk).Outstanding wk.self := by
    obtain ⟨p, hp⟩ := h.tracks wk.self
    have hissued : p = .issued w method :=
      carriedIn_called (by simpa [hq] using hp.of_worker hw rfl hj)
    rintro ⟨v, hv⟩
    rw [carried_update rfl, hp.carried, hissued] at hv
    by_cases hvw : v = w <;> simp [hvw, carriedIn] at hv
  have hrest := husable wk.self hlt hout
  rw [JsModule.answer_status, JsModule.finish_status, hs] at hrest
  cases method <;> unfold restStatus at hrest <;> split at hrest <;> cases hrest

/-- Every state of a run of the two modules is usable exactly when none of its
steps completes a start or a shutdown with an error. -/
theorem usable_iff_noFailedCompletion {es : List (ClassKind × Event)} {s : ClassKind → JsModule}
    (h : client.exec client.init es = some s) :
    client.Throughout Usable client.init es ↔ client.Along NoFailedCompletion client.init es := by
  refine Machine.throughout_iff_along (I := fun s => ∀ k, (s k).Sound) ?_ ?_ ?_ ?_ h
  · exact fun s hs k => (hs k).usable
  · rintro s ⟨k, e⟩ t hs hP ht
    exact Machine.pi_step_invariant (I := fun _ => JsModule.Sound)
      (fun u hk hu => hk.step hP (step_cases hu)) hs ht
  · rintro s ⟨k, e⟩ t hs hP ht husable
    obtain ⟨u, hu, rfl⟩ := Machine.pi_step_eq_some.mp ht
    have hk : u.Usable := by simpa using husable k
    have hfailed : ¬ (s k).NoFailedCompletion e := hP
    cases step_cases hu with
    | failed hw hq hj => exact not_usable_of_unsettled (hs k).toTracked hw hq hj hk
    | settled hw _ _ he => simp_all [JsModule.NoFailedCompletion]
    | sendCompleted hw _ hj => simp_all [JsModule.NoFailedCompletion]
    | _ => exact hfailed trivial
  · exact fun _ => JsModule.Sound.init

theorem usable_started : client.Throughout Usable client.init (startRun (.ok ())) := by
  refine (usable_iff_noFailedCompletion rfl).mpr ?_
  refine ⟨trivial, ?_⟩
  rintro _ ⟨⟩
  refine ⟨trivial, ?_⟩
  rintro _ ⟨⟩
  refine ⟨trivial, ?_⟩
  rintro _ ⟨⟩
  refine ⟨trivial, ?_⟩
  rintro _ ⟨⟩
  refine ⟨?_, fun _ _ => trivial⟩
  rintro wk method ⟨⟩ -
  rfl

theorem not_usable_after_failed_start :
    ∃ s, client.exec client.init (startRun (.threw "broker")) = some s ∧ ¬ Usable s ∧
      ((s .producer).start 0 none).1 = .threw .assertion ∧
      ((s .producer).shutdown 0 none).1 = .threw .assertion := by
  refine ⟨_, rfl, fun husable => ?_, rfl, rfl⟩
  have hs := husable .producer 0 (by decide) ?_
  · cases hs
  · rintro ⟨w, hw⟩
    apply hw
    cases w <;> rfl

end RocketMQClient.Client
