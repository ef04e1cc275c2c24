import RocketMQClient.Client.Report
import RocketMQClient.Library.Heap

namespace RocketMQClient.Client

open Library Marshal

def Event.serves : Event → Bool
  | .execute _ => true
  | .nativeReturn _ _ => true
  | .complete _ => true
  | _ => false

def WorkerPhase.remaining : WorkerPhase → Nat
  | .queued => 3
  | .executing => 2
  | .executed => 1

def Worker.remaining (wk : Worker) : Nat := wk.phase.remaining

def JsModule.work (m : JsModule) : Nat := Heap.weight Worker.remaining m.workers m.nextWorker

def work (s : ClassKind → JsModule) : Nat := (s .producer).work + (s .pushConsumer).work

theorem work_asyncQueueWorker (m : JsModule) {wk : Worker} (h : wk.phase = .queued) :
    (m.asyncQueueWorker wk).work = m.work + 3 := by
  have hworkers : (m.asyncQueueWorker wk).workers =
      Function.update m.workers m.nextWorker (some wk) := rfl
  rw [JsModule.work, JsModule.asyncQueueWorker_nextWorker, hworkers, Heap.weight_succ,
    Heap.weight_update_of_le le_rfl, Function.update_self, JsModule.work]
  simp [Worker.remaining, WorkerPhase.remaining, h]

theorem Worker.remaining_pos (wk : Worker) : 0 < wk.remaining := by
  unfold Worker.remaining
  cases wk.phase <;> decide

section Step

variable {m m' : JsModule} {e : Event} {w : Nat}

theorem Told.lt_nextWorker (h : Told m) {wk : Worker} (hw : m.workers w = some wk) :
    w < m.nextWorker := by
  by_contra hge
  rw [(h.fresh w (Nat.le_of_not_lt hge)).1] at hw
  cases hw

theorem Told.work_update (h : Told m) {wk : Worker} {wk? : Option Worker}
    (hw : m.workers w = some wk) (hworkers : m'.workers = Function.update m.workers w wk?)
    (hnext : m'.nextWorker = m.nextWorker) (hwk : wk?.elim 0 Worker.remaining + 1 = wk.remaining) :
    m'.work + 1 = m.work := by
  have hupdate := Heap.weight_update (f := Worker.remaining) (m := m.workers) (h.lt_nextWorker hw) wk?
  simp only [hw, Option.elim_some] at hupdate
  rw [JsModule.work, hworkers, hnext, JsModule.work]
  omega

theorem Told.work_closed (h : Told m) {wk : Worker} (hw : m.workers w = some wk)
    (hq : wk.phase = .executed) (hworkers : m'.workers = Function.update m.workers w none)
    (hnext : m'.nextWorker = m.nextWorker) : m'.work + 1 = m.work :=
  h.work_update hw hworkers hnext (by simp [Worker.remaining, WorkerPhase.remaining, hq])

theorem Told.work_serves (h : Told m) (ht : Transition m e m') (he : e.serves = true) :
    m'.work + 1 = m.work := by
  cases ht with
  | construct => cases he
  | rejected => cases he
  | accepted => cases he
  | @executing w wk hw hq =>
    exact h.work_update hw rfl rfl (by simp [Worker.remaining, WorkerPhase.remaining, hq])
  | executed hw hq hex =>
    refine h.work_update hw rfl rfl ?_
    simp [Worker.remaining, WorkerPhase.remaining, hq, (execute_some hex).2.2.1]
  | settled hw hq =>
    refine h.work_closed hw hq ?_ ?_
    · funext v
      simp
    · simp
  | failed hw hq => exact h.work_closed hw hq rfl rfl
  | sendCompleted hw hq => exact h.work_closed hw hq rfl rfl

theorem execute_possible (wk : Worker) :
    ∃ outcome, outcome.isOk = true ∧ (wk.execute outcome).isSome := by
  cases hj : wk.job with
  | startOrShutdown method => exact ⟨.startOrShutdown (.ok ()), rfl, by simp [Worker.execute, hj]⟩
  | sendMessage msg => exact ⟨.sendMessage (.ok ⟨0, "", 0⟩), rfl, by simp [Worker.execute, hj]⟩

def Event.succeeds : Event → Bool
  | .nativeReturn _ outcome => outcome.isOk
  | _ => true

theorem served (k : ClassKind) {wk : Worker} (hw : m.workers w = some wk) :
    ∃ e, e.serves = true ∧ e.succeeds = true ∧ (step k m e).isSome := by
  cases hq : wk.phase with
  | queued => exact ⟨.execute w, rfl, rfl, by simp [step, hw, hq]⟩
  | executing =>
    obtain ⟨outcome, hok, hex⟩ := execute_possible wk
    exact ⟨.nativeReturn w outcome, rfl, hok, by simpa [step, hw, hq] using hex⟩
  | executed => exact ⟨.complete w, rfl, rfl, by simp [step, hw, hq]⟩

theorem Told.work_eq_zero (h : Told m) : m.work = 0 ↔ ∀ w, m.workers w = none := by
  rw [JsModule.work, Heap.weight_eq_zero Worker.remaining_pos]
  refine ⟨fun hn w => ?_, fun hn w _ => hn w⟩
  by_cases hw : w < m.nextWorker
  · exact hn w hw
  · exact (h.fresh w (Nat.le_of_not_lt hw)).1

theorem Told.idle_iff (h : Told m) (k : ClassKind) :
    m.work = 0 ↔ ∀ e, e.serves = true → Client.step k m e = none := by
  rw [h.work_eq_zero]
  constructor
  · intro hn e he
    cases e with
    | construct => cases he
    | call => cases he
    | execute w => simp [Client.step, hn w]
    | nativeReturn w outcome => simp [Client.step, hn w]
    | complete w => simp [Client.step, hn w]
  · intro hstuck w
    by_contra hne
    obtain ⟨wk, hw⟩ := Option.ne_none_iff_exists'.mp hne
    obtain ⟨e, he, -, hsome⟩ := served k hw
    simp [hstuck e he] at hsome

def JsModule.AllAnswered (m : JsModule) : Prop :=
  ∀ w self job callback, .queued w self job callback ∈ m.trace →
    ∃ answer, answersOf w m.trace = [(callback, answer)]

theorem queued_notMem_closing {w self : Nat} {job : Job} {callback : Option Nat} (wk : Worker) :
    .queued w self job callback ∉ wk.closing w := by
  unfold Worker.closing Worker.statusEffect
  split <;> simp

theorem Told.allAnswered (h : Told m) (hn : ∀ w, m.workers w = none) : m.AllAnswered := by
  intro w self job callback hq
  have hmem := (mem_effectsOf rfl).mpr hq
  have hlt : w < m.nextWorker := by
    by_contra hge
    simp [(h.fresh w (Nat.le_of_not_lt hge)).2] at hmem
  have hstory := h.story w hlt
  rw [hn w] at hstory
  unfold answersOf
  generalize effectsOf w m.trace = l at hstory hmem
  cases hstory with
  | @completed _ _ _ _ wk hex =>
    obtain ⟨rfl, rfl, rfl⟩ : self = _ ∧ job = _ ∧ callback = _ := by
      simpa [queued_notMem_closing] using hmem
    refine ⟨wk.answer, ?_⟩
    rw [List.filterMap_append, answers_closing, (execute_some hex).2.2.2]
    rfl

end Step

theorem work_update {s : ClassKind → JsModule} {k : ClassKind} {m : JsModule}
    (h : m.work + 1 = (s k).work) : work (Function.update s k m) + 1 = work s := by
  cases k <;> simp [work] <;> omega

theorem work_eq_zero {s : ClassKind → JsModule} : work s = 0 ↔ ∀ k, (s k).work = 0 := by
  rw [work, Nat.add_eq_zero_iff]
  refine ⟨fun h k => ?_, fun h => ⟨h _, h _⟩⟩
  cases k with
  | producer => exact h.1
  | pushConsumer => exact h.2

theorem idle_iff {s : ClassKind → JsModule} (h : ∀ k, Told (s k)) :
    work s = 0 ↔ ∀ e : ClassKind × Event, e.2.serves = true → client.step s e = none := by
  rw [work_eq_zero]
  constructor
  · rintro hn ⟨k, e⟩ he
    have hstuck := ((h k).idle_iff k).mp (hn k) e he
    simp [client, Machine.pi, machine, hstuck]
  · intro hstuck k
    refine ((h k).idle_iff k).mpr fun e he => ?_
    simpa [client, Machine.pi, machine] using hstuck (k, e) he

theorem told_of_client {s : ClassKind → JsModule} (h : client.Reachable s) (k : ClassKind) :
    Told (s k) :=
  told_of_reachable (Machine.pi_reachable h k)

/-- However the pool and the event loop serve what is outstanding, and however the native
calls end, they are stuck after as many steps as the outstanding workers have left and not
before, and then each request ever made has been answered once, by its own callback. -/
theorem served_exactly {s t : ClassKind → JsModule} (h : client.Reachable s)
    {es : List (ClassKind × Event)} (hes : ∀ e ∈ es, e.2.serves = true)
    (hst : client.exec s es = some t) :
    ((∀ e : ClassKind × Event, e.2.serves = true → client.step t e = none) ↔
        es.length = work s) ∧
      (es.length = work s → ∀ k, (t k).AllAnswered) := by
  have hlength : es.length + work t = work s := by
    refine Machine.Along.measure (I := fun s => ∀ k, Told (s k)) (P := fun _ e => e.2.serves = true)
      ?_ (.of_forall (fun e he _ => hes e he) s) (fun k => told_of_client h k) hst
    rintro s ⟨k, e⟩ t hs he hst
    obtain ⟨m, hm, rfl⟩ := Machine.pi_step_eq_some.mp hst
    refine ⟨?_, work_update ((hs k).work_serves (step_cases hm) he)⟩
    exact Machine.pi_step_invariant (I := fun _ => Told) (fun u hk hu => hk.step (step_cases hu)) hs hst
  have htold : ∀ k, Told (t k) := by
    obtain ⟨fs, hfs⟩ := h
    exact told_of_client ⟨fs ++ es, by rw [Machine.exec_append, hfs]; exact hst⟩
  rw [← idle_iff htold]
  refine ⟨by omega, fun hdone k => ?_⟩
  have hzero : work t = 0 := by omega
  exact (htold k).allAnswered ((htold k).work_eq_zero.mp (work_eq_zero.mp hzero k))

def requested : List (ClassKind × Event) :=
  [.construct, .call 0 (.start none),
    .call 0 (.send (.string "topic") (.string "body") (.object []) none)].map (Prod.mk .producer)

def overtaken : List (ClassKind × Event) :=
  [.execute 1, .execute 0, .nativeReturn 1 (.sendMessage (.failed 11 (by decide) none)),
    .complete 1, .nativeReturn 0 (.startOrShutdown (.ok ())), .complete 0].map (Prod.mk .producer)

theorem served_exactly_overtaken :
    ∃ s t, client.exec client.init requested = some s ∧ client.exec s overtaken = some t ∧
      work s = 6 ∧
      ((∀ e : ClassKind × Event, e.2.serves = true → client.step t e = none) ↔
          overtaken.length = work s) ∧
        (overtaken.length = work s → ∀ k, (t k).AllAnswered) :=
  ⟨_, _, rfl, rfl, rfl, served_exactly ⟨requested, rfl⟩ (by decide) rfl⟩

end RocketMQClient.Client
