import RocketMQClient.Client.Tracking

namespace RocketMQClient.Client

open Library

/-- The wrapper among the variables of the completion closure: `[START_OR_SHUTDOWN]`
passes an arrow function and so captures `this`, `send` passes a plain function. -/
def Worker.captures (wk : Worker) : Option Nat :=
  match wk.job with
  | .startOrShutdown _ => some wk.self
  | .sendMessage _ => none

def JsModule.captured (m : JsModule) (i : Nat) : Bool :=
  (List.range m.nextWorker).any fun w => (m.workers w).any fun wk => wk.captures = some i

structure Process where
  client : JsModule := {}
  held : Nat → Bool := fun _ => false
  alive : Nat → Bool := fun _ => false

inductive ProcessEvent
  | client (e : Event)
  | drop (i : Nat)
  | finalize (i : Nat)

namespace Process

def admits (s : Process) : Event → Bool
  | .call self _ => s.held self
  | _ => true

def after (s : Process) (e : Event) (m : JsModule) : Process :=
  match e with
  | .construct =>
    { client := m
      held := Function.update s.held s.client.status.length true
      alive := Function.update s.alive s.client.status.length true }
  | _ => { s with client := m }

@[simps] def drop (s : Process) (i : Nat) : Process :=
  { s with held := Function.update s.held i false }

@[simps] def finalize (s : Process) (i : Nat) : Process :=
  { s with alive := Function.update s.alive i false }

def step (s : Process) : ProcessEvent → Option Process
  | .client e => if s.admits e then (Client.step .producer s.client e).map (s.after e) else none
  | .drop i => if s.held i then some (s.drop i) else none
  | .finalize i =>
    if s.alive i ∧ ¬ s.held i ∧ ¬ s.client.captured i then some (s.finalize i) else none

end Process

def ownership : Machine Process ProcessEvent where
  init := {}
  step := Process.step

@[simp] theorem after_client (s : Process) (e : Event) (m : JsModule) : (s.after e m).client = m := by
  cases e <;> rfl

def ownershipClient : Machine.Simulation ownership (machine .producer) where
  rel s m := s.client = m
  image _
    | .client e => [e]
    | _ => []
  init := rfl
  step s e t m hr h := by
    subst hr
    cases e with
    | client e =>
      simp only [ownership, Process.step] at h
      split_ifs at h
      obtain ⟨m, hm, rfl⟩ := Option.map_eq_some_iff.mp h
      exact ⟨m, by simpa [machine] using hm, after_client s e m⟩
    | drop i =>
      simp only [ownership, Process.step] at h
      split_ifs at h
      cases h
      exact ⟨_, rfl, rfl⟩
    | finalize i =>
      simp only [ownership, Process.step] at h
      split_ifs at h
      cases h
      exact ⟨_, rfl, rfl⟩

def Process.ExecutesAlive (s : Process) : Prop :=
  ∀ w wk, s.client.workers w = some wk → wk.phase = .executing → s.alive wk.self = true

def SendsFinished (s : Process) : ProcessEvent → Prop
  | .finalize i => ∀ w wk msg, s.client.workers w = some wk → wk.self = i →
      wk.job = .sendMessage msg → wk.phase = .executed
  | _ => True

structure Process.Owned (s : Process) : Prop extends Tracked s.client where
  held : ∀ i, s.held i = true → s.alive i = true
  pending : ∀ w wk, s.client.workers w = some wk → wk.phase ≠ .executed → s.alive wk.self = true

theorem update_eq_some {m : JsModule} {w v : Nat} {wk? : Option Worker} {wk : Worker}
    (h : Function.update m.workers w wk? v = some wk) : wk? = some wk ∨ m.workers v = some wk := by
  rw [Function.update_apply] at h
  split at h
  · exact .inl h
  · exact .inr h

theorem workers_of_transition {m m' : JsModule} {e : Event} (ht : Transition m e m') {w : Nat}
    {wk' : Worker} (hw' : m'.workers w = some wk') :
    (∃ v wk, m.workers v = some wk ∧ wk'.self = wk.self ∧
        (wk'.phase ≠ .executed → wk.phase ≠ .executed)) ∨
      ∃ c, e = .call wk'.self c := by
  have stays : m.workers w = some wk' →
      ∃ v wk, m.workers v = some wk ∧ wk'.self = wk.self ∧
        (wk'.phase ≠ .executed → wk.phase ≠ .executed) := fun h => ⟨w, wk', h, rfl, id⟩
  cases ht with
  | construct => exact .inl (stays hw')
  | rejected => exact .inl (stays hw')
  | accepted _ ha =>
    cases ha with
    | requested =>
      rcases update_eq_some (m := m) hw' with hnew | hold
      · cases hnew
        exact .inr ⟨_, rfl⟩
      · exact .inl (stays hold)
    | sent =>
      rcases update_eq_some hw' with hnew | hold
      · cases hnew
        exact .inr ⟨_, rfl⟩
      · exact .inl (stays hold)
    | subscribed => exact .inl (stays hw')
  | executing hw hq =>
    rcases update_eq_some hw' with hnew | hold
    · cases hnew
      exact .inl ⟨_, _, hw, rfl, by simp [hq]⟩
    · exact .inl (stays hold)
  | executed hw hq hex =>
    rcases update_eq_some hw' with hnew | hold
    · cases hnew
      exact .inl ⟨_, _, hw, (execute_some hex).1, by simp [hq]⟩
    · exact .inl (stays hold)
  | settled =>
    rw [JsModule.answer_workers, settle_workers] at hw'
    rcases update_eq_some hw' with hnew | hold
    · cases hnew
    · exact .inl (stays hold)
  | failed =>
    rcases update_eq_some hw' with hnew | hold
    · cases hnew
    · exact .inl (stays hold)
  | sendCompleted =>
    rcases update_eq_some hw' with hnew | hold
    · cases hnew
    · exact .inl (stays hold)

theorem captured_of_worker {m : JsModule} (h : Tracked m) {w : Nat} {wk : Worker} {method : Method}
    (hw : m.workers w = some wk) (hj : wk.job = .startOrShutdown method) :
    m.captured wk.self = true := by
  simp only [JsModule.captured, List.any_eq_true, List.mem_range]
  exact ⟨w, h.fresh w wk hw, by simp [hw, Worker.captures, hj]⟩

section Owned

variable {s t : Process}

theorem after_alive {e : Event} {m : JsModule} {i : Nat} (h : s.alive i = true) :
    (s.after e m).alive i = true := by
  cases e with
  | construct => simp [Process.after, Function.update_apply, h]
  | _ => exact h

theorem after_held (h : ∀ i, s.held i = true → s.alive i = true) {e : Event} {m : JsModule} {i : Nat}
    (hi : (s.after e m).held i = true) : (s.after e m).alive i = true := by
  cases e with
  | construct =>
    simp only [Process.after, Function.update_apply] at hi ⊢
    split
    · rfl
    · next hne => exact h i (by simpa [hne] using hi)
  | _ => exact h i hi

theorem Process.Owned.client {e : Event} {m : JsModule} (h : s.Owned) (hadmits : s.admits e = true)
    (ht : Transition s.client e m) : (s.after e m).Owned where
  toTracked := by
    rw [after_client]
    exact h.toTracked.step ht
  held _ := after_held h.held
  pending w wk hw hq := by
    rw [after_client] at hw
    rcases workers_of_transition ht hw with ⟨v, wk₀, hv, hself, hphase⟩ | ⟨c, rfl⟩
    · rw [hself]
      exact after_alive (h.pending v wk₀ hv (hphase hq))
    · exact after_alive (h.held _ hadmits)

theorem Process.Owned.drop (h : s.Owned) (i : Nat) : (s.drop i).Owned where
  toTracked := h.toTracked
  held j hj := by
    rw [Process.drop_held, Function.update_apply] at hj
    split at hj
    · cases hj
    · exact h.held j hj
  pending := h.pending

theorem finalize_alive {i j : Nat} (hj : j ≠ i) (halive : s.alive j = true) :
    (s.finalize i).alive j = true := by
  rwa [Process.finalize_alive, Function.update_of_ne hj]

theorem Process.Owned.finalize {i : Nat} (h : s.Owned) (hheld : ¬ s.held i)
    (hcaptured : ¬ s.client.captured i) (hP : SendsFinished s (.finalize i)) :
    (s.finalize i).Owned where
  toTracked := h.toTracked
  held j hj := by
    refine Client.finalize_alive ?_ (h.held j hj)
    rintro rfl
    exact hheld hj
  pending w wk hw hq := by
    refine Client.finalize_alive ?_ (h.pending w wk hw hq)
    rintro rfl
    cases hj : wk.job with
    | startOrShutdown method => exact hcaptured (captured_of_worker h.toTracked hw hj)
    | sendMessage msg => exact hq (hP w wk msg hw rfl hj)

theorem Process.Owned.step {e : ProcessEvent} (h : s.Owned) (hP : SendsFinished s e)
    (hst : ownership.step s e = some t) : t.Owned := by
  cases e with
  | client e =>
    simp only [ownership, Process.step] at hst
    split_ifs at hst with hadmits
    obtain ⟨m, hm, rfl⟩ := Option.map_eq_some_iff.mp hst
    exact h.client hadmits (step_cases hm)
  | drop i =>
    simp only [ownership, Process.step] at hst
    split_ifs at hst
    cases hst
    exact h.drop i
  | finalize i =>
    simp only [ownership, Process.step] at hst
    split_ifs at hst with hguard
    cases hst
    exact h.finalize hguard.2.1 hguard.2.2 hP

theorem Process.Owned.init : Process.Owned {} where
  toTracked := Tracked.init
  held i hi := by cases hi
  pending w wk hw := by cases hw

theorem execute_step {w : Nat} {wk : Worker} (hw : s.client.workers w = some wk)
    (hq : wk.phase = .queued) :
    ownership.step s (.client (.execute w)) =
      some { s with client := s.client.beginExecute w wk } := by
  simp only [ownership, Process.step, Process.admits, Client.step, hw, hq, if_true]
  rfl

theorem finalize_breaks {e : ProcessEvent} (hP : ¬ SendsFinished s e)
    (hst : ownership.step s e = some t) :
    ∃ es u, ownership.exec t es = some u ∧ ¬ u.ExecutesAlive := by
  cases e with
  | client e => exact absurd trivial hP
  | drop i => exact absurd trivial hP
  | finalize i =>
    simp only [SendsFinished, not_forall] at hP
    obtain ⟨w, wk, msg, hw, rfl, hj, hphase⟩ := hP
    simp only [ownership, Process.step] at hst
    split_ifs at hst
    cases hst
    cases hq : wk.phase with
    | executed => exact absurd hq hphase
    | executing =>
      refine ⟨[], s.finalize wk.self, rfl, fun halive => ?_⟩
      simpa using halive w wk hw hq
    | queued =>
      have hstep := execute_step (s := s.finalize wk.self) hw hq
      refine ⟨[.client (.execute w)], _, Machine.exec_cons_eq_some.mpr ⟨_, hstep, rfl⟩, ?_⟩
      intro halive
      simpa using halive w { wk with phase := .executing } (by simp) rfl

/-- While no producer is finalized under a send that is not finished, every worker
executes against a living producer; and from any other step a run goes wrong. -/
theorem executes_alive (es : List ProcessEvent) :
    (ownership.Along SendsFinished ownership.init es →
        ownership.Throughout Process.ExecutesAlive ownership.init es) ∧
      ∀ s e t, ownership.exec ownership.init es = some s → ownership.step s e = some t →
        ¬ SendsFinished s e →
        ∃ fs u, ownership.exec ownership.init (es ++ e :: fs) = some u ∧ ¬ u.ExecutesAlive := by
  constructor
  · intro hP
    refine hP.throughout (I := Process.Owned) ?_ ?_ Process.Owned.init
    · exact fun s hs w wk hw hq => hs.pending w wk hw (by simp [hq])
    · exact fun s e t hs hPe hst => hs.step hPe hst
  · intro s e t hs hst hP
    obtain ⟨fs, u, hu, hdead⟩ := finalize_breaks hP hst
    refine ⟨fs, u, ?_, hdead⟩
    rw [Machine.exec_append, hs]
    exact Machine.exec_cons_eq_some.mpr ⟨t, hst, hu⟩

end Owned

def finishedSend : List ProcessEvent :=
  [.client .construct, .client .construct,
    .client (.call 0 (.send (.string "topic") (.string "body") (.object []) none)),
    .client (.execute 0), .client (.nativeReturn 0 (.sendMessage (.ok ⟨0, "id", 0⟩))), .drop 0,
    .client (.call 1 (.start none)), .client (.execute 1)]

theorem executes_alive_finishedSend :
    (∃ s wk, ownership.exec ownership.init (finishedSend ++ [.finalize 0]) = some s ∧
        s.alive 0 = false ∧ s.client.workers 1 = some wk ∧ wk.phase = .executing) ∧
      ownership.Throughout Process.ExecutesAlive ownership.init (finishedSend ++ [.finalize 0]) := by
  have hbefore : ownership.Along SendsFinished ownership.init finishedSend :=
    .of_forall (by simp [finishedSend, SendsFinished]) _
  refine ⟨⟨_, _, rfl, rfl, rfl, rfl⟩, (executes_alive _).1 ?_⟩
  refine (Machine.along_append rfl).mpr ⟨hbefore, ?_, fun _ _ => trivial⟩
  intro w wk msg hw _ hj
  rcases w with _ | _ | w
  · cases hw
    rfl
  · cases hw
    cases hj
  · cases hw

def droppedSend : List ProcessEvent :=
  [.client .construct,
    .client (.call 0 (.send (.string "topic") (.string "body") (.object []) none)), .drop 0,
    .finalize 0, .client (.execute 0)]

theorem droppedSend_executes_dead :
    ∃ s, ownership.exec ownership.init droppedSend = some s ∧ ¬ s.ExecutesAlive := by
  refine ⟨_, rfl, fun halive => ?_⟩
  cases halive 0 _ rfl rfl

end RocketMQClient.Client
