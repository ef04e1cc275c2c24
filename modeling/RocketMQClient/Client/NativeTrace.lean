import RocketMQClient.Client.Tracking

namespace RocketMQClient.Client

open Library Lifecycle

structure NativeProtocol (m : JsModule) (i : Nat) : Prop where
  outstanding : ∀ w w', m.carried i w ≠ none → m.carried i w' ≠ none → w = w'
  alternates : Alternates (issues (lifecycleOf i m.trace))
  issued : ∀ pre mid post w w' method method',
    m.trace = pre ++ .called w i (.startOrShutdown method) ::
      (mid ++ .called w' i (.startOrShutdown method') :: post) →
    .completed w i (.startOrShutdown method) none ∈ mid
  configured : ∀ pre mid post w method callback topic expression,
    m.trace = pre ++ .queued w i (.startOrShutdown method) callback ::
      (mid ++ .subscribed i topic expression :: post) →
    .completed w i (.startOrShutdown method) none ∈ mid
  down : ∀ pre post topic expression,
    m.trace = pre ++ .subscribed i topic expression :: post →
    lastSuccess (lifecycleOf i pre) ≠ some .start

theorem carriedIn_unique {p : Phase} {w w' : Nat} (h : carriedIn p w ≠ none)
    (h' : carriedIn p w' ≠ none) : w = w' := by
  cases p <;> simp_all [carriedIn]

theorem completed_mem {i w : Nat} {method : Method} {trace : List Effect}
    (h : .finish w method true ∈ lifecycleOf i trace) :
    .completed w i (.startOrShutdown method) none ∈ trace := by
  obtain ⟨e, he, hf⟩ := List.mem_filterMap.mp h
  unfold Effect.lifecycle at hf
  split at hf <;> simp at hf
  next errmsg =>
    obtain ⟨rfl, rfl, rfl, hnone⟩ := hf
    rwa [hnone] at he

theorem Tracks.nativeProtocol {m : JsModule} {i : Nat} {p : Phase} (h : Tracks m i p) :
    NativeProtocol m i where
  outstanding w w' hw hw' := by
    rw [h.carried] at hw hw'
    exact carriedIn_unique hw hw'
  alternates := h.accepts.alternates
  issued pre mid post w w' method method' htrace := by
    have haccepts := h.accepts
    rw [htrace] at haccepts
    simp only [lifecycleOf_append, lifecycleOf_cons, Effect.lifecycle, if_true] at haccepts
    exact completed_mem haccepts.issue_after_success
  configured pre mid post w method callback topic expression htrace := by
    have haccepts := h.accepts
    rw [htrace] at haccepts
    simp only [lifecycleOf_append, lifecycleOf_cons, Effect.lifecycle, if_true] at haccepts
    exact completed_mem haccepts.configure_after_success
  down pre post topic expression htrace := by
    have haccepts := h.accepts
    rw [htrace] at haccepts
    simp only [lifecycleOf_append, lifecycleOf_cons, Effect.lifecycle, if_true] at haccepts
    exact haccepts.configure_down

/-- Every instance keeps to the protocol of the SDK, and a rejected call changes nothing. -/
theorem nativeProtocol_respected {s : ClassKind → JsModule} (h : client.Reachable s) (k : ClassKind)
    (i : Nat) :
    NativeProtocol (s k) i ∧
      ∀ c out, (s k).call k i c = some out → out.1.rejected = true → out.2 = s k := by
  constructor
  · obtain ⟨p, hp⟩ := (tracked_of_reachable (Machine.pi_reachable h k)).tracks i
    exact hp.nativeProtocol
  · intro c out hc hrejected
    rcases call_spec hc with ⟨-, hm⟩ | ⟨hr, -⟩
    · exact hm
    · simp [hr] at hrejected

theorem nativeProtocol_respected_started :
    ∃ s, client.exec client.init (startRun (.ok ())) = some s ∧
      issues (lifecycleOf 0 (s .producer).trace) = [.start] ∧
      NativeProtocol (s .producer) 0 ∧
        ∀ c out, (s .producer).call .producer 0 c = some out → out.1.rejected = true →
          out.2 = s .producer :=
  ⟨_, rfl, rfl, nativeProtocol_respected ⟨startRun (.ok ()), rfl⟩ .producer 0⟩

end RocketMQClient.Client
