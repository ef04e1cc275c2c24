import RocketMQClient.Consume.Deliverable
import RocketMQClient.System.Transport

namespace RocketMQClient.System

open Library Marshal Consume

/-- The SDK delivers, no more is sent or constructed, and `uv_cond_wait` returns only after a
signal. -/
def Event.drains : Event → Prop
  | .consumers e => ∃ msg, e.delivers msg
  | .remove _ _ => True
  | .producers _ | .take _ _ => False

section Drain

variable {D : Utf8Decoder} {es : List Event} {s : Transport} {ptr n call : Nat} {msg : CMessageExt}

abbrev Drains (D : Utf8Decoder) (s t : Transport) : Prop :=
  (transport D).Reaches (fun _ e => e.drains) s t

theorem Drains.delivers {c : Threads} (hmsg : msg ∈ s.stored)
    (h : Threads.Delivers D msg s.consumers c) : Drains D s { s with consumers := c } := by
  have hstep : ∀ c e c', e.delivers msg → (threads D).step c e = some c' →
      (Event.consumers e).drains ∧ (transport D).step { s with consumers := c } (.consumers e) =
        some { s with consumers := c' } := by
    intro c e c' he hst
    refine ⟨⟨msg, he⟩, ?_⟩
    have hadmits : Transport.admits { s with consumers := c } e = true := by
      cases e with
      | onMessage _ _ m =>
        obtain rfl : m = msg := he
        exact decide_eq_true hmsg
      | _ => rfl
    have hst' : Threads.step D c e = some c' := hst
    simp [transport, Transport.step, hadmits, hst']
  exact Machine.Reaches.map (Q := fun _ e => Event.drains e) hstep h

theorem reported_of_mem (hm : .onMessage call ptr n msg ∈ s.consumers.trace)
    (hr : .returned call (some .consumeSuccess) ∈ s.consumers.trace) : s.reported call msg = true :=
  Bool.and_eq_true_iff.mpr
    ⟨List.any_eq_true.mpr ⟨_, hm, by simp⟩, List.any_eq_true.mpr ⟨_, hr, by simp⟩⟩

theorem drains_one (h : Threads.Ready D ptr n s.consumers) (hmsg : msg ∈ s.stored) :
    ∃ t, Drains D s t ∧ Threads.Ready D ptr n t.consumers ∧ t.accepted = s.accepted ∧
      t.stored = s.stored.erase msg := by
  obtain ⟨c, call, hc, hm, hr⟩ := h.deliverable msg
  have hreported : Transport.reported { s with consumers := c } call msg = true :=
    reported_of_mem hm hr
  have hremove : (transport D).step { s with consumers := c } (.remove call msg) =
      some (Transport.remove { s with consumers := c } msg) := if_pos hreported
  have hlast : Drains D { s with consumers := c } (Transport.remove { s with consumers := c } msg) :=
    .single (show Event.drains (.remove call msg) from trivial) hremove
  exact ⟨_, (Drains.delivers hmsg hc).trans hlast, h.delivers hc, rfl, rfl⟩

theorem drains_all (h : Threads.Ready D ptr n s.consumers) :
    ∃ t, Drains D s t ∧ t.accepted = s.accepted ∧ t.stored = [] := by
  have progress : ∀ t : Transport, Threads.Ready D ptr n t.consumers ∧ t.accepted = s.accepted →
      t.stored = [] ∨ ∃ u, Drains D t u ∧
        (Threads.Ready D ptr n u.consumers ∧ u.accepted = s.accepted) ∧
        u.stored.length < t.stored.length := by
    rintro t ⟨ht, haccepted⟩
    cases hstored : t.stored with
    | nil => exact .inl rfl
    | cons msg rest =>
      have hmsg : msg ∈ t.stored := by simp [hstored]
      obtain ⟨u, htu, hu, hsame, herase⟩ := drains_one ht hmsg
      refine .inr ⟨u, htu, ⟨hu, hsame.trans haccepted⟩, ?_⟩
      simp [herase, hstored]
  obtain ⟨t, hst, ⟨-, haccepted⟩, hnil⟩ := Machine.exists_reaches progress ⟨h, rfl⟩
  exact ⟨t, hst, haccepted, hnil⟩

theorem Event.drains.not_spurious {e : Event} (he : e.drains) (x : Nat) :
    e ≠ .consumers (.wait x .wake) := by
  rintro rfl
  obtain ⟨msg, hdelivers⟩ := he
  exact hdelivers rfl

def abandoned : List Event :=
  relayed.take 19 ++ [.consumers .listenerEnd, .consumers .close, .consumers (.closed 20),
    .consumers (.drop 30), .consumers (.finalize 30)]

end Drain

end RocketMQClient.System
