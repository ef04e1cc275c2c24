import Mathlib.Data.Nat.Init
import Mathlib.Tactic.Push
import RocketMQClient.Library.Machine

universe u v w

namespace RocketMQClient.Library

variable {σ : Type u} {ε : Type v} {τ : Type w}

/-- An infinite run; where it has no event it stands still. -/
structure Behaviour (M : Machine σ ε) where
  state : Nat → σ
  event : Nat → Option ε
  init : state 0 = M.init
  step : ∀ n, (event n).elim (some (state n)) (M.step (state n)) = some (state (n + 1))

namespace Machine

def Enabled (M : Machine σ ε) (task : ε → Option τ) (i : τ) (s : σ) : Prop :=
  ∃ e t, task e = some i ∧ M.step s e = some t

end Machine

namespace Behaviour

variable {M : Machine σ ε} {b : Behaviour M} {task : ε → Option τ}

/-- A task that can make a step again and again makes one again and again. -/
def Fair (b : Behaviour M) (task : ε → Option τ) : Prop :=
  ∀ i, (∀ n, ∃ m ≥ n, M.Enabled task i (b.state m)) →
    ∀ n, ∃ m ≥ n, ∃ e, b.event m = some e ∧ task e = some i

def Eventually (b : Behaviour M) (n : Nat) (Q : σ → Prop) : Prop := ∃ m ≥ n, Q (b.state m)

theorem state_succ (b : Behaviour M) (n : Nat) :
    (b.event n = none ∧ b.state (n + 1) = b.state n) ∨
      ∃ e, b.event n = some e ∧ M.step (b.state n) e = some (b.state (n + 1)) := by
  have hstep := b.step n
  cases he : b.event n with
  | none =>
    rw [he] at hstep
    exact .inl ⟨rfl, (Option.some.inj hstep).symm⟩
  | some e =>
    rw [he] at hstep
    exact .inr ⟨e, rfl, hstep⟩

theorem invariant {P : ε → Prop} {I : σ → Prop} (hP : ∀ n e, b.event n = some e → P e)
    (init_inv : I M.init) (step_inv : ∀ s e t, I s → P e → M.step s e = some t → I t) (n : Nat) :
    I (b.state n) := by
  induction n with
  | zero => exact b.init ▸ init_inv
  | succ n ih =>
    obtain ⟨-, hsame⟩ | ⟨e, he, hst⟩ := b.state_succ n
    · exact hsame ▸ ih
    · exact step_inv _ e _ ih (hP n e he) hst

theorem Eventually.trans {Q R : σ → Prop} {n : Nat} (h : b.Eventually n Q)
    (hQR : ∀ m ≥ n, Q (b.state m) → b.Eventually m R) : b.Eventually n R := by
  obtain ⟨m, hm, hQ⟩ := h
  obtain ⟨k, hk, hR⟩ := hQR m hm hQ
  exact ⟨k, Nat.le_trans hm hk, hR⟩

theorem Eventually.mono {Q R : σ → Prop} {n : Nat} (h : b.Eventually n Q)
    (hQR : ∀ m, Q (b.state m) → R (b.state m)) : b.Eventually n R :=
  h.trans fun m _ hQ => ⟨m, Nat.le_refl m, hQR m hQ⟩

end Behaviour

/-- A way to a goal: in each state on it, one of the tasks is to take it further. -/
structure Course (σ : Type u) (τ : Type w) where
  On : σ → Prop
  Goal : σ → Prop
  left : σ → Nat
  helper : σ → τ

inductive Course.Follows (C : Course σ τ) (task : ε → Option τ) (s : σ) (e : ε) (t : σ) : Prop
  | arrives : C.Goal t → C.Follows task s e t
  | advances : C.On t → C.left t < C.left s → C.Follows task s e t
  | waits : C.On t → C.left t = C.left s → C.helper t = C.helper s → task e ≠ some (C.helper s) →
      C.Follows task s e t

namespace Behaviour

variable {M : Machine σ ε} {b : Behaviour M} {task : ε → Option τ} {C : Course σ τ} {n : Nat}

theorem Fair.left_lt (hfair : b.Fair task)
    (follows : ∀ n e, b.event n = some e → M.step (b.state n) e = some (b.state (n + 1)) →
      C.On (b.state n) → C.Follows task (b.state n) e (b.state (n + 1)))
    (enabled : ∀ n, (∀ m ≥ n, C.On (b.state m)) →
      ∃ m ≥ n, M.Enabled task (C.helper (b.state m)) (b.state m))
    (hn : C.On (b.state n)) (hgoal : ∀ m ≥ n, ¬C.Goal (b.state m)) :
    ∃ m ≥ n, C.On (b.state m) ∧ C.left (b.state m) < C.left (b.state n) := by
  by_contra hnone
  push Not at hnone
  -- nothing changes for the course, so its helper can help again and again
  have hsame : ∀ m ≥ n, C.On (b.state m) ∧ C.left (b.state m) = C.left (b.state n) ∧
      C.helper (b.state m) = C.helper (b.state n) := by
    intro m hm
    induction m, hm using Nat.le_induction with
    | base => exact ⟨hn, rfl, rfl⟩
    | succ m hm ih =>
      obtain ⟨hon, hleft, hhelper⟩ := ih
      obtain ⟨-, hstill⟩ | ⟨e, he, hst⟩ := b.state_succ m
      · rw [hstill]
        exact ⟨hon, hleft, hhelper⟩
      · cases follows m e he hst hon with
        | arrives hg => exact absurd hg (hgoal _ (by omega))
        | advances hon' hless =>
          have := hnone (m + 1) (by omega) hon'
          omega
        | waits hon' hleft' hhelper' => exact ⟨hon', hleft'.trans hleft, hhelper'.trans hhelper⟩
  have henabled : ∀ k, ∃ m ≥ k, M.Enabled task (C.helper (b.state n)) (b.state m) := by
    intro k
    obtain ⟨m, hm, hen⟩ := enabled (max k n) fun m hm => (hsame m (by omega)).1
    rw [(hsame m (by omega)).2.2] at hen
    exact ⟨m, by omega, hen⟩
  obtain ⟨m, hm, e, he, htask⟩ := hfair _ henabled n
  obtain ⟨hon, hleft, hhelper⟩ := hsame m hm
  obtain ⟨hnoevent, -⟩ | ⟨e', he', hst⟩ := b.state_succ m
  · cases hnoevent.symm.trans he
  · cases he.symm.trans he'
    cases follows m e he hst hon with
    | arrives hg => exact hgoal _ (by omega) hg
    | advances hon' hless =>
      have := hnone (m + 1) (by omega) hon'
      omega
    | waits _ _ _ hne => exact hne (htask.trans (congrArg some hhelper.symm))

theorem Fair.arrives (hfair : b.Fair task)
    (follows : ∀ n e, b.event n = some e → M.step (b.state n) e = some (b.state (n + 1)) →
      C.On (b.state n) → C.Follows task (b.state n) e (b.state (n + 1)))
    (enabled : ∀ n, (∀ m ≥ n, C.On (b.state m)) →
      ∃ m ≥ n, M.Enabled task (C.helper (b.state m)) (b.state m))
    (hn : C.On (b.state n)) : b.Eventually n C.Goal := by
  induction hleft : C.left (b.state n) using Nat.strongRecOn generalizing n with
  | ind k ih =>
    by_contra hnever
    have hgoal : ∀ m ≥ n, ¬C.Goal (b.state m) := fun m hm hg => hnever ⟨m, hm, hg⟩
    obtain ⟨m, hm, hon, hless⟩ := hfair.left_lt follows enabled hn hgoal
    obtain ⟨l, hl, hg⟩ := ih _ (hleft ▸ hless) hon rfl
    exact hgoal l (Nat.le_trans hm hl) hg

def ofExec {es : List ε} {s : σ} (h : M.exec M.init es = some s) : Behaviour M where
  state n := (M.exec M.init (es.take n)).getD s
  event n := es[n]?
  init := by simp
  step n := by
    by_cases hn : n < es.length
    · have hsplit : es = es.take n ++ es[n] :: es.drop (n + 1) := by simp
      obtain ⟨t, u, ht, hu, -⟩ := Machine.exec_split (hsplit ▸ h)
      rw [List.take_add_one, Machine.exec_append, List.getElem?_eq_getElem hn, ht]
      simp [hu]
    · have hall : es.take n = es := List.take_of_length_le (by omega)
      have hall' : es.take (n + 1) = es := List.take_of_length_le (by omega)
      simp [hall, hall', h, List.getElem?_eq_none (Nat.le_of_not_lt hn)]

theorem ofExec_state {es : List ε} {s : σ} (h : M.exec M.init es = some s) {n : Nat}
    (hn : es.length ≤ n) : (ofExec h).state n = s := by
  simp [ofExec, List.take_of_length_le hn, h]

theorem fair_ofExec {es : List ε} {s : σ} (h : M.exec M.init es = some s)
    (hend : ∀ i, ¬M.Enabled task i s) : (ofExec h).Fair task := by
  intro i hi
  obtain ⟨m, hm, hen⟩ := hi es.length
  rw [ofExec_state h hm] at hen
  exact absurd hen (hend i)

end Behaviour

end RocketMQClient.Library
