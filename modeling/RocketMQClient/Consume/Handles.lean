import RocketMQClient.Consume.Threads
import RocketMQClient.Library.Heap

namespace RocketMQClient.Consume.Threads

open Library Marshal

def Activation.unsent (f : Activation) (x : Nat) : Option (Nat × UvAsync) :=
  match f.point with
  | .init a => some (a, { call := f.call })
  | .data a => some (a, { call := f.call, phase := .initialized })
  | .send a => some (a, { call := f.call, phase := .bound, data := some x })
  | _ => none

def Loop.async : Loop → Option Nat
  | .idle => none
  | .building a _ => some a
  | .listening a _ => some a
  | .leaving a _ => some a

def Phase.Sent : Phase → Prop
  | .allocated | .initialized | .bound => False
  | .pending | .running | .closing => True

structure Owned (s : Threads) : Prop where
  call_lt : ∀ x f, s.frames x = some f → f.call < s.nextCall
  unique : ∀ x y f g, s.frames x = some f → s.frames y = some g → f.call = g.call → x = y
  unsent : ∀ x f a h, s.frames x = some f → f.unsent x = some (a, h) → s.handles a = some h
  running : ∀ a, s.loop.async = some a → ∃ h, s.handles a = some h ∧ h.phase = .running

theorem Activation.unsent_spec {f : Activation} {x a : Nat} {h : UvAsync}
    (hu : f.unsent x = some (a, h)) : h.call = f.call ∧ ¬h.phase.Sent := by
  unfold Activation.unsent at hu
  split at hu
  · cases hu
    exact ⟨rfl, id⟩
  · cases hu
    exact ⟨rfl, id⟩
  · cases hu
    exact ⟨rfl, id⟩
  · cases hu

section Owned

variable {D : Utf8Decoder} {s t : Threads}

theorem Owned.own (h : Owned s) {x : Nat} {f f' : Activation} (hf : s.frames x = some f)
    (hcall : f'.call = f.call) (hnext : t.nextCall = s.nextCall) (hloop : t.loop = s.loop)
    (hframes : t.frames = Function.update s.frames x (some f'))
    (hhandles : ∀ b u, s.handles b = some u → u.phase.Sent ∨ u.call ≠ f.call →
      t.handles b = some u)
    (hunsent : ∀ b u, f'.unsent x = some (b, u) → t.handles b = some u) : Owned t := by
  have frame_cases : ∀ y g, t.frames y = some g →
      y = x ∧ g = f' ∨ y ≠ x ∧ s.frames y = some g := by
    intro y g hg
    rw [hframes, Function.update_apply] at hg
    split_ifs at hg with hy
    · cases hg
      exact .inl ⟨hy, rfl⟩
    · exact .inr ⟨hy, hg⟩
  refine ⟨fun y g hg => ?_, fun y z g g' hg hg' hc => ?_, fun y g b u hg hu => ?_, fun b hb => ?_⟩
  · obtain ⟨rfl, rfl⟩ | ⟨-, hold⟩ := frame_cases y g hg
    · rw [hcall, hnext]
      exact h.call_lt y f hf
    · rw [hnext]
      exact h.call_lt y g hold
  · obtain ⟨rfl, rfl⟩ | ⟨-, hold⟩ := frame_cases y g hg <;>
      obtain ⟨rfl, rfl⟩ | ⟨-, hold'⟩ := frame_cases z g' hg'
    · rfl
    · exact h.unique _ _ _ _ hf hold' (hcall.symm.trans hc)
    · exact h.unique _ _ _ _ hold hf (hc.trans hcall)
    · exact h.unique _ _ _ _ hold hold' hc
  · obtain ⟨rfl, rfl⟩ | ⟨hy, hold⟩ := frame_cases y g hg
    · exact hunsent b u hu
    · refine hhandles b u (h.unsent y g b u hold hu) (.inr fun hc => ?_)
      exact hy (h.unique y x g f hold hf ((Activation.unsent_spec hu).1.symm.trans hc))
  · rw [hloop] at hb
    obtain ⟨u, hu, hr⟩ := h.running b hb
    exact ⟨u, hhandles b u hu (.inl (by rw [hr]; trivial)), hr⟩

theorem Owned.sent (h : Owned s) (hframes : t.frames = s.frames) (hnext : t.nextCall = s.nextCall)
    (hhandles : ∀ b u, s.handles b = some u → ¬u.phase.Sent → t.handles b = some u)
    (hloop : ∀ b, t.loop.async = some b → ∃ h, t.handles b = some h ∧ h.phase = .running) :
    Owned t := by
  refine ⟨?_, ?_, fun y g b u hg hu => ?_, hloop⟩
  · rw [hframes, hnext]
    exact h.call_lt
  · rw [hframes]
    exact h.unique
  · rw [hframes] at hg
    exact hhandles b u (h.unsent y g b u hg hu) (Activation.unsent_spec hu).2

theorem Owned.congr (h : Owned s) (hframes : t.frames = s.frames) (hnext : s.nextCall ≤ t.nextCall)
    (hhandles : t.handles = s.handles) (hloop : t.loop.async = s.loop.async) : Owned t := by
  refine ⟨fun y g hg => ?_, ?_, ?_, ?_⟩
  · rw [hframes] at hg
    exact (h.call_lt y g hg).trans_le hnext
  · rw [hframes]
    exact h.unique
  · rw [hframes, hhandles]
    exact h.unsent
  · rw [hloop, hhandles]
    exact h.running

theorem Owned.enter (h : Owned s) {x : Nat} (m : Registry) (ptr n : Nat)
    (msg : CMessageExt) : Owned (s.enter m x ptr n msg) := by
  have frame_cases : ∀ y g, (s.enter m x ptr n msg).frames y = some g →
      y = x ∧ g = { call := s.nextCall, param := ⟨n, x, x⟩, msg } ∨ s.frames y = some g := by
    intro y g hg
    rw [enter_frames, Function.update_apply] at hg
    split_ifs at hg with hy
    · cases hg
      exact .inl ⟨hy, rfl⟩
    · exact .inr hg
  refine ⟨fun y g hg => ?_, fun y z g g' hg hg' hc => ?_, fun y g b u hg hu => ?_, h.running⟩
  · obtain ⟨rfl, rfl⟩ | hold := frame_cases y g hg
    · exact Nat.lt_succ_self _
    · exact (h.call_lt y g hold).trans (Nat.lt_succ_self _)
  · obtain ⟨rfl, rfl⟩ | hold := frame_cases y g hg <;>
      obtain ⟨rfl, rfl⟩ | hold' := frame_cases z g' hg'
    · rfl
    · exact absurd hc.symm (h.call_lt z g' hold').ne
    · exact absurd hc (h.call_lt y g hold).ne
    · exact h.unique _ _ _ _ hold hold' hc
  · obtain ⟨rfl, rfl⟩ | hold := frame_cases y g hg
    · cases hu
    · exact h.unsent y g b u hold hu

theorem Owned.leave (h : Owned s) (x : Nat) : Owned (s.setFrame x none) := by
  have frame : ∀ y g, (s.setFrame x none).frames y = some g → s.frames y = some g := by
    intro y g hg
    rw [setFrame_frames, Function.update_apply] at hg
    split_ifs at hg
    exact hg
  exact ⟨fun y g hg => h.call_lt y g (frame y g hg),
    fun y z g g' hg hg' => h.unique y z g g' (frame y g hg) (frame z g' hg'),
    fun y g b u hg => h.unsent y g b u (frame y g hg), h.running⟩

theorem Owned.inner (h : Owned s) {x : Nat} {f : Activation} {inner : ConsumerAckInner.State}
    (hf : s.frames x = some f)
    (hframes : t.frames = Function.update s.frames x (some { f with inner }))
    (hnext : t.nextCall = s.nextCall) (hhandles : t.handles = s.handles) (hloop : t.loop = s.loop) :
    Owned t := by
  refine h.own hf (rfl : ({ f with inner } : Activation).call = f.call) hnext hloop hframes
    (fun b u hu _ => ?_) fun b u hu => ?_
  · rw [hhandles, hu]
  · rw [hhandles]
    exact h.unsent x f b u hf hu

theorem Owned.setup (h : Owned s) {x a : Nat} {f : Activation} {point : Point} {u : Option UvAsync}
    {v : UvAsync} (hf : s.frames x = some f) (ha : s.handles a = u)
    (hu : ∀ w, u = some w → w.call = f.call ∧ ¬w.phase.Sent)
    (hunsent : ∀ b w, Activation.unsent { f with point } x = some (b, w) → b = a ∧ w = v) :
    Owned ((s.setHandle a (some v)).setFrame x (some { f with point })) := by
  refine h.own hf (rfl : ({ f with point } : Activation).call = f.call) rfl rfl rfl
    (fun b w hw hother => ?_) fun b w hw => ?_
  · rw [setFrame_handles, setHandle_handles, Function.update_of_ne]
    · exact hw
    · rintro rfl
      obtain ⟨hcall, hsent⟩ := hu w (ha.symm.trans hw)
      exact hother.elim hsent fun hne => hne hcall
  · obtain ⟨rfl, rfl⟩ := hunsent b w hw
    simp

theorem Owned.step {e : Event} (h : Owned s) (hst : Transition D s e t) : Owned t := by
  cases hst with
  | construct => exact h.congr rfl le_rfl rfl rfl
  | refused => exact h.congr rfl (Nat.le_succ _) rfl rfl
  | entered hx => exact h.enter _ _ _ _
  | malloc hf hp ha =>
    refine h.setup hf ha (fun _ hw => by cases hw) fun b w hw => ?_
    cases hw
    exact ⟨rfl, rfl⟩
  | init hf hp ha | data hf hp ha | send hf hp ha =>
    have hown := h.unsent _ _ _ _ hf (by rw [Activation.unsent, hp])
    cases hown.symm.trans ha
    refine h.setup hf hown (fun _ hw => ?_) fun b w hw => ?_
    · cases hw
      exact ⟨rfl, id⟩
    · cases hw
      try exact ⟨rfl, rfl⟩
  | wait hf => exact h.inner hf rfl rfl rfl rfl
  | left => exact h.leave _
  | @dispatched a u x f k ha _ _ _ hp =>
    refine h.sent rfl rfl (fun b w hw hunsent => ?_) fun b hb => ?_
    · rw [dispatch_handles, Function.update_of_ne]
      · exact hw
      · rintro rfl
        cases ha.symm.trans hw
        exact hunsent (by rw [hp]; trivial)
    · cases hb
      exact ⟨{ u with phase := .running }, by simp, rfl⟩
  | column hl => exact h.congr rfl le_rfl rfl (by rw [hl]; rfl)
  | listener hl => exact h.congr rfl le_rfl rfl (by rw [hl]; rfl)
  | listenerEnd hl => exact h.congr rfl le_rfl rfl (by rw [hl]; rfl)
  | @close a k u hl ha =>
    obtain ⟨v, hv, hp⟩ := h.running a (by rw [hl]; rfl)
    cases ha.symm.trans hv
    refine h.sent rfl rfl (fun b w hw hunsent => ?_) fun b hb => by cases hb
    rw [close_handles, Function.update_of_ne]
    · exact hw
    · rintro rfl
      cases ha.symm.trans hw
      exact hunsent (by rw [hp]; trivial)
  | @closed a u ha hl hp =>
    refine h.sent rfl rfl (fun b w hw hunsent => ?_) fun b hb => ?_
    · rw [setHandle_handles, Function.update_of_ne]
      · exact hw
      · rintro rfl
        cases ha.symm.trans hw
        exact hunsent (by rw [hp]; trivial)
    · rw [setHandle_loop, hl] at hb
      cases hb
  | doneAgain => exact h.congr rfl le_rfl rfl rfl
  | done => exact h.congr rfl le_rfl rfl rfl
  | ackLock _ hf => exact h.inner hf rfl rfl rfl rfl
  | ack _ _ hf => exact h.inner hf rfl rfl rfl rfl
  | forget => exact h.congr rfl le_rfl rfl rfl
  | dropped => exact h.congr rfl le_rfl rfl rfl
  | finalized => exact h.congr rfl le_rfl rfl rfl

end Owned

theorem Owned.init : Owned {} where
  call_lt _ _ hf := by cases hf
  unique _ _ _ _ hf := by cases hf
  unsent _ _ _ _ hf := by cases hf
  running _ ha := by cases ha

structure Accounted (s : Threads) : Prop where
  setup : ∀ a u, s.handles a = some u → ¬u.phase.Sent →
    ∃ x f, s.frames x = some f ∧ f.unsent x = some (a, u)
  pending : ∀ a u, s.handles a = some u → u.phase = .pending → ∃ x, u.data = some x
  running : ∀ a u, s.handles a = some u → u.phase = .running → s.loop.async = some a
  bounded : Heap.Bounded s.handles

theorem Accounted.init : Accounted {} where
  setup _ _ hu := by cases hu
  pending _ _ hu := by cases hu
  running _ _ hu := by cases hu
  bounded := Heap.bounded_empty

section Accounted

variable {D : Utf8Decoder} {s t : Threads}

theorem Accounted.congr (h : Accounted s) (hframes : t.frames = s.frames)
    (hhandles : t.handles = s.handles) (hloop : t.loop.async = s.loop.async) : Accounted t := by
  refine ⟨?_, hhandles ▸ h.pending, ?_, hhandles ▸ h.bounded⟩
  · rw [hframes, hhandles]
    exact h.setup
  · rw [hhandles, hloop]
    exact h.running

theorem Accounted.frame (h : Accounted s) {x : Nat} {f? : Option Activation}
    (hframes : t.frames = Function.update s.frames x f?) (hhandles : t.handles = s.handles)
    (hloop : t.loop = s.loop)
    (hx : ∀ f p, s.frames x = some f → f.unsent x = some p →
      ∃ f', f? = some f' ∧ f'.unsent x = some p) : Accounted t := by
  refine ⟨fun a u hu hs => ?_, hhandles ▸ h.pending, ?_, hhandles ▸ h.bounded⟩
  · rw [hhandles] at hu
    obtain ⟨y, g, hg, hun⟩ := h.setup a u hu hs
    by_cases hy : y = x
    · subst hy
      obtain ⟨f', hf', hun'⟩ := hx g _ hg hun
      exact ⟨y, f', by rw [hframes, Function.update_self, hf'], hun'⟩
    · exact ⟨y, g, by rw [hframes, Function.update_of_ne hy, hg], hun⟩
  · rw [hhandles, hloop]
    exact h.running

theorem Accounted.own (h : Accounted s) {x a : Nat} {f : Activation} {point : Point} {v : UvAsync}
    (hf : s.frames x = some f) (hown : ∀ p, f.unsent x = some p → p.1 = a)
    (hv : ¬v.phase.Sent → Activation.unsent { f with point } x = some (a, v))
    (hpend : v.phase = .pending → ∃ x, v.data = some x) (hrun : v.phase ≠ .running) :
    Accounted ((s.setHandle a (some v)).setFrame x (some { f with point })) := by
  refine ⟨fun b u hu hs => ?_, fun b u hu hp => ?_, fun b u hu hp => ?_, h.bounded.update a _⟩
  · rw [setFrame_handles, setHandle_handles, Function.update_apply] at hu
    split_ifs at hu with hb
    · cases hu
      subst hb
      exact ⟨x, _, by simp, hv hs⟩
    · obtain ⟨y, g, hg, hun⟩ := h.setup b u hu hs
      have hy : y ≠ x := by
        rintro rfl
        cases hf.symm.trans hg
        exact hb (hown _ hun)
      exact ⟨y, g, by simp [Function.update_of_ne hy, hg], hun⟩
  · rw [setFrame_handles, setHandle_handles, Function.update_apply] at hu
    split_ifs at hu with hb
    · cases hu
      exact hpend hp
    · exact h.pending b u hu hp
  · rw [setFrame_handles, setHandle_handles, Function.update_apply] at hu
    split_ifs at hu with hb
    · cases hu
      exact absurd hp hrun
    · exact h.running b u hu hp

theorem Accounted.loop (h : Accounted s) {a : Nat} {u? : Option UvAsync}
    (hframes : t.frames = s.frames) (hhandles : t.handles = Function.update s.handles a u?)
    (hu : ∀ u, u? = some u → u.phase.Sent ∧ u.phase ≠ .pending)
    (hloop : ∀ b u, t.handles b = some u → u.phase = .running → t.loop.async = some b) :
    Accounted t := by
  refine ⟨fun b u hb hs => ?_, fun b u hb hp => ?_, hloop, ?_⟩
  · rw [hhandles, Function.update_apply] at hb
    split_ifs at hb
    · exact absurd (hu u hb).1 hs
    · rw [hframes]
      exact h.setup b u hb hs
  · rw [hhandles, Function.update_apply] at hb
    split_ifs at hb
    · exact absurd hp (hu u hb).2
    · exact h.pending b u hb hp
  · rw [hhandles]
    exact h.bounded.update a u?

theorem Accounted.inner (h : Accounted s) {x : Nat} {f : Activation}
    {inner : ConsumerAckInner.State} (hf : s.frames x = some f)
    (hframes : t.frames = Function.update s.frames x (some { f with inner }))
    (hhandles : t.handles = s.handles) (hloop : t.loop = s.loop) : Accounted t := by
  refine h.frame hframes hhandles hloop fun f' p hf' hun => ?_
  cases hf.symm.trans hf'
  exact ⟨_, rfl, hun⟩

theorem Accounted.step {e : Event} (h : Accounted s) (hown : Owned s)
    (hret : ∀ x f r, s.frames x = some f → f.inner.waiter = .returned r → f.point = .waitResult)
    (hst : Transition D s e t) : Accounted t := by
  cases hst with
  | construct => exact h.congr rfl rfl rfl
  | refused => exact h.congr rfl rfl rfl
  | entered hx => exact h.frame rfl rfl rfl fun f _ hf => by cases hx.symm.trans hf
  | malloc hf hp =>
    refine h.own hf (fun p hun => ?_) (fun _ => rfl) (by simp) (by simp)
    simp [Activation.unsent, hp] at hun
  | init hf hp ha =>
    cases (hown.unsent _ _ _ _ hf (by rw [Activation.unsent, hp])).symm.trans ha
    refine h.own hf (fun p hun => ?_) (fun _ => rfl) (by simp) (by simp)
    rw [Activation.unsent, hp] at hun
    cases hun
    rfl
  | data hf hp ha =>
    cases (hown.unsent _ _ _ _ hf (by rw [Activation.unsent, hp])).symm.trans ha
    refine h.own hf (fun p hun => ?_) (fun _ => rfl) (by simp) (by simp)
    rw [Activation.unsent, hp] at hun
    cases hun
    rfl
  | send hf hp ha =>
    cases (hown.unsent _ _ _ _ hf (by rw [Activation.unsent, hp])).symm.trans ha
    refine h.own hf (fun p hun => ?_) (fun hs => absurd trivial hs) (fun _ => ⟨_, rfl⟩) (by simp)
    rw [Activation.unsent, hp] at hun
    cases hun
    rfl
  | wait hf => exact h.inner hf rfl rfl rfl
  | left hf hr =>
    refine h.frame rfl rfl rfl fun f' p hf' hun => ?_
    cases hf.symm.trans hf'
    simp [Activation.unsent, hret _ _ _ hf hr] at hun
  | @dispatched a _ _ _ _ _ _ _ hl =>
    refine h.loop rfl rfl (fun u hu => ?_) fun b u hu hp => ?_
    · cases hu
      exact ⟨trivial, by simp⟩
    · rw [dispatch_handles, Function.update_apply] at hu
      split_ifs at hu with hb
      · subst hb
        rfl
      · have hrun := h.running b u hu hp
        rw [hl] at hrun
        cases hrun
  | column hl | listener hl | listenerEnd hl => exact h.congr rfl rfl (by rw [hl]; rfl)
  | @close a _ _ hl =>
    refine h.loop rfl rfl (fun u hu => ?_) fun b u hu hp => ?_
    · cases hu
      exact ⟨trivial, by simp⟩
    · rw [close_handles, Function.update_apply] at hu
      split_ifs at hu with hb
      · cases hu
        cases hp
      · have hrun := h.running b u hu hp
        rw [hl] at hrun
        cases hrun
        exact absurd rfl hb
  | closed _ hl =>
    refine h.loop rfl rfl (fun _ hu => by cases hu) fun b u hu hp => ?_
    rw [setHandle_handles, Function.update_apply] at hu
    split_ifs at hu
    exact h.running b u hu hp
  | doneAgain => exact h.congr rfl rfl rfl
  | done => exact h.congr rfl rfl rfl
  | ackLock _ hf => exact h.inner hf rfl rfl rfl
  | ack _ _ hf => exact h.inner hf rfl rfl rfl
  | forget => exact h.congr rfl rfl rfl
  | dropped => exact h.congr rfl rfl rfl
  | finalized => exact h.congr rfl rfl rfl

end Accounted

end RocketMQClient.Consume.Threads
