import RocketMQClient.Consume.Step

namespace RocketMQClient.Consume

open Library

inductive Shutdown
  | returned (status : Int)
  | threw
  deriving DecidableEq

inductive Handling
  | returned (status : CConsumeStatus)
  | dispatched (consumer : Nat)
  deriving DecidableEq

namespace Registry

def onMessage (m : Registry) (consumerPtr : Nat) : Registry × Handling :=
  match m.lookup consumerPtr with
  | (m, none) => (m, .returned .reconsumeLater)
  | (m, some consumer) => (m, .dispatched consumer)

/-- The `try` block of the destructor; what is thrown in it is dropped. -/
def destroy (m : Registry) (consumerPtr : Nat) : Shutdown → Registry
  | .returned _ =>
    match m consumerPtr with
    | some _ => Function.update m consumerPtr none
    | none => m
  | .threw => m

end Registry

structure Consumers where
  registry : Registry := fun _ => none
  handle : Nat → Option Nat := fun _ => none
  nextConsumer : Nat := 0

inductive Life
  | construct (consumerPtr : Nat)
  | destroy (consumer : Nat) (shutdown : Shutdown)
  | onMessage (consumerPtr : Nat)

namespace Consumers

@[simps] def construct (s : Consumers) (consumerPtr : Nat) : Consumers where
  registry := Function.update s.registry consumerPtr (some (some s.nextConsumer))
  handle := Function.update s.handle s.nextConsumer (some consumerPtr)
  nextConsumer := s.nextConsumer + 1

@[simps] def destroy (s : Consumers) (consumer consumerPtr : Nat) (shutdown : Shutdown) : Consumers :=
  { s with
    registry := s.registry.destroy consumerPtr shutdown
    handle := Function.update s.handle consumer none }

@[simps] def onMessage (s : Consumers) (consumerPtr : Nat) : Consumers :=
  { s with registry := (s.registry.onMessage consumerPtr).1 }

/-- `CreatePushConsumer` returns no handle that is not yet destroyed. -/
def step (s : Consumers) : Life → Option Consumers
  | .construct consumerPtr =>
    if ∃ consumer < s.nextConsumer, s.handle consumer = some consumerPtr then none
    else some (s.construct consumerPtr)
  | .destroy consumer shutdown =>
    (s.handle consumer).map fun consumerPtr => s.destroy consumer consumerPtr shutdown
  | .onMessage consumerPtr => some (s.onMessage consumerPtr)

end Consumers

def consumers : Machine Consumers Life where
  init := {}
  step := Consumers.step

namespace Consumers

def Exact (s : Consumers) : Prop :=
  ∀ ptr entry, s.registry ptr = some entry ↔ ∃ c, entry = some c ∧ s.handle c = some ptr

def Routed (s : Consumers) : Prop :=
  ∀ ptr c, s.registry ptr = some (some c) ↔ s.handle c = some ptr

def Refuses (s : Consumers) : Prop :=
  ∀ ptr, (∀ c, s.handle c ≠ some ptr) →
    (s.registry.onMessage ptr).2 = .returned .reconsumeLater

def Unchanged (s : Consumers) : Life → Prop
  | .onMessage ptr => (s.registry.onMessage ptr).1 = s.registry
  | _ => True

def ShutdownReturns : Life → Prop
  | .destroy _ shutdown => ∃ status, shutdown = .returned status
  | _ => True

def Clean (s : Consumers) (e : Life) : Prop :=
  ShutdownReturns e ∧ ∀ ptr, e = .onMessage ptr → ∃ c, s.handle c = some ptr

end Consumers

theorem Registry.onMessage_some {m : Registry} {ptr c : Nat} (h : m ptr = some (some c)) :
    m.onMessage ptr = (m, .dispatched c) := by
  simp [Registry.onMessage, Registry.lookup, h]

theorem Registry.onMessage_none {m : Registry} {ptr : Nat} (h : ∀ c, m ptr ≠ some (some c)) :
    (m.onMessage ptr).2 = .returned .reconsumeLater ∧
      ∀ p c, (m.onMessage ptr).1 p = some (some c) ↔ m p = some (some c) := by
  cases hl : m.lookup ptr with
  | mk registry entry =>
    cases entry with
    | none =>
      rw [Registry.onMessage, hl]
      exact ⟨rfl, Registry.lookup_none hl⟩
    | some c => exact absurd (Registry.lookup_some hl).2 (h c)

theorem Registry.onMessage_ne_none (m : Registry) (ptr : Nat) : (m.onMessage ptr).1 ptr ≠ none := by
  cases hm : m ptr with
  | none => simp [Registry.onMessage, Registry.lookup, hm]
  | some entry => cases entry <;> simp [Registry.onMessage, Registry.lookup, hm]

namespace Consumers

variable {s t : Consumers}

def Living (s : Consumers) : Prop := ∀ c ptr, s.handle c = some ptr → c < s.nextConsumer

theorem life_cases {e : Life} (h : s.step e = some t) :
    (∃ ptr, e = .construct ptr ∧ (∀ c < s.nextConsumer, s.handle c ≠ some ptr) ∧ t = s.construct ptr) ∨
    (∃ c ptr shutdown, e = .destroy c shutdown ∧ s.handle c = some ptr ∧
      t = s.destroy c ptr shutdown) ∨
    (∃ ptr, e = .onMessage ptr ∧ t = s.onMessage ptr) := by
  cases e with
  | construct ptr =>
    simp only [step] at h
    split_ifs at h with hnew
    cases h
    exact .inl ⟨ptr, rfl, by simpa using hnew, rfl⟩
  | destroy c shutdown =>
    obtain ⟨ptr, hptr, rfl⟩ := Option.map_eq_some_iff.mp h
    exact .inr (.inl ⟨c, ptr, shutdown, rfl, hptr, rfl⟩)
  | onMessage ptr =>
    cases h
    exact .inr (.inr ⟨ptr, rfl, rfl⟩)

theorem Living.step {e : Life} (h : Living s) (hst : s.step e = some t) : Living t := by
  obtain ⟨ptr, -, -, rfl⟩ | ⟨c, ptr, shutdown, -, -, rfl⟩ | ⟨ptr, -, rfl⟩ := life_cases hst
  · intro d p hd
    rw [construct_handle, Function.update_apply] at hd
    split_ifs at hd with hdc
    · rw [hdc]
      exact Nat.lt_succ_self _
    · exact Nat.lt_succ_of_lt (h d p hd)
  · intro d p hd
    rw [destroy_handle, Function.update_apply] at hd
    split_ifs at hd
    exact h d p hd
  · exact h

theorem exact_iff : Exact s ↔ Routed s ∧ ∀ ptr, s.registry ptr ≠ some none := by
  constructor
  · intro h
    refine ⟨fun ptr c => ?_, fun ptr hnull => ?_⟩
    · simp [h ptr (some c)]
    · obtain ⟨c, hc, -⟩ := (h ptr none).mp hnull
      cases hc
  · rintro ⟨h, hnull⟩ ptr entry
    cases entry with
    | none => simp [hnull ptr]
    | some c => simp [h ptr c]

theorem Routed.distinct (h : Routed s) {c d ptr : Nat} (hc : s.handle c = some ptr)
    (hd : s.handle d = some ptr) : d = c := by
  have := ((h ptr d).mpr hd).symm.trans ((h ptr c).mpr hc)
  simpa using this

theorem Routed.construct (h : Routed s) (hl : Living s) {ptr : Nat}
    (hnew : ∀ c < s.nextConsumer, s.handle c ≠ some ptr) : Routed (s.construct ptr) := by
  intro p c
  have hfresh : s.handle s.nextConsumer ≠ some p := fun hp => Nat.lt_irrefl _ (hl _ p hp)
  have hne : s.handle c ≠ some ptr := fun hp => hnew c (hl c ptr hp) hp
  rw [construct_registry, construct_handle, Function.update_apply, Function.update_apply]
  split_ifs with hp hc hc
  · simp [hp, hc]
  · rw [hp]
    simp [hne, Ne.symm hc]
  · rw [hc, h p, Option.some.injEq]
    exact ⟨fun hn => absurd hn hfresh, fun hn => absurd hn.symm hp⟩
  · exact h p c

theorem Routed.destroy (h : Routed s) {c ptr : Nat} (hc : s.handle c = some ptr) (status : Int) :
    Routed (s.destroy c ptr (.returned status)) := by
  have hentry := (h ptr c).mpr hc
  intro p d
  rw [destroy_registry, destroy_handle, Registry.destroy, hentry]
  simp only [Function.update_apply]
  split_ifs with hp hd hd
  · simp
  · rw [hp]
    exact ⟨nofun, fun hn => absurd (h.distinct hc hn) hd⟩
  · rw [hd, h p, hc]
    simp [Ne.symm hp]
  · exact h p d

theorem Routed.onMessage (h : Routed s) (ptr : Nat) : Routed (s.onMessage ptr) := by
  intro p c
  rw [onMessage_registry, onMessage_handle, ← h p]
  by_cases hliving : ∃ d, s.registry ptr = some (some d)
  · obtain ⟨d, hd⟩ := hliving
    rw [Registry.onMessage_some hd]
  · exact (Registry.onMessage_none (not_exists.mp hliving)).2 p c

theorem Routed.refuses (h : Routed s) : Refuses s := by
  intro ptr hptr
  exact (Registry.onMessage_none fun c hc => hptr c ((h ptr c).mp hc)).1

theorem Routed.threw (h : Routed s) {c ptr : Nat} (hc : s.handle c = some ptr) :
    ¬ Refuses (s.destroy c ptr .threw) := by
  intro hr
  have hdead : ∀ d, (s.destroy c ptr .threw).handle d ≠ some ptr := by
    intro d hd
    rw [destroy_handle, Function.update_apply] at hd
    split_ifs at hd with hdc
    exact hdc (h.distinct hc hd)
  have hrefused : (s.registry.onMessage ptr).2 = .returned .reconsumeLater := hr ptr hdead
  rw [Registry.onMessage_some ((h ptr c).mpr hc)] at hrefused
  cases hrefused

theorem Routed.step {e : Life} (h : Routed s) (hl : Living s) (he : ShutdownReturns e)
    (hst : s.step e = some t) : Routed t := by
  obtain ⟨ptr, -, hnew, rfl⟩ | ⟨c, ptr, shutdown, rfl, hc, rfl⟩ | ⟨ptr, -, rfl⟩ := life_cases hst
  · exact h.construct hl hnew
  · obtain ⟨status, rfl⟩ := he
    exact h.destroy hc status
  · exact h.onMessage ptr

theorem Exact.step {e : Life} (h : Exact s) (hl : Living s) (he : Clean s e)
    (hst : s.step e = some t) : Exact t := by
  obtain ⟨hr, hnull⟩ := exact_iff.mp h
  refine exact_iff.mpr ⟨hr.step hl he.1 hst, fun p => ?_⟩
  obtain ⟨ptr, -, -, rfl⟩ | ⟨c, ptr, shutdown, rfl, hc, rfl⟩ | ⟨ptr, rfl, rfl⟩ := life_cases hst
  · rw [construct_registry, Function.update_apply]
    split_ifs
    · simp
    · exact hnull p
  · obtain ⟨status, rfl⟩ := he.1
    rw [destroy_registry, Registry.destroy, (hr ptr c).mpr hc]
    simp only [Function.update_apply]
    split_ifs
    · simp
    · exact hnull p
  · obtain ⟨c, hc⟩ := he.2 ptr rfl
    rw [onMessage_registry, Registry.onMessage_some ((hr ptr c).mpr hc)]
    exact hnull p

theorem Exact.leave {e : Life} (h : Exact s) (he : ¬ Clean s e) (hst : s.step e = some t) :
    ¬ (Exact t ∧ Refuses t) := by
  have hr := (exact_iff.mp h).1
  obtain ⟨ptr, rfl, -, rfl⟩ | ⟨c, ptr, shutdown, rfl, hc, rfl⟩ | ⟨ptr, rfl, rfl⟩ := life_cases hst
  · exact absurd ⟨trivial, fun p hp => by cases hp⟩ he
  · cases shutdown with
    | returned status => exact absurd ⟨⟨status, rfl⟩, fun p hp => by cases hp⟩ he
    | threw => exact fun hQ => hr.threw hc hQ.2
  · rintro ⟨hx, -⟩
    obtain ⟨entry, hentry⟩ := Option.ne_none_iff_exists'.mp (Registry.onMessage_ne_none s.registry ptr)
    obtain ⟨c, -, hc⟩ := (hx ptr entry).mp hentry
    exact he ⟨trivial, fun p hp => by cases hp; exact ⟨c, hc⟩⟩

theorem Exact.unchanged {e : Life} (h : Exact s) (he : Clean s e) : Unchanged s e := by
  cases e with
  | onMessage ptr =>
    obtain ⟨c, hc⟩ := he.2 ptr rfl
    exact congrArg Prod.fst (Registry.onMessage_some (((exact_iff.mp h).1 ptr c).mpr hc))
  | _ => trivial

theorem Exact.init : Exact consumers.init ∧ Living consumers.init := by
  constructor <;> intro _ _ <;> simp [consumers]

/-- Every message for a destroyed or unknown consumer is refused exactly when no
shutdown throws in a destructor. -/
theorem refuses_iff_shutdownReturns {es : List Life} (h : consumers.exec consumers.init es = some s) :
    consumers.Throughout Refuses consumers.init es ↔
      consumers.Along (fun _ => ShutdownReturns) consumers.init es := by
  refine Machine.throughout_iff_along (I := fun s => Routed s ∧ Living s)
    (fun s hs => hs.1.refuses) ?_ ?_ ⟨(exact_iff.mp Exact.init.1).1, Exact.init.2⟩ h
  · exact fun s e t hs he hst => ⟨hs.1.step hs.2 he hst, hs.2.step hst⟩
  · intro s e t hs he hst
    obtain ⟨ptr, rfl, -, rfl⟩ | ⟨c, ptr, shutdown, rfl, hc, rfl⟩ | ⟨ptr, rfl, rfl⟩ := life_cases hst
    · exact absurd trivial he
    · cases shutdown with
      | returned status => exact absurd ⟨status, rfl⟩ he
      | threw => exact hs.1.threw hc
    · exact absurd trivial he

/-- The registry is exact throughout a run, and `OnMessage` never changes it, exactly
when no shutdown throws in a destructor and every message is for a living consumer. -/
theorem exact_iff_clean {es : List Life} (h : consumers.exec consumers.init es = some s) :
    (consumers.Throughout (fun s => Exact s ∧ Refuses s) consumers.init es ∧
        consumers.Along Unchanged consumers.init es) ↔
      consumers.Along Clean consumers.init es := by
  have keep : ∀ s e t, Exact s ∧ Living s → Clean s e → consumers.step s e = some t →
      Exact t ∧ Living t := fun s e t hs he hst => ⟨hs.1.step hs.2 he hst, hs.2.step hst⟩
  have hiff := Machine.throughout_iff_along (Q := fun s => Exact s ∧ Refuses s)
    (fun s hs => ⟨hs.1, (exact_iff.mp hs.1).1.refuses⟩) keep
    (fun s e t hs he hst => hs.1.leave he hst) Exact.init h
  refine ⟨fun hQ => hiff.mp hQ.1, fun hP => ⟨hiff.mpr hP, ?_⟩⟩
  exact hP.along (fun s e hs he => hs.1.unchanged he) keep Exact.init

theorem exact_iff_clean_reused :
    (consumers.Throughout (fun s => Exact s ∧ Refuses s) consumers.init
          [.construct 1, .onMessage 1, .destroy 0 (.returned (-1)), .construct 1] ∧
        consumers.Along Unchanged consumers.init
          [.construct 1, .onMessage 1, .destroy 0 (.returned (-1)), .construct 1]) ↔
      consumers.Along Clean consumers.init
        [.construct 1, .onMessage 1, .destroy 0 (.returned (-1)), .construct 1] :=
  exact_iff_clean
    (s := ((({ : Consumers}.construct 1).onMessage 1).destroy 0 1 (.returned (-1))).construct 1) (by rfl)

theorem destroyed_still_registered :
    (∃ s, consumers.exec consumers.init [.construct 1, .destroy 0 .threw] = some s ∧
      s.handle 0 = none ∧ s.registry 1 = some (some 0) ∧
      (s.registry.onMessage 1).2 = .dispatched 0 ∧ ¬ Exact s) ∧
    (consumers.init.registry.onMessage 1).1 1 = some none ∧
      consumers.init.registry 1 = none ∧ ¬ Unchanged consumers.init (.onMessage 1) := by
  have hentry : (consumers.init.registry.onMessage 1).1 1 = some none := rfl
  refine ⟨⟨({ : Consumers}.construct 1).destroy 0 1 .threw, rfl, rfl, rfl, rfl, fun hx => ?_⟩, rfl, rfl,
    fun h => ?_⟩
  · obtain ⟨c, hc, hh⟩ := (hx 1 (some 0)).mp rfl
    cases hc
    cases hh
  · rw [show (consumers.init.registry.onMessage 1).1 = consumers.init.registry from h] at hentry
    cases hentry

section Delivery

structure Registers (d : Delivery) (s : Consumers) : Prop where
  registry : s.registry = d.registry
  nextConsumer : s.nextConsumer = d.nextConsumer
  routed : Routed s
  living : Living s

def lives : Event → List Life
  | .construct consumerPtr => [.construct consumerPtr]
  | .onMessage _ consumerPtr _ => [.onMessage consumerPtr]
  | _ => []

theorem Registers.onMessage {d d' : Delivery} (h : Registers d s) {ptr : Nat} {registry : Registry}
    {entry : Option Nat} (hl : d.registry.lookup ptr = (registry, entry))
    (hr : d'.registry = registry) (hn : d'.nextConsumer = d.nextConsumer) :
    Registers d' (s.onMessage ptr) where
  registry := by
    rw [hr, Consumers.onMessage, h.registry, Registry.onMessage, hl]
    cases entry <;> rfl
  nextConsumer := h.nextConsumer.trans hn.symm
  routed := h.routed.onMessage ptr
  living := h.living

theorem Registers.step {D : Utf8Decoder} {d d' : Delivery} {e : Event} (h : Registers d s)
    (hst : (delivery D).step d e = some d') :
    ∃ t, consumers.exec s (lives e) = some t ∧ Registers d' t := by
  cases step_cases hst with
  | @construct ptr hnew =>
    have hfree : ∀ c < s.nextConsumer, s.handle c ≠ some ptr := fun c _ hc =>
      hnew c (h.registry ▸ (h.routed ptr c).mpr hc)
    have hconstruct : s.step (.construct ptr) = some (s.construct ptr) :=
      if_neg fun ⟨c, hlt, hc⟩ => hfree c hlt hc
    refine ⟨s.construct ptr, by simp [lives, consumers, hconstruct], ?_, ?_, ?_, ?_⟩
    · rw [Consumers.construct, h.registry, h.nextConsumer]
      rfl
    · exact congrArg (· + 1) h.nextConsumer
    · exact h.routed.construct h.living hfree
    · exact h.living.step hconstruct
  | @refused x ptr registry msg hx hl => exact ⟨s.onMessage ptr, rfl, h.onMessage hl rfl rfl⟩
  | @entered x ptr registry consumer msg hx hl => exact ⟨s.onMessage ptr, rfl, h.onMessage hl rfl rfl⟩
  | _ => exact ⟨s, rfl, h.registry, h.nextConsumer, h.routed, h.living⟩

def ofDelivery (D : Utf8Decoder) : Machine.Simulation (delivery D) consumers where
  rel := Registers
  image _ := lives
  init := ⟨rfl, rfl, (exact_iff.mp Exact.init.1).1, Exact.init.2⟩
  step _ _ _ _ h hst := h.step hst

end Delivery

end Consumers

end RocketMQClient.Consume
