import GuardedData.Proofs.Model.Conduct
import GuardedData.Proofs.Model.DirectEdit
import GuardedData.Proofs.Model.Order

/-!
# Credits for what is due

The guard owes a credit to each settling callback that is still to be told, be its event in the
queue or already taken. As long as the credits suffice for what is due and for what is queued from
now on, no callback finds the guard without one (`Run.not_violated`).
-/

namespace GuardedData

open Machine

def Callback.settles : Callback → Bool
  | .settle _ => true
  | _ => false

namespace Enforcement

/-- Whether some watchers spend for each event what it costs. -/
def Charged (x : Enforcement) (watchers : List (Watcher Callback)) : Prop :=
  ∀ event, (summoned watchers event).countP (·.1.settles) = x.cost event

/-- The credits that the queue and the callbacks still to be told are going to spend. -/
def due (x : Enforcement) (s : Machine) : Nat :=
  x.totalCost s.model.store.pending + s.untold.countP (·.1.settles)

/-- Whether the credits suffice for what is due and for some more. -/
def Solvent (x : Enforcement) (more : Nat) (s : Machine) : Prop :=
  ∃ g, s.model.guard = some g ∧ ((x.due s + more : Nat) : Int) ≤ g.credits

variable {x : Enforcement}

lemma charged_watchers (x : Enforcement) : x.Charged x.watchers := by
  intro event
  let s : Store Callback := ⟨.null, .immediate, x.watchers, [], false⟩
  have hsummoned : summoned x.watchers event = (s.callbacks event.path).map (·, event.value) := by
    simp [s, summoned, Store.callbacks]
  rw [hsummoned, callbacks_eq (x := x) rfl]
  simp [List.countP_replicate, Callback.settles, checkAt]

/-- Watchers that run user code spend nothing. -/
lemma Charged.append {front watchers back : List (Watcher Callback)} (h : x.Charged watchers)
    (hfront : ∀ w ∈ front, ∃ body, w.callback = .react body)
    (hback : ∀ w ∈ back, ∃ body, w.callback = .react body) :
    x.Charged (front ++ watchers ++ back) := by
  intro event
  have hnone {users : List (Watcher Callback)}
      (husers : ∀ w ∈ users, ∃ body, w.callback = .react body) :
      (summoned users event).countP (·.1.settles) = 0 := by
    rw [List.countP_eq_zero]
    intro told htold
    obtain ⟨w, hw, rfl⟩ := List.mem_map.1 htold
    obtain ⟨body, hbody⟩ := husers w (List.mem_filter.1 hw).1
    simp [hbody, Callback.settles]
  have happend : summoned (front ++ watchers ++ back) event =
      summoned front event ++ summoned watchers event ++ summoned back event := by simp [summoned]
  rw [happend, List.countP_append, List.countP_append, hnone hfront, hnone hback, h event,
    Nat.zero_add, Nat.add_zero]

end Enforcement

/-! ### One step -/

namespace Machine

variable {s t : Machine}

lemma guard_of_step? (h : s.step? = some t) : t.model.guard =
    match s.move with
    | .enter => s.model.guard.map Guard.enter
    | .tell (.settle path) _ => s.model.guard.map (·.spend path)
    | _ => s.model.guard := by
  have hstanding := congrArg (·.guard) (standing_of_step? h)
  change t.model.guard = _ at hstanding
  rw [hstanding]
  cases s.move with
  | edit path change =>
    simp only [Standing.after]
    split <;> rfl
  | take =>
    simp only [Standing.after]
    split <;> rfl
  | tell callback value => cases callback <;> rfl
  | _ => rfl

end Machine

namespace Enforcement

variable {x : Enforcement} {s t : Machine}

/-- What is due grows by what is queued and shrinks by what is told. -/
lemma due_of_step? (h : s.step? = some t)
    (hframes : s.control.flushes = 1 → framesFlushes s.stack = 0)
    (hcharged : x.Charged s.model.store.watchers) :
    x.due t + s.told?.toList.countP (·.1.settles) = x.due s + x.totalCost s.queued := by
  have hpending := congrArg x.totalCost (pending_of_step? h)
  have huntold := congrArg (List.countP (·.1.settles)) (untold_of_step? h hframes)
  have htaken : (s.taken?.toList.flatMap (summoned s.model.store.watchers)).countP (·.1.settles) =
      x.totalCost s.taken?.toList := by
    cases s.taken? with
    | none => rfl
    | some event => simpa [totalCost] using hcharged event
  rw [totalCost_append, totalCost_append] at hpending
  rw [List.countP_append, List.countP_append, htaken] at huntold
  unfold due
  omega

/-- A step spends what it queues. -/
lemma Solvent.step (h : s.step? = some t)
    (hframes : s.control.flushes = 1 → framesFlushes s.stack = 0)
    (hcharged : x.Charged s.model.store.watchers) {more : Nat}
    (hs : x.Solvent (x.totalCost s.queued + more) s) : x.Solvent more t := by
  obtain ⟨g, hg, hcredits⟩ := hs
  have hdue := due_of_step? h hframes hcharged
  have hguard := guard_of_step? h
  have hkept (he : t.model.guard = s.model.guard) : x.Solvent more t :=
    ⟨g, by rw [he, hg], by omega⟩
  cases hmove : s.move with
  | enter =>
    rw [hmove, hg] at hguard
    exact ⟨g.enter, hguard, by simp only [Guard.enter]; omega⟩
  | tell callback value =>
    rw [hmove] at hguard
    cases callback with
    | settle path =>
      have htold : s.told? = some (.settle path, value) := by simp [told?, hmove]
      rw [htold] at hdue
      simp only [Option.toList_some, List.countP_singleton, Callback.settles, if_true] at hdue
      have hspend : g.spend path = ⟨g.credits - 1⟩ := by
        rw [Guard.spend, Guard.settle_eq_ok_iff.2 ⟨by omega, rfl⟩]
      rw [hg] at hguard
      exact ⟨g.spend path, hguard, by rw [hspend]; simp only; omega⟩
    | _ => exact hkept hguard
  | _ =>
    rw [hmove] at hguard
    exact hkept hguard

/-- A guarded entry brings a credit. -/
lemma Solvent.enter (h : s.step? = some t) (hmove : s.move = .enter)
    (hframes : s.control.flushes = 1 → framesFlushes s.stack = 0)
    (hcharged : x.Charged s.model.store.watchers) {more : Nat} (hs : x.Solvent more s) :
    x.Solvent (more + 1) t := by
  obtain ⟨g, hg, hcredits⟩ := hs
  have hdue := due_of_step? h hframes hcharged
  have hguard := guard_of_step? h
  have hqueued : s.queued = [] := by simp [queued, hmove]
  rw [hmove, hg] at hguard
  rw [hqueued, totalCost] at hdue
  exact ⟨g.enter, hguard, by simp only [Guard.enter]; omega⟩

/-- Where the credits suffice for what is due, the next callback finds one. -/
lemma Solvent.not_violated {more : Nat} (hs : x.Solvent more s) {e : ModelError}
    (he : s.objected? = some e) : e.isGuardViolation = false := by
  obtain ⟨g, hg, hcredits⟩ := hs
  obtain ⟨m, control, stack⟩ := s
  cases control with
  | deliver callbacks value failure =>
    cases callbacks with
    | nil => cases he
    | cons callback callbacks =>
      cases callback with
      | react body => cases he
      | settle path =>
        have hdue : 1 ≤ x.due ⟨m, .deliver (.settle path :: callbacks) value failure, stack⟩ := by
          simp only [due, untold, standing_deliver, List.map_cons, List.cons_append,
            List.countP_cons, Callback.settles, if_true]
          omega
        have hsettle : g.settle path = .ok ⟨g.credits - 1⟩ :=
          Guard.settle_eq_ok_iff.2 ⟨by omega, rfl⟩
        simp only at hg
        simp [objected?, objection?, Model.settle, hg, hsettle] at he
      | check schema path =>
        simp only [objected?, objection?] at he
        split at he <;> cases he
        rfl
  | _ => cases he

end Enforcement

/-! ### Runs -/

/-- On a guarded model an event is charged what it costs, whatever a run watches beside. -/
lemma Model.Created.charged {d : Definition} {o : Options} {m : Model} (hm : m.Created d o)
    (himm : o.immutable = true) {past : List Machine} {s : Machine} (h : Run m past s) :
    (Enforcement.ofDefinition d).Charged s.model.store.watchers := by
  obtain ⟨later, hw, hlater⟩ := h.watchers
  rw [hw, hm.watchers, himm, if_pos rfl, ← Enforcement.watchers]
  refine (Enforcement.charged_watchers _).append (fun w hmem => ?_) hlater
  obtain ⟨⟨path, body⟩, -, rfl⟩ := List.mem_map.1 hmem
  exact ⟨body, rfl⟩

/-- The credits of a guard are never below zero. -/
lemma Run.guard {m : Model} {credits : Nat} (hm : m.guard = some ⟨credits⟩) {past : List Machine}
    {s : Machine} (h : Run m past s) : ∃ credits : Nat, s.model.guard = some ⟨credits⟩ := by
  refine h.invariant (P := fun a => ∃ credits : Nat, a.guard = some ⟨credits⟩) ⟨credits, hm⟩ ?_
  rintro t - ⟨k, hk⟩
  cases t.move with
  | enter => exact ⟨k + 1, by simp [Standing.after, hk, Guard.enter]⟩
  | tell callback value =>
    cases callback with
    | settle path =>
      cases k with
      | zero => exact ⟨0, by simp [Standing.after, hk, Guard.spend, Guard.settle]⟩
      | succ k =>
        have hsettle := Guard.settle_enter (g := ⟨k⟩) (Int.natCast_nonneg k) path
        refine ⟨k, ?_⟩
        simp only [Standing.after, hk, Option.map_some, Guard.spend]
        rw [show (⟨((k + 1 : Nat) : Int)⟩ : Guard) = Guard.enter ⟨k⟩ from rfl, hsettle]
    | _ => exact ⟨k, hk⟩
  | edit path change =>
    refine ⟨k, ?_⟩
    simp only [Standing.after]
    split <;> exact hk
  | take =>
    refine ⟨k, ?_⟩
    simp only [Standing.after]
    split <;> exact hk
  | _ => exact ⟨k, hk⟩

/-- If the credits suffice for what is due and for all that is queued along some steps, none of them
is a violation. -/
theorem Run.not_violated {x : Enforcement} {m : Model}
    (hcharged : ∀ {past s}, Run m past s → x.Charged s.model.store.watchers) {past : List Machine}
    {s : Machine} (hrun : Run m past s) {n : Nat}
    (hs : x.Solvent (x.totalCost ((trail n s).flatMap queued)) s) :
    ∀ t ∈ trail n s, ∀ e, t.objected? = some e → e.isGuardViolation = false := by
  induction n generalizing past s with
  | zero => simp [trail]
  | succ n ih =>
    rw [trail] at hs ⊢
    cases hstep : s.step? with
    | none => simp
    | some t =>
      simp only [hstep, List.flatMap_cons, Enforcement.totalCost_append] at hs
      refine List.forall_mem_cons.2 ⟨fun e he => hs.not_violated he, ?_⟩
      exact ih (hrun.step hstep) (hs.step hstep hrun.frames_eq_zero (hcharged hrun))

end GuardedData
