import GuardedData.Proofs.Model.Conduct
import GuardedData.Proofs.Model.Order
import Mathlib.Data.List.ModifyLast

/-!
# How a flush ends

A flush takes one event after the other and tells all callbacks of it. It goes on as long as none of
them has failed, and while one runs its code nothing else is delivered (`Machine.phase_of_step?`).
So the flush ends well only with an empty queue, and badly only with the first error of the last
event, with the rest of the queue left as it is (`Run.flush_outcome`).
-/

namespace GuardedData

/-- The delivery of an event to the callbacks that were registered for its path when it was taken.
Each callback that has been told stands with the error that it has failed with, if it has. -/
structure Delivery where
  event : Event
  callbacks : List Callback
  told : List (Callback × Option ModelError) := []

namespace Delivery

def error? (d : Delivery) : Option ModelError := d.told.findSome? (·.2)

/-- Whether all callbacks have been told and none has failed. -/
structure Passed (d : Delivery) : Prop where
  complete : d.told.map (·.1) = d.callbacks
  error? : d.error? = none

/-- Tell a callback, which may fail. -/
def tell (d : Delivery) (callback : Callback) (e : Option ModelError) : Delivery :=
  { d with told := d.told ++ [(callback, e)] }

/-- Come to know how the callback that was told last has done. -/
def conclude (d : Delivery) (e : Option ModelError) : Delivery :=
  { d with told := d.told.modifyLast fun last => (last.1, e) }

lemma error?_tell (d : Delivery) (callback : Callback) (e : Option ModelError) :
    (d.tell callback e).error? = d.error?.or e := by
  simp only [error?, tell, List.findSome?_append, List.findSome?_singleton]

/-- Before a callback has done its part it counts as one that has not failed. -/
lemma error?_conclude {d : Delivery} {front : List (Callback × Option ModelError)}
    {callback : Callback} (h : d.told = front ++ [(callback, none)]) (e : Option ModelError) :
    (d.conclude e).error? = d.error?.or e := by
  simp [error?, conclude, h, List.modifyLast_concat]

lemma map_fst_conclude (d : Delivery) (e : Option ModelError) :
    (d.conclude e).told.map (·.1) = d.told.map (·.1) := by
  rcases List.eq_nil_or_concat d.told with h | ⟨front, last, h⟩
  · rw [conclude, h]
    rfl
  · simp [conclude, h, List.modifyLast_concat]

end Delivery

/-- User code that changes nothing: it looks at the model, asks for flushes and watches paths. -/
def Conduct.onlooking : Conduct where
  asks request := match request with
    | .value _ | .credits | .pending | .environment | .note _ | .flush => True
    | _ => False
  watches := True
  fails _ := True
  fails_of_isRefusal _ _ := trivial

namespace Machine

/-- What the flush under way ends with in the next step, if it does. -/
def flushEnd? (s : Machine) : Option Result :=
  match s.control with
  | .drain =>
    match s.model.store.pending with
    | [] => some (.ok .null)
    | _ :: _ => none
  | .deliver [] _ (some e) => some (.error e)
  | _ => none

/-- Some deliveries, the last one first, after the next step. -/
def delivered (s : Machine) (ds : List Delivery) : List Delivery :=
  match s.control, s.stack, ds with
  | .drain, _, ds =>
    match s.model.store.pending with
    | [] => ds
    | event :: _ => ⟨event, s.model.store.callbacks event.path, []⟩ :: ds
  | .deliver (callback :: _) value _, _, d :: ds =>
    d.tell callback (objection? s.model value callback) :: ds
  | .answer result, .deliver _ _ _ :: _, d :: ds => d.conclude (resume.errorOf result) :: ds
  | _, _, ds => ds

/-- The deliveries along some steps, the last one first. -/
def deliveries (steps : List Machine) : List Delivery :=
  steps.foldl (fun ds s => s.delivered ds) []

/-! ### The phases of a flush -/

/-- Where the flush above some frames is after some deliveries. -/
inductive Phase (base : List Frame) : List Delivery → Machine → Prop
  /-- The next event is about to be taken, if there is one. -/
  | between {m : Model} {ds : List Delivery} (hpassed : ∀ d ∈ ds, d.Passed) :
    Phase base ds ⟨m, .drain, base⟩
  /-- The callbacks that are left are about to be told. -/
  | telling {m : Model} {d : Delivery} {ds : List Delivery} {callbacks : List Callback}
    (value : Option Value) (hpassed : ∀ d ∈ ds, d.Passed)
    (hcallbacks : d.told.map (·.1) ++ callbacks = d.callbacks) :
    Phase base (d :: ds) ⟨m, .deliver callbacks value d.error?, base⟩
  /-- The code of a callback runs. -/
  | running {m : Model} {control : Control} {above : List Frame} {d : Delivery}
    {ds : List Delivery} {front : List (Callback × Option ModelError)} {callback : Callback}
    {callbacks : List Callback} (value : Option Value) (hpassed : ∀ d ∈ ds, d.Passed)
    (hcallbacks : d.told.map (·.1) ++ callbacks = d.callbacks)
    (htold : d.told = front ++ [(callback, none)]) (hcontrol : control.flushes = 0)
    (habove : framesFlushes above = 0) :
    Phase base (d :: ds) ⟨m, control, above ++ .deliver callbacks value d.error? :: base⟩

lemma framesFlushes_append (above base : List Frame) :
    framesFlushes (above ++ base) = framesFlushes above + framesFlushes base := by
  induction above with
  | nil => simp [framesFlushes]
  | cons frame above ih => rw [List.cons_append, framesFlushes_cons, framesFlushes_cons, ih,
      Nat.add_assoc]

/-- While something waits for the flush, no other one is begun. -/
lemma Marked.control_eq_zero {s : Machine} (h : s.Marked 0) (hs : 1 ≤ framesFlushes s.stack) :
    s.control.flushes = 0 ∧ s.model.store.flushing = true := by
  have hle := Bool.toNat_le s.model.store.flushing
  simp only [Marked, flushes] at h
  cases hflushing : s.model.store.flushing with
  | false =>
    simp only [hflushing, Bool.toNat_false] at h
    omega
  | true =>
    simp only [hflushing, Bool.toNat_true] at h
    exact ⟨by omega, rfl⟩

/-- User code leaves a delivery that waits for it where it is: it gives way to a poll at most. -/
lemma Turns.exists_above {above base stack : List Frame} {frame : Frame}
    (h : Turns (above ++ frame :: base) stack) (hframe : frame.flushes = 1)
    (habove : framesFlushes above = 0) :
    ∃ above', stack = above' ++ frame :: base ∧ framesFlushes above' = 0 := by
  generalize hbefore : above ++ frame :: base = before at h
  cases h with
  | stays => exact ⟨above, hbefore.symm, habove⟩
  | @calls called hcalled =>
    refine ⟨called :: above, by rw [← hbefore, List.cons_append], ?_⟩
    rw [framesFlushes_cons, hcalled, habove]
  | yields task next =>
    cases above with
    | nil =>
      cases hbefore
      cases hframe
    | cons poll above =>
      cases hbefore
      rw [framesFlushes_cons, Nat.add_eq_zero_iff] at habove
      exact ⟨above, rfl, habove.2⟩

variable {base : List Frame} {ds : List Delivery} {s t : Machine}

/-- A step of the flush that does not end it. -/
theorem phase_of_step? (h : Phase base ds s) (hs : s.step? = some t) (hmark : t.Marked 0)
    (hend : s.flushEnd? = none) : Phase base (s.delivered ds) t := by
  cases h with
  | @between m ds hpassed =>
    cases hpending : m.store.pending with
    | nil => simp [flushEnd?, hpending] at hend
    | cons event rest =>
      simp only [step?, Store.takeEvent?, hpending, Option.some.injEq] at hs
      subst hs
      simp only [delivered, hpending]
      exact .telling (d := ⟨event, m.store.callbacks event.path, []⟩) event.value hpassed rfl
  | @telling m d ds callbacks value hpassed hcallbacks =>
    cases callbacks with
    | nil =>
      rw [List.append_nil] at hcallbacks
      cases herror : d.error? with
      | none =>
        rw [herror] at hs
        cases hs
        exact .between (List.forall_mem_cons.2 ⟨⟨hcallbacks, herror⟩, hpassed⟩)
      | some e => simp [flushEnd?, herror] at hend
    | cons callback callbacks =>
      have htold (e : Option ModelError) :
          (d.tell callback e).told.map (·.1) ++ callbacks = (d.tell callback e).callbacks := by
        simpa [Delivery.tell] using hcallbacks
      have htelling (m' : Model) (e : Option ModelError) : Phase base (d.tell callback e :: ds)
          ⟨m', .deliver callbacks value (d.error?.or e), base⟩ := by
        rw [← Delivery.error?_tell]
        exact .telling value hpassed (htold e)
      cases hs
      cases callback with
      | react body =>
        have herror := d.error?_tell (.react body) none
        rw [Option.or_none] at herror
        have hrunning : Phase base (d.tell (.react body) none :: ds) ⟨m, .run (body value),
            [] ++ .deliver callbacks value (d.tell (.react body) none).error? :: base⟩ :=
          .running value hpassed (htold none) rfl rfl rfl
        rw [herror] at hrunning
        exact hrunning
      | settle path =>
        exact htelling (m.settle path).1 (m.settle path).2
      | check schema path =>
        exact htelling m (objection? m value (.check schema path))
  | @running m control above d ds front callback callbacks value hpassed hcallbacks htold hcontrol
      habove =>
    have hwaits (above' : List Frame) : 1 ≤ framesFlushes
        (above' ++ .deliver callbacks value d.error? :: base) := by
      rw [framesFlushes_append, framesFlushes_cons, Frame.flushes]
      omega
    -- As long as the delivery still waits, the step leaves the flush where it is.
    have hstays {above' : List Frame} (habove' : framesFlushes above' = 0)
        (hstack : t.stack = above' ++ .deliver callbacks value d.error? :: base) :
        Phase base (d :: ds) t := by
      obtain ⟨m', control', stack'⟩ := t
      simp only at hstack
      subst hstack
      exact .running value hpassed hcallbacks htold (hmark.control_eq_zero (hwaits above')).1
        habove'
    cases control with
    | run p =>
      cases p with
      | finish result =>
        cases hs
        exact hstays habove rfl
      | watch path body next =>
        cases hs
        exact hstays habove rfl
      | ask request next =>
        cases hs
        have hturns : Turns (above ++ Frame.deliver callbacks value d.error? :: base) _ :=
          turns_serve _ m request next
        obtain ⟨above', hstack, habove'⟩ := hturns.exists_above rfl habove
        exact hstays habove' hstack
    | answer result =>
      cases above with
      | nil =>
        cases hs
        rw [List.nil_append, resume, ← Delivery.error?_conclude htold]
        refine .telling value hpassed ?_
        rw [Delivery.map_fst_conclude]
        exact hcallbacks
      | cons frame above =>
        rw [framesFlushes_cons, Nat.add_eq_zero_iff] at habove
        cases hs
        cases frame with
        | deliver callbacks' value' failure' => simp [Frame.flushes] at habove
        | _ => exact hstays habove.2 rfl
    | _ => cases hcontrol

/-- A flush goes from phase to phase until it ends. -/
theorem phase_runFor {n : Nat} (h : Phase base ds s) (hmark : s.Marked 0)
    (hunder : ∀ t ∈ trail n s, t.flushEnd? = none) :
    Phase base ((trail n s).foldl (fun ds t => t.delivered ds) ds) (runFor n s) := by
  induction n generalizing s ds with
  | zero => exact h
  | succ n ih =>
    rw [trail] at hunder ⊢
    rw [runFor]
    cases hs : s.step? with
    | none => exact h
    | some t =>
      rw [hs] at hunder
      obtain ⟨hfirst, hrest⟩ := List.forall_mem_cons.1 hunder
      have hmark' := marked_of_step? hs hmark
      exact ih (phase_of_step? h hs hmark' hfirst) hmark' hrest

/-! ### The end of a flush -/

lemma step?_of_flushEnd? {result : Result} (h : s.flushEnd? = some result) :
    s.step? = some (endFlush s.stack s.model result) := by
  obtain ⟨m, control, stack⟩ := s
  cases control with
  | drain =>
    cases hpending : m.store.pending with
    | nil =>
      simp only [flushEnd?, hpending, Option.some.injEq] at h
      subst h
      simp [step?, Store.takeEvent?, hpending]
    | cons event rest => simp [flushEnd?, hpending] at h
  | deliver callbacks value failure =>
    cases callbacks with
    | nil =>
      cases failure with
      | none => cases h
      | some e =>
        cases h
        rfl
    | cons callback callbacks => cases h
  | _ => cases h

/-- A flush ends well if the queue is empty and no callback of it has failed. -/
lemma Phase.of_flushEnd?_ok (h : Phase base ds s) {v : Value} (hend : s.flushEnd? = some (.ok v)) :
    s.stack = base ∧ s.model.store.pending = [] ∧ ∀ d ∈ ds, d.Passed := by
  cases h with
  | @between m ds hpassed =>
    cases hpending : m.store.pending with
    | nil => exact ⟨rfl, rfl, hpassed⟩
    | cons event rest => simp [flushEnd?, hpending] at hend
  | @telling m d ds callbacks =>
    cases callbacks with
    | nil => cases herror : d.error? <;> simp [flushEnd?, herror] at hend
    | cons callback callbacks => cases hend
  | @running m control =>
    cases control <;> simp_all [flushEnd?, Control.flushes]

/-- A flush ends badly with the first error of the last event. -/
lemma Phase.of_flushEnd?_error (h : Phase base ds s) {e : ModelError}
    (hend : s.flushEnd? = some (.error e)) : s.stack = base ∧ ∃ last earlier,
      ds = last :: earlier ∧ (∀ d ∈ earlier, d.Passed) ∧ last.told.map (·.1) = last.callbacks ∧
        last.error? = some e := by
  cases h with
  | @between m ds hpassed => cases hpending : m.store.pending <;> simp [flushEnd?, hpending] at hend
  | @telling m d ds callbacks value hpassed hcallbacks =>
    cases callbacks with
    | nil =>
      rw [List.append_nil] at hcallbacks
      cases herror : d.error? with
      | none => simp [flushEnd?, herror] at hend
      | some e' =>
        simp only [flushEnd?, herror, Option.some.injEq, Except.error.injEq] at hend
        subst hend
        exact ⟨rfl, d, ds, rfl, hpassed, hcallbacks, herror⟩
    | cons callback callbacks => cases hend
  | @running m control =>
    cases control <;> simp_all [flushEnd?, Control.flushes]

/-- While code of a callback runs a flush is under way. -/
lemma Phase.flushing (h : Phase base ds s) (hmark : s.Marked 0) :
    s.model.store.flushing = true := by
  cases h with
  | between => exact (hmark.frames_eq_zero rfl).2.2
  | telling => exact (hmark.frames_eq_zero rfl).2.2
  | running =>
    refine (hmark.control_eq_zero ?_).2
    rw [framesFlushes_append, framesFlushes_cons, Frame.flushes]
    omega

/-- A flush that is asked for while one is under way delivers nothing and finds no fault, and
neither does an edit. -/
lemma step?_of_flushing (hflushing : s.model.store.flushing = true) :
    (∀ next, s.control = .run (.ask .flush next) →
      s.step? = some ⟨s.model, .run (next (.ok ())), s.stack⟩) ∧
    ∀ path change next after removed, s.control = .run (.ask (.edit path change) next) →
      change.apply path s.model.data = .ok (after, removed) →
      s.step? = some ⟨s.model.edited path after, .run (next (.ok removed)), s.stack⟩ := by
  obtain ⟨m, control, stack⟩ := s
  simp only at hflushing
  constructor
  · rintro next rfl
    simp [step?, serve, beginFlush, hflushing, runOn]
  · rintro path change next after removed rfl happly
    have hedited : (m.edited path after).store.flushing = true := hflushing
    have hserved := edit_of_ok (m := m) happly stack next
    cases hmode : m.store.mode with
    | immediate =>
      rw [hmode] at hserved
      simp only [beginFlush, hedited, if_true] at hserved
      exact congrArg some hserved
    | deferred =>
      rw [hmode] at hserved
      exact congrArg some hserved

lemma taken?_eq_none (h : s.control ≠ .drain) : s.taken? = none := by
  unfold taken?
  split
  · rename_i hmove
    exact absurd (control_of_move_take hmove) h
  · rfl

/-- The deliveries are those of the events that have been taken. -/
lemma reverse_map_event_delivered (s : Machine) (ds : List Delivery) :
    ((s.delivered ds).map (·.event)).reverse = (ds.map (·.event)).reverse ++ s.taken?.toList := by
  obtain ⟨m, control, stack⟩ := s
  cases control with
  | drain => cases hpending : m.store.pending <;> simp [delivered, taken?, move, hpending]
  | deliver callbacks value failure =>
    rw [taken?_eq_none Control.noConfusion]
    cases callbacks <;> cases ds <;> simp [delivered, Delivery.tell]
  | answer result =>
    rw [taken?_eq_none Control.noConfusion]
    cases stack with
    | nil => simp [delivered]
    | cons frame stack => cases frame <;> cases ds <;> simp [delivered, Delivery.conclude]
  | run p =>
    rw [taken?_eq_none Control.noConfusion]
    simp [delivered]

lemma reverse_map_event_deliveries (steps : List Machine) :
    ((deliveries steps).map (·.event)).reverse = steps.filterMap taken? := by
  have hfold (ds : List Delivery) : ((steps.foldl (fun ds s => s.delivered ds) ds).map
      (·.event)).reverse = (ds.map (·.event)).reverse ++ steps.filterMap taken? := by
    induction steps generalizing ds with
    | nil => simp
    | cons s steps ih =>
      rw [List.foldl_cons, ih, reverse_map_event_delivered]
      cases htaken : s.taken? <;> simp [htaken]
  simpa [deliveries] using hfold []

/-! ### Flushes of which nothing is queued -/

/-- Whether the flush under way comes to a state, with nothing queued on the way. -/
def Leads (s t : Machine) : Prop :=
  ∃ n, runFor n s = t ∧ ∀ u ∈ trail n s, u.flushEnd? = none ∧ u.queued = []

namespace Leads

variable {u : Machine}

lemma refl (s : Machine) : Leads s s := ⟨0, rfl, by simp [trail]⟩

lemma head (hs : s.step? = some t) (hend : s.flushEnd? = none) (hqueued : s.queued = [])
    (h : Leads t u) : Leads s u := by
  obtain ⟨n, rfl, htrail⟩ := h
  refine ⟨n + 1, by simp [runFor, hs], ?_⟩
  rw [trail, hs]
  exact List.forall_mem_cons.2 ⟨⟨hend, hqueued⟩, htrail⟩

lemma trans (h : Leads s t) (h' : Leads t u) : Leads s u := by
  obtain ⟨n, rfl, htrail⟩ := h
  obtain ⟨k, rfl, htrail'⟩ := h'
  refine ⟨n + k, runFor_add n k s, ?_⟩
  rw [trail_add]
  exact List.forall_mem_append.2 ⟨htrail, htrail'⟩

end Leads

/-- Whether a flush is under way on a store whose watchers change nothing, with a given queue. -/
structure Onlooked (store : Store Callback) (pending : List Event) : Prop where
  flushing : store.flushing = true
  pending : store.pending = pending
  watchers : ∀ w ∈ store.watchers, w.callback.Keeps .onlooking

variable {m : Model} {pending : List Event}

/-- Code that changes nothing comes to an end. -/
lemma leads_run (stack : List Frame) {p : Program} (hp : p.Keeps .onlooking)
    (hm : Onlooked m.store pending) : ∃ m' result,
      Leads ⟨m, .run p, stack⟩ ⟨m', .answer result, stack⟩ ∧ Onlooked m'.store pending := by
  induction hp generalizing m with
  | finish h => exact ⟨m, _, .head rfl rfl rfl (.refl _), hm⟩
  | @ask request next h hnext ih =>
    cases request with
    | value path =>
      obtain ⟨m', result, hleads, hm'⟩ := ih (m.data.at? path) trivial hm
      exact ⟨m', result, .head rfl rfl rfl hleads, hm'⟩
    | credits =>
      obtain ⟨m', result, hleads, hm'⟩ := ih m.credits trivial hm
      exact ⟨m', result, .head rfl rfl rfl hleads, hm'⟩
    | pending =>
      obtain ⟨m', result, hleads, hm'⟩ := ih m.store.pending trivial hm
      exact ⟨m', result, .head rfl rfl rfl hleads, hm'⟩
    | environment =>
      obtain ⟨m', result, hleads, hm'⟩ := ih m.environment trivial hm
      exact ⟨m', result, .head rfl rfl rfl hleads, hm'⟩
    | note entry =>
      have hnoted : Onlooked ({ m with journal := m.journal ++ [entry] } : Model).store pending :=
        hm
      obtain ⟨m', result, hleads, hm'⟩ := ih () trivial hnoted
      exact ⟨m', result, .head rfl rfl rfl hleads, hm'⟩
    | flush =>
      obtain ⟨m', result, hleads, hm'⟩ := ih (.ok ()) (Conduct.allows_ok ()) hm
      have hs :=
        (step?_of_flushing (s := ⟨m, .run (.ask .flush next), stack⟩) hm.flushing).1 next rfl
      exact ⟨m', result, .head hs rfl rfl hleads, hm'⟩
    | _ => exact h.elim
  | @watch path react next h hreact hnext ihreact ihnext =>
    have hwatched : Onlooked (m.watch path (.react react)).store pending :=
      ⟨hm.flushing, hm.pending,
        List.forall_mem_append.2 ⟨hm.watchers, List.forall_mem_singleton.2 hreact⟩⟩
    obtain ⟨m', result, hleads, hm'⟩ := ihnext hwatched
    exact ⟨m', result, .head rfl rfl rfl hleads, hm'⟩

/-- All callbacks of an event are told. -/
lemma leads_deliver (stack : List Frame) {callbacks : List Callback} (value : Option Value)
    (failure : Option ModelError) (hcallbacks : ∀ callback ∈ callbacks, callback.Keeps .onlooking)
    (hm : Onlooked m.store pending) : ∃ m' failure',
      Leads ⟨m, .deliver callbacks value failure, stack⟩ ⟨m', .deliver [] value failure', stack⟩ ∧
        Onlooked m'.store pending := by
  induction callbacks generalizing m failure with
  | nil => exact ⟨m, failure, .refl _, hm⟩
  | cons callback callbacks ih =>
    obtain ⟨hcallback, hrest⟩ := List.forall_mem_cons.1 hcallbacks
    cases callback with
    | react body =>
      obtain ⟨m', result, hruns, hm'⟩ :=
        leads_run (.deliver callbacks value failure :: stack) (hcallback value) hm
      obtain ⟨m'', failure', hleads, hm''⟩ := ih (failure.or (resume.errorOf result)) hrest hm'
      exact ⟨m'', failure', .head rfl rfl rfl (hruns.trans (.head rfl rfl rfl hleads)), hm''⟩
    | settle path =>
      have hsettled : Onlooked (m.settle path).1.store pending := by
        rw [settle_fst]
        exact hm
      obtain ⟨m', failure', hleads, hm'⟩ := ih (failure.or (m.settle path).2) hrest hsettled
      exact ⟨m', failure', .head rfl rfl rfl hleads, hm'⟩
    | check schema path =>
      obtain ⟨m', failure', hleads, hm'⟩ :=
        ih (failure.or (objection? m value (.check schema path))) hrest hm
      exact ⟨m', failure', .head rfl rfl rfl hleads, hm'⟩

/-- A flush whose callbacks change nothing comes to an end. -/
theorem leads_drain (stack : List Frame) (hm : Onlooked m.store pending) :
    ∃ t, Leads ⟨m, .drain, stack⟩ t ∧ t.flushEnd?.isSome = true := by
  induction pending generalizing m with
  | nil => exact ⟨_, .refl _, by simp [flushEnd?, hm.pending]⟩
  | cons event rest ih =>
    have htake : step? ⟨m, .drain, stack⟩ =
        some ⟨{ m with store := { m.store with pending := rest } },
          .deliver (m.store.callbacks event.path) event.value none, stack⟩ := by
      simp only [step?, Store.takeEvent?, hm.pending]
      rfl
    have hend : flushEnd? ⟨m, .drain, stack⟩ = none := by simp [flushEnd?, hm.pending]
    have htaken : Onlooked { m.store with pending := rest } rest := ⟨hm.flushing, rfl, hm.watchers⟩
    have hcallbacks : ∀ callback ∈ m.store.callbacks event.path, callback.Keeps .onlooking := by
      intro callback hmem
      obtain ⟨w, hw, rfl⟩ := List.mem_map.1 hmem
      exact hm.watchers w (List.mem_filter.1 hw).1
    obtain ⟨m', failure, hleads, hm'⟩ :=
      leads_deliver (m := { m with store := { m.store with pending := rest } }) stack event.value
        none hcallbacks htaken
    cases failure with
    | some e => exact ⟨_, .head htake hend rfl hleads, rfl⟩
    | none =>
      obtain ⟨t, hdrains, hended⟩ := ih hm'
      exact ⟨t, .head htake hend rfl (hleads.trans (.head rfl rfl rfl hdrains)), hended⟩

end Machine

open Machine

/-! ### Whole flushes -/

namespace Run

variable {m : Model} {past : List Machine} {b start : Machine}

/-- Where no flush is under way none has been so from the start. -/
lemma flushing_of_flushing (h : Run m past b) (hidle : b.model.store.flushing = false) :
    m.store.flushing = false := by
  have hmark := h.marked
  cases hflushing : m.store.flushing with
  | false => rfl
  | true => simp [Marked, hidle, hflushing] at hmark

/-- What is queued along some steps comes behind the queue, and what they take is taken from the
front. -/
lemma pending_trail (h : Run m past b) (n : Nat) :
    b.model.store.pending ++ (b.trail n).flatMap queued =
      (b.trail n).filterMap taken? ++ (b.runFor n).model.store.pending := by
  have hbefore := h.pending_append_queued
  have hafter := (h.runFor n).pending_append_queued
  rw [List.flatMap_append, List.filterMap_append, ← List.append_assoc, hbefore, List.append_assoc,
    List.append_assoc] at hafter
  exact List.append_cancel_left hafter

/-- When a flush has ended, the code that has begun it goes on with what it has ended with. -/
lemma resumes_of_flushEnd? {n : Nat} {result : Result} (hidle : b.model.store.flushing = false)
    (hbegin : b.step? = some start) (hdrain : start.control = .drain)
    (hstack : (start.runFor n).stack = start.stack)
    (hend : (start.runFor n).flushEnd? = some result) :
    (∀ next, b.control = .run (.ask .flush next) → start.runFor (n + 2) =
      ⟨(start.runFor n).model.setFlushing false, .run (next (result.map fun _ => ())), b.stack⟩) ∧
    ∀ path change next after removed, b.control = .run (.ask (.edit path change) next) →
      change.apply path b.model.data = .ok (after, removed) → start.runFor (n + 2) =
        ⟨(start.runFor n).model.setFlushing false, .run (next (result.map fun _ => removed)),
          b.stack⟩ := by
  obtain ⟨m, control, stack⟩ := b
  simp only at hidle
  have hlast := step?_of_flushEnd? hend
  rw [hstack] at hlast
  have htwo {next : Except ModelError Unit → Program} {m' : Model}
      (hm' : m'.store.flushing = false) (hstart : start = beginFlush stack m' next) :
      start.runFor (n + 2) = ⟨(start.runFor n).model.setFlushing false,
        .run (next (result.map fun _ => ())), stack⟩ := by
    rw [Machine.runFor_add, Machine.runFor, hlast]
    simp only [hstart, beginFlush, hm', endFlush, Bool.false_eq_true, if_false, Machine.runFor,
      step?, resume, runOn]
  constructor
  · rintro next rfl
    cases hbegin
    exact htwo hidle rfl
  · rintro path change next after removed rfl happly
    have hserved := edit_of_ok (m := m) happly stack next
    have hedited : (m.edited path after).store.flushing = false := hidle
    have hstart := (Option.some.inj hbegin).symm.trans hserved
    cases hmode : m.store.mode with
    | immediate =>
      rw [hmode] at hstart
      rw [htwo hedited hstart]
      cases result <;> rfl
    | deferred =>
      rw [hmode] at hstart
      rw [hstart] at hdrain
      cases hdrain

/-- **How a flush ends.** Take a flush that a run begins where none is under way, be it asked for or
the end of an edit, and the state that it is in some steps later, before it has ended. A flush that
is asked for there delivers nothing and raises no error, and neither does an edit that finds its
place. The events delivered so far are the first ones of the queue, in its order, and those behind
them are still queued. If the flush is about to end well, the queue is empty and no callback has
failed; if it is about to end with an error, that is the error of the first callback, in the order
of registration, that has failed on the last event, and no callback has failed on an event before.
Then the code that has begun the flush goes on with that outcome, and the next flush takes the front
of the queue. As long as nothing is queued, no more events are delivered than were there at first;
and the flush does end if its callbacks change nothing. -/
theorem flush_outcome (h : Run m past b) (hidle : b.model.store.flushing = false)
    (hbegin : b.step? = some start) (hdrain : start.control = .drain) {n : Nat}
    (hunder : ∀ t ∈ start.trail n, t.flushEnd? = none) :
    let s := start.runFor n
    let ds := deliveries (start.trail n)
    ((∀ next, s.control = .run (.ask .flush next) →
        s.step? = some ⟨s.model, .run (next (.ok ())), s.stack⟩) ∧
      ∀ path change next after removed, s.control = .run (.ask (.edit path change) next) →
        change.apply path s.model.data = .ok (after, removed) →
        s.step? = some ⟨s.model.edited path after, .run (next (.ok removed)), s.stack⟩) ∧
    start.model.store.pending ++ (start.trail n).flatMap queued =
      (ds.map (·.event)).reverse ++ s.model.store.pending ∧
    (∀ v, s.flushEnd? = some (.ok v) → s.model.store.pending = [] ∧ ∀ d ∈ ds, d.Passed) ∧
    (∀ e, s.flushEnd? = some (.error e) → ∃ last earlier, ds = last :: earlier ∧
      (∀ d ∈ earlier, d.Passed) ∧ last.told.map (·.1) = last.callbacks ∧ last.error? = some e) ∧
    (∀ result, s.flushEnd? = some result →
      (∀ next, b.control = .run (.ask .flush next) → start.runFor (n + 2) =
        ⟨s.model.setFlushing false, .run (next (result.map fun _ => ())), b.stack⟩) ∧
      (∀ path change next after removed, b.control = .run (.ask (.edit path change) next) →
        change.apply path b.model.data = .ok (after, removed) → start.runFor (n + 2) =
          ⟨s.model.setFlushing false, .run (next (result.map fun _ => removed)), b.stack⟩) ∧
      ∀ stack next, (serve stack (s.model.setFlushing false) .flush next).taken? =
        s.model.store.pending.head?) ∧
    ((start.trail n).flatMap queued = [] → ds.length ≤ start.model.store.pending.length) ∧
    ((∀ w ∈ start.model.store.watchers, w.callback.Keeps .onlooking) →
      ∃ k, (∀ t ∈ start.trail k, t.flushEnd? = none) ∧ (start.runFor k).flushEnd?.isSome = true ∧
        (deliveries (start.trail k)).length ≤ start.model.store.pending.length) := by
  intro s ds
  have hstart := h.step hbegin
  have hmarked {past' : List Machine} {t : Machine} (ht : Run m past' t) : t.Marked 0 := by
    have hmark := ht.marked
    rwa [h.flushing_of_flushing hidle] at hmark
  have hmark := hmarked hstart
  have hphase : Phase start.stack ds s := by
    obtain ⟨m', control, stack⟩ := start
    simp only at hdrain
    subst hdrain
    exact phase_runFor (.between (by simp)) hmark hunder
  have horder (k : Nat) : start.model.store.pending ++ (start.trail k).flatMap queued =
      ((deliveries (start.trail k)).map (·.event)).reverse ++
        (start.runFor k).model.store.pending := by
    rw [reverse_map_event_deliveries]
    exact hstart.pending_trail k
  have hbound {k : Nat} (hqueued : (start.trail k).flatMap queued = []) :
      (deliveries (start.trail k)).length ≤ start.model.store.pending.length := by
    have hlength := congrArg List.length (horder k)
    rw [hqueued, List.append_nil, List.length_append, List.length_reverse,
      List.length_map] at hlength
    omega
  refine ⟨step?_of_flushing (hphase.flushing (hmarked (hstart.runFor n))), horder n, ?_, ?_, ?_,
    hbound, ?_⟩
  · intro v hend
    exact (hphase.of_flushEnd?_ok hend).2
  · intro e hend
    exact (hphase.of_flushEnd?_error hend).2
  · intro result hend
    have hstack : s.stack = start.stack := by
      cases result with
      | ok v => exact (hphase.of_flushEnd?_ok hend).1
      | error e => exact (hphase.of_flushEnd?_error hend).1
    obtain ⟨hflush, hedit⟩ := resumes_of_flushEnd? hidle hbegin hdrain hstack hend
    exact ⟨hflush, hedit, fun stack next => rfl⟩
  · intro hwatchers
    have honlooked : Onlooked start.model.store start.model.store.pending :=
      ⟨(hmark.frames_eq_zero (by rw [hdrain]; rfl)).2.2, rfl, hwatchers⟩
    obtain ⟨t, ⟨k, rfl, htrail⟩, hended⟩ := leads_drain start.stack honlooked
    obtain ⟨m', control, stack⟩ := start
    simp only at hdrain
    subst hdrain
    refine ⟨k, fun t ht => (htrail t ht).1, hended, hbound ?_⟩
    exact List.flatMap_eq_nil_iff.2 fun t ht => (htrail t ht).2

/-- The first callback of an event edits and flushes, which does nothing yet; the second and the
third fail. The edit that has begun the flush is answered with the error of the second one, and the
event of the other edit waits for the next flush. -/
theorem flush_outcome_failing :
    let first : Option Value → Program := fun _ =>
      .ask (.edit "b" (.set (.ofInt 7))) fun _ => .ask .flush fun _ => .pure .null
    let failing (message : String) : Option Value → Program := fun _ => .fail (.custom message)
    let data : Value := .object [("a", .ofInt 0), ("b", .ofInt 0)]
    ∃ m start last earlier, Model.create { data := some data, watch :=
        [("a", first), ("b", first), ("a", failing "second"), ("a", failing "third")] }
        { immutable := false } .development = .ok m ∧
      step? ⟨m, .run (.edit "a" (.set (.ofInt 1))), []⟩ = some start ∧ start.control = .drain ∧
      (∀ t ∈ start.trail 12, t.flushEnd? = none) ∧
      (start.runFor 12).flushEnd? = some (.error (.custom "second")) ∧
      deliveries (start.trail 12) = last :: earlier ∧ (∀ d ∈ earlier, d.Passed) ∧
      last.told.map (·.2) = [none, some (.custom "second"), some (.custom "third")] ∧
      last.error? = some (.custom "second") ∧
      (start.runFor 12).model.store.pending.map (·.path) = ["b"] ∧
      start.runFor 14 = ⟨(start.runFor 12).model.setFlushing false,
        .run (.fail (.custom "second")), []⟩ ∧
      (start.runFor 14).model.store.flushing = false := by
  intro first failing data
  obtain ⟨m, hm⟩ : ∃ m, Model.create { data := some data, watch :=
      [("a", first), ("b", first), ("a", failing "second"), ("a", failing "third")] }
      { immutable := false } .development = .ok m := ⟨_, rfl⟩
  obtain ⟨start, after, hbegin, hdrain, happly, hidle, hall, hend, htold, hpending⟩ :
      ∃ start after, step? ⟨m, .run (.edit "a" (.set (.ofInt 1))), []⟩ = some start ∧
      start.control = .drain ∧ Edit.apply (.set (.ofInt 1)) "a" m.data = .ok (after, none) ∧
      m.store.flushing = false ∧
      (start.trail 12).all (fun t => t.flushEnd?.isNone) = true ∧
      (start.runFor 12).flushEnd? = some (.error (.custom "second")) ∧
      (deliveries (start.trail 12)).map (fun d => d.told.map (·.2)) =
        [[none, some (.custom "second"), some (.custom "third")]] ∧
      (start.runFor 12).model.store.pending.map (·.path) = ["b"] := by
    cases hm
    dsimp only [first, failing, data]
    exact ⟨_, _, rfl, rfl, rfl, rfl, rfl, rfl, rfl, rfl⟩
  have hunder : ∀ t ∈ start.trail 12, t.flushEnd? = none := fun t ht => by
    simpa using List.all_eq_true.1 hall t ht
  obtain ⟨-, -, -, herror, hresumes, -, -⟩ :=
    flush_outcome (.begin (.edit "a" (.set (.ofInt 1)))) hidle hbegin hdrain hunder
  obtain ⟨last, earlier, hds, hearlier, -, hlast⟩ := herror _ hend
  obtain ⟨-, hedit, -⟩ := hresumes _ hend
  have hresumed := hedit "a" (.set (.ofInt 1)) _ after none rfl happly
  rw [hds] at htold
  exact ⟨m, start, last, earlier, hm, hbegin, hdrain, hunder, hend, hds, hearlier,
    (List.cons.inj htold).1, hlast, hpending, hresumed, by rw [hresumed]; rfl⟩

end Run

end GuardedData
