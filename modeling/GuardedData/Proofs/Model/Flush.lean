import GuardedData.Proofs.Model.Run

/-!
# One flush at a time

A machine carries out a flush while it drains the queue and while it tells the callbacks of an
event, also when user code runs in between. The mark of the store says how many flushes are under
way, and it has room for one only (`Machine.marked_of_step?`). So nothing else is delivered while an
event is, and no flush is under way between two pieces of user code (`Run.flushing_of_idle`).
-/

namespace GuardedData

/-- The number of flushes that a control carries out. -/
def Control.flushes : Control → Nat
  | .drain | .deliver _ _ _ => 1
  | _ => 0

def Frame.flushes : Frame → Nat
  | .deliver _ _ _ => 1
  | _ => 0

namespace Machine

def framesFlushes : List Frame → Nat
  | [] => 0
  | frame :: stack => frame.flushes + framesFlushes stack

@[simp] lemma framesFlushes_cons (frame : Frame) (stack : List Frame) :
    framesFlushes (frame :: stack) = frame.flushes + framesFlushes stack := rfl

/-- The number of flushes under way. -/
def flushes (s : Machine) : Nat := s.control.flushes + framesFlushes s.stack

/-- Whether the mark of the store counts the flushes under way, next to some that never end. -/
def Marked (endless : Nat) (s : Machine) : Prop :=
  s.flushes + endless = s.model.store.flushing.toNat

variable {endless : Nat} {m : Model} {stack : List Frame}

lemma marked_run {p : Program} :
    Marked endless ⟨m, .run p, stack⟩ ↔
      framesFlushes stack + endless = m.store.flushing.toNat := by
  simp [Marked, flushes, Control.flushes]

lemma Marked.frames_eq_zero {s : Machine} (h : s.Marked endless) (hs : s.control.flushes = 1) :
    framesFlushes s.stack = 0 ∧ endless = 0 ∧ s.model.store.flushing = true := by
  have hle := Bool.toNat_le s.model.store.flushing
  simp only [Marked, flushes, hs] at h
  cases hflushing : s.model.store.flushing with
  | false =>
    simp [hflushing] at h
  | true =>
    simp only [hflushing, Bool.toNat_true] at h
    exact ⟨by omega, by omega, rfl⟩

lemma marked_beginFlush (next : Except ModelError Unit → Program)
    (h : framesFlushes stack + endless = m.store.flushing.toNat) :
    Marked endless (beginFlush stack m next) := by
  unfold beginFlush
  cases hflushing : m.store.flushing with
  | true =>
    simpa [runOn, marked_run, hflushing] using h
  | false =>
    simp only [hflushing, Bool.toNat_false] at h
    simp only [Bool.false_eq_true, if_false, Marked, flushes, Control.flushes, framesFlushes_cons,
      Frame.flushes, Model.setFlushing, Bool.toNat_true]
    omega

lemma marked_edit (path : String) (change : Edit)
    (next : Except ModelError (Option Value) → Program)
    (h : framesFlushes stack + endless = m.store.flushing.toNat) :
    Marked endless (edit stack m path change next) := by
  cases happly : change.apply path m.data with
  | error fault =>
    rw [edit_of_error happly]
    exact marked_run.2 h
  | ok result =>
    rw [edit_of_ok happly]
    cases m.store.mode with
    | immediate => exact marked_beginFlush _ h
    | deferred => exact marked_run.2 h

lemma marked_serve (request : Request) (next : request.Answer → Program)
    (h : framesFlushes stack + endless = m.store.flushing.toNat) :
    Marked endless (serve stack m request next) := by
  -- No frame that a request adds or takes away waits for a flush.
  have hframe (frame : Frame) (m' : Model) (p : Program) (hf : frame.flushes = 0)
      (hm : m'.store.flushing = m.store.flushing) :
      Marked endless (runOn (frame :: stack) m' p) := by
    apply marked_run.2
    rw [framesFlushes_cons, hf, hm, Nat.zero_add]
    exact h
  cases request with
  | edit path change => exact marked_edit path change next h
  | flush => exact marked_beginFlush next h
  | call name args =>
    simp only [serve]
    cases Entries.get? name m.methods with
    | none => exact marked_run.2 h
    | some method =>
      cases method with
      | sync body => exact hframe _ _ _ rfl rfl
      | async body => exact marked_run.2 h
  | computed name =>
    simp only [serve]
    cases Entries.get? name m.computed with
    | none => exact marked_run.2 h
    | some property => exact hframe _ _ _ rfl rfl
  | setComputed name value =>
    simp only [serve]
    cases Entries.get? name m.computed with
    | none => exact marked_run.2 h
    | some property =>
      cases property with
      | getter get => exact marked_run.2 h
      | accessor get set => exact hframe _ _ _ rfl rfl
  | start name args =>
    simp only [serve]
    cases Entries.get? name m.methods with
    | none => exact marked_run.2 h
    | some method =>
      cases method with
      | sync body => exact hframe _ _ _ rfl rfl
      | async body => exact marked_run.2 h
  | poll task =>
    simp only [serve]
    cases m.task? task with
    | none => exact marked_run.2 h
    | some p => exact hframe _ _ _ rfl rfl
  | pause =>
    simp only [serve, pause]
    cases stack with
    | nil => exact marked_run.2 h
    | cons frame stack =>
      cases frame with
      | poll task resumed =>
        apply marked_run.2
        simpa [Frame.flushes, Model.putTask] using h
      | _ => exact marked_run.2 h
  | _ => exact marked_run.2 h

/-! ### What waits -/

/-- How user code changes what waits for its result: not at all, by a call, or by giving way to the
poll that runs it. -/
inductive Turns : List Frame → List Frame → Prop
  | stays (stack : List Frame) : Turns stack stack
  | calls {frame : Frame} (h : frame.flushes = 0) (stack : List Frame) :
    Turns stack (frame :: stack)
  | yields (task : Nat) (next : Polled → Program) (stack : List Frame) :
    Turns (.poll task next :: stack) stack

lemma turns_beginFlush (stack : List Frame) (m : Model)
    (next : Except ModelError Unit → Program) : Turns stack (beginFlush stack m next).stack := by
  unfold beginFlush
  split
  · exact .stays stack
  · exact .calls rfl stack

lemma turns_edit (stack : List Frame) (m : Model) (path : String) (change : Edit)
    (next : Except ModelError (Option Value) → Program) :
    Turns stack (edit stack m path change next).stack := by
  cases happly : change.apply path m.data with
  | error fault =>
    rw [edit_of_error happly]
    exact .stays stack
  | ok result =>
    rw [edit_of_ok happly]
    cases m.store.mode with
    | immediate => exact turns_beginFlush stack _ _
    | deferred => exact .stays stack

lemma turns_serve (stack : List Frame) (m : Model) (request : Request)
    (next : request.Answer → Program) : Turns stack (serve stack m request next).stack := by
  cases request with
  | edit path change => exact turns_edit stack m path change next
  | flush => exact turns_beginFlush stack m next
  | call name args =>
    simp only [serve]
    cases Entries.get? name m.methods with
    | none => exact .stays stack
    | some method =>
      cases method with
      | sync body => exact .calls rfl stack
      | async body => exact .stays stack
  | computed name =>
    simp only [serve]
    cases Entries.get? name m.computed with
    | none => exact .stays stack
    | some property => exact .calls rfl stack
  | setComputed name value =>
    simp only [serve]
    cases Entries.get? name m.computed with
    | none => exact .stays stack
    | some property =>
      cases property with
      | getter get => exact .stays stack
      | accessor get set => exact .calls rfl stack
  | start name args =>
    simp only [serve]
    cases Entries.get? name m.methods with
    | none => exact .stays stack
    | some method =>
      cases method with
      | sync body => exact .calls rfl stack
      | async body => exact .stays stack
  | poll task =>
    simp only [serve]
    cases m.task? task with
    | none => exact .stays stack
    | some p => exact .calls rfl stack
  | pause =>
    simp only [serve, pause]
    cases stack with
    | nil => exact .stays []
    | cons frame stack =>
      cases frame with
      | poll task resumed => exact .yields task resumed stack
      | _ => exact .stays _
  | _ => exact .stays stack

lemma Turns.framesFlushes_eq {stack stack' : List Frame} (h : Turns stack stack') :
    framesFlushes stack' = framesFlushes stack := by
  cases h with
  | stays => rfl
  | calls h => rw [framesFlushes_cons, h, Nat.zero_add]
  | yields task next => exact (Nat.zero_add _).symm

/-! ### The mark -/

/-- A step keeps the mark. -/
theorem marked_of_step? {s t : Machine} (hs : s.step? = some t) (h : s.Marked endless) :
    t.Marked endless := by
  obtain ⟨m, control, stack⟩ := s
  cases control with
  | run p =>
    have hframes := marked_run.1 h
    cases p with
    | finish result =>
      cases hs
      exact h
    | ask request next =>
      cases hs
      exact marked_serve request next hframes
    | watch path body next =>
      cases hs
      exact marked_run.2 hframes
  | drain =>
    obtain ⟨hframes, hendless, -⟩ := h.frames_eq_zero rfl
    simp only [step?] at hs
    split at hs
    · cases hs
      simpa [endFlush, Marked, flushes, Control.flushes, Model.setFlushing, hframes] using hendless
    · rename_i event store hevent
      cases hs
      obtain ⟨rest, -, rfl⟩ := Store.eq_of_takeEvent? hevent
      simpa [Marked, flushes, Control.flushes] using h
  | deliver callbacks value failure =>
    cases callbacks with
    | nil =>
      obtain ⟨hframes, hendless, -⟩ := h.frames_eq_zero rfl
      cases failure with
      | none =>
        cases hs
        exact h
      | some e =>
        cases hs
        simpa [endFlush, Marked, flushes, Control.flushes, Model.setFlushing, hframes]
          using hendless
    | cons callback callbacks =>
      cases hs
      cases callback with
      | react body =>
        simpa [tell, runOn, Marked, flushes, Control.flushes, Frame.flushes] using h
      | settle path => simpa [tell, settle_fst, Marked, flushes, Control.flushes] using h
      | check schema path => simpa [tell, Marked, flushes, Control.flushes] using h
  | answer result =>
    cases stack with
    | nil => cases hs
    | cons frame stack =>
      cases hs
      cases frame <;> simpa [resume, runOn, Marked, flushes, Control.flushes, Frame.flushes,
        Model.addTask] using h

end Machine

namespace Run

variable {m m' : Model} {past : List Machine} {s : Machine} {result : Result}

lemma marked (h : Run m past s) : s.Marked m.store.flushing.toNat := by
  induction h with
  | begin p => simp [Machine.marked_run, Machine.framesFlushes]
  | step h hs ih => exact Machine.marked_of_step? hs ih
  | next h p ih => exact ih

/-- When an event is taken or told, no other one is being told. -/
theorem frames_eq_zero (h : Run m past s) (hs : s.control.flushes = 1) :
    Machine.framesFlushes s.stack = 0 := (h.marked.frames_eq_zero hs).1

/-- Between two pieces of user code no flush is under way, if there was none at first. -/
theorem flushing_of_idle (h : Run m past ⟨m', .answer result, []⟩)
    (hm : m.store.flushing = false) : m'.store.flushing = false := by
  have hmarked := h.marked
  rw [hm] at hmarked
  simp only [Machine.Marked, Machine.flushes, Machine.framesFlushes, Control.flushes,
    Bool.toNat_false, Nat.add_zero] at hmarked
  cases hflushing : m'.store.flushing with
  | false => rfl
  | true => simp [hflushing] at hmarked

end Run

end GuardedData
