import GuardedData.Proofs.Model.Flush

/-!
# Order of delivery

Every event that an edit queues is taken once, in the order of the queue, or is still in it. Once
taken it is told to the callbacks that are registered for its path at that moment, in the order of
their registration and whether or not one of them fails, before anything else is told
(`Run.told_append_untold_eq_summons`). User code between two callbacks can edit, flush and watch as
it likes.
-/

namespace GuardedData

namespace Machine

/-! ### What a step does to the queue and the callbacks -/

/-- The events that the next step queues. -/
def queued (s : Machine) : List Event :=
  match s.move with
  | .edit path change =>
    match change.apply path s.model.data with
    | .ok (after, _) => changes s.model.data after (s.model.store.affected path)
    | .error _ => []
  | _ => []

/-- The event that the next step takes from the queue. -/
def taken? (s : Machine) : Option Event :=
  match s.move with
  | .take => s.model.store.pending.head?
  | _ => none

/-- The callback that the next step tells, and the value that it tells it of. -/
def told? (s : Machine) : Option (Callback × Option Value) :=
  match s.move with
  | .tell callback value => some (callback, value)
  | _ => none

/-- The watcher that the next step registers. -/
def registered? (s : Machine) : Option (Watcher Callback) :=
  match s.move with
  | .watch path body => some ⟨path, .react body⟩
  | _ => none

/-- The callbacks that are still to be told of an event taken before. -/
def untold (s : Machine) : List (Callback × Option Value) := s.standing.untold

/-- What some watchers make of an event: those of exactly its path are told of its value. -/
def summoned (watchers : List (Watcher Callback)) (event : Event) :
    List (Callback × Option Value) :=
  (watchers.filter (·.path == event.path)).map fun w => (w.callback, event.value)

/-- What the events that are taken along some steps ask to be told, if some watchers are there at
first. Only what is registered and what is taken counts. -/
def summons (watchers : List (Watcher Callback)) : List Machine → List (Callback × Option Value)
  | [] => []
  | s :: later =>
    s.taken?.toList.flatMap (summoned watchers) ++
      summons (watchers ++ s.registered?.toList) later

lemma summons_append (watchers : List (Watcher Callback)) (past later : List Machine) :
    summons watchers (past ++ later) =
      summons watchers past ++ summons (watchers ++ past.filterMap registered?) later := by
  induction past generalizing watchers with
  | nil => simp [summons]
  | cons s past ih =>
    rw [List.cons_append, summons, ih, summons]
    cases hs : s.registered? <;> simp [hs]

variable {s t : Machine}

lemma pending_of_step? (h : s.step? = some t) :
    s.model.store.pending ++ s.queued = s.taken?.toList ++ t.model.store.pending := by
  have hstanding := congrArg (·.store.pending) (standing_of_step? h)
  change t.model.store.pending = _ at hstanding
  rw [hstanding]
  simp only [queued, taken?]
  cases hmove : s.move with
  | edit path change =>
    simp only [Standing.after, Store.edit, standing, Store.atRest, Model.data, Store.affected,
      Store.watchedPaths]
    cases change.apply path s.model.store.tree <;> simp
  | take =>
    simp only [Standing.after, Store.takeEvent?, standing, Store.atRest]
    cases s.model.store.pending <;> simp
  | tell callback value => cases callback <;> simp [Standing.after, standing, Store.atRest]
  | _ => simp [Standing.after, standing, Store.atRest, Store.watch]

lemma watchers_of_step? (h : s.step? = some t) :
    t.model.store.watchers = s.model.store.watchers ++ s.registered?.toList := by
  have hstanding := congrArg (·.store.watchers) (standing_of_step? h)
  change t.model.store.watchers = _ at hstanding
  rw [hstanding]
  simp only [registered?]
  cases hmove : s.move with
  | edit path change =>
    simp only [Standing.after, Store.edit, standing, Store.atRest]
    cases change.apply path s.model.store.tree <;> simp
  | take =>
    simp only [Standing.after, Store.takeEvent?, standing, Store.atRest]
    cases s.model.store.pending <;> simp
  | tell callback value => cases callback <;> simp [Standing.after, standing, Store.atRest]
  | _ => simp [Standing.after, standing, Store.atRest, Store.watch]

lemma flatMap_untold_of_framesFlushes {stack : List Frame} (h : framesFlushes stack = 0) :
    stack.flatMap Frame.untold = [] := by
  induction stack with
  | nil => rfl
  | cons frame stack ih =>
    rw [framesFlushes_cons, Nat.add_eq_zero_iff] at h
    cases frame with
    | deliver callbacks value failure => simp [Frame.flushes] at h
    | _ => simpa [Frame.untold] using ih h.2

/-- User code tells nobody and takes nothing, whatever it asks for. -/
lemma moveOf_ne (m : Model) (request : Request) :
    moveOf m request ≠ .take ∧ ∀ callback value, moveOf m request ≠ .tell callback value := by
  cases request <;> simp only [moveOf] <;> try split
  all_goals simp

lemma control_of_move_take (h : s.move = .take) : s.control = .drain := by
  obtain ⟨m, control, stack⟩ := s
  cases control with
  | run p =>
    cases p with
    | ask request next => exact absurd h (moveOf_ne m request).1
    | _ => cases h
  | drain => rfl
  | deliver callbacks value failure => cases callbacks <;> cases h
  | answer result => cases h

lemma untold_of_move_tell {callback : Callback} {value : Option Value}
    (h : s.move = .tell callback value) : ∃ rest, s.untold = (callback, value) :: rest := by
  obtain ⟨m, control, stack⟩ := s
  cases control with
  | run p =>
    cases p with
    | ask request next => exact absurd h ((moveOf_ne m request).2 callback value)
    | _ => cases h
  | deliver callbacks told failure =>
    cases callbacks with
    | nil => cases h
    | cons first callbacks =>
      cases h
      exact ⟨_, rfl⟩
  | _ => cases h

lemma move_of_told? {told : Callback × Option Value} (h : s.told? = some told) :
    s.move = .tell told.1 told.2 := by
  unfold told? at h
  split at h
  · cases h
    assumption
  · cases h

/-- While nothing waits in the frames, an event that is taken is the only one to be told. -/
lemma untold_of_step? (h : s.step? = some t)
    (hframes : s.control.flushes = 1 → framesFlushes s.stack = 0) :
    s.told?.toList ++ t.untold =
      s.untold ++ s.taken?.toList.flatMap (summoned s.model.store.watchers) := by
  have hstanding := congrArg (·.untold) (standing_of_step? h)
  change t.untold = _ at hstanding
  rw [hstanding]
  simp only [told?, taken?]
  cases hmove : s.move with
  | edit path change =>
    simp only [Standing.after]
    split <;> simp [untold]
  | take =>
    have hcontrol := control_of_move_take hmove
    have hframes := hframes (by rw [hcontrol]; rfl)
    have hnil : s.untold = [] := by
      simp [untold, standing, hcontrol, Control.untold, flatMap_untold_of_framesFlushes hframes]
    rw [hnil]
    have huntold : s.standing.untold = [] := hnil
    simp only [Standing.after, Store.takeEvent?, standing, Store.atRest] at huntold ⊢
    cases s.model.store.pending with
    | nil => simpa using huntold
    | cons event rest => simp [huntold, Store.callbacks, summoned]
  | tell callback value =>
    obtain ⟨rest, hrest⟩ := untold_of_move_tell hmove
    have huntold : s.standing.untold = (callback, value) :: rest := hrest
    cases callback <;> simp [Standing.after, huntold, hrest]
  | _ => simp [Standing.after, untold]

end Machine

/-- A move leaves only callbacks of watchers to be told. -/
lemma Standing.registered_after {a : Standing}
    (h : ∀ told ∈ a.untold, ∃ w ∈ a.store.watchers, w.callback = told.1) (move : Move) :
    ∀ told ∈ (a.after move).untold, ∃ w ∈ (a.after move).store.watchers, w.callback = told.1 := by
  obtain ⟨later, hw, -⟩ := a.watchers_after move
  have hkept {told : Callback × Option Value} (hmem : told ∈ a.untold) :
      ∃ w ∈ (a.after move).store.watchers, w.callback = told.1 := by
    obtain ⟨w, hwatcher, he⟩ := h told hmem
    exact ⟨w, by rw [hw]; exact List.mem_append_left _ hwatcher, he⟩
  intro told hmem
  cases move with
  | edit path change =>
    refine hkept ?_
    simp only [after] at hmem
    split at hmem <;> exact hmem
  | take =>
    cases htake : a.store.takeEvent? with
    | none => exact hkept (by simpa [after, htake] using hmem)
    | some taken =>
      obtain ⟨event, store⟩ := taken
      simp only [after, htake] at hmem ⊢
      rcases List.mem_append.1 hmem with hnew | hold
      · obtain ⟨callback, hcallback, rfl⟩ := List.mem_map.1 hnew
        obtain ⟨w, hwatcher, rfl⟩ := List.mem_map.1 hcallback
        exact ⟨w, (List.mem_filter.1 hwatcher).1, rfl⟩
      · simpa [after, htake] using hkept hold
  | tell callback value =>
    refine hkept (List.mem_of_mem_tail ?_)
    cases callback <;> exact hmem
  | _ => exact hkept hmem

open Machine

/-! ### What a run does to them -/

namespace Run

variable {m : Model} {past : List Machine} {s : Machine}

lemma pending_append_queued (h : Run m past s) :
    m.store.pending ++ past.flatMap queued = past.filterMap taken? ++ s.model.store.pending := by
  induction h with
  | begin p => simp
  | @step past s t h hs ih =>
    have hstep := pending_of_step? hs
    calc m.store.pending ++ (past ++ [s]).flatMap queued
        = past.filterMap taken? ++ (s.model.store.pending ++ s.queued) := by
          rw [List.flatMap_append, ← List.append_assoc, ih]
          simp
      _ = (past ++ [s]).filterMap taken? ++ t.model.store.pending := by
          rw [hstep]
          cases hs : s.taken? <;> simp [hs]
  | next h p ih => exact ih

lemma watchers_append_registered (h : Run m past s) :
    s.model.store.watchers = m.store.watchers ++ past.filterMap registered? := by
  induction h with
  | begin p => simp
  | @step past s t h hs ih =>
    rw [watchers_of_step? hs, ih]
    cases hs : s.registered? <;> simp [hs]
  | next h p ih => exact ih

lemma told_append_untold (h : Run m past s) :
    past.filterMap told? ++ s.untold = summons m.store.watchers past := by
  induction h with
  | begin p => rfl
  | @step past s t h hs ih =>
    have hstep := untold_of_step? hs h.frames_eq_zero
    have hlast : summons m.store.watchers (past ++ [s]) = summons m.store.watchers past ++
        s.taken?.toList.flatMap (summoned s.model.store.watchers) := by
      rw [summons_append, ← h.watchers_append_registered, summons, summons, List.append_nil]
    calc (past ++ [s]).filterMap told? ++ t.untold
        = past.filterMap told? ++ (s.told?.toList ++ t.untold) := by
          cases hs : s.told? <;> simp [hs]
      _ = summons m.store.watchers (past ++ [s]) := by
          rw [hstep, ← List.append_assoc, ih, hlast]
  | next h p ih => exact ih

/-- A callback that is told is that of a watcher. -/
lemma exists_watcher_of_told? (h : Run m past s) {told : Callback × Option Value}
    (htold : s.told? = some told) : ∃ w ∈ s.model.store.watchers, w.callback = told.1 := by
  have huntold := h.invariant
    (P := fun a => ∀ told ∈ a.untold, ∃ w ∈ a.store.watchers, w.callback = told.1)
    (by simp [Model.standing]) fun t _ ht => Standing.registered_after ht t.move
  obtain ⟨rest, hrest⟩ := untold_of_move_tell (move_of_told? htold)
  refine huntold told ?_
  change told ∈ s.untold
  rw [hrest]
  exact List.mem_cons_self

/-- Along any run, what has been queued is what has been taken, followed by the queue; and what has
been told, followed by what is still to be told, is what the events that have been taken ask for.
Where nothing runs nothing is still to be told. -/
theorem told_append_untold_eq_summons (h : Run m past s) :
    m.store.pending ++ past.flatMap queued = past.filterMap taken? ++ s.model.store.pending ∧
    past.filterMap told? ++ s.untold = summons m.store.watchers past ∧
    (s.outcome?.isSome = true → s.untold = []) := by
  refine ⟨h.pending_append_queued, h.told_append_untold, ?_⟩
  intro hidle
  obtain ⟨m', control, stack⟩ := s
  cases control with
  | answer result =>
    cases stack with
    | nil => rfl
    | cons frame stack => simp [outcome?] at hidle
  | _ => simp [outcome?] at hidle

/-- A callback edits the data, watches a path and fails; the other callback of its event is told all
the same, and the event of the edit waits for the next flush, where the new watcher comes last. -/
theorem told_append_untold_eq_summons_reentrant :
    let late : Option Value → Program := fun _ => .pure (.ofInt 3)
    let first : Option Value → Program := fun _ =>
      .ask (.edit "b" (.set (.ofInt 7))) fun _ => .watch "b" late (.fail (.custom "first"))
    let second : Option Value → Program := fun _ => .ask .flush fun _ => .pure (.ofInt 1)
    let third : Option Value → Program := fun _ => .pure (.ofInt 2)
    let data : Value := .object [("a", .ofInt 0), ("b", .ofInt 0)]
    let start (m : Model) (p : Program) : Machine := ⟨m, .run p, []⟩
    ∃ m past m', Model.create
        { data := some data, watch := [("a", first), ("b", third), ("a", second)] }
        { immutable := false } .development = .ok m ∧
      Machine.runFor 30 (start m (.edit "a" (.set (.ofInt 1)))) =
        ⟨m', .answer (.error (.custom "first")), []⟩ ∧
      m'.store.pending.map (·.path) = ["b"] ∧
      past = Machine.trail 30 (start m (.edit "a" (.set (.ofInt 1)))) ++
        Machine.trail 30 (start m' (.ask .flush fun _ => .pure .null)) ∧
      past.filterMap told? = summons m.store.watchers past ∧
      past.filterMap told? = [(.react first, some (.ofInt 1)), (.react second, some (.ofInt 1)),
        (.react third, some (.ofInt 7)), (.react late, some (.ofInt 7))] := by
  have htold (m m' : Model) (p p' : Program) (result : Result)
      (hend : Machine.runFor 30 ⟨m, .run p, []⟩ = ⟨m', .answer result, []⟩)
      (hidle : (Machine.runFor 30 ⟨m', .run p', []⟩).outcome?.isSome = true) :
      (Machine.trail 30 ⟨m, .run p, []⟩ ++ Machine.trail 30 ⟨m', .run p', []⟩).filterMap told? =
        summons m.store.watchers
          (Machine.trail 30 ⟨m, .run p, []⟩ ++ Machine.trail 30 ⟨m', .run p', []⟩) := by
    have hfirst := (Run.begin (m := m) p).runFor 30
    rw [hend] at hfirst
    obtain ⟨-, htold, hnone⟩ := told_append_untold_eq_summons ((hfirst.next p').runFor 30)
    rwa [hnone hidle, List.append_nil] at htold
  dsimp only
  exact ⟨_, _, _, rfl, rfl, rfl, rfl, htold _ _ _ _ _ rfl rfl, rfl⟩

end Run

end GuardedData
