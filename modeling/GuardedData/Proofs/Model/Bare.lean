import GuardedData.Proofs.Model.Conduct
import GuardedData.Proofs.Model.Creation
import GuardedData.Proofs.Model.Order

/-!
# Models without their enforcement

Take from a model its guard, the watchers that are no user code and the events that only these are
told of. User code that asks for none of this can not tell the difference: each step of a machine is
at most two steps of the bare one, as long as no callback objects (`Machine.followed_of_step?`).
User watchers have to come first for that, or the bare model might queue its events in another
order.
-/

namespace GuardedData

def Callback.reacts : Callback → Bool
  | .react _ => true
  | _ => false

/-! ### Taking enforcement away -/

/-- Whether user code watches a path. -/
def Store.heeds (s : Store Callback) (path : String) : Bool :=
  s.watchers.any fun w => w.callback.reacts && w.path == path

/-- The store with user watchers alone. -/
def Store.bare (s : Store Callback) : Store Callback :=
  { s with
    watchers := s.watchers.filter (·.callback.reacts)
    pending := s.pending.filter (s.heeds ·.path) }

def Model.bare (m : Model) : Model :=
  { m with store := m.store.bare, guard := none, watchPaths := [], environment := .production }

/-- The control of a bare machine. An event that no user code is told of has never been taken
there. -/
def Control.bare : Control → Control
  | .deliver callbacks value failure =>
    match callbacks.filter (·.reacts), failure with
    | [], none => .drain
    | callbacks, failure => .deliver callbacks value failure
  | control => control

def Frame.bare : Frame → Frame
  | .deliver callbacks value failure => .deliver (callbacks.filter (·.reacts)) value failure
  | frame => frame

/-- The machine without the enforcement of its model. -/
def Machine.bare (s : Machine) : Machine := ⟨s.model.bare, s.control.bare, s.stack.map Frame.bare⟩

/-- User code that knows nothing of enforcement and watches nothing of its own accord. -/
def Conduct.oblivious : Conduct where
  asks request := match request with
    | .credits | .pending | .environment => False
    | _ => True
  watches := False
  fails _ := True
  fails_of_isRefusal _ _ := trivial

/-! ### Stores -/

/-- Whether the watchers that run user code come before all others. -/
def Store.UsersFirst (s : Store Callback) : Prop :=
  ∃ users others, s.watchers = users ++ others ∧ (∀ w ∈ users, w.callback.reacts = true) ∧
    ∀ w ∈ others, w.callback.reacts = false

lemma changes_filter (before after : Value) (paths : List String) (keep : String → Bool) :
    (changes before after paths).filter (keep ·.path) =
      changes before after (paths.filter keep) := by
  rw [changes_eq_map, changes_eq_map, List.filter_map, List.filter_filter, List.filter_filter]
  congr 2
  funext w
  exact Bool.and_comm _ _

namespace Store

variable {s s' : Store Callback}

lemma UsersFirst.congr (h : s.UsersFirst) (hw : s'.watchers = s.watchers) : s'.UsersFirst := by
  rwa [UsersFirst, hw]

lemma heeds_congr (hw : s'.watchers = s.watchers) : s'.heeds = s.heeds := by
  funext path
  rw [heeds, heeds, hw]

lemma callbacks_bare (s : Store Callback) (path : String) :
    s.bare.callbacks path = (s.callbacks path).filter (·.reacts) := by
  simp [callbacks, bare, List.filter_map, List.filter_filter, Function.comp_def, Bool.and_comm]

lemma heeds_iff {path : String} :
    s.heeds path = true ↔ (s.callbacks path).filter (·.reacts) ≠ [] := by
  simp [heeds, callbacks, List.filter_eq_nil_iff, and_comm, and_left_comm]

/-- User code watches the paths of its watchers. -/
lemma heeds_iff_mem {users others : List (Watcher Callback)} (hw : s.watchers = users ++ others)
    (husers : ∀ w ∈ users, w.callback.reacts = true)
    (hothers : ∀ w ∈ others, w.callback.reacts = false) {path : String} :
    s.heeds path = true ↔ path ∈ users.map (·.path) := by
  rw [heeds, hw, List.any_append, Bool.or_eq_true, List.any_eq_true, List.any_eq_true]
  constructor
  · rintro (⟨w, hmem, hpath⟩ | ⟨w, hmem, hpath⟩)
    · rw [husers w hmem, Bool.true_and, beq_iff_eq] at hpath
      exact List.mem_map.2 ⟨w, hmem, hpath⟩
    · rw [hothers w hmem, Bool.false_and] at hpath
      cases hpath
  · intro hpath
    obtain ⟨w, hmem, rfl⟩ := List.mem_map.1 hpath
    exact Or.inl ⟨w, hmem, by simp [husers w hmem]⟩

lemma watchers_bare {users others : List (Watcher Callback)} (hw : s.watchers = users ++ others)
    (husers : ∀ w ∈ users, w.callback.reacts = true)
    (hothers : ∀ w ∈ others, w.callback.reacts = false) : s.bare.watchers = users := by
  rw [bare, hw, List.filter_append, List.filter_eq_self.2 husers,
    List.filter_eq_nil_iff.2 (by simpa using hothers), List.append_nil]

lemma watchedPaths_bare (h : s.UsersFirst) :
    s.bare.watchedPaths = s.watchedPaths.filter s.heeds := by
  obtain ⟨users, others, hw, husers, hothers⟩ := h
  have hbare := watchers_bare hw husers hothers
  have hheeds (path : String) : s.heeds path = true ↔ path ∈ users.map (·.path) :=
    heeds_iff_mem hw husers hothers
  rw [watchedPaths, hbare, watchedPaths, hw, List.map_append, List.eraseDups_append,
    List.filter_append,
    List.filter_eq_self.2 fun path hpath => (hheeds path).2 (List.mem_eraseDups.1 hpath),
    List.filter_eq_nil_iff.2, List.append_nil]
  intro path hpath
  rw [hheeds]
  simpa using (List.mem_filter.1 (List.mem_eraseDups.1 hpath)).2

lemma affected_bare (h : s.UsersFirst) (path : String) :
    s.bare.affected path = (s.affected path).filter s.heeds := by
  rw [affected, watchedPaths_bare h, affected, List.filter_filter, List.filter_filter]
  congr 1
  funext w
  exact Bool.and_comm _ _

end Store

/-! ### How a bare model is made -/

namespace Model

variable {d : Definition} {o : Options} {current : Environment} {m : Model}

lemma reacts_of_mem_unchecked {data : Value} {environment : Environment} :
    ∀ w ∈ (unchecked d data o environment).store.watchers, w.callback.reacts = true := by
  intro w hw
  obtain ⟨watch, -, rfl⟩ := List.mem_map.1 hw
  rfl

lemma not_reacts_of_mem_enforcers {s : Schema} : ∀ w ∈ (m.enforcers s).map
    fun (path, callback) => (⟨path, callback⟩ : Watcher Callback), w.callback.reacts = false := by
  intro w hw
  obtain ⟨⟨path, callback⟩, hmem, rfl⟩ := List.mem_map.1 hw
  rcases List.mem_append.1 hmem with hmem | hmem
  · split at hmem
    · obtain ⟨p, -, he⟩ := List.mem_map.1 hmem
      cases he
      rfl
    · cases hmem
  · obtain ⟨p, -, he⟩ := List.mem_map.1 hmem
    cases he
    rfl

/-- A model is made by adding watchers that are no user code, if any. -/
lemma exists_of_create (hm : create d o current = .ok m) : ∃ data others, d.data = some data ∧
    data.handleName?.isSome = false ∧ (∀ w ∈ others, w.callback.reacts = false) ∧
    m = { unchecked d data o (o.resolve current) with store :=
      { (unchecked d data o (o.resolve current)).store with
          watchers := (unchecked d data o (o.resolve current)).store.watchers ++ others } } := by
  cases hdata : d.data with
  | none => simp [create, hdata] at hm
  | some data =>
    rw [create, hdata] at hm
    simp only at hm
    split at hm
    · cases hm
    · rename_i hhandle
      have hhandle : data.handleName?.isSome = false := by simpa using hhandle
      cases hschema : d.schema with
      | none =>
        rw [hschema] at hm
        cases hm
        exact ⟨data, [], rfl, hhandle, by simp, by simp⟩
      | some s =>
        simp only [hschema] at hm
        split at hm
        · cases hm
          exact ⟨data, [], rfl, hhandle, by simp, by simp⟩
        · split at hm
          · cases hm
          · cases hm
            exact ⟨data, _, rfl, hhandle, not_reacts_of_mem_enforcers, watchAll_eq _ _⟩

/-- A model that has just been made has the watchers that run user code first. -/
lemma usersFirst_of_create (hm : create d o current = .ok m) : m.store.UsersFirst ∧
    ∀ path, m.store.heeds path = (d.watch.map (·.1)).contains path := by
  obtain ⟨data, others, -, -, hothers, rfl⟩ := exists_of_create hm
  refine ⟨⟨_, others, rfl, reacts_of_mem_unchecked, hothers⟩, fun path => ?_⟩
  rw [Bool.eq_iff_iff, Store.heeds_iff_mem rfl reacts_of_mem_unchecked hothers,
    List.contains_iff_mem, unchecked, List.map_map]
  rfl

/-- All code of a model that has just been made is that of its definition. -/
lemma keeps_of_create {c : Conduct} (hm : create d o current = .ok m) (h : d.Keeps c) :
    m.Keeps c := by
  obtain ⟨data, others, -, -, hothers, rfl⟩ := exists_of_create hm
  refine ⟨h.members, fun w hw => ?_, by simp [unchecked]⟩
  rcases List.mem_append.1 hw with hw | hw
  · obtain ⟨⟨path, body⟩, hmem, rfl⟩ := List.mem_map.1 hw
    exact h.watch path body hmem
  · have hnot := hothers w hw
    cases hcallback : w.callback with
    | react body => simp [hcallback, Callback.reacts] at hnot
    | _ => trivial

/-- What can be made in development can be made in production, and is the same without its
enforcement. -/
theorem create_production (hm : create d o current = .ok m)
    (hdev : o.resolve current = .development) {o' : Options} {current' : Environment}
    (hflush : o'.flush = o.flush) (hprod : o'.resolve current' = .production) :
    create d o' current' = .ok m.bare := by
  obtain ⟨data, others, hdata, hhandle, hothers, rfl⟩ := exists_of_create hm
  rw [hdev]
  have hfilter : ((unchecked d data o .development).store.watchers ++ others).filter
      (·.callback.reacts) = (unchecked d data o' .production).store.watchers :=
    Store.watchers_bare (s := { (unchecked d data o .development).store with watchers := _ }) rfl
      reacts_of_mem_unchecked hothers
  have hmade : create d o' current' = .ok (unchecked d data o' .production) := by
    rw [create, hdata]
    simp only [hhandle, hprod]
    cases d.schema <;> rfl
  rw [hmade]
  simp only [bare, Store.bare, hfilter]
  cases hschema : d.schema <;>
    simp [unchecked, hschema, Environment.isProduction, hflush]

end Model

/-! ### Steps -/

namespace Machine

lemma bare_edited {m : Model} (h : m.store.UsersFirst) (path : String) (tree : Value) :
    (m.edited path tree).bare = m.bare.edited path tree := by
  have hpending : (m.store.pending ++ changes m.store.tree tree (m.store.affected path)).filter
      (m.store.heeds ·.path) = m.store.bare.pending ++
        changes m.store.tree tree (m.store.bare.affected path) := by
    rw [List.filter_append, changes_filter, Store.affected_bare h]
    rfl
  have hbare : (m.edited path tree).bare = { m.bare with store := { m.bare.store with
      tree, pending := (m.store.pending ++
        changes m.store.tree tree (m.store.affected path)).filter (m.store.heeds ·.path) } } := rfl
  rw [hbare, hpending]
  rfl

lemma bare_beginFlush (stack : List Frame) (m : Model)
    (next : Except ModelError Unit → Program) :
    (beginFlush stack m next).bare = beginFlush (stack.map Frame.bare) m.bare next := by
  have hflushing : m.bare.store.flushing = m.store.flushing := rfl
  unfold beginFlush
  rw [hflushing]
  split <;> rfl

lemma bare_edit {m : Model} (h : m.store.UsersFirst) (stack : List Frame) (path : String)
    (change : Edit) (next : Except ModelError (Option Value) → Program) :
    (edit stack m path change next).bare =
      edit (stack.map Frame.bare) m.bare path change next := by
  cases happly : change.apply path m.data with
  | error fault =>
    rw [edit_of_error happly, edit_of_error (m := m.bare) happly]
    rfl
  | ok result =>
    rw [edit_of_ok happly, edit_of_ok (m := m.bare) happly]
    have hmode : m.bare.store.mode = m.store.mode := rfl
    rw [hmode, ← bare_edited h]
    cases m.store.mode with
    | immediate => exact bare_beginFlush stack _ _
    | deferred => rfl

/-- User code that asks nothing about enforcement is served alike. -/
lemma bare_serve {m : Model} (h : m.store.UsersFirst) (stack : List Frame) {request : Request}
    (hasks : Conduct.oblivious.asks request) (next : request.Answer → Program) :
    (serve stack m request next).bare = serve (stack.map Frame.bare) m.bare request next := by
  have hmethods : m.bare.methods = m.methods := rfl
  have hcomputed : m.bare.computed = m.computed := rfl
  have htask (task : Nat) : m.bare.task? task = m.task? task := rfl
  cases request with
  | value path => rfl
  | credits => exact hasks.elim
  | pending => exact hasks.elim
  | environment => exact hasks.elim
  | note entry => rfl
  | edit path change => exact bare_edit h stack path change next
  | flush => exact bare_beginFlush stack m next
  | call name args =>
    simp only [serve, hmethods]
    cases Entries.get? name m.methods with
    | none => rfl
    | some method => cases method <;> rfl
  | computed name =>
    simp only [serve, hcomputed]
    cases Entries.get? name m.computed <;> rfl
  | setComputed name value =>
    simp only [serve, hcomputed]
    cases Entries.get? name m.computed with
    | none => rfl
    | some property => cases property <;> rfl
  | start name args =>
    simp only [serve, hmethods]
    cases Entries.get? name m.methods with
    | none => rfl
    | some method => cases method <;> rfl
  | poll task =>
    simp only [serve, htask]
    cases m.task? task <;> rfl
  | drop task => rfl
  | pause =>
    simp only [serve, pause]
    cases stack with
    | nil => rfl
    | cons frame stack => cases frame <;> rfl

/-- Whether some steps of the bare machine do what one step of a machine does: they come to the same
state, tell the same user code, and leave the model alone before they are through. -/
def Followed (s t : Machine) : Prop :=
  ∃ k, runFor k s.bare = t.bare ∧
    (trail k s.bare).filterMap told? = s.told?.toList.filter (·.1.reacts) ∧
    ∀ j < k, (runFor j s.bare).model = s.model.bare

namespace Followed

variable {s t : Machine}

lemma once (h : s.bare.step? = some t.bare)
    (htold : s.bare.told?.toList = s.told?.toList.filter (·.1.reacts)) : Followed s t := by
  refine ⟨1, by simp [runFor, h], ?_, ?_⟩
  · rw [← htold]
    cases hs : s.bare.told? <;> simp [trail, h, hs]
  · intro j hj
    rw [Nat.lt_one_iff.1 hj]
    rfl

lemma not_at_all (h : s.bare = t.bare) (htold : s.told?.toList.filter (·.1.reacts) = []) :
    Followed s t := ⟨0, h, htold.symm, fun j hj => absurd hj (Nat.not_lt_zero j)⟩

end Followed

lemma told?_run (m : Model) (p : Program) (stack : List Frame) :
    told? ⟨m, .run p, stack⟩ = none := by
  rw [Option.eq_none_iff_forall_ne_some]
  rintro ⟨callback, value⟩ h
  unfold told? at h
  split at h
  · rename_i hmove
    cases p with
    | ask request next => exact (moveOf_ne m request).2 _ _ hmove
    | _ => cases hmove
  · cases h

lemma bare_deliver (m : Model) (callbacks : List Callback) (value : Option Value)
    (failure : Option ModelError) (stack : List Frame)
    (h : callbacks.filter (·.reacts) ≠ [] ∨ failure ≠ none) :
    bare ⟨m, .deliver callbacks value failure, stack⟩ =
      ⟨m.bare, .deliver (callbacks.filter (·.reacts)) value failure, stack.map Frame.bare⟩ := by
  simp only [bare, Control.bare]
  split
  · rename_i hnil
    exact absurd hnil (h.resolve_right (by simp))
  · rfl

lemma bare_deliver_nil (m : Model) (callbacks : List Callback) (value : Option Value)
    (stack : List Frame) (h : callbacks.filter (·.reacts) = []) :
    bare ⟨m, .deliver callbacks value none, stack⟩ = ⟨m.bare, .drain, stack.map Frame.bare⟩ := by
  simp [bare, Control.bare, h]

/-- An event that user code is told of is taken from both queues, and any other one only from the
longer queue. -/
lemma followed_drain (m : Model) (stack : List Frame) {t : Machine}
    (h : step? ⟨m, .drain, stack⟩ = some t) : Followed ⟨m, .drain, stack⟩ t := by
  have htold {s : Machine} (hs : s.control = .drain) : s.told? = none := by
    simp [told?, move, hs]
  have hbare : bare ⟨m, .drain, stack⟩ = ⟨m.bare, .drain, stack.map Frame.bare⟩ := rfl
  have hqueue : m.bare.store.pending = m.store.pending.filter (m.store.heeds ·.path) := rfl
  cases hpending : m.store.pending with
  | nil =>
    rw [hpending, List.filter_nil] at hqueue
    simp only [step?, Store.takeEvent?, hpending] at h
    cases h
    refine .once ?_ (by rw [htold rfl, htold rfl]; rfl)
    rw [hbare, step?, Store.takeEvent?, hqueue]
    rfl
  | cons event rest =>
    let left : Model := { m with store := { m.store with pending := rest } }
    have ht : t = ⟨left, .deliver (m.store.callbacks event.path) event.value none, stack⟩ := by
      simp only [step?, Store.takeEvent?, hpending] at h
      exact (Option.some.inj h).symm
    have hleft : left.bare = { m.bare with store := { m.bare.store with
        pending := rest.filter (m.store.heeds ·.path) } } := rfl
    rw [hpending, List.filter_cons] at hqueue
    subst ht
    cases hheeds : m.store.heeds event.path with
    | true =>
      rw [hheeds, if_pos rfl] at hqueue
      refine .once ?_ (by rw [htold rfl, htold rfl]; rfl)
      rw [bare_deliver _ _ _ _ _ (Or.inl (Store.heeds_iff.1 hheeds)), hbare, step?,
        Store.takeEvent?, hqueue, hleft, ← Store.callbacks_bare]
      rfl
    | false =>
      have hnone : (m.store.callbacks event.path).filter (·.reacts) = [] := by
        rw [← not_not (a := _ = _), ← ne_eq, ← Store.heeds_iff, hheeds]
        exact Bool.noConfusion
      rw [hheeds, if_neg Bool.noConfusion] at hqueue
      refine .not_at_all ?_ (by rw [htold rfl]; rfl)
      rw [bare_deliver_nil _ _ _ _ hnone, hbare, hleft, ← hqueue]

/-- Only user code is told anything on the bare machine. -/
lemma followed_tell (m : Model) (callback : Callback) (callbacks : List Callback)
    (value : Option Value) (failure : Option ModelError) (stack : List Frame)
    (hobject : objection? m value callback = none) :
    Followed ⟨m, .deliver (callback :: callbacks) value failure, stack⟩
      (tell stack m callbacks value failure callback) := by
  cases callback with
  | react body =>
    have hbare := bare_deliver m (.react body :: callbacks) value failure stack
      (Or.inl (by simp [Callback.reacts]))
    have hfilter : (Callback.react body :: callbacks).filter (·.reacts) =
        .react body :: callbacks.filter (·.reacts) := by simp [Callback.reacts]
    rw [hfilter] at hbare
    refine .once ?_ ?_
    · rw [hbare]
      rfl
    · rw [hbare]
      rfl
  | settle path =>
    have hsettle : (m.settle path).1.bare = m.bare := by rw [settle_fst]; rfl
    have htell : tell stack m callbacks value failure (.settle path) = ⟨(m.settle path).1,
      .deliver callbacks value (failure.or (objection? m value (.settle path))), stack⟩ := rfl
    refine .not_at_all ?_ rfl
    rw [htell, hobject, Option.or_none]
    simp only [bare, hsettle]
    rfl
  | check schema path =>
    have htell : tell stack m callbacks value failure (.check schema path) = ⟨m,
      .deliver callbacks value (failure.or (objection? m value (.check schema path))), stack⟩ := rfl
    refine .not_at_all ?_ rfl
    rw [htell, hobject, Option.or_none]
    rfl

/-- A watcher that has run hands back to the delivery, and the bare machine ends a delivery that is
over at once. -/
lemma followed_answer (m : Model) (result : Result) (frame : Frame) (stack : List Frame) :
    Followed ⟨m, .answer result, frame :: stack⟩ (resume stack m result frame) := by
  cases frame with
  | deliver callbacks value failure =>
    have hstep : step? (bare ⟨m, .answer result, .deliver callbacks value failure :: stack⟩) =
        some ⟨m.bare, .deliver (callbacks.filter (·.reacts)) value
          (failure.or (resume.errorOf result)), stack.map Frame.bare⟩ := rfl
    by_cases hover : callbacks.filter (·.reacts) ≠ [] ∨ failure.or (resume.errorOf result) ≠ none
    · refine .once ?_ rfl
      rw [hstep, resume, bare_deliver _ _ _ _ _ hover]
    · rw [not_or, not_not, not_not] at hover
      obtain ⟨hnil, hnone⟩ := hover
      rw [hnil, hnone] at hstep
      have hdrain : step? ⟨m.bare, .deliver [] value none, stack.map Frame.bare⟩ =
          some ⟨m.bare, .drain, stack.map Frame.bare⟩ := rfl
      refine ⟨2, ?_, ?_, ?_⟩
      · rw [resume, hnone, bare_deliver_nil _ _ _ _ hnil]
        simp only [runFor, hstep, hdrain]
      · simp only [trail, hstep, hdrain]
        rfl
      · intro j hj
        obtain rfl | rfl : j = 0 ∨ j = 1 := by omega
        · rfl
        · simp only [runFor, hstep]
  | _ => exact .once rfl rfl

/-- **Enforcement stays out of the way**: while no callback objects, what a machine does on code
that knows nothing of enforcement, the bare machine does as well. -/
theorem followed_of_step? {s t : Machine} (h : s.step? = some t)
    (hfirst : s.model.store.UsersFirst) (hkeeps : s.Keeps .oblivious)
    (hobject : s.objected? = none) : Followed s t := by
  obtain ⟨m, control, stack⟩ := s
  obtain ⟨-, hcontrol, -⟩ := hkeeps
  cases control with
  | run p =>
    refine .once ?_ (by rw [told?_run]; exact congrArg _ (told?_run m.bare p _))
    cases hcontrol with
    | finish hresult =>
      cases h
      rfl
    | ask hasks hnext =>
      cases h
      rw [bare_serve hfirst stack hasks]
      rfl
    | watch hwatches => exact hwatches.elim
  | drain => exact followed_drain m stack h
  | deliver callbacks value failure =>
    cases callbacks with
    | nil =>
      cases failure with
      | none =>
        cases h
        exact .not_at_all rfl rfl
      | some e =>
        cases h
        exact .once rfl rfl
    | cons callback callbacks =>
      cases h
      exact followed_tell m callback callbacks value failure stack hobject
  | answer result =>
    cases stack with
    | nil => cases h
    | cons frame stack =>
      cases h
      exact followed_answer m result frame stack

end Machine

end GuardedData
