import GuardedData.Proofs.Model.Run

/-!
# Conduct of user code

User code is a tree, and what it may ask for, whether it may watch paths and which errors it may
fail with can be said of the whole tree at once: it keeps a conduct if all its branches do that
begin with an answer it may get. Then a machine whose code keeps a conduct goes on to do so, as long
as the callbacks that are no user code object only with errors that the conduct allows
(`Machine.keeps_of_step?`).
-/

namespace GuardedData

/-- Whether an error answers a request that can not be met as it stands. -/
def ModelError.isRefusal : ModelError → Bool
  | .invalidPath _ _ | .unknownMethod _ | .asyncMethod _ | .unknownComputed _
  | .readOnlyComputed _ => true
  | _ => false

/-- What user code may do. It may always hand on that a request was refused. -/
structure Conduct where
  asks : Request → Prop
  watches : Prop
  fails : ModelError → Prop
  fails_of_isRefusal : ∀ e, e.isRefusal = true → fails e

/-- User code that makes up no violation of the guard. -/
def Conduct.honest : Conduct where
  asks _ := True
  watches := True
  fails e := e.isGuardViolation = false
  fails_of_isRefusal e h := by cases e <;> first | rfl | cases h

/-! ### Keeping a conduct -/

/-- Whether a result is no error, or one that a conduct allows. -/
def Conduct.Allows (c : Conduct) {α : Type} (result : Except ModelError α) : Prop :=
  ∀ e, result = .error e → c.fails e

/-- Whether the answer to a request is no error, or one that a conduct allows. -/
def Conduct.AllowsAnswer (c : Conduct) : (request : Request) → request.Answer → Prop
  | .edit _ _, result => c.Allows result
  | .flush, result => c.Allows result
  | .call _ _, result => c.Allows result
  | .computed _, result => c.Allows result
  | .setComputed _ _, result => c.Allows result
  | .poll _, .done result => c.Allows result
  | _, _ => True

/-- Whether user code keeps a conduct. -/
inductive Program.Keeps (c : Conduct) : Program → Prop
  | finish {result : Result} (h : c.Allows result) : Keeps c (.finish result)
  | ask {request : Request} {next : request.Answer → Program} (h : c.asks request)
    (hnext : ∀ a, c.AllowsAnswer request a → Keeps c (next a)) : Keeps c (.ask request next)
  | watch {path : String} {react : Option Value → Program} {next : Program} (h : c.watches)
    (hreact : ∀ v, Keeps c (react v)) (hnext : Keeps c next) : Keeps c (.watch path react next)

def Callback.Keeps (c : Conduct) : Callback → Prop
  | .react body => ∀ v, (body v).Keeps c
  | _ => True

/-- Whether methods and computed properties keep a conduct. -/
structure Conduct.Members (c : Conduct) (methods : List (String × Method))
    (computed : List (String × Computed)) : Prop where
  sync : ∀ name body, Entries.get? name methods = some (.sync body) → ∀ args, (body args).Keeps c
  async : ∀ name body, Entries.get? name methods = some (.async body) → ∀ args, (body args).Keeps c
  get : ∀ name property, Entries.get? name computed = some property → property.get.Keeps c
  set : ∀ name property set, Entries.get? name computed = some property →
    property.set? = some set → ∀ v, (set v).Keeps c

structure Definition.Keeps (c : Conduct) (d : Definition) : Prop where
  members : c.Members d.methods d.computed
  watch : ∀ path body, (path, body) ∈ d.watch → ∀ v, (body v).Keeps c

def Method.Keeps (c : Conduct) : Method → Prop
  | .sync body | .async body => ∀ args, (body args).Keeps c

def Computed.Keeps (c : Conduct) : Computed → Prop
  | .getter get => get.Keeps c
  | .accessor get set => get.Keeps c ∧ ∀ v, (set v).Keeps c

structure Model.Keeps (c : Conduct) (m : Model) : Prop where
  members : c.Members m.methods m.computed
  watchers : ∀ w ∈ m.store.watchers, w.callback.Keeps c
  tasks : ∀ task ∈ m.tasks, task.2.Keeps c

def Frame.Keeps (c : Conduct) : Frame → Prop
  | .resume next => ∀ result, c.Allows result → (next result).Keeps c
  | .deliver callbacks _ failure => (∀ callback ∈ callbacks, callback.Keeps c) ∧
    ∀ e, failure = some e → c.fails e
  | .poll _ next => (next .pending).Keeps c ∧ (next .absent).Keeps c ∧
    ∀ result, c.Allows result → (next (.done result)).Keeps c
  | .start next => ∀ task, (next task).Keeps c

def Control.Keeps (c : Conduct) : Control → Prop
  | .run p => p.Keeps c
  | .drain => True
  | .deliver callbacks _ failure => (∀ callback ∈ callbacks, callback.Keeps c) ∧
    ∀ e, failure = some e → c.fails e
  | .answer result => c.Allows result

namespace Machine

/-- Whether all code of a machine keeps a conduct. -/
structure Keeps (c : Conduct) (s : Machine) : Prop where
  model : s.model.Keeps c
  control : s.control.Keeps c
  stack : ∀ frame ∈ s.stack, frame.Keeps c

/-- The error of a callback that is no user code and that the next step tells. -/
def objected? (s : Machine) : Option ModelError :=
  match s.control with
  | .deliver (callback :: _) value _ => objection? s.model value callback
  | _ => none

end Machine

variable {c : Conduct}

lemma Conduct.allows_ok {α : Type} (a : α) : c.Allows (.ok a) := fun _ h => by cases h

lemma Conduct.allows_error {α : Type} {e : ModelError} (h : c.fails e) :
    c.Allows (.error e : Except ModelError α) := by
  rintro _ ⟨⟩
  exact h

lemma Conduct.Allows.map {α β : Type} {result : Except ModelError α} (h : c.Allows result)
    (f : α → β) : c.Allows (result.map f) := by
  cases result with
  | ok a => exact allows_ok (f a)
  | error e => exact allows_error (h e rfl)

namespace Program.Keeps

lemma pure (v : Value) : (Program.pure v).Keeps c := .finish (Conduct.allows_ok v)

lemma fail {e : ModelError} (h : c.fails e) : (Program.fail e).Keeps c :=
  .finish (Conduct.allows_error h)

lemma edit {path : String} {change : Edit} (h : c.asks (.edit path change)) :
    (Program.edit path change).Keeps c := by
  refine .ask h fun result hresult => ?_
  cases result with
  | ok removed => exact pure .null
  | error e => exact fail (hresult e rfl)

end Program.Keeps

/-- A definition keeps a conduct if each of its methods, computed properties and watchers does. -/
lemma Definition.Keeps.of_forall {d : Definition} (hmethods : ∀ entry ∈ d.methods, entry.2.Keeps c)
    (hcomputed : ∀ entry ∈ d.computed, entry.2.Keeps c)
    (hwatch : ∀ entry ∈ d.watch, ∀ v, (entry.2 v).Keeps c) : d.Keeps c where
  members := {
    sync := fun _ _ hbody => hmethods _ (Entries.mem_of_get? hbody)
    async := fun _ _ hbody => hmethods _ (Entries.mem_of_get? hbody)
    get := by
      intro name property hproperty
      have hkeeps := hcomputed _ (Entries.mem_of_get? hproperty)
      cases property with
      | getter get => exact hkeeps
      | accessor get set => exact hkeeps.1
    set := by
      intro name property set hproperty hset
      have hkeeps := hcomputed _ (Entries.mem_of_get? hproperty)
      cases property with
      | getter get => cases hset
      | accessor get set =>
        cases hset
        exact hkeeps.2 }
  watch := fun path body hmem => hwatch (path, body) hmem

namespace Model.Keeps

variable {m m' : Model}

/-- Only methods, computed properties, watchers and tasks have code. -/
lemma congr (h : m.Keeps c) (hmake : m.SameMake m')
    (hwatchers : ∀ w ∈ m'.store.watchers, w ∈ m.store.watchers)
    (htasks : ∀ task ∈ m'.tasks, task.2.Keeps c) : m'.Keeps c where
  members := by rw [hmake.methods, hmake.computed]; exact h.members
  watchers := fun w hw => h.watchers w (hwatchers w hw)
  tasks := htasks

lemma addTask (h : m.Keeps c) {p : Program} (hp : p.Keeps c) : (m.addTask p).Keeps c :=
  h.congr ⟨rfl, rfl, rfl, rfl, rfl, rfl, rfl⟩ (fun _ hw => hw)
    (List.forall_mem_append.2 ⟨h.tasks, List.forall_mem_singleton.2 hp⟩)

lemma putTask (h : m.Keeps c) {task : Nat} {p : Program} (hp : p.Keeps c) :
    (m.putTask task p).Keeps c :=
  h.congr ⟨rfl, rfl, rfl, rfl, rfl, rfl, rfl⟩ (fun _ hw => hw)
    (List.forall_mem_append.2 ⟨h.tasks, List.forall_mem_singleton.2 hp⟩)

lemma dropTask (h : m.Keeps c) {task : Nat} : (m.dropTask task).Keeps c :=
  h.congr ⟨rfl, rfl, rfl, rfl, rfl, rfl, rfl⟩ (fun _ hw => hw)
    fun t ht => h.tasks t ((List.mem_filter.1 ht).1)

lemma task (h : m.Keeps c) {task : Nat} {p : Program} (hp : m.task? task = some p) :
    p.Keeps c := by
  obtain ⟨front, back, htasks, -⟩ := List.lookup_eq_some_iff.1 hp
  exact h.tasks (task, p) (by simp [htasks])

lemma enter (h : m.Keeps c) : m.enter.Keeps c := h.congr (.enter m) (fun _ hw => hw) h.tasks

lemma setFlushing (h : m.Keeps c) {flushing : Bool} : (m.setFlushing flushing).Keeps c :=
  h.congr ⟨rfl, rfl, rfl, rfl, rfl, rfl, rfl⟩ (fun _ hw => hw) h.tasks

lemma watch (h : m.Keeps c) {path : String} {react : Option Value → Program}
    (hreact : ∀ v, (react v).Keeps c) : (m.watch path (.react react)).Keeps c where
  members := h.members
  watchers := by
    intro w hw
    rcases List.mem_append.1 hw with hw | hw
    · exact h.watchers w hw
    · rw [List.mem_singleton.1 hw]
      exact hreact
  tasks := h.tasks

end Model.Keeps

/-! ### Steps -/

namespace Machine

variable {m : Model} {stack : List Frame}

lemma keeps_runOn (hm : m.Keeps c) (hstack : ∀ frame ∈ stack, frame.Keeps c) {p : Program}
    (hp : p.Keeps c) : (runOn stack m p).Keeps c := ⟨hm, hp, hstack⟩

lemma keeps_beginFlush (hm : m.Keeps c) (hstack : ∀ frame ∈ stack, frame.Keeps c)
    {next : Except ModelError Unit → Program}
    (hnext : ∀ a, c.Allows a → (next a).Keeps c) : (beginFlush stack m next).Keeps c := by
  unfold beginFlush
  split
  · exact keeps_runOn hm hstack (hnext _ (Conduct.allows_ok _))
  · refine ⟨hm.congr ⟨rfl, rfl, rfl, rfl, rfl, rfl, rfl⟩ (fun _ hw => hw) hm.tasks, trivial, ?_⟩
    exact List.forall_mem_cons.2 ⟨fun result h => hnext _ (h.map _), hstack⟩

lemma keeps_edit (hm : m.Keeps c) (hstack : ∀ frame ∈ stack, frame.Keeps c) {path : String}
    {change : Edit} {next : Except ModelError (Option Value) → Program}
    (hnext : ∀ a, c.Allows a → (next a).Keeps c) : (edit stack m path change next).Keeps c := by
  cases h : change.apply path m.data with
  | error fault =>
    rw [edit_of_error h]
    exact keeps_runOn hm hstack (hnext _ (Conduct.allows_error (c.fails_of_isRefusal _ rfl)))
  | ok result =>
    have hedited : (m.edited path result.1).Keeps c :=
      hm.congr ⟨rfl, rfl, rfl, rfl, rfl, rfl, rfl⟩ (fun _ hw => hw) hm.tasks
    rw [edit_of_ok h]
    cases m.store.mode with
    | immediate => exact keeps_beginFlush hedited hstack fun a ha => hnext _ (ha.map _)
    | deferred => exact keeps_runOn hedited hstack (hnext _ (Conduct.allows_ok _))

lemma keeps_serve (hm : m.Keeps c) (hstack : ∀ frame ∈ stack, frame.Keeps c) {request : Request}
    {next : request.Answer → Program}
    (hnext : ∀ a, c.AllowsAnswer request a → (next a).Keeps c) :
    (serve stack m request next).Keeps c := by
  have hrefuse {α : Type} {e : ModelError} (h : e.isRefusal = true) :
      c.Allows (.error e : Except ModelError α) := Conduct.allows_error (c.fails_of_isRefusal e h)
  have hcall {next : Result → Program} (hnext : ∀ a, c.Allows a → (next a).Keeps c) :
      ∀ frame ∈ Frame.resume next :: stack, frame.Keeps c := List.forall_mem_cons.2 ⟨hnext, hstack⟩
  cases request with
  | value path => exact keeps_runOn hm hstack (hnext _ trivial)
  | credits => exact keeps_runOn hm hstack (hnext _ trivial)
  | pending => exact keeps_runOn hm hstack (hnext _ trivial)
  | environment => exact keeps_runOn hm hstack (hnext _ trivial)
  | note entry =>
    have hnoted : ({ m with journal := m.journal ++ [entry] } : Model).Keeps c :=
      hm.congr ⟨rfl, rfl, rfl, rfl, rfl, rfl, rfl⟩ (fun _ hw => hw) hm.tasks
    exact keeps_runOn hnoted hstack (hnext _ trivial)
  | edit path change => exact keeps_edit hm hstack hnext
  | flush => exact keeps_beginFlush hm hstack hnext
  | call name args =>
    simp only [serve]
    cases hmethod : Entries.get? name m.methods with
    | none => exact keeps_runOn hm hstack (hnext _ (hrefuse rfl))
    | some method =>
      cases method with
      | async body => exact keeps_runOn hm hstack (hnext _ (hrefuse rfl))
      | sync body =>
        exact keeps_runOn hm.enter (hcall hnext) (hm.members.sync name body hmethod args)
  | computed name =>
    simp only [serve]
    cases hproperty : Entries.get? name m.computed with
    | none => exact keeps_runOn hm hstack (hnext _ (hrefuse rfl))
    | some property => exact keeps_runOn hm (hcall hnext) (hm.members.get name property hproperty)
  | setComputed name value =>
    simp only [serve]
    cases hproperty : Entries.get? name m.computed with
    | none => exact keeps_runOn hm hstack (hnext _ (hrefuse rfl))
    | some property =>
      cases property with
      | getter get => exact keeps_runOn hm hstack (hnext _ (hrefuse rfl))
      | accessor get set =>
        exact keeps_runOn hm.enter (hcall fun a ha => hnext _ (ha.map _))
          (hm.members.set name _ set hproperty rfl value)
  | start name args =>
    simp only [serve]
    cases hmethod : Entries.get? name m.methods with
    | none =>
      exact keeps_runOn (hm.addTask (.finish (hrefuse rfl))) hstack (hnext _ trivial)
    | some method =>
      cases method with
      | async body =>
        exact keeps_runOn (hm.enter.addTask (hm.members.async name body hmethod args)) hstack
          (hnext _ trivial)
      | sync body =>
        have hframe : (Frame.start next).Keeps c := fun task => hnext task trivial
        exact keeps_runOn hm.enter (List.forall_mem_cons.2 ⟨hframe, hstack⟩)
          (hm.members.sync name body hmethod args)
  | poll task =>
    simp only [serve]
    cases htask : m.task? task with
    | none => exact keeps_runOn hm hstack (hnext _ trivial)
    | some p =>
      have hframe : (Frame.poll task next).Keeps c :=
        ⟨hnext _ trivial, hnext _ trivial, fun _ ha => hnext _ ha⟩
      exact keeps_runOn hm.dropTask (List.forall_mem_cons.2 ⟨hframe, hstack⟩) (hm.task htask)
  | drop task => exact keeps_runOn hm.dropTask hstack (hnext _ trivial)
  | pause =>
    have hrest := hnext () trivial
    simp only [serve, pause]
    split
    · rename_i task next' stack'
      obtain ⟨hframe, hbelow⟩ := List.forall_mem_cons.1 hstack
      exact keeps_runOn (hm.putTask hrest) hbelow hframe.1
    · exact keeps_runOn hm hstack hrest

lemma keeps_tell (hm : m.Keeps c) (hstack : ∀ frame ∈ stack, frame.Keeps c) {callback : Callback}
    {callbacks : List Callback} {value : Option Value} {failure : Option ModelError}
    (hcontrol : (Control.deliver (callback :: callbacks) value failure).Keeps c)
    (hobject : ∀ e, objection? m value callback = some e → c.fails e) :
    (tell stack m callbacks value failure callback).Keeps c := by
  obtain ⟨hcallbacks, hfailure⟩ := hcontrol
  obtain ⟨hcallback, hrest⟩ := List.forall_mem_cons.1 hcallbacks
  have hor (e' : Option ModelError) (h : ∀ e, e' = some e → c.fails e) :
      ∀ e, failure.or e' = some e → c.fails e := by
    intro e he
    rcases Option.or_eq_some_iff.1 he with he | ⟨-, he⟩
    · exact hfailure e he
    · exact h e he
  cases callback with
  | react body =>
    have hframe : (Frame.deliver callbacks value failure).Keeps c := ⟨hrest, hfailure⟩
    exact keeps_runOn hm (List.forall_mem_cons.2 ⟨hframe, hstack⟩) (hcallback value)
  | settle path =>
    have hsettled : (m.settle path).1.Keeps c := by
      rw [settle_fst]
      exact hm.congr ⟨rfl, rfl, rfl, rfl, rfl, rfl, by simp⟩ (fun _ hw => hw) hm.tasks
    exact ⟨hsettled, ⟨hrest, hor _ hobject⟩, hstack⟩
  | check schema path => exact ⟨hm, ⟨hrest, hor _ hobject⟩, hstack⟩

lemma keeps_resume (hm : m.Keeps c) {frame : Frame}
    (hstack : ∀ f ∈ frame :: stack, f.Keeps c) {result : Result} (hresult : c.Allows result) :
    (resume stack m result frame).Keeps c := by
  obtain ⟨hframe, hbelow⟩ := List.forall_mem_cons.1 hstack
  cases frame with
  | resume next => exact keeps_runOn hm hbelow (hframe result hresult)
  | deliver callbacks value failure =>
    refine ⟨hm, ⟨hframe.1, fun e he => ?_⟩, hbelow⟩
    rcases Option.or_eq_some_iff.1 he with he | ⟨-, he⟩
    · exact hframe.2 e he
    · cases result with
      | ok v => cases he
      | error e' =>
        cases he
        exact hresult _ rfl
  | poll task next => exact keeps_runOn hm hbelow (hframe.2.2 result hresult)
  | start next => exact keeps_runOn (hm.addTask (.finish hresult)) hbelow (hframe _)

/-- A machine whose code keeps a conduct goes on to keep it. -/
theorem keeps_of_step? {s t : Machine} (hs : s.Keeps c) (h : s.step? = some t)
    (hobject : ∀ e, s.objected? = some e → c.fails e) : t.Keeps c := by
  obtain ⟨m, control, stack⟩ := s
  obtain ⟨hm, hcontrol, hstack⟩ := hs
  cases control with
  | run p =>
    cases hcontrol with
    | finish hresult =>
      cases h
      exact ⟨hm, hresult, hstack⟩
    | ask hask hnext =>
      cases h
      exact keeps_serve hm hstack hnext
    | watch hwatches hreact hnext =>
      cases h
      exact keeps_runOn (hm.watch hreact) hstack hnext
  | drain =>
    simp only [step?] at h
    split at h
    · cases h
      exact ⟨hm.setFlushing, Conduct.allows_ok _, hstack⟩
    · rename_i event store htake
      cases h
      obtain ⟨rest, -, rfl⟩ := Store.eq_of_takeEvent? htake
      have htaken : ({ m with store := { m.store with pending := rest } } : Model).Keeps c :=
        hm.congr ⟨rfl, rfl, rfl, rfl, rfl, rfl, rfl⟩ (fun _ hw => hw) hm.tasks
      refine ⟨htaken, ⟨fun callback hmem => ?_, fun e he => by cases he⟩, hstack⟩
      obtain ⟨w, hw, rfl⟩ := List.mem_map.1 hmem
      exact hm.watchers w (List.mem_filter.1 hw).1
  | deliver callbacks value failure =>
    cases callbacks with
    | nil =>
      cases failure with
      | none =>
        cases h
        exact ⟨hm, trivial, hstack⟩
      | some e =>
        cases h
        exact ⟨hm.setFlushing, Conduct.allows_error (hcontrol.2 e rfl), hstack⟩
    | cons callback callbacks =>
      cases h
      exact keeps_tell hm hstack hcontrol hobject
  | answer result =>
    cases stack with
    | nil => cases h
    | cons frame stack =>
      cases h
      exact keeps_resume hm hstack hcontrol

/-- A machine whose code keeps a conduct comes to a result that the conduct allows. -/
theorem keeps_runFor {n : Nat} {s : Machine} (hs : s.Keeps c)
    (hobject : ∀ t ∈ trail n s, ∀ e, t.objected? = some e → c.fails e) : (runFor n s).Keeps c := by
  induction n generalizing s with
  | zero => exact hs
  | succ n ih =>
    rw [trail] at hobject
    rw [runFor]
    cases hstep : s.step? with
    | none => exact hs
    | some t =>
      rw [hstep] at hobject
      obtain ⟨hfirst, hrest⟩ := List.forall_mem_cons.1 hobject
      exact ih (keeps_of_step? hs hstep hfirst) hrest

end Machine

/-! ### Runs -/

/-- A run all of whose pieces of user code keep a conduct. -/
inductive Run.Keeping (c : Conduct) (m : Model) : List Machine → Machine → Prop
  | begin {p : Program} (hp : p.Keeps c) : Keeping c m [] ⟨m, .run p, []⟩
  | step {past : List Machine} {s t : Machine} (h : Keeping c m past s) (hs : s.step? = some t) :
    Keeping c m (past ++ [s]) t
  | next {past : List Machine} {m' : Model} {result : Result}
    (h : Keeping c m past ⟨m', .answer result, []⟩) {p : Program} (hp : p.Keeps c) :
    Keeping c m past ⟨m', .run p, []⟩

namespace Run.Keeping

variable {m : Model} {past : List Machine} {s : Machine}

lemma run (h : Keeping c m past s) : Run m past s := by
  induction h with
  | begin hp => exact .begin _
  | step h hs ih => exact ih.step hs
  | next h hp ih => exact ih.next _

/-- If all code of the model keeps the conduct too, and no callback objects with an error that the
conduct does not allow, then the conduct is kept to the end of the run. -/
theorem keeps (h : Keeping c m past s) (hm : m.Keeps c)
    (hobject : ∀ t ∈ past, ∀ e, t.objected? = some e → c.fails e) : s.Keeps c := by
  induction h with
  | begin hp => exact ⟨hm, hp, by simp⟩
  | step h hs ih =>
    obtain ⟨hbefore, hlast⟩ := List.forall_mem_append.1 hobject
    exact Machine.keeps_of_step? (ih hbefore) hs (hlast _ (by simp))
  | next h hp ih => exact ⟨(ih hobject).model, hp, by simp⟩

/-- A run of code that keeps a conduct goes on for as long as there are steps. -/
lemma runFor (h : Keeping c m past s) (n : Nat) :
    Keeping c m (past ++ s.trail n) (s.runFor n) := by
  induction n generalizing past s with
  | zero => simpa [Machine.trail, Machine.runFor] using h
  | succ n ih =>
    rw [Machine.trail, Machine.runFor]
    cases hs : s.step? with
    | none => simpa using h
    | some t => simpa using ih (h.step hs)

end Run.Keeping

end GuardedData
