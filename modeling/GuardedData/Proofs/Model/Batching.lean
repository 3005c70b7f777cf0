import GuardedData.Proofs.Model.Order

/-!
# Batches of changes

Watchers that neither fail nor change anything cannot tell when they are told. A store that flushes
at each edit and one that defers its changes, flushed at any points and at the end, answer the same
edits alike, come to the same data, and tell the same callbacks of the same values in the same order
(`Model.batching_transparent`): what one of them has told and the other has not is queued there.
-/

namespace GuardedData

open Machine

/-! ### Passive code -/

/-- Whether a request changes nothing of the data, the queue and the watchers, and runs no code. -/
def Request.isPassive : Request → Bool
  | .value _ | .credits | .pending | .environment | .note _ => true
  | _ => false

/-- Whether code makes passive requests only and comes to its end without an error, whatever it is
answered. -/
inductive Program.Passive : Program → Prop
  | finish (v : Value) : Passive (.finish (.ok v))
  | ask {request : Request} {next : request.Answer → Program} (h : request.isPassive = true)
    (hnext : ∀ answer, Passive (next answer)) : Passive (.ask request next)

/-- Whether a callback is passive user code. A callback that settles or checks may fail. -/
def Callback.Passive : Callback → Prop
  | .react body => ∀ value, (body value).Passive
  | .settle _ | .check _ _ => False

/-! ### What is told on the way -/

namespace Machine

/-- Whether a machine comes to a state, having told given callbacks of given values in order. -/
def Tells (told : List (Callback × Option Value)) (s t : Machine) : Prop :=
  ∃ n, runFor n s = t ∧ (trail n s).filterMap told? = told

namespace Tells

variable {s t u : Machine} {told later : List (Callback × Option Value)}

lemma refl (s : Machine) : Tells [] s s := ⟨0, rfl, rfl⟩

lemma head (hs : s.step? = some t) (h : Tells later t u) :
    Tells (s.told?.toList ++ later) s u := by
  obtain ⟨n, rfl, rfl⟩ := h
  refine ⟨n + 1, by simp [runFor, hs], ?_⟩
  rw [trail, hs, List.filterMap_cons]
  cases s.told? <;> rfl

lemma silent (hs : s.step? = some t) (hquiet : s.told? = none) (h : Tells later t u) :
    Tells later s u := by
  have := h.head hs
  rwa [hquiet] at this

lemma trans (h : Tells told s t) (h' : Tells later t u) : Tells (told ++ later) s u := by
  obtain ⟨n, rfl, rfl⟩ := h
  obtain ⟨k, rfl, rfl⟩ := h'
  refine ⟨n + k, runFor_add n k s, ?_⟩
  rw [trail_add, List.filterMap_append]

end Tells

/-- A passive request is answered at once, and leaves the store as it is. -/
lemma exists_answer {request : Request} (h : request.isPassive = true) (m : Model) :
    ∃ answer m', m'.store = m.store ∧ ∀ stack next,
      step? ⟨m, .run (.ask request next), stack⟩ = some ⟨m', .run (next answer), stack⟩ ∧
        told? ⟨m, .run (.ask request next), stack⟩ = none := by
  cases request with
  | value path => exact ⟨m.data.at? path, m, rfl, fun _ _ => ⟨rfl, rfl⟩⟩
  | credits => exact ⟨m.credits, m, rfl, fun _ _ => ⟨rfl, rfl⟩⟩
  | pending => exact ⟨m.store.pending, m, rfl, fun _ _ => ⟨rfl, rfl⟩⟩
  | environment => exact ⟨m.environment, m, rfl, fun _ _ => ⟨rfl, rfl⟩⟩
  | note entry =>
    exact ⟨(), { m with journal := m.journal ++ [entry] }, rfl, fun _ _ => ⟨rfl, rfl⟩⟩
  | _ => cases h

/-- Passive code comes to its end and leaves the store as it is. -/
lemma tells_run {p : Program} (hp : p.Passive) (m : Model) : ∃ m' v, m'.store = m.store ∧
    ∀ stack, Tells [] ⟨m, .run p, stack⟩ ⟨m', .answer (.ok v), stack⟩ := by
  induction hp generalizing m with
  | finish v => exact ⟨m, v, rfl, fun stack => .silent rfl rfl (.refl _)⟩
  | @ask request next h hnext ih =>
    obtain ⟨answer, m₁, hanswered, hstep⟩ := exists_answer h m
    obtain ⟨m₂, v, hstore, htells⟩ := ih answer m₁
    refine ⟨m₂, v, hstore.trans hanswered, fun stack => ?_⟩
    exact .silent (hstep stack next).1 (hstep stack next).2 (htells stack)

/-- All passive callbacks of an event are told of its value. -/
lemma tells_deliver {callbacks : List Callback}
    (hpassive : ∀ callback ∈ callbacks, callback.Passive) (m : Model) (value : Option Value) :
    ∃ m', m'.store = m.store ∧
      ∀ stack, Tells (callbacks.map (·, value)) ⟨m, .deliver callbacks value none, stack⟩
        ⟨m', .deliver [] value none, stack⟩ := by
  induction callbacks generalizing m with
  | nil => exact ⟨m, rfl, fun stack => .refl _⟩
  | cons callback callbacks ih =>
    obtain ⟨hcallback, hrest⟩ := List.forall_mem_cons.1 hpassive
    cases callback with
    | react body =>
      obtain ⟨m', v, hstore, hruns⟩ := tells_run (hcallback value) m
      obtain ⟨m'', hstore', hlater⟩ := ih hrest m'
      refine ⟨m'', hstore'.trans hstore, fun stack => ?_⟩
      have hbody := hruns (.deliver callbacks value none :: stack)
      exact .head rfl (hbody.trans (.silent rfl rfl (hlater stack)))
    | _ => exact hcallback.elim

/-- A flush with passive watchers delivers all that is queued. -/
lemma tells_drain {events : List Event} {m : Model} (hpending : m.store.pending = events)
    (hpassive : ∀ w ∈ m.store.watchers, w.callback.Passive) : ∃ m',
      m'.store = { m.store with pending := [], flushing := false } ∧
        ∀ stack, Tells (events.flatMap (summoned m.store.watchers)) ⟨m, .drain, stack⟩
          ⟨m', .answer (.ok .null), stack⟩ := by
  induction events generalizing m with
  | nil =>
    refine ⟨m.setFlushing false, by simp [Model.setFlushing, hpending], fun stack => ?_⟩
    refine .silent ?_ rfl (.refl _)
    simp [step?, Store.takeEvent?, hpending, endFlush]
  | cons event rest ih =>
    let taken : Model := { m with store := { m.store with pending := rest } }
    have hcallbacks : ∀ callback ∈ m.store.callbacks event.path, callback.Passive := by
      intro callback hmem
      obtain ⟨w, hw, rfl⟩ := List.mem_map.1 hmem
      exact hpassive w (List.mem_filter.1 hw).1
    obtain ⟨m', hstore, htells⟩ := tells_deliver hcallbacks taken event.value
    obtain ⟨m'', hstore', hlater⟩ := ih (m := m') (by rw [hstore]) (by rw [hstore]; exact hpassive)
    refine ⟨m'', by rw [hstore', hstore], fun stack => ?_⟩
    have htake : step? ⟨m, .drain, stack⟩ =
        some ⟨taken, .deliver (m.store.callbacks event.path) event.value none, stack⟩ := by
      simp only [step?, Store.takeEvent?, hpending]
      rfl
    have htold : (m.store.callbacks event.path).map (·, event.value) =
        summoned m.store.watchers event := by
      rw [Store.callbacks, List.map_map]
      rfl
    have hwatchers : m'.store.watchers = m.store.watchers := by rw [hstore]
    rw [List.flatMap_cons, ← htold, ← hwatchers]
    exact .silent htake rfl ((htells stack).trans (.silent rfl rfl (hlater stack)))

/-- A flush that begins on an idle store with passive watchers ends well. -/
lemma tells_beginFlush {m : Model} (hidle : m.store.flushing = false)
    (hpassive : ∀ w ∈ m.store.watchers, w.callback.Passive) : ∃ m',
      m'.store = { m.store with pending := [] } ∧ ∀ stack next,
        Tells (m.store.pending.flatMap (summoned m.store.watchers)) (beginFlush stack m next)
          ⟨m', .run (next (.ok ())), stack⟩ := by
  obtain ⟨m', hstore, htells⟩ := tells_drain (m := m.setFlushing true) rfl hpassive
  refine ⟨m', by simp [hstore, Model.setFlushing, hidle], fun stack next => ?_⟩
  rw [beginFlush, hidle]
  have hflush := (htells (.resume (fun r => next (r.map fun _ => ())) :: stack)).trans
    (.silent rfl rfl (.refl _))
  rwa [List.append_nil] at hflush

end Machine

/-! ### Scripts -/

/-- Whether a request on a model is answered, whoever asks, having told given callbacks of given
values in order, and what model that leaves. -/
def Model.Tells (m : Model) (request : Request) (answer : request.Answer)
    (told : List (Callback × Option Value)) (m' : Model) : Prop :=
  ∀ stack next, Machine.Tells told ⟨m, .run (.ask request next), stack⟩
    ⟨m', .run (next answer), stack⟩

/-- What is asked of a model from outside. -/
inductive Demand
  | edit (path : String) (change : Edit)
  | flush

def Demand.isEdit : Demand → Bool
  | .edit _ _ => true
  | .flush => false

/-- Whether a model meets some demands one after the other, with given answers to the edits and
each flush ending well, telling given callbacks of given values in order, and what model that
leaves. -/
inductive Model.Meets : Model → List Demand → List (Except ModelError (Option Value)) →
    List (Callback × Option Value) → Model → Prop
  | nil (m : Model) : Meets m [] [] [] m
  | edit {m m' m'' : Model} {path : String} {change : Edit}
    {answer : Except ModelError (Option Value)} {told later : List (Callback × Option Value)}
    {demands : List Demand} {answers : List (Except ModelError (Option Value))}
    (h : m.Tells (.edit path change) answer told m') (hlater : Meets m' demands answers later m'') :
    Meets m (.edit path change :: demands) (answer :: answers) (told ++ later) m''
  | flush {m m' m'' : Model} {told later : List (Callback × Option Value)}
    {demands : List Demand} {answers : List (Except ModelError (Option Value))}
    (h : m.Tells .flush (.ok ()) told m') (hlater : Meets m' demands answers later m'') :
    Meets m (.flush :: demands) answers (told ++ later) m''

namespace Model

variable {m m' : Model} {tree : Value} {watchers : List (Watcher Callback)} {pending : List Event}

lemma Meets.append {demands demands' : List Demand}
    {answers answers' : List (Except ModelError (Option Value))}
    {told told' : List (Callback × Option Value)} {m'' : Model}
    (h : m.Meets demands answers told m') (h' : m'.Meets demands' answers' told' m'') :
    m.Meets (demands ++ demands') (answers ++ answers') (told ++ told') m'' := by
  induction h with
  | nil m => exact h'
  | edit h hlater ih =>
    rw [List.append_assoc]
    exact .edit h (ih h')
  | flush h hlater ih =>
    rw [List.append_assoc]
    exact .flush h (ih h')

/-- A flush tells what is queued, and changes nothing else. -/
lemma tells_flush (hpassive : ∀ w ∈ watchers, w.callback.Passive)
    (hm : m.store = ⟨tree, .deferred, watchers, pending, false⟩) : ∃ n,
      m.Tells .flush (.ok ()) (pending.flatMap (summoned watchers)) n ∧
        n.store = ⟨tree, .deferred, watchers, [], false⟩ := by
  obtain ⟨n, hstore, htells⟩ := tells_beginFlush (m := m) (by rw [hm]) (by rwa [hm])
  simp only [hm] at hstore htells
  exact ⟨n, fun stack next => .silent rfl rfl (htells stack next), hstore⟩

/-- An edit is answered alike at once and deferred, and makes the same data of the same data. What
it tells at once it queues when deferred. -/
lemma tells_edit (hpassive : ∀ w ∈ watchers, w.callback.Passive)
    (hm : m.store = ⟨tree, .immediate, watchers, [], false⟩)
    (hm' : m'.store = ⟨tree, .deferred, watchers, pending, false⟩) (path : String) (change : Edit) :
    ∃ answer tree' events n n',
      m.Tells (.edit path change) answer (events.flatMap (summoned watchers)) n ∧
        n.store = ⟨tree', .immediate, watchers, [], false⟩ ∧
      m'.Tells (.edit path change) answer [] n' ∧
        n'.store = ⟨tree', .deferred, watchers, pending ++ events, false⟩ := by
  have hdata : m.data = tree := by rw [data, hm]
  have hdata' : m'.data = tree := by rw [data, hm']
  cases happly : change.apply path tree with
  | error fault =>
    refine ⟨.error (.invalidPath path fault.reason), tree, [], m, m', fun stack next => ?_, hm,
      fun stack next => ?_, by rw [List.append_nil, hm']⟩
    · exact .silent (congrArg some (edit_of_error (hdata ▸ happly) stack next)) rfl (.refl _)
    · exact .silent (congrArg some (edit_of_error (hdata' ▸ happly) stack next)) rfl (.refl _)
  | ok result =>
    let events := changes tree result.1 (m.store.affected path)
    have hedited : (m.edited path result.1).store =
        ⟨result.1, .immediate, watchers, events, false⟩ := by
      simp [edited, hm, events]
    have hedited' : (m'.edited path result.1).store =
        ⟨result.1, .deferred, watchers, pending ++ events, false⟩ := by
      simp only [edited, hm', events, hm]
      rfl
    obtain ⟨n, hstore, htells⟩ := tells_beginFlush (m := m.edited path result.1)
      (by rw [hedited]) (by rwa [hedited])
    rw [hedited] at hstore
    simp only [hedited] at htells
    refine ⟨.ok result.2, result.1, events, n, m'.edited path result.1, fun stack next => ?_,
      hstore, fun stack next => ?_, hedited'⟩
    · refine .silent (congrArg some ?_) rfl (htells stack fun r => next (r.map fun _ => result.2))
      refine (edit_of_ok (hdata ▸ happly) stack next).trans ?_
      rw [hm]
    · refine .silent (congrArg some ?_) rfl (.refl _)
      refine (edit_of_ok (hdata' ▸ happly) stack next).trans ?_
      rw [hm']
      rfl

/-- What one store tells at once the other one has told already or has in its queue. -/
lemma exists_meets (hpassive : ∀ w ∈ watchers, w.callback.Passive)
    (hm : m.store = ⟨tree, .immediate, watchers, [], false⟩)
    (hm' : m'.store = ⟨tree, .deferred, watchers, pending, false⟩) (script : List Demand) :
    ∃ answers told told' tree' rest n n',
      m.Meets (script.filter Demand.isEdit) answers told n ∧
        n.store = ⟨tree', .immediate, watchers, [], false⟩ ∧
      m'.Meets script answers told' n' ∧
        n'.store = ⟨tree', .deferred, watchers, rest, false⟩ ∧
      pending.flatMap (summoned watchers) ++ told = told' ++ rest.flatMap (summoned watchers) := by
  induction script generalizing m m' tree pending with
  | nil => exact ⟨[], [], [], tree, pending, m, m', .nil m, hm, .nil m', hm', by simp⟩
  | cons demand script ih =>
    cases demand with
    | edit path change =>
      obtain ⟨answer, tree₁, events, m₁, m₁', htells, hm₁, htells', hm₁'⟩ :=
        tells_edit hpassive hm hm' path change
      obtain ⟨answers, told, told', tree', rest, n, n', hmeets, hn, hmeets', hn', htold⟩ :=
        ih hm₁ hm₁'
      refine ⟨answer :: answers, events.flatMap (summoned watchers) ++ told, told', tree', rest, n,
        n', .edit htells hmeets, hn, .edit htells' hmeets', hn', ?_⟩
      rw [← htold, List.flatMap_append, List.append_assoc]
    | flush =>
      obtain ⟨m₁', htells', hm₁'⟩ := tells_flush hpassive hm'
      obtain ⟨answers, told, told', tree', rest, n, n', hmeets, hn, hmeets', hn', htold⟩ :=
        ih hm hm₁'
      refine ⟨answers, told, pending.flatMap (summoned watchers) ++ told', tree', rest, n, n',
        hmeets, hn, .flush htells' hmeets', hn', ?_⟩
      rw [List.append_assoc, ← htold]
      rfl

/-- **Batching is transparent.** On the same data and the same passive watchers a store that flushes
at each edit and one that defers its changes, whenever it is flushed as long as it is so at the end,
give the same answers to the same edits, tell the same and come to the same data. -/
theorem batching_transparent (hpassive : ∀ w ∈ watchers, w.callback.Passive)
    (hm : m.store = ⟨tree, .immediate, watchers, [], false⟩)
    (hm' : m'.store = ⟨tree, .deferred, watchers, [], false⟩) (script : List Demand) :
    ∃ answers told n n', m.Meets (script.filter Demand.isEdit) answers told n ∧
      m'.Meets (script ++ [.flush]) answers told n' ∧ n'.data = n.data := by
  obtain ⟨answers, told, told', tree', rest, n, n', hmeets, hn, hmeets', hn', htold⟩ :=
    exists_meets hpassive hm hm' script
  obtain ⟨n'', htells, hn''⟩ := tells_flush hpassive hn'
  have hflushed := hmeets'.append (.flush htells (.nil n''))
  have hsame : told' ++ (rest.flatMap (summoned watchers) ++ []) = told := by
    rw [List.append_nil, ← htold]
    rfl
  rw [List.append_nil, hsame] at hflushed
  exact ⟨answers, told, n, n'', hmeets, hflushed, by rw [data, data, hn, hn'']⟩

/-- Two watchers, one of which reads the data while it is told; of the edits one fails, one changes
nothing and one is flushed on its own. -/
theorem batching_transparent_reading_watcher :
    let reading : Callback := .react fun _ => .ask (.value "b") fun v =>
      .ask (.note (v.getD .null)) fun _ => .pure .null
    let silent : Callback := .react fun _ => .pure .null
    let store (mode : FlushMode) : Store Callback := ⟨.object [("a", .ofInt 1), ("b", .array [])],
      mode, [⟨"a", reading⟩, ⟨"b", silent⟩, ⟨"a", silent⟩], [], false⟩
    let model (mode : FlushMode) : Model := ⟨"post", store mode, [], [], none, [], .development, [],
      0, []⟩
    let script : List Demand := [.edit "a" (.set (.ofInt 2)), .flush, .edit "b.0" .remove,
      .edit "b" (.push (.ofInt 2)), .edit "a" (.set (.ofInt 2)), .edit "a" .remove]
    ∃ answers told n n', (model .immediate).Meets (script.filter Demand.isEdit) answers told n ∧
      (model .deferred).Meets (script ++ [.flush]) answers told n' ∧ n'.data = n.data := by
  intro reading silent store model script
  have hreading : reading.Passive := fun _ => .ask rfl fun _ => .ask rfl fun _ => .finish _
  have hsilent : silent.Passive := fun _ => .finish _
  have hpassive : ∀ w ∈ (store .immediate).watchers, w.callback.Passive := by
    simp only [store, List.forall_mem_cons]
    exact ⟨hreading, hsilent, hsilent, by simp⟩
  have himmediate : (model .immediate).store = store .immediate := rfl
  have hdeferred : (model .deferred).store = store .deferred := rfl
  exact batching_transparent hpassive himmediate hdeferred script

end Model

end GuardedData
