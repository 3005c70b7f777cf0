import GuardedData.Proofs.Model.Run
import GuardedData.Proofs.Store.Notice

/-!
# Delivery on a guarded model

On a guarded model without user watchers an event is told to as many settling callbacks as its path
has watch paths, and then to as many checks. So a flush is a loop over the queue with nothing but
the credits as its state (`Enforcement.deliver`), and it goes well exactly if every event conforms
and there are credits for all (`Enforcement.deliver_eq_none_iff`).
-/

namespace GuardedData

/-! ### Coming to a state -/

namespace Machine

/-- Whether a machine is in a given state after at most some steps. -/
def ComesTo (n : Nat) (s t : Machine) : Prop := ∃ k ≤ n, runFor k s = t

namespace ComesTo

variable {a b : Nat} {s t u : Machine}

lemma refl (s : Machine) : ComesTo 0 s s := ⟨0, Nat.le_refl 0, rfl⟩

lemma trans (h : ComesTo a s t) (h' : ComesTo b t u) : ComesTo (a + b) s u := by
  obtain ⟨k, hk, rfl⟩ := h
  obtain ⟨l, hl, rfl⟩ := h'
  exact ⟨k + l, Nat.add_le_add hk hl, runFor_add k l s⟩

lemma head (hs : s.step? = some t) (h : ComesTo a t u) : ComesTo (a + 1) s u := by
  obtain ⟨k, hk, rfl⟩ := h
  exact ⟨k + 1, Nat.succ_le_succ hk, by simp [runFor, hs]⟩

lemma mono (hab : a ≤ b) (h : ComesTo a s t) : ComesTo b s t := by
  obtain ⟨k, hk, rfl⟩ := h
  exact ⟨k, Nat.le_trans hk hab, rfl⟩

lemma perform? {m m' : Model} {p : Program} {result : Result}
    (h : ComesTo a ⟨m, .run p, []⟩ ⟨m', .answer result, []⟩) :
    m.perform? a p = some (m', result) := by
  obtain ⟨k, hk, he⟩ := h
  exact Model.perform?_of_le hk (by rw [Model.perform?, he]; rfl)

end ComesTo

end Machine

/-! ### Guarded models -/

/-- What a guarded model enforces: the watch paths of its schema, for the model of a name. -/
structure Enforcement where
  paths : List String
  schema : Option Schema
  name : String

namespace Enforcement

/-- The callback that checks a watch path. -/
def checkAt (x : Enforcement) (path : String) : Callback :=
  .check (x.schema.bind (·.lookup path)) ((DataPath.root x.name).joinDotted path)

def settling (x : Enforcement) : List (Watcher Callback) :=
  x.paths.map fun path => ⟨path, .settle path⟩

def checking (x : Enforcement) : List (Watcher Callback) :=
  x.paths.map fun path => ⟨path, x.checkAt path⟩

/-- The watchers of a guarded model without user watchers. -/
def watchers (x : Enforcement) : List (Watcher Callback) := x.settling ++ x.checking

/-- The credits that an event takes: one for each time that its path is a watch path. -/
def cost (x : Enforcement) (event : Event) : Nat := x.paths.count event.path

def checkError? (x : Enforcement) (event : Event) : Option ModelError :=
  match deepCheck event.value (x.schema.bind (·.lookup event.path))
    ((DataPath.root x.name).joinDotted event.path) with
  | .ok () => none
  | .error e => some (.validation e)

/-- The error of an event that arrives with some credits there. An event that nothing watches has
none, and a missing credit comes before a value that does not conform. -/
def eventError? (x : Enforcement) (credits : Nat) (event : Event) : Option ModelError :=
  (if x.cost event ≤ credits then none else some (.immutable event.path)).or
    (if x.cost event = 0 then none else x.checkError? event)

/-- Deliver events in order, up to the first with an error: the credits then, the events behind,
and the error. -/
def deliver (x : Enforcement) : Nat → List Event → Nat × List Event × Option ModelError
  | credits, [] => (credits, [], none)
  | credits, event :: rest =>
    match x.eventError? credits event with
    | none => x.deliver (credits - x.cost event) rest
    | some e => (credits - x.cost event, rest, some e)

def totalCost (x : Enforcement) : List Event → Nat
  | [] => 0
  | event :: rest => x.cost event + x.totalCost rest

end Enforcement

/-- A model with some credits, a queue and a mark of whether a flush is under way. -/
def Model.put (m : Model) (credits : Nat) (pending : List Event) (flushing : Bool) : Model :=
  { m with guard := some ⟨credits⟩, store := { m.store with pending, flushing } }

/-- What an operation on a model has to say for itself when its flush ends. -/
def outcome (e : Option ModelError) : Result :=
  match e with
  | none => .ok .null
  | some e => .error e

namespace Enforcement

lemma totalCost_append {x : Enforcement} (events more : List Event) :
    x.totalCost (events ++ more) = x.totalCost events + x.totalCost more := by
  induction events with
  | nil => simp [totalCost]
  | cons event rest ih => rw [List.cons_append, totalCost, totalCost, ih, Nat.add_assoc]

/-! ### The callbacks of an event -/

lemma callbacks_eq {x : Enforcement} {s : Store Callback} (h : s.watchers = x.watchers)
    (event : Event) : s.callbacks event.path =
      List.replicate (x.cost event) (.settle event.path) ++
        List.replicate (x.cost event) (x.checkAt event.path) := by
  have hmap (f : String → Callback) :
      ((x.paths.map fun path => (⟨path, f path⟩ : Watcher Callback)).filter
        (·.path == event.path)).map (·.callback) =
          List.replicate (x.paths.count event.path) (f event.path) := by
    rw [List.filter_map, List.map_map, List.eq_replicate_iff]
    constructor
    · rw [List.length_map, List.count_eq_length_filter]
      rfl
    · intro callback hmem
      obtain ⟨path, hpath, rfl⟩ := List.mem_map.1 hmem
      have : path = event.path := by simpa using (List.mem_filter.1 hpath).2
      rw [← this]
      rfl
  rw [Store.callbacks, h, watchers, settling, checking, List.filter_append, List.map_append, hmap,
    hmap, cost]

variable {m : Model} {credits : Nat} {pending : List Event} {flushing : Bool}

lemma settle_put_succ (path : String) : (m.put (credits + 1) pending flushing).settle path =
    (m.put credits pending flushing, none) := by
  have h0 : ¬((credits : Int) + 1 = 0) := by omega
  have h1 : ¬((credits : Int) + 1 < 0) := by omega
  simp [Model.settle, Model.put, Guard.settle, h0, h1]

lemma settle_put_zero (path : String) : (m.put 0 pending flushing).settle path =
    (m.put 0 pending flushing, some (.immutable path)) := by
  simp [Model.settle, Model.put, Guard.settle]

lemma comesTo_settles (m : Model) (pending : List Event) (flushing : Bool) (path : String)
    (n credits : Nat) (callbacks : List Callback) (value : Option Value)
    (failure : Option ModelError) (stack : List Frame) :
    Machine.ComesTo n
      ⟨m.put credits pending flushing,
        .deliver (List.replicate n (.settle path) ++ callbacks) value failure, stack⟩
      ⟨m.put (credits - n) pending flushing, .deliver callbacks value
        (failure.or (if n ≤ credits then none else some (.immutable path))), stack⟩ := by
  induction n generalizing credits failure with
  | zero => simpa using Machine.ComesTo.refl _
  | succ n ih =>
    cases credits with
    | zero =>
      -- Without a credit nothing is spent, and the first error stays.
      have h := ih 0 (failure.or (some (.immutable path)))
      have herror : (failure.or (some (.immutable path))).or
          (if n ≤ 0 then none else some (.immutable path)) =
            failure.or (some (ModelError.immutable path)) := by
        cases failure <;> simp
      rw [herror] at h
      refine .head ?_ (by simpa using h)
      simp [Machine.step?, List.replicate_succ, Machine.tell, settle_put_zero]
    | succ credits =>
      have h := ih credits failure
      refine .head ?_ (by simpa using h)
      simp [Machine.step?, List.replicate_succ, Machine.tell, settle_put_succ]

lemma comesTo_checks (x : Enforcement) (event : Event) (n : Nat) (m : Model)
    (failure : Option ModelError) (stack : List Frame) :
    Machine.ComesTo n
      ⟨m, .deliver (List.replicate n (x.checkAt event.path)) event.value failure, stack⟩
      ⟨m, .deliver [] event.value (failure.or (if n = 0 then none else x.checkError? event)),
        stack⟩ := by
  induction n generalizing failure with
  | zero => simpa using Machine.ComesTo.refl _
  | succ n ih =>
    have h := ih (failure.or (x.checkError? event))
    have herror : (failure.or (x.checkError? event)).or
        (if n = 0 then none else x.checkError? event) = failure.or (x.checkError? event) := by
      cases failure <;> cases x.checkError? event <;> simp
    rw [herror] at h
    have hstep : Machine.step? ⟨m, .deliver (List.replicate (n + 1) (x.checkAt event.path))
        event.value failure, stack⟩ = some ⟨m, .deliver (List.replicate n (x.checkAt event.path))
          event.value (failure.or (x.checkError? event)), stack⟩ := rfl
    exact .head hstep (by simpa using h)

/-! ### Flushes -/

lemma comesTo_event (x : Enforcement) (hm : m.store.watchers = x.watchers) (credits : Nat)
    (event : Event) (rest : List Event) (stack : List Frame) :
    Machine.ComesTo (2 * x.cost event + 1) ⟨m.put credits (event :: rest) true, .drain, stack⟩
      ⟨m.put (credits - x.cost event) rest true,
        .deliver [] event.value (x.eventError? credits event), stack⟩ := by
  have hs := comesTo_settles m rest true event.path (x.cost event) credits
    (List.replicate (x.cost event) (x.checkAt event.path)) event.value none stack
  have hc := comesTo_checks x event (x.cost event) (m.put (credits - x.cost event) rest true)
    (if x.cost event ≤ credits then none else some (.immutable event.path)) stack
  rw [Option.none_or] at hs
  refine .mono (by omega) (.head ?_ (hs.trans hc))
  have hcallbacks : ({ m.store with pending := rest, flushing := true } : Store Callback).callbacks
      event.path = _ := callbacks_eq (x := x) hm event
  simp only [Machine.step?, Model.put, Store.takeEvent?, hcallbacks]

/-- A flush on a guarded model without user watchers delivers the queue. -/
theorem comesTo_drain (x : Enforcement) (hm : m.store.watchers = x.watchers) (events : List Event)
    (credits : Nat) (stack : List Frame) :
    Machine.ComesTo (2 * x.totalCost events + 2 * events.length + 1)
      ⟨m.put credits events true, .drain, stack⟩
      ⟨m.put (x.deliver credits events).1 (x.deliver credits events).2.1 false,
        .answer (outcome (x.deliver credits events).2.2), stack⟩ := by
  induction events generalizing credits with
  | nil => exact .mono (by omega) (.head rfl (.refl _))
  | cons event rest ih =>
    have hevent := comesTo_event x hm credits event rest stack
    rw [deliver, totalCost, List.length_cons]
    cases he : x.eventError? credits event with
    | none =>
      rw [he] at hevent
      exact .mono (by omega) (hevent.trans (.head rfl (ih (credits - x.cost event))))
    | some e =>
      rw [he] at hevent
      exact .mono (by omega) (hevent.trans (.head rfl (.refl _)))

/-- Outside of a flush, an edit on a guarded model without user watchers that does not defer its
changes delivers the queue and all that it has changed. -/
theorem comesTo_edit (x : Enforcement) (hw : m.store.watchers = x.watchers)
    (hmode : m.store.mode = .immediate) (hidle : m.store.flushing = false)
    (hguard : m.guard = some ⟨credits⟩) {path : String} {change : Edit} {tree : Value}
    {removed : Option Value} (happly : change.apply path m.data = .ok (tree, removed))
    {events : List Event}
    (hevents : events = m.store.pending ++ changes m.data tree (m.store.affected path))
    (stack : List Frame) (next : Except ModelError (Option Value) → Program) :
    Machine.ComesTo (2 * x.totalCost events + 2 * events.length + 3)
      ⟨m, .run (.ask (.edit path change) next), stack⟩
      ⟨(m.edited path tree).put (x.deliver credits events).1 (x.deliver credits events).2.1 false,
        .run (next ((outcome (x.deliver credits events).2.2).map fun _ => removed)), stack⟩ := by
  have hstart : (m.edited path tree).setFlushing true =
      (m.edited path tree).put credits events true := by
    rw [hevents]
    simp only [Model.setFlushing, Model.edited, Model.put, hguard]
    rfl
  have hdrain := comesTo_drain (m := m.edited path tree) x hw events credits
    (.resume (fun r => next ((r.map fun _ => ()).map fun _ => removed)) :: stack)
  refine .mono (by omega) (.head ?_ (hdrain.trans (.head ?_ (.refl _))))
  · simp only [Machine.step?, Machine.serve, Machine.edit_of_ok happly, hmode, Machine.beginFlush]
    rw [if_neg (by simp [Model.edited, hidle]), hstart]
  · simp only [Machine.step?, Machine.resume, Machine.runOn]
    cases outcome (x.deliver credits events).2.2 <;> rfl

/-- Outside of a flush, a flush on a guarded model without user watchers delivers the queue. -/
theorem comesTo_flush (x : Enforcement) (hw : m.store.watchers = x.watchers)
    (hidle : m.store.flushing = false) (hguard : m.guard = some ⟨credits⟩) (stack : List Frame)
    (next : Except ModelError Unit → Program) :
    Machine.ComesTo (2 * x.totalCost m.store.pending + 2 * m.store.pending.length + 3)
      ⟨m, .run (.ask .flush next), stack⟩
      ⟨m.put (x.deliver credits m.store.pending).1 (x.deliver credits m.store.pending).2.1 false,
        .run (next ((outcome (x.deliver credits m.store.pending).2.2).map fun _ => ())),
        stack⟩ := by
  have hstart : m.setFlushing true = m.put credits m.store.pending true := by
    simp only [Model.setFlushing, Model.put, hguard]
  have hdrain := comesTo_drain (m := m) x hw m.store.pending credits
    (.resume (fun r => next (r.map fun _ => ())) :: stack)
  refine .mono (by omega) (.head ?_ (hdrain.trans (.head rfl (.refl _))))
  simp only [Machine.step?, Machine.serve, Machine.beginFlush]
  rw [if_neg (by simp [hidle]), hstart]

/-! ### When a flush goes well -/

lemma eventError?_eq_none_iff {x : Enforcement} {event : Event} :
    x.eventError? credits event = none ↔
      x.cost event ≤ credits ∧ (x.cost event = 0 ∨ x.checkError? event = none) := by
  rw [eventError?, Option.or_eq_none_iff]
  by_cases hle : x.cost event ≤ credits <;> by_cases h0 : x.cost event = 0 <;> simp [hle, h0]

/-- A flush goes well exactly if every event that is watched conforms and the credits suffice for
all of them; it spends what they cost and leaves nothing behind. -/
theorem deliver_eq_none_iff (x : Enforcement) (credits : Nat) (events : List Event) :
    (x.deliver credits events).2.2 = none ↔
      (∀ event ∈ events, x.cost event = 0 ∨ x.checkError? event = none) ∧
        x.totalCost events ≤ credits := by
  induction events generalizing credits with
  | nil => simp [deliver, totalCost]
  | cons event rest ih =>
    rw [deliver, totalCost, List.forall_mem_cons]
    cases he : x.eventError? credits event with
    | none =>
      obtain ⟨hle, hcheck⟩ := eventError?_eq_none_iff.1 he
      simp only [ih]
      constructor
      · rintro ⟨hrest, htotal⟩
        exact ⟨⟨hcheck, hrest⟩, by omega⟩
      · rintro ⟨⟨-, hrest⟩, htotal⟩
        exact ⟨hrest, by omega⟩
    | some e =>
      simp only [reduceCtorEq, false_iff]
      rintro ⟨⟨hcheck, -⟩, htotal⟩
      have hnone := eventError?_eq_none_iff.2 ⟨(by omega : x.cost event ≤ credits), hcheck⟩
      exact absurd (he.symm.trans hnone) (by simp)

lemma deliver_of_eq_none {x : Enforcement} {events : List Event}
    (h : (x.deliver credits events).2.2 = none) :
    x.deliver credits events = (credits - x.totalCost events, [], none) := by
  induction events generalizing credits with
  | nil => rfl
  | cons event rest ih =>
    rw [deliver] at h ⊢
    cases he : x.eventError? credits event with
    | none =>
      rw [he] at h
      rw [totalCost, ← Nat.sub_sub]
      exact ih h
    | some e => simp [he] at h

end Enforcement

end GuardedData
