import GuardedData.Proofs.Replay.Operation

/-!
# The verdict of a replay

A replay is bookkeeping: the events that its edits queue have to conform, each guarded operation
brings one credit, and each event takes one for every time that its path is a watch path. Without
deferral no operation may spend more than has been brought so far; with deferral only the sums at
the end count (`Replay.run_eq_none_iff`).
-/

namespace GuardedData

lemma Enforcement.affected_eq {x : Enforcement} {s : Store Callback} (h : s.watchers = x.watchers)
    (path : String) : s.affected path = x.paths.eraseDups.filter (Dotted.related · path) := by
  have hwatched : s.watchers.map (·.path) = x.paths ++ x.paths := by
    simp [h, watchers, settling, checking, Function.comp_def]
  have hagain : x.paths.removeAll x.paths = [] := by simp [List.removeAll]
  rw [Store.affected, Store.watchedPaths, hwatched, List.eraseDups_append, hagain,
    List.eraseDups_nil, List.append_nil]

namespace Replay

/-- The edits of a script, made on a tree one after the other: the tree that they leave, and the
events that each of them queues when some paths are watched. There is nothing once an edit cannot be
made. -/
def edits? (paths : List String) (tree : Value) : List Op → Option (Value × List (List Event))
  | [] => some (tree, [])
  | op :: rest =>
    match op.verb.toEdit.apply op.path tree with
    | .error _ => none
    | .ok (after, _) =>
      (edits? paths after rest).map fun (final, batches) =>
        (final, changes tree after (paths.eraseDups.filter (Dotted.related · op.path)) :: batches)

variable {x : Enforcement} {m : Model} {tree : Value} {credits : Nat}

lemma edits?_cons_of_ok {paths : List String} {op : Op} {rest : List Op} {after : Value}
    {removed : Option Value} (h : op.verb.toEdit.apply op.path tree = .ok (after, removed))
    {final : Value} {batches : List (List Event)} :
    edits? paths tree (op :: rest) = some (final, batches) ↔
      ∃ later, edits? paths after rest = some (final, later) ∧
        batches = changes tree after (paths.eraseDups.filter (Dotted.related · op.path)) ::
          later := by
  simp only [edits?, h, Option.map_eq_some_iff, Prod.exists, Prod.mk.injEq]
  constructor
  · rintro ⟨_, later, hlater, rfl, rfl⟩
    exact ⟨later, hlater, rfl⟩
  · rintro ⟨later, hlater, rfl⟩
    exact ⟨final, later, hlater, rfl, rfl⟩

/-- A script stops at an operation whose edit cannot be made. -/
lemma runFrom_cons_of_error {mode : FlushMode} {queue : List Event} {op : Op} {fault : PathFault}
    (h : Stands x mode m tree credits queue)
    (happly : op.verb.toEdit.apply op.path tree = .error fault) (index : Nat) (rest : List Op) :
    (runFrom index m (op :: rest)).2 ≠ none := by
  rw [← h.tree] at happly
  rw [runFrom, perform_op_of_error h.methods happly]
  exact Option.some_ne_none _

/-- Only watched paths have events. -/
lemma path_mem_of_edits? {paths : List String} {script : List Op} {final : Value}
    {batches : List (List Event)} (h : edits? paths tree script = some (final, batches)) :
    ∀ event ∈ batches.flatten, event.path ∈ paths := by
  induction script generalizing tree batches with
  | nil =>
    cases h
    simp
  | cons op rest ih =>
    cases happly : op.verb.toEdit.apply op.path tree with
    | error fault => simp [edits?, happly] at h
    | ok result =>
      obtain ⟨later, hlater, rfl⟩ := (edits?_cons_of_ok happly).1 h
      rw [List.flatten_cons]
      intro event hevent
      rcases List.mem_append.1 hevent with hfirst | hrest
      · exact List.mem_eraseDups.1 (List.mem_filter.1 (mem_changes.1 hfirst).1).1
      · exact ih hlater event hrest

/-! ### Without deferral -/

/-- Whether a script pays for its events without deferral: they conform, the credits suffice after
every operation, and in the end all are spent. -/
structure Settles (x : Enforcement) (credits : Nat) (script : List Op)
    (batches : List (List Event)) : Prop where
  conform : ∀ event ∈ batches.flatten, x.cost event = 0 ∨ x.checkError? event = none
  afford : ∀ k, x.totalCost (batches.take k).flatten ≤
    credits + (script.take k).countP (·.guarded)
  spend : x.totalCost batches.flatten = credits + script.countP (·.guarded)

lemma countP_guarded_cons (op : Op) (rest : List Op) :
    (op :: rest).countP (·.guarded) = credit op + rest.countP (·.guarded) := by
  rw [List.countP_cons, Nat.add_comm]
  rfl

lemma settles_nil : Settles x credits [] [] ↔ credits = 0 := by
  constructor
  · intro h
    simpa [Enforcement.totalCost] using h.spend.symm
  · rintro rfl
    exact ⟨by simp, fun k => by simp [Enforcement.totalCost], rfl⟩

/-- A script settles exactly if the flush of its first operation goes well and the rest settles with
the credits that are left. -/
lemma settles_cons {op : Op} {rest : List Op} {batch : List Event} {later : List (List Event)} :
    Settles x credits (op :: rest) (batch :: later) ↔
      (x.deliver (credits + credit op) batch).2.2 = none ∧
        Settles x (credits + credit op - x.totalCost batch) rest later := by
  rw [Enforcement.deliver_eq_none_iff]
  have hstep (k : Nat) :
      x.totalCost (((batch :: later).take (k + 1)).flatten) =
          x.totalCost batch + x.totalCost (later.take k).flatten ∧
        ((op :: rest).take (k + 1)).countP (·.guarded) =
          credit op + (rest.take k).countP (·.guarded) := by
    simp only [List.take_succ_cons, List.flatten_cons, Enforcement.totalCost_append,
      countP_guarded_cons, and_self]
  constructor
  · rintro ⟨hconform, hafford, hspend⟩
    rw [List.flatten_cons, List.forall_mem_append] at hconform
    rw [List.flatten_cons, Enforcement.totalCost_append, countP_guarded_cons] at hspend
    have hfirst : x.totalCost batch ≤ credits + credit op := by
      have := hafford 1
      rw [(hstep 0).1, (hstep 0).2] at this
      simpa [Enforcement.totalCost] using this
    refine ⟨⟨hconform.1, hfirst⟩, hconform.2, fun k => ?_, by omega⟩
    have := hafford (k + 1)
    rw [(hstep k).1, (hstep k).2] at this
    omega
  · rintro ⟨⟨hfirst, hle⟩, hconform, hafford, hspend⟩
    refine ⟨?_, ?_, ?_⟩
    · rw [List.flatten_cons, List.forall_mem_append]
      exact ⟨hfirst, hconform⟩
    · rintro (_ | k)
      · simp [Enforcement.totalCost]
      · have := hafford k
        rw [(hstep k).1, (hstep k).2]
        omega
    · rw [List.flatten_cons, Enforcement.totalCost_append, countP_guarded_cons]
      omega

/-- Without deferral the rest of a script goes well from some credits on exactly if it settles. -/
theorem runFrom_immediate (h : Stands x .immediate m tree credits []) (index : Nat)
    (script : List Op) :
    ((runFrom index m script).2 = none ↔ ∃ final batches,
      edits? x.paths tree script = some (final, batches) ∧ Settles x credits script batches) ∧
    ((runFrom index m script).2 = none → ∃ final batches,
      edits? x.paths tree script = some (final, batches) ∧
      Stands x .immediate (runFrom index m script).1 final 0 []) := by
  induction script generalizing m tree credits index with
  | nil =>
    obtain ⟨m', fault?, hfinish, hiff, hstands⟩ := finish_eq h
    rw [runFrom, hfinish]
    simp only [Enforcement.totalCost, List.not_mem_nil, false_implies, implies_true,
      true_and] at hiff
    constructor
    · rw [hiff]
      constructor
      · rintro rfl
        exact ⟨tree, [], rfl, settles_nil.2 rfl⟩
      · rintro ⟨final, batches, hedits, hsettles⟩
        cases hedits
        exact (settles_nil.1 hsettles).symm
    · intro hnone
      cases hiff.1 hnone
      exact ⟨tree, [], rfl, hstands⟩
  | cons op rest ih =>
    cases happly : op.verb.toEdit.apply op.path tree with
    | error fault => simp [edits?, happly, runFrom_cons_of_error h happly index rest]
    | ok result =>
      obtain ⟨after, removed⟩ := result
      obtain ⟨m', result, hperform, hresult, hstands⟩ := perform_op_immediate h happly rfl
      rw [List.nil_append, Enforcement.affected_eq h.watchers] at hresult hstands
      generalize hbatch : changes tree after
        (x.paths.eraseDups.filter (Dotted.related · op.path)) = batch at hresult hstands
      have hcons {final : Value} {batches : List (List Event)} :
          edits? x.paths tree (op :: rest) = some (final, batches) ↔
            ∃ later, edits? x.paths after rest = some (final, later) ∧ batches = batch :: later :=
        hbatch ▸ edits?_cons_of_ok happly
      rw [runFrom, hperform]
      cases result with
      | error e =>
        refine ⟨iff_of_false (by simp) ?_, by simp⟩
        rintro ⟨final, batches, hedits, hsettles⟩
        obtain ⟨later, -, rfl⟩ := hcons.1 hedits
        obtain ⟨v, hv⟩ := hresult.2 (settles_cons.1 hsettles).1
        cases hv
      | ok v =>
        have hnone : (x.deliver (credits + credit op) batch).2.2 = none := hresult.1 ⟨v, rfl⟩
        rw [Enforcement.deliver_of_eq_none hnone] at hstands
        obtain ⟨hiff, hend⟩ := ih hstands (index + 1)
        constructor
        · rw [hiff]
          constructor
          · rintro ⟨final, later, hedits, hsettles⟩
            exact ⟨final, batch :: later, hcons.2 ⟨later, hedits, rfl⟩,
              settles_cons.2 ⟨hnone, hsettles⟩⟩
          · rintro ⟨final, batches, hedits, hsettles⟩
            obtain ⟨later, hlater, rfl⟩ := hcons.1 hedits
            exact ⟨final, later, hlater, (settles_cons.1 hsettles).2⟩
        · intro hgood
          obtain ⟨final, later, hedits, hleft⟩ := hend hgood
          exact ⟨final, batch :: later, hcons.2 ⟨later, hedits, rfl⟩, hleft⟩

/-! ### With deferral -/

/-- With deferral the rest of a script goes well exactly if all events conform, those that wait
already included, and in the end they take all credits. -/
theorem runFrom_deferred {queue : List Event} (h : Stands x .deferred m tree credits queue)
    (index : Nat) (script : List Op) :
    ((runFrom index m script).2 = none ↔ ∃ final batches,
      edits? x.paths tree script = some (final, batches) ∧
      (∀ event ∈ queue ++ batches.flatten, x.cost event = 0 ∨ x.checkError? event = none) ∧
      x.totalCost (queue ++ batches.flatten) = credits + script.countP (·.guarded)) ∧
    ((runFrom index m script).2 = none → ∃ final batches,
      edits? x.paths tree script = some (final, batches) ∧
      Stands x .deferred (runFrom index m script).1 final 0 []) := by
  induction script generalizing m tree credits queue index with
  | nil =>
    obtain ⟨m', fault?, hfinish, hiff, hstands⟩ := finish_eq h
    rw [runFrom, hfinish]
    constructor
    · rw [hiff]
      constructor
      · rintro ⟨hconforms, htotal⟩
        exact ⟨tree, [], rfl, by simpa using hconforms, by simpa using htotal⟩
      · rintro ⟨final, batches, hedits, hconforms, htotal⟩
        cases hedits
        exact ⟨by simpa using hconforms, by simpa using htotal⟩
    · intro hnone
      obtain ⟨hconforms, htotal⟩ := hiff.1 hnone
      have hdeliver := (Enforcement.deliver_eq_none_iff x credits queue).2
        ⟨hconforms, Nat.le_of_eq htotal⟩
      rw [Enforcement.deliver_of_eq_none hdeliver, htotal, Nat.sub_self] at hstands
      exact ⟨tree, [], rfl, hstands⟩
  | cons op rest ih =>
    cases happly : op.verb.toEdit.apply op.path tree with
    | error fault => simp [edits?, happly, runFrom_cons_of_error h happly index rest]
    | ok result =>
      obtain ⟨after, removed⟩ := result
      obtain ⟨m', v, hperform, hstands⟩ := perform_op_deferred h happly
      rw [Enforcement.affected_eq h.watchers] at hstands
      obtain ⟨hiff, hend⟩ := ih hstands (index + 1)
      rw [runFrom, hperform]
      constructor
      · rw [hiff]
        constructor
        · rintro ⟨final, later, hedits, hconforms, htotal⟩
          rw [List.append_assoc, ← List.flatten_cons] at hconforms htotal
          refine ⟨final, _, (edits?_cons_of_ok happly).2 ⟨later, hedits, rfl⟩, hconforms, ?_⟩
          rw [htotal, countP_guarded_cons, Nat.add_assoc]
        · rintro ⟨final, batches, hedits, hconforms, htotal⟩
          obtain ⟨later, hlater, rfl⟩ := (edits?_cons_of_ok happly).1 hedits
          rw [List.flatten_cons, ← List.append_assoc] at hconforms htotal
          refine ⟨final, later, hlater, hconforms, ?_⟩
          rw [htotal, countP_guarded_cons, Nat.add_assoc]
      · intro hgood
        obtain ⟨final, later, hedits, hleft⟩ := hend hgood
        exact ⟨final, _, (edits?_cons_of_ok happly).2 ⟨later, hedits, rfl⟩, hleft⟩

/-! ### The whole script -/

/-- The credits that events take: one for each time that the path of one is a watch path. -/
def cost (schema : Schema) : List Event → Nat
  | [] => 0
  | event :: rest => schema.watchPaths.count event.path + cost schema rest

/-- Whether the value of an event passes the check of its watch path. -/
def Conforms (name : String) (schema : Schema) (event : Event) : Prop :=
  deepCheck event.value (schema.lookup event.path) ((DataPath.root name).joinDotted event.path) =
    .ok ()

lemma cost_eq (name : String) (schema : Schema) (events : List Event) :
    cost schema events =
      (⟨schema.watchPaths, some schema, name⟩ : Enforcement).totalCost events := by
  induction events with
  | nil => rfl
  | cons event rest ih => rw [cost, Enforcement.totalCost, Enforcement.cost, ih]

lemma stands_of_create {name : String} {data : Value} {schema : Schema} {o : Options}
    {current : Environment} {m : Model}
    (h : Model.create (definition name data schema) o current = .ok m) (himm : o.immutable = true)
    (hdev : o.resolve current = .development) :
    Stands ⟨schema.watchPaths, some schema, name⟩ o.flush m data 0 [] := by
  have hm := Model.created_of_create h hdev
  constructor
  case tree => exact (Option.some.inj hm.data).symm
  case mode => exact hm.mode
  case watchers =>
    rw [hm.watchers, himm, if_pos rfl]
    rfl
  case methods => exact hm.methods
  case guard =>
    rw [hm.guard, himm]
    rfl
  case pending => exact hm.pending
  case flushing => exact hm.flushing

lemma conforms_iff {name : String} {schema : Schema} {event : Event}
    (h : event.path ∈ schema.watchPaths) : Conforms name schema event ↔
      (⟨schema.watchPaths, some schema, name⟩ : Enforcement).cost event = 0 ∨
        (⟨schema.watchPaths, some schema, name⟩ : Enforcement).checkError? event = none := by
  have hcost : schema.watchPaths.count event.path ≠ 0 := by
    have := List.count_pos_iff.2 h
    omega
  rw [Conforms, Enforcement.cost, Enforcement.checkError?, Option.bind_some]
  cases deepCheck event.value (schema.lookup event.path)
    ((DataPath.root name).joinDotted event.path) <;> simp [hcost]

/-- A replay on a guarded model goes well exactly if every edit can be made, every event conforms,
the events take as many credits as there are guarded operations, and, unless changes are deferred,
those up to any operation take no more than the guarded operations up to it have brought. What goes
well without deferral goes as well with it, to the same data and credits. -/
theorem run_eq_none_iff {name : String} {data : Value} {schema : Schema} {o : Options}
    {current : Environment} {atOnce deferred : Model}
    (hatOnce : Model.create (definition name data schema) { o with flush := .immediate } current =
      .ok atOnce)
    (hdeferred : Model.create (definition name data schema) { o with flush := .deferred } current =
      .ok deferred)
    (himm : o.immutable = true) (hdev : o.resolve current = .development) (script : List Op) :
    ((run atOnce script).2 = none ↔ ∃ final batches,
      edits? schema.watchPaths data script = some (final, batches) ∧
      (∀ event ∈ batches.flatten, Conforms name schema event) ∧
      (∀ k, cost schema (batches.take k).flatten ≤ (script.take k).countP (·.guarded)) ∧
      cost schema batches.flatten = script.countP (·.guarded)) ∧
    ((run deferred script).2 = none ↔ ∃ final batches,
      edits? schema.watchPaths data script = some (final, batches) ∧
      (∀ event ∈ batches.flatten, Conforms name schema event) ∧
      cost schema batches.flatten = script.countP (·.guarded)) ∧
    ((run atOnce script).2 = none → (run deferred script).2 = none ∧
      (run atOnce script).1.data = (run deferred script).1.data ∧
      (run atOnce script).1.credits = (run deferred script).1.credits) := by
  have hstart := stands_of_create hatOnce himm hdev
  have hstart' := stands_of_create hdeferred himm hdev
  obtain ⟨hiff, hend⟩ := runFrom_immediate hstart 0 script
  obtain ⟨hiff', hend'⟩ := runFrom_deferred hstart' 0 script
  have hconforms {final : Value} {batches : List (List Event)}
      (hedits : edits? schema.watchPaths data script = some (final, batches)) :
      (∀ event ∈ batches.flatten, Conforms name schema event) ↔ ∀ event ∈ batches.flatten,
        (⟨schema.watchPaths, some schema, name⟩ : Enforcement).cost event = 0 ∨
          (⟨schema.watchPaths, some schema, name⟩ : Enforcement).checkError? event = none :=
    forall₂_congr fun event hevent => conforms_iff (path_mem_of_edits? hedits event hevent)
  have hatOnceIff : (run atOnce script).2 = none ↔ ∃ final batches,
      edits? schema.watchPaths data script = some (final, batches) ∧
      (∀ event ∈ batches.flatten, Conforms name schema event) ∧
      (∀ k, cost schema (batches.take k).flatten ≤ (script.take k).countP (·.guarded)) ∧
      cost schema batches.flatten = script.countP (·.guarded) := by
    rw [run, hiff]
    refine exists₂_congr fun final batches => and_congr_right fun hedits => ?_
    rw [hconforms hedits]
    simp only [cost_eq name schema]
    constructor
    · rintro ⟨hall, hafford, hspend⟩
      exact ⟨hall, by simpa using hafford, by simpa using hspend⟩
    · rintro ⟨hall, hafford, hspend⟩
      exact ⟨hall, by simpa using hafford, by simpa using hspend⟩
  have hdeferredIff : (run deferred script).2 = none ↔ ∃ final batches,
      edits? schema.watchPaths data script = some (final, batches) ∧
      (∀ event ∈ batches.flatten, Conforms name schema event) ∧
      cost schema batches.flatten = script.countP (·.guarded) := by
    rw [run, hiff']
    refine exists₂_congr fun final batches => and_congr_right fun hedits => ?_
    rw [hconforms hedits]
    simp only [List.nil_append, Nat.zero_add, cost_eq name schema]
  refine ⟨hatOnceIff, hdeferredIff, fun hgood => ?_⟩
  obtain ⟨final, batches, hedits, hall, -, htotal⟩ := hatOnceIff.1 hgood
  have hgood' := hdeferredIff.2 ⟨final, batches, hedits, hall, htotal⟩
  obtain ⟨final₁, batches₁, hedits₁, hstands⟩ := hend hgood
  obtain ⟨final₂, batches₂, hedits₂, hstands'⟩ := hend' hgood'
  have hfinal : final₁ = final₂ := by
    have := Option.some.inj (hedits₁.symm.trans hedits₂)
    exact congrArg Prod.fst this
  refine ⟨hgood', ?_, ?_⟩
  · rw [run, run, hstands.tree, hstands'.tree, hfinal]
  · rw [run, run, Model.credits, Model.credits, hstands.guard, hstands'.guard]

/-- An edit from outside ahead of a guarded one that changes nothing is bad without deferral and
good with it. -/
theorem run_eq_none_iff_unpaid_first :
    let data : Value := .object [("a", .ofInt 1), ("b", .ofInt 2)]
    let schema : Schema := .object [("a", .leaf .number), ("b", .leaf .number)]
    let script : List Op := [⟨.set (.ofInt 3), "a", false⟩, ⟨.set (.ofInt 2), "b", true⟩]
    ∃ atOnce deferred,
      Model.create (definition "m" data schema) {} .development = .ok atOnce ∧
      Model.create (definition "m" data schema) { flush := .deferred } .development =
        .ok deferred ∧
      (run atOnce script).2 ≠ none ∧ (run deferred script).2 = none := by
  intro data schema script
  obtain ⟨atOnce, hatOnce⟩ : ∃ m, Model.create (definition "m" data schema) {} .development =
    .ok m := ⟨_, rfl⟩
  obtain ⟨deferred, hdeferred⟩ : ∃ m, Model.create (definition "m" data schema)
    { flush := .deferred } .development = .ok m := ⟨_, rfl⟩
  obtain ⟨hiff, hiff', -⟩ := run_eq_none_iff (o := {}) hatOnce hdeferred rfl rfl script
  have hedits : edits? schema.watchPaths data script =
      some (.object [("a", .ofInt 3), ("b", .ofInt 2)], [[⟨"a", some (.ofInt 3)⟩], []]) := rfl
  refine ⟨atOnce, deferred, hatOnce, hdeferred, ?_, ?_⟩
  · intro hgood
    obtain ⟨final, batches, hedits', -, haffords, -⟩ := hiff.1 hgood
    cases hedits.symm.trans hedits'
    exact absurd (haffords 1) (by decide)
  · refine hiff'.2 ⟨_, _, hedits, ?_, by decide⟩
    simp only [List.flatten_cons, List.flatten_nil, List.append_nil, List.mem_singleton,
      forall_eq]
    rfl

end Replay

end GuardedData
