import GuardedData.Proofs.Model.Solvency

/-!
# How the guard judges a change

Credits have no owner, and what a failed flush has left in the queue is delivered, and paid for,
before anything that comes later. So an edit from outside that changes nothing that is watched is
judged for what is left, as a flush is, and the one change of a guarded entry is sure of a credit if
what is left costs no more than the credits there were before (`Model.judged_by_credits`).
-/

namespace GuardedData

open Machine

/-! ### Edits that change nothing that is watched -/

/-- Whether edits from outside that change nothing at a watch path do what a flush does: they give
its answer and leave what it leaves, with the data changed. With an empty queue that is nothing. -/
def Model.JudgesAsFlush (m : Model) : Prop :=
  ∃ r m', m.Answers .flush r m' ∧ (m.store.pending = [] → r = .ok () ∧ m' = m) ∧
    (∀ path change fault, change.apply path m.data = .error fault →
      m.Answers (.edit path change) (.error (.invalidPath path fault.reason)) m) ∧
    ∀ path change after removed, change.apply path m.data = .ok (after, removed) →
      (∀ w ∈ m.watchPaths, ¬Differs m.data after w) →
      m.Answers (.edit path change) (r.map fun _ => removed)
        { m' with store := { m'.store with tree := after } }

lemma Model.answers_edit_of_error {m : Model} {path : String} {change : Edit} {fault : PathFault}
    (h : change.apply path m.data = .error fault) :
    m.Answers (.edit path change) (.error (.invalidPath path fault.reason)) m := by
  intro stack next
  exact ⟨1, edit_of_error h stack next⟩

/-- An idle guarded model without user watchers judges edits that change nothing watched as it
judges a flush. -/
lemma Enforcement.judgesAsFlush (x : Enforcement) {m : Model} {credits : Nat}
    (hw : m.store.watchers = x.watchers) (hpaths : m.watchPaths = x.paths)
    (hmode : m.store.mode = .immediate) (hidle : m.store.flushing = false)
    (hguard : m.guard = some ⟨credits⟩) : m.JudgesAsFlush := by
  have hflush : m.Answers .flush _ _ := .of_comesTo (x.comesTo_flush hw hidle hguard)
  refine ⟨_, _, hflush, fun hpending => ?_, fun _ _ _ => Model.answers_edit_of_error, ?_⟩
  · obtain ⟨name, ⟨tree, mode, watchers, pending, flushing⟩, methods, computed, guard, watchPaths,
      environment, tasks, nextTask, journal⟩ := m
    simp only at hpending hidle hguard
    subst hpending hidle hguard
    exact ⟨rfl, rfl⟩
  · intro path change after removed happly hsame
    have hnil : changes m.data after (m.store.affected path) = [] := by
      refine List.eq_nil_iff_forall_not_mem.2 fun event hevent => ?_
      obtain ⟨hpath, -, hdiff, -⟩ := (mem_changes_affected (s := m.store) hw).1 hevent
      exact hsame event.path (hpaths ▸ hpath) hdiff
    have hqueue : m.store.pending =
        m.store.pending ++ changes m.data after (m.store.affected path) := by
      rw [hnil, List.append_nil]
    have hedit : m.Answers (.edit path change) _ _ :=
      .of_comesTo (x.comesTo_edit hw hmode hidle hguard happly hqueue)
    convert hedit using 1
    cases outcome (x.deliver credits m.store.pending).2.2 <;> rfl

/-! ### Entries with one change -/

namespace Machine

/-- The data before and after the edit of the next step, if it makes one. -/
def edited? (s : Machine) : Option (Value × Value) :=
  match s.move with
  | .edit path change =>
    match change.apply path s.model.data with
    | .ok (after, _) => some (s.model.data, after)
    | .error _ => none
  | _ => none

variable {s : Machine}

lemma queued_of_edited?_eq_none (h : s.edited? = none) : s.queued = [] := by
  cases hmove : s.move with
  | edit path change =>
    cases happly : change.apply path s.model.data with
    | ok result => simp [edited?, hmove, happly] at h
    | error fault => simp [queued, hmove, happly]
  | _ => simp [queued, hmove]

lemma queued_of_edited? {before after : Value} (h : s.edited? = some (before, after)) :
    (s.queued.map (·.path)).Nodup ∧ ∀ event ∈ s.queued, Differs before after event.path := by
  cases hmove : s.move with
  | edit path change =>
    cases happly : change.apply path s.model.data with
    | ok result =>
      obtain ⟨rfl, rfl⟩ : s.model.data = before ∧ result.1 = after := by
        simpa [edited?, hmove, happly] using h
      have hqueued : s.queued =
          changes s.model.data result.1 (s.model.store.affected path) := by
        simp [queued, hmove, happly]
      rw [hqueued]
      refine ⟨?_, fun event hevent => (mem_changes.1 hevent).2.1⟩
      simp only [changes_eq_map, List.map_map, Function.comp_def, List.map_id']
      exact ((nodup_eraseDups _).filter _).filter _
    | error fault => simp [edited?, hmove, happly] at h
  | _ => simp [edited?, hmove] at h

/-- If there is one edit along some steps, all that is queued along them is what it queues. -/
lemma flatMap_queued_of_edited? {steps : List Machine} {before after : Value}
    (h : steps.filterMap edited? = [(before, after)]) :
    ((steps.flatMap queued).map (·.path)).Nodup ∧
      ∀ event ∈ steps.flatMap queued, Differs before after event.path := by
  have hnone {others : List Machine} (hothers : others.filterMap edited? = []) :
      others.flatMap queued = [] := by
    rw [List.flatMap_eq_nil_iff]
    intro t ht
    exact queued_of_edited?_eq_none (List.filterMap_eq_nil_iff.1 hothers t ht)
  obtain ⟨front, t, back, rfl, hfront, ht, hback⟩ := List.filterMap_eq_cons_iff.1 h
  rw [List.flatMap_append, List.flatMap_cons, hnone (List.filterMap_eq_nil_iff.2 hfront),
    hnone hback, List.nil_append, List.append_nil]
  exact queued_of_edited? ht

end Machine

/-- Events of different paths of which one is watched cost what this one does. -/
lemma Enforcement.totalCost_le {x : Enforcement} {events : List Event} {w : String}
    (hnodup : (events.map (·.path)).Nodup) (h : ∀ event ∈ events, event.path ∈ x.paths →
      event.path = w) : x.totalCost events ≤ x.paths.count w := by
  have hsharp : x.totalCost events ≤ if w ∈ events.map (·.path) then x.paths.count w else 0 := by
    induction events with
    | nil => simp [totalCost]
    | cons event rest ih =>
      rw [List.map_cons, List.nodup_cons] at hnodup
      obtain ⟨hfirst, hrest⟩ := hnodup
      obtain ⟨hevent, hlater⟩ := List.forall_mem_cons.1 h
      have ih := ih hrest hlater
      rw [totalCost, cost]
      by_cases hw : event.path = w
      · subst hw
        rw [if_neg hfirst] at ih
        rw [if_pos (by simp)]
        omega
      · have hcost : x.paths.count event.path = 0 :=
          List.count_eq_zero.2 fun hmem => hw (hevent hmem)
        simpa [hcost, Ne.symm hw] using ih
  split at hsharp <;> omega

/-- A guarded entry from outside: the call of a method that runs to its end, or the assignment of a
computed property that has a setter. -/
inductive Model.Entry (m : Model) : Program → Prop
  | call {name : String} {body : List Value → Program}
    (h : Entries.get? name m.methods = some (.sync body)) (args : List Value) :
    Entry m (.ask (.call name args) .finish)
  | assign {name : String} {get : Program} {set : Value → Program}
    (h : Entries.get? name m.computed = some (.accessor get set)) (value : Value) :
    Entry m (.ask (.setComputed name value) fun r => .finish (r.map fun _ => .null))

namespace Model.Entry

variable {m : Model} {p : Program}

/-- The first step of an entry is to make it. -/
lemma step? (h : m.Entry p) : ∃ t, Machine.step? ⟨m, .run p, []⟩ = some t ∧
    Machine.move ⟨m, .run p, []⟩ = .enter := by
  cases h with
  | call hmethod args =>
    refine ⟨_, rfl, ?_⟩
    simp [move, moveOf, hmethod]
  | assign hproperty value =>
    refine ⟨_, rfl, ?_⟩
    simp [move, moveOf, hproperty, Computed.set?]

lemma keeps (h : m.Entry p) : p.Keeps .honest := by
  cases h with
  | call hmethod args => exact .ask trivial fun result hresult => .finish hresult
  | assign hproperty value => exact .ask trivial fun result hresult => .finish (hresult.map _)

end Model.Entry

/-- A guarded entry that finds credits for what is left in the queue, and that makes one edit, which
changes the value at one watch path, raises no violation. -/
lemma Model.Entry.not_violated {m m' : Model} {x : Enforcement}
    (hcharged : ∀ {past s}, Run m past s → x.Charged s.model.store.watchers)
    {past : List Machine} {result : Result} (hrun : Run m past ⟨m', .answer result, []⟩)
    (hpaths : m'.watchPaths = x.paths) {credits : Nat} (hguard : m'.guard = some ⟨credits⟩)
    (hcost : x.totalCost m'.store.pending ≤ credits) {p : Program} (hp : m'.Entry p) {n : Nat}
    {before after : Value} {w : String}
    (hedit : (trail n ⟨m', .run p, []⟩).filterMap edited? = [(before, after)])
    (hone : ∀ v ∈ m'.watchPaths, Differs before after v → v = w)
    (honce : m'.watchPaths.count w = 1) :
    ∀ t ∈ trail n ⟨m', .run p, []⟩, ∀ e, t.objected? = some e → e.isGuardViolation = false := by
  have hentry := hrun.next p
  obtain ⟨t, hstep, hmove⟩ := hp.step?
  have hstart : x.Solvent 0 ⟨m', .run p, []⟩ := by
    refine ⟨_, hguard, ?_⟩
    simpa [Enforcement.due, untold] using hcost
  have hedited : edited? ⟨m', .run p, []⟩ = none := by simp [edited?, hmove]
  cases n with
  | zero => simp [trail]
  | succ n =>
    rw [trail, hstep] at hedit ⊢
    rw [List.filterMap_cons_none hedited] at hedit
    obtain ⟨hnodup, hdiffers⟩ := flatMap_queued_of_edited? hedit
    have hqueued : x.totalCost ((trail n t).flatMap queued) ≤ 1 := by
      rw [← honce, hpaths]
      refine Enforcement.totalCost_le hnodup fun event hevent hpath => ?_
      exact hone event.path (hpaths ▸ hpath) (hdiffers event hevent)
    have hsolvent : x.Solvent 1 t :=
      hstart.enter hstep hmove hentry.frames_eq_zero (hcharged hentry)
    obtain ⟨g, hg, hcredits⟩ := hsolvent
    refine List.forall_mem_cons.2 ⟨(fun e he => by cases he), ?_⟩
    exact Run.not_violated hcharged (hentry.step hstep) ⟨g, hg, by omega⟩

namespace Model

/-- **The guard judges a change with what was left before it.** On a guarded model without user
watchers that does not defer its changes, wherever a run has brought it, edits from outside that
change nothing at a watch path are judged as a flush; and a guarded entry that makes one edit, which
changes the value at one watch path, raises no violation if the credits there were before suffice
for the queue that there was. Nor does it end with one, unless user code has one of its own. -/
theorem judged_by_credits {d : Definition} {o : Options} {current : Environment} {m : Model}
    (hm : create d o current = .ok m) (himm : o.immutable = true)
    (hdev : o.resolve current = .development) (hsync : o.flush = .immediate)
    {past : List Machine} {m' : Model} {last : Result} (hrun : Run m past ⟨m', .answer last, []⟩)
    (huser : ∀ w ∈ m'.store.watchers, ∀ body, w.callback ≠ .react body) :
    m'.JudgesAsFlush ∧
    ∀ {credits : Int}, m'.credits = some credits →
      (Enforcement.ofDefinition d).totalCost m'.store.pending ≤ credits →
      ∀ {p : Program}, m'.Entry p → ∀ {n : Nat} {m'' : Model} {result : Result},
        runFor n ⟨m', .run p, []⟩ = ⟨m'', .answer result, []⟩ →
        ∀ {before after : Value} {w : String},
          (trail n ⟨m', .run p, []⟩).filterMap edited? = [(before, after)] →
          (∀ v ∈ m'.watchPaths, Differs before after v → v = w) → m'.watchPaths.count w = 1 →
          (∀ t ∈ trail n ⟨m', .run p, []⟩, ∀ e, t.objected? = some e →
            e.isGuardViolation = false) ∧
          (m'.Keeps .honest → ∀ path, result ≠ .error (.immutable path)) := by
  have hcreated := created_of_create hm hdev
  have hcharged {past : List Machine} {s : Machine} (h : Run m past s) :=
    hcreated.charged himm h
  have hpaths : m'.watchPaths = (Enforcement.ofDefinition d).paths :=
    hrun.sameMake.watchPaths.trans hcreated.watchPaths
  have hguard₀ : m.guard = some ⟨((0 : Nat) : Int)⟩ := by rw [hcreated.guard, himm]; rfl
  obtain ⟨k, hguard⟩ := hrun.guard hguard₀
  refine ⟨?_, ?_⟩
  · exact (Enforcement.ofDefinition d).judgesAsFlush (hcreated.watchers_of_run himm hrun huser)
      hpaths (hrun.sameMake.mode.trans (hcreated.mode.trans hsync))
      (hrun.flushing_of_idle hcreated.flushing) hguard
  · intro credits hcredits hcost p hp n m'' result hend before after w hedit hone honce
    have hk : credits = k := by
      simp only at hguard
      rw [Model.credits, hguard] at hcredits
      exact (Option.some.inj hcredits).symm
    have hfine := hp.not_violated hcharged hrun hpaths hguard (by omega) hedit hone honce
    refine ⟨hfine, fun hkeeps path hresult => ?_⟩
    have hlast := keeps_runFor (s := ⟨m', .run p, []⟩) ⟨hkeeps, hp.keeps, by simp⟩ hfine
    rw [hend] at hlast
    have hhonest := hlast.control (.immutable path) hresult
    cases hhonest

/-- A call pays for the event that a refused value has left in the queue, and for its own. -/
theorem judged_by_credits_left_event :
    let idle : Method := .sync fun _ => .pure .null
    let assign : Method := .sync fun args => .edit "a" (.set (args.headD .null))
    let d : Definition := {
      data := some (.object [("a", .ofInt 1), ("b", .ofInt 1)])
      schema := some (.object [("a", .leaf .number), ("b", .leaf .number)])
      methods := [("idle", idle), ("assign", assign)] }
    let refused : Program := .ask (.call "idle" []) fun _ => .ask (.call "idle" []) fun _ =>
      .edit "" (.update fun _ => .object [("a", .null), ("b", .ofInt 2)])
    let call : Program := .ask (.call "assign" [.ofInt 7]) .finish
    ∃ m m' m'' e, create d {} .development = .ok m ∧
      runFor 30 ⟨m, .run refused, []⟩ = ⟨m', .answer (.error (.validation e)), []⟩ ∧
      m'.store.pending.map (·.path) = ["b"] ∧ m'.credits = some 1 ∧ m'.JudgesAsFlush ∧
      runFor 30 ⟨m', .run call, []⟩ = ⟨m'', .answer (.ok .null), []⟩ ∧ m''.credits = some 0 ∧
      ∀ t ∈ trail 30 ⟨m', .run call, []⟩, ∀ e, t.objected? = some e →
        e.isGuardViolation = false := by
  intro idle assign d refused call
  obtain ⟨m, m', m'', e, before, after, hm, hend, hcall, hpending, hcredits, hspent, hwatchers,
      hpaths, hbody, hcost, hedit, hsame⟩ : ∃ m m' m'' e before after,
      create d {} .development = .ok m ∧
      runFor 30 ⟨m, .run refused, []⟩ = ⟨m', .answer (.error (.validation e)), []⟩ ∧
      runFor 30 ⟨m', .run call, []⟩ = ⟨m'', .answer (.ok .null), []⟩ ∧
      m'.store.pending.map (·.path) = ["b"] ∧ m'.credits = some 1 ∧ m''.credits = some 0 ∧
      m'.store.watchers = (Enforcement.ofDefinition d).watchers ∧ m'.watchPaths = ["a", "b"] ∧
      Entries.get? "assign" m'.methods = some assign ∧
      (Enforcement.ofDefinition d).totalCost m'.store.pending = 1 ∧
      (trail 30 ⟨m', .run call, []⟩).filterMap edited? = [(before, after)] ∧
      Value.equalOption (after.at? "b") (before.at? "b") = true := by
    dsimp only [idle, assign, d, refused, call]
    exact ⟨_, _, _, _, _, _, rfl, rfl, rfl, rfl, rfl, rfl, rfl, rfl, rfl, rfl, rfl, rfl⟩
  have hrun := (Run.begin (m := m) refused).runFor 30
  rw [hend] at hrun
  have huser : ∀ w ∈ m'.store.watchers, ∀ body, w.callback ≠ .react body := by
    rw [hwatchers]
    exact fun w hw => Enforcement.callback_ne_react hw
  have hone : ∀ v ∈ m'.watchPaths, Differs before after v → v = "a" := by
    simp [hpaths, Differs, hsame]
  have honce : m'.watchPaths.count "a" = 1 := by simp [hpaths]
  obtain ⟨hflush, hjudged⟩ := judged_by_credits hm rfl rfl rfl hrun huser
  obtain ⟨hfine, -⟩ :=
    hjudged hcredits (by omega) (.call hbody [.ofInt 7]) hcall hedit hone honce
  exact ⟨m, m', m'', e, hm, hend, hpending, hcredits, hflush, hcall, hspent, hfine⟩

/-- A refused edit leaves an event in the queue. An edit of what is not watched is refused for it,
and a call whose one change is that of one watched value finds its credit spent on it. -/
theorem charged_for_what_was_left :
    let assign : Method := .sync fun args => .edit "a" (.set (args.headD .null))
    let d : Definition := {
      data := some (.object [("a", .ofInt 1), ("b", .ofInt 1), ("c", .ofInt 1)])
      schema := some (.object [("a", .leaf .number), ("b", .leaf .number)])
      methods := [("assign", assign)] }
    let refused : Program := .edit "" (.update fun _ =>
      .object [("a", .ofInt 2), ("b", .ofInt 2), ("c", .ofInt 1)])
    let call : Program := .ask (.call "assign" [.ofInt 7]) .finish
    ∃ m m' m₁ m₂ after before' after', create d {} .development = .ok m ∧
      runFor 30 ⟨m, .run refused, []⟩ = ⟨m', .answer (.error (.immutable "a")), []⟩ ∧
      (Edit.set (.ofInt 5)).apply "c" m'.data = .ok (after, none) ∧
      (m'.watchPaths.filter fun w => !Value.equalOption (after.at? w) (m'.data.at? w)) = [] ∧
      runFor 30 ⟨m', .run (.edit "c" (.set (.ofInt 5))), []⟩ =
        ⟨m₁, .answer (.error (.immutable "b")), []⟩ ∧
      m'.Entry call ∧ (trail 30 ⟨m', .run call, []⟩).filterMap edited? = [(before', after')] ∧
      (m'.watchPaths.filter fun w => !Value.equalOption (after'.at? w) (before'.at? w)) = ["a"] ∧
      runFor 30 ⟨m', .run call, []⟩ = ⟨m₂, .answer (.error (.immutable "a")), []⟩ := by
  dsimp only
  exact ⟨_, _, _, _, _, _, _, rfl, rfl, rfl, rfl, rfl, .call rfl _, rfl, rfl, rfl⟩

/-- A key with a dot in it and two nested keys may have one watch path between them. The guard
watches it twice, so that a call whose one change is that of one value lacks a credit. -/
theorem charged_twice_for_one_path :
    let assign : Method := .sync fun args => .edit "a.b" (.set (args.headD .null))
    let d : Definition := {
      data := some (.object [("a.b", .ofInt 1), ("a", .object [("b", .ofInt 1)])])
      schema := some (.object [("a.b", .leaf .number), ("a", .object [("b", .leaf .number)])])
      methods := [("assign", assign)] }
    let call : Program := .ask (.call "assign" [.ofInt 7]) .finish
    ∃ m m' before after, create d {} .development = .ok m ∧ m.store.pending = [] ∧
      m.watchPaths = ["a.b", "a.b"] ∧ m.Entry call ∧
      (trail 30 ⟨m, .run call, []⟩).filterMap edited? = [(before, after)] ∧
      (m.watchPaths.filter fun w => !Value.equalOption (after.at? w) (before.at? w)) =
        ["a.b", "a.b"] ∧
      runFor 30 ⟨m, .run call, []⟩ = ⟨m', .answer (.error (.immutable "a.b")), []⟩ := by
  dsimp only
  exact ⟨_, _, _, _, rfl, rfl, rfl, .call rfl _, rfl, rfl, rfl⟩

end Model

end GuardedData
