import GuardedData.Proofs.Model.Creation

/-!
# Direct edits of a guarded model

With no credit there, an edit from outside is refused exactly if it changes the value at a watch
path that it does not overlook, and every other edit is let through
(`Model.direct_edit_refused_iff`).
-/

namespace GuardedData

/-- Whether a request on a model is answered, whoever asks, and what model that leaves. -/
def Model.Answers (m : Model) (request : Request) (answer : request.Answer) (m' : Model) : Prop :=
  ∀ stack next, ∃ n,
    Machine.runFor n ⟨m, .run (.ask request next), stack⟩ = ⟨m', .run (next answer), stack⟩

lemma Model.Answers.of_comesTo {n : Nat} {m m' : Model} {request : Request}
    {answer : request.Answer}
    (h : ∀ stack next, Machine.ComesTo n ⟨m, .run (.ask request next), stack⟩
      ⟨m', .run (next answer), stack⟩) : m.Answers request answer m' := by
  intro stack next
  obtain ⟨k, -, hk⟩ := h stack next
  exact ⟨k, hk⟩

namespace Enforcement

variable {x : Enforcement}

lemma mem_watchedPaths {s : Store Callback} (h : s.watchers = x.watchers) {path : String} :
    path ∈ s.watchedPaths ↔ path ∈ x.paths := by
  simp [Store.watchedPaths, List.mem_eraseDups, h, watchers, settling, checking, Function.comp_def]

lemma mem_changes_affected {s : Store Callback} (h : s.watchers = x.watchers) {path : String}
    {after : Value} {event : Event} : event ∈ changes s.tree after (s.affected path) ↔
      event.path ∈ x.paths ∧ Dotted.related event.path path = true ∧
        Differs s.tree after event.path ∧ event.value = after.at? event.path := by
  rw [mem_changes, Store.affected, List.mem_filter, mem_watchedPaths h, and_assoc]

/-- An edit queues something exactly if it changes the value at a watch path that it does not
overlook. -/
lemma changes_affected_ne_nil_iff {s : Store Callback} (h : s.watchers = x.watchers) {path : String}
    {after : Value} : changes s.tree after (s.affected path) ≠ [] ↔
      ∃ w ∈ x.paths, Differs s.tree after w ∧ ¬Overlooked s.tree after path w := by
  constructor
  · intro hne
    obtain ⟨event, hevent⟩ := List.exists_mem_of_ne_nil _ hne
    obtain ⟨hpath, hrelated, hdiff, -⟩ := (mem_changes_affected h).1 hevent
    refine ⟨event.path, hpath, hdiff, ?_⟩
    rintro ⟨hunrelated, -⟩
    rw [hrelated] at hunrelated
    exact Bool.noConfusion hunrelated
  · rintro ⟨w, hw, hdiff, hnot⟩ hnil
    have hrelated : Dotted.related w path = true := by
      by_contra hr
      exact hnot ⟨by simpa using hr, hdiff⟩
    have hevent : (⟨w, after.at? w⟩ : Event) ∈ changes s.tree after (s.affected path) :=
      (mem_changes_affected h).2 ⟨hw, hrelated, hdiff, rfl⟩
    rw [hnil] at hevent
    cases hevent

lemma callback_ne_react {w : Watcher Callback} (h : w ∈ x.watchers)
    (body : Option Value → Program) : w.callback ≠ .react body := by
  rcases List.mem_append.1 h with h | h
  all_goals
    obtain ⟨path, -, rfl⟩ := List.mem_map.1 h
    exact Callback.noConfusion

/-- The first event of a watch path that finds no credit is a violation, and spends nothing. -/
lemma deliver_zero_cons {event : Event} (h : event.path ∈ x.paths) (rest : List Event) :
    x.deliver 0 (event :: rest) = (0, rest, some (.immutable event.path)) := by
  have hcost : ¬x.cost event ≤ 0 := by
    have := List.count_pos_iff.2 h
    rw [cost]
    omega
  simp [deliver, eventError?, hcost]

end Enforcement

namespace Model

/-- An edit of a guarded model from outside, where no credit is left, nothing is queued and no flush
is under way, is refused exactly if it changes the value at a watch path that it does not overlook.
Every other edit is let through, and what it overlooks escapes in one of four ways. -/
theorem direct_edit_refused_iff {d : Definition} {o : Options} {current : Environment} {m : Model}
    (hm : create d o current = .ok m) (himm : o.immutable = true)
    (hdev : o.resolve current = .development) (hsync : o.flush = .immediate)
    {past : List Machine} {s : Machine} (hrun : Run m past s)
    (huser : ∀ w ∈ s.model.store.watchers, ∀ body, w.callback ≠ .react body)
    (hcredits : s.model.credits = some 0) (hpending : s.model.store.pending = [])
    (hidle : s.model.store.flushing = false) {path : String} {change : Edit} {after : Value}
    {removed : Option Value} (happly : change.apply path s.model.data = .ok (after, removed)) :
    ∃ m' answer, s.model.Answers (.edit path change) answer m' ∧
      m'.credits = some 0 ∧ m'.data = after ∧
      ((∃ w, answer = .error (.immutable w)) ↔ ∃ w ∈ s.model.watchPaths,
        Differs s.model.data after w ∧ ¬Overlooked s.model.data after path w) ∧
      ((∀ w, answer ≠ .error (.immutable w)) → answer = .ok removed) ∧
      ∀ w ∈ s.model.watchPaths, Overlooked s.model.data after path w →
        Escape s.model.data change path w := by
  have hcreated := created_of_create hm hdev
  have hwatchers := hcreated.watchers_of_run himm hrun huser
  have hpaths : s.model.watchPaths = (Enforcement.ofDefinition d).paths :=
    hrun.sameMake.watchPaths.trans hcreated.watchPaths
  have hmode : s.model.store.mode = .immediate :=
    hrun.sameMake.mode.trans (hcreated.mode.trans hsync)
  have hguard : s.model.guard = some ⟨((0 : Nat) : Int)⟩ := by
    obtain ⟨g, hg, h0⟩ := Option.map_eq_some_iff.1 hcredits
    rw [hg, ← show g.credits = ((0 : Nat) : Int) from h0]
  generalize Enforcement.ofDefinition d = x at hwatchers hpaths
  have hescape : ∀ w ∈ s.model.watchPaths, Overlooked s.model.data after path w →
      Escape s.model.data change path w := fun w _ hw => hw.escape happly
  have hqueue : changes s.model.data after (s.model.store.affected path) =
      s.model.store.pending ++ changes s.model.data after (s.model.store.affected path) := by
    rw [hpending, List.nil_append]
  have hcome := Enforcement.comesTo_edit x hwatchers hmode hidle hguard happly hqueue
  have hne : changes s.model.data after (s.model.store.affected path) ≠ [] ↔ ∃ w ∈ x.paths,
      Differs s.model.data after w ∧ ¬Overlooked s.model.data after path w :=
    Enforcement.changes_affected_ne_nil_iff (s := s.model.store) hwatchers
  rw [hpaths, ← hne]
  cases hevents : changes s.model.data after (s.model.store.affected path) with
  | nil =>
    rw [hevents] at hcome
    have hanswers : s.model.Answers (.edit path change) (.ok removed)
        ((s.model.edited path after).put 0 [] false) := .of_comesTo hcome
    exact ⟨_, .ok removed, hanswers, rfl, rfl, by simp, fun _ => rfl, hpaths ▸ hescape⟩
  | cons event rest =>
    have hpath : event.path ∈ x.paths :=
      ((Enforcement.mem_changes_affected (s := s.model.store) hwatchers).1
        (hevents ▸ List.mem_cons_self)).1
    rw [hevents, Enforcement.deliver_zero_cons hpath] at hcome
    have hanswers : s.model.Answers (.edit path change) (.error (.immutable event.path))
        ((s.model.edited path after).put 0 rest false) := .of_comesTo hcome
    exact ⟨_, .error (.immutable event.path), hanswers, rfl, rfl,
      iff_of_true ⟨event.path, rfl⟩ (List.cons_ne_nil _ _), fun h => absurd rfl (h event.path),
      hpaths ▸ hescape⟩

/-- With a doubled dot an edit from outside gets at the data of a guarded model; without, it is
refused. -/
theorem direct_edit_refused_iff_doubled_dot :
    let d : Definition := {
      data := some (.object [("a", .object [("b", .ofInt 1)])])
      schema := some (.object [("a", .object [("b", .leaf .number)])]) }
    ∃ m m₁ m₂ w, create d {} .development = .ok m ∧
      m.Answers (.edit "a..b" (.set (.ofInt 2))) (.ok none) m₁ ∧
      m₁.data = .object [("a", .object [("b", .ofInt 2)])] ∧ m₁.credits = some 0 ∧
      m.Answers (.edit "a.b" (.set (.ofInt 2))) (.error (.immutable w)) m₂ := by
  intro d
  obtain ⟨m, hm⟩ : ∃ m, create d {} .development = .ok m := ⟨_, rfl⟩
  have hdata : m.data = .object [("a", .object [("b", .ofInt 1)])] := by cases hm; rfl
  have hpaths : m.watchPaths = ["a.b"] := by cases hm; rfl
  have hwatchers : m.store.watchers = (Enforcement.ofDefinition d).watchers := by cases hm; rfl
  have huser : ∀ w ∈ m.store.watchers, ∀ body, w.callback ≠ .react body := by
    rw [hwatchers]
    exact fun w hw => Enforcement.callback_ne_react hw
  have hedit (path : String) (hpath : Dotted.segments path = ["a", "b"]) :
      Edit.apply (.set (.ofInt 2)) path m.data =
        .ok (.object [("a", .object [("b", .ofInt 2)])], none) := by
    rw [hdata]
    exact Edit.onParent_eq_ok_iff.2 ⟨["a"], "b", _, _, hpath, rfl, rfl, rfl⟩
  have hrefused := fun path hpath => direct_edit_refused_iff hm rfl rfl rfl
    (.begin (.pure .null)) huser (by cases hm; rfl) (by cases hm; rfl) (by cases hm; rfl)
    (hedit path hpath)
  obtain ⟨m₁, answer₁, h₁, hcredits, hafter, hiff₁, hok, -⟩ := hrefused "a..b" (by decide)
  obtain ⟨m₂, answer₂, h₂, -, -, hiff₂, -⟩ := hrefused "a.b" (by decide)
  have hpass : answer₁ = .ok none := by
    refine hok fun w hw => ?_
    obtain ⟨v, hv, hdiff, hnot⟩ := hiff₁.1 ⟨w, hw⟩
    rw [hpaths, List.mem_singleton] at hv
    subst hv
    exact hnot ⟨by decide, hdiff⟩
  obtain ⟨w, hw⟩ := hiff₂.2 ⟨"a.b", by simp [hpaths], by rw [hdata]; rfl,
    fun h => absurd h.1 (by decide)⟩
  subst hpass hw
  exact ⟨m, m₁, m₂, w, hm, h₁, hafter, hcredits, h₂⟩

end Model

end GuardedData
