import GuardedData.Proofs.Model.Bare

/-!
# Development and production

User code that knows nothing of enforcement does the same in production as in development, as long
as enforcement raises no error there: the same results, the same data, the same user watchers told
of the same values, and of the queue what user code watches (`Model.transparent`). The model in
production is that in development without its enforcement.
-/

namespace GuardedData

open Machine

/-! ### Runs of the bare machine -/

namespace Machine

/-- No more steps are taken than it takes to come to an end. -/
lemma mem_trail_of_ended {n k : Nat} {s t : Machine} (hend : (runFor n s).step? = none)
    (ht : t ∈ trail k s) : t ∈ trail n s := by
  induction n generalizing s k with
  | zero =>
    have hs : s.step? = none := hend
    cases k <;> simp [trail, hs] at ht
  | succ n ih =>
    rw [runFor] at hend
    cases k with
    | zero => simp [trail] at ht
    | succ k =>
      rw [trail] at ht ⊢
      cases hs : s.step? with
      | none => simp [hs] at ht
      | some u =>
        rw [hs] at ht hend
        rcases List.mem_cons.1 ht with rfl | ht
        · exact List.mem_cons_self
        · exact List.mem_cons_of_mem _ (ih hend ht)

variable {s t : Machine}

/-- To watch a path is not asked for by a request. -/
lemma moveOf_ne_watch (m : Model) (request : Request) (path : String)
    (body : Option Value → Program) : moveOf m request ≠ .watch path body := by
  cases request <;> simp only [moveOf] <;> try split
  all_goals simp

lemma registered?_eq_none (hkeeps : s.Keeps .oblivious) : s.registered? = none := by
  unfold registered?
  split
  · rename_i path body hmove
    obtain ⟨m, control, stack⟩ := s
    have hcontrol := hkeeps.control
    cases control with
    | run p =>
      cases hcontrol with
      | finish hresult => cases hmove
      | ask hasks hnext => exact absurd hmove (moveOf_ne_watch m _ path body)
      | watch hwatches => exact hwatches.elim
    | deliver callbacks value failure => cases callbacks <;> cases hmove
    | _ => cases hmove
  · rfl

/-- User code that knows nothing of enforcement goes on like that, on the same watchers. -/
lemma oblivious_of_step? (hkeeps : s.Keeps .oblivious) (h : s.step? = some t) :
    t.Keeps .oblivious ∧ t.model.store.watchers = s.model.store.watchers := by
  refine ⟨keeps_of_step? hkeeps h fun _ _ => trivial, ?_⟩
  rw [watchers_of_step? h, registered?_eq_none hkeeps, Option.toList_none, List.append_nil]

lemma watchers_runFor {n : Nat} (hkeeps : s.Keeps .oblivious) :
    (runFor n s).model.store.watchers = s.model.store.watchers := by
  induction n generalizing s with
  | zero => rfl
  | succ n ih =>
    rw [runFor]
    cases hs : s.step? with
    | none => rfl
    | some t =>
      obtain ⟨ht, hwatchers⟩ := oblivious_of_step? hkeeps hs
      exact (ih ht).trans hwatchers

/-- What a machine comes to the bare machine comes to, having told the same to user code. -/
theorem followed_runFor {n : Nat} (hfirst : s.model.store.UsersFirst) (hkeeps : s.Keeps .oblivious)
    (hobject : ∀ t ∈ trail n s, t.objected? = none) : ∃ k, runFor k s.bare = (runFor n s).bare ∧
      (trail k s.bare).filterMap told? = ((trail n s).filterMap told?).filter (·.1.reacts) := by
  induction n generalizing s with
  | zero => exact ⟨0, rfl, rfl⟩
  | succ n ih =>
    rw [trail] at hobject ⊢
    rw [runFor]
    cases hs : s.step? with
    | none => exact ⟨0, rfl, rfl⟩
    | some t =>
      rw [hs] at hobject
      obtain ⟨hnow, hlater⟩ := List.forall_mem_cons.1 hobject
      obtain ⟨ht, hwatchers⟩ := oblivious_of_step? hkeeps hs
      obtain ⟨k, hk, htold, -⟩ := followed_of_step? hs hfirst hkeeps hnow
      obtain ⟨l, hl, htoldLater⟩ := ih (hfirst.congr hwatchers) ht hlater
      refine ⟨k + l, by rw [runFor_add, hk, hl], ?_⟩
      rw [trail_add, hk, List.filterMap_append, htold, htoldLater, ← List.filter_append]
      congr 1
      cases hfirst : s.told? <;> simp [hfirst]

/-- If a machine comes to an end, the bare machine comes to no model but bare ones of its models. -/
theorem model_runFor_bare {n : Nat} (hfirst : s.model.store.UsersFirst)
    (hkeeps : s.Keeps .oblivious) (hobject : ∀ t ∈ trail n s, t.objected? = none)
    (hend : ∃ m result, runFor n s = ⟨m, .answer result, []⟩) (k : Nat) :
    ∃ l, (runFor k s.bare).model = (runFor l s).model.bare := by
  induction n generalizing s k with
  | zero =>
    obtain ⟨m, result, rfl⟩ : ∃ m result, s = ⟨m, .answer result, []⟩ := hend
    exact ⟨0, by rw [runFor_of_outcome? rfl]; rfl⟩
  | succ n ih =>
    rw [trail] at hobject
    rw [runFor] at hend
    cases hs : s.step? with
    | none =>
      rw [hs] at hend
      obtain ⟨m, result, rfl⟩ := hend
      exact ⟨0, by rw [runFor_of_outcome? rfl]; rfl⟩
    | some t =>
      rw [hs] at hobject hend
      obtain ⟨hnow, hlater⟩ := List.forall_mem_cons.1 hobject
      obtain ⟨ht, hwatchers⟩ := oblivious_of_step? hkeeps hs
      obtain ⟨j, hj, -, hsame⟩ := followed_of_step? hs hfirst hkeeps hnow
      by_cases hlt : k < j
      · exact ⟨0, hsame k hlt⟩
      · obtain ⟨i, rfl⟩ := Nat.exists_eq_add_of_le (Nat.le_of_not_lt hlt)
        obtain ⟨l, hl⟩ := ih (hfirst.congr hwatchers) ht hlater hend i
        refine ⟨l + 1, ?_⟩
        rw [runFor_add, hj, hl, runFor, hs]

end Machine

/-! ### Turns -/

/-- A piece of user code that is run on an idle model and comes to its end. -/
structure Turn where
  before : Model
  program : Program
  steps : Nat
  after : Model
  result : Result
  ends : runFor steps ⟨before, .run program, []⟩ = ⟨after, .answer result, []⟩

namespace Turn

def start (turn : Turn) : Machine := ⟨turn.before, .run turn.program, []⟩

def trail (turn : Turn) : List Machine := Machine.trail turn.steps turn.start

/-- Whether some turns are taken one after the other, beginning on a model. -/
def Follow (m : Model) : List Turn → Prop
  | [] => True
  | turn :: later => turn.before = m ∧ Follow turn.after later

end Turn

/-- Whether two machines have the same data, and the second one those events of the first one that
are at some paths. -/
def Machine.Shows (paths : List String) (s t : Machine) : Prop :=
  t.model.data = s.model.data ∧
    t.model.store.pending = s.model.store.pending.filter (paths.contains ·.path)

/-- Whether a turn does what another one does, as far as user code is concerned that watches some
paths: it comes to the same result by telling user code the same, and whatever state either of them
comes to, the other one comes to one that shows the same. -/
structure Turn.Alike (paths : List String) (dev prod : Turn) : Prop where
  program : prod.program = dev.program
  result : prod.result = dev.result
  data : prod.after.data = dev.after.data
  pending : prod.after.store.pending = dev.after.store.pending.filter (paths.contains ·.path)
  told : prod.trail.filterMap told? = (dev.trail.filterMap told?).filter (·.1.reacts)
  shown : ∀ n, ∃ k, Shows paths (runFor n dev.start) (runFor k prod.start)
  always : ∀ k, ∃ n, Shows paths (runFor n dev.start) (runFor k prod.start)

/-- A turn on the bare model does what it does on the model, and leaves a bare model. -/
lemma Turn.exists_alike {turn : Turn} {paths : List String}
    (hfirst : turn.before.store.UsersFirst)
    (hheeds : ∀ path, turn.before.store.heeds path = paths.contains path)
    (hmodel : turn.before.Keeps .oblivious) (hprogram : turn.program.Keeps .oblivious)
    (hfine : ∀ s ∈ turn.trail, s.objected? = none) :
    (turn.after.Keeps .oblivious ∧ turn.after.store.watchers = turn.before.store.watchers) ∧
      ∃ prod : Turn, prod.before = turn.before.bare ∧ prod.after = turn.after.bare ∧
        Turn.Alike paths turn prod := by
  have hkeeps : turn.start.Keeps .oblivious := ⟨hmodel, hprogram, by simp [start]⟩
  have hended : runFor turn.steps turn.start = ⟨turn.after, .answer turn.result, []⟩ := turn.ends
  have hwatchers (n : Nat) := watchers_runFor (n := n) hkeeps
  have hafter := keeps_runFor (n := turn.steps) hkeeps fun _ _ _ _ => trivial
  have hlast := hwatchers turn.steps
  rw [hended] at hafter hlast
  have hshows {n : Nat} {t : Machine} (h : t.model = (runFor n turn.start).model.bare) :
      Shows paths (runFor n turn.start) t := by
    have hpaths : (runFor n turn.start).model.store.heeds = paths.contains := by
      rw [Store.heeds_congr (hwatchers n)]
      exact funext hheeds
    rw [Shows, h, ← hpaths]
    exact ⟨rfl, rfl⟩
  obtain ⟨k, hk, htold⟩ := followed_runFor hfirst hkeeps hfine
  rw [hended] at hk
  have hfinal := hshows (n := turn.steps) (t := runFor k turn.start.bare) (by rw [hk, hended]; rfl)
  rw [hk, hended] at hfinal
  let prod : Turn := ⟨turn.before.bare, turn.program, k, turn.after.bare, turn.result, hk⟩
  refine ⟨⟨hafter.model, hlast⟩, prod, rfl, rfl, rfl, rfl, hfinal.1, hfinal.2, htold, fun n => ?_,
    fun l => ?_⟩
  · have hobject : ∀ t ∈ Machine.trail n turn.start, t.objected? = none := fun t ht =>
      hfine t (mem_trail_of_ended (by rw [hended]; rfl) ht)
    obtain ⟨l, hl, -⟩ := followed_runFor hfirst hkeeps hobject
    exact ⟨l, hshows (congrArg Machine.model hl)⟩
  · obtain ⟨n, hn⟩ := model_runFor_bare hfirst hkeeps hfine ⟨_, _, hended⟩ l
    exact ⟨n, hshows hn⟩

/-- Turns on the bare model do what they do on the model. -/
lemma Turn.exists_forall₂_alike {turns : List Turn} {m : Model} {paths : List String}
    (hturns : Turn.Follow m turns) (hfirst : m.store.UsersFirst)
    (hheeds : ∀ path, m.store.heeds path = paths.contains path) (hmodel : m.Keeps .oblivious)
    (hprograms : ∀ turn ∈ turns, turn.program.Keeps .oblivious)
    (hfine : ∀ turn ∈ turns, ∀ s ∈ turn.trail, s.objected? = none) :
    ∃ turns', Turn.Follow m.bare turns' ∧ List.Forall₂ (Turn.Alike paths) turns turns' := by
  induction turns generalizing m with
  | nil => exact ⟨[], trivial, .nil⟩
  | cons turn later ih =>
    obtain ⟨rfl, hlater⟩ := hturns
    obtain ⟨hprogram, hprograms⟩ := List.forall_mem_cons.1 hprograms
    obtain ⟨hnow, hfine⟩ := List.forall_mem_cons.1 hfine
    obtain ⟨⟨hafter, hwatchers⟩, prod, hbefore, hleft, halike⟩ :=
      Turn.exists_alike hfirst hheeds hmodel hprogram hnow
    obtain ⟨turns', hturns', hall⟩ := ih hlater (hfirst.congr hwatchers)
      (fun path => by rw [Store.heeds_congr hwatchers, hheeds]) hafter hprograms hfine
    exact ⟨prod :: turns', ⟨hbefore, hleft ▸ hturns'⟩, .cons halike hall⟩

/-- **Enforcement is transparent.** If a model can be made in development, all its user code knows
nothing of enforcement, and no callback of the guard or of the checks raises an error in some turns
on it, then it can be made in production, and there the turns do the same. -/
theorem Model.transparent {d : Definition} {o : Options} {current : Environment} {m : Model}
    (hm : create d o current = .ok m) (hdev : o.resolve current = .development)
    (hcode : d.Keeps .oblivious) {turns : List Turn} (hturns : Turn.Follow m turns)
    (hprograms : ∀ turn ∈ turns, turn.program.Keeps .oblivious)
    (hfine : ∀ turn ∈ turns, ∀ s ∈ turn.trail, s.objected? = none) {o' : Options}
    {current' : Environment} (hflush : o'.flush = o.flush)
    (hprod : o'.resolve current' = .production) :
    ∃ m' turns', create d o' current' = .ok m' ∧ m'.data = m.data ∧ Turn.Follow m' turns' ∧
      List.Forall₂ (Turn.Alike (d.watch.map (·.1))) turns turns' := by
  obtain ⟨hfirst, hheeds⟩ := usersFirst_of_create hm
  obtain ⟨turns', hturns', halike⟩ := Turn.exists_forall₂_alike hturns hfirst hheeds
    (keeps_of_create hm hcode) hprograms hfine
  exact ⟨m.bare, turns', create_production hm hdev hflush hprod, rfl, hturns', halike⟩

/-- A user watcher fails and leaves two events in the queue of which user code watches one; the next
flush delivers both, and in production the one. -/
theorem Model.transparent_failing_watcher :
    let idle : Method := .sync fun _ => .pure .null
    let change : Method := .sync fun _ => .ask (.call "idle" []) fun _ => .edit "" <| .update
      fun _ => .object [("a", .ofInt 2), ("b", .ofInt 2), ("c", .ofInt 2)]
    let d : Definition := {
      data := some (.object [("a", .ofInt 1), ("b", .ofInt 1), ("c", .ofInt 1)])
      schema := some (.object [("a", .leaf .number), ("b", .leaf .number)])
      methods := [("idle", idle), ("change", change)]
      watch := [("a", fun _ => .fail (.custom "seen")), ("c", fun _ => .pure .null)] }
    ∃ m m' first second first' second', create d {} .development = .ok m ∧
      create d {} .production = .ok m' ∧ Turn.Follow m [first, second] ∧
      Turn.Follow m' [first', second'] ∧ first.result = .error (.custom "seen") ∧
      first.after.store.pending.map (·.path) = ["c", "b"] ∧ second.result = .ok .null ∧
      Turn.Alike ["a", "c"] first first' ∧ Turn.Alike ["a", "c"] second second' := by
  intro idle change d
  obtain ⟨m, hm⟩ : ∃ m, create d {} .development = .ok m := ⟨_, rfl⟩
  have hany (result : Result) : Program.Keeps .oblivious (.finish result) :=
    .finish fun _ _ => trivial
  have hcode : d.Keeps .oblivious := by
    refine ⟨⟨?_, ?_, by simp [d], by simp [d]⟩, ?_⟩
    · intro name body hbody args
      have hmem := Entries.mem_of_get? hbody
      simp only [d, List.mem_cons, Prod.mk.injEq, List.not_mem_nil, or_false] at hmem
      rcases hmem with ⟨-, he⟩ | ⟨-, he⟩ <;> obtain rfl := Method.sync.inj he
      · exact hany _
      · refine .ask trivial fun _ _ => .ask trivial fun removed _ => ?_
        cases removed <;> exact hany _
    · intro name body hbody args
      have hmem := Entries.mem_of_get? hbody
      simp [d, idle, change] at hmem
    · intro path body hmem v
      simp only [d, List.mem_cons, Prod.mk.injEq, List.not_mem_nil, or_false] at hmem
      rcases hmem with ⟨-, rfl⟩ | ⟨-, rfl⟩ <;> exact hany _
  let call : Program := .ask (.call "change" []) .finish
  let flush : Program := .ask .flush fun _ => .pure .null
  obtain ⟨m₁, m₂, h₁, h₂, hpending, hquiet⟩ : ∃ m₁ m₂,
      runFor 40 ⟨m, .run call, []⟩ = ⟨m₁, .answer (.error (.custom "seen")), []⟩ ∧
      runFor 40 ⟨m₁, .run flush, []⟩ = ⟨m₂, .answer (.ok .null), []⟩ ∧
      m₁.store.pending.map (·.path) = ["c", "b"] ∧
      (Machine.trail 40 ⟨m, .run call, []⟩ ++ Machine.trail 40 ⟨m₁, .run flush, []⟩).all
        (·.objected?.isNone) = true := by
    cases hm
    dsimp only [idle, change, d, call, flush]
    exact ⟨_, _, rfl, rfl, rfl, rfl⟩
  let first : Turn := ⟨m, call, 40, m₁, _, h₁⟩
  let second : Turn := ⟨m₁, flush, 40, m₂, _, h₂⟩
  have hprograms : ∀ turn ∈ [first, second], turn.program.Keeps .oblivious :=
    List.forall_mem_cons.2 ⟨.ask trivial fun _ _ => hany _,
      List.forall_mem_singleton.2 (.ask trivial fun _ _ => hany _)⟩
  have hfine : ∀ turn ∈ [first, second], ∀ s ∈ turn.trail, s.objected? = none := by
    rw [List.all_append, Bool.and_eq_true, List.all_eq_true, List.all_eq_true] at hquiet
    simp only [Option.isNone_iff_eq_none] at hquiet
    exact List.forall_mem_cons.2 ⟨hquiet.1, List.forall_mem_singleton.2 hquiet.2⟩
  have hturns : Turn.Follow m [first, second] := ⟨rfl, rfl, trivial⟩
  have hproduction : ({} : Options).resolve .production = .production := rfl
  obtain ⟨m', turns', hm', -, hturns', halike⟩ :=
    transparent hm rfl hcode hturns hprograms hfine rfl hproduction
  cases halike with
  | @cons _ first' _ rest hfirst hrest =>
    cases hrest with
    | @cons _ second' _ rest hsecond hnil =>
      cases hnil
      exact ⟨m, m', first, second, first', second', hm, hm', hturns, hturns', rfl, hpending, rfl,
        hfirst, hsecond⟩

end GuardedData
