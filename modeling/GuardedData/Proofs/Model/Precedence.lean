import GuardedData.Proofs.Model.Batching
import GuardedData.Proofs.Model.Ledger
import GuardedData.Proofs.Model.Outcome

/-!
# Which error of an event counts

All callbacks of an event are told, and the first error is the one of its delivery. On a guarded
model the user watchers of the definition come first, then the guard, then the check, and last the
user watchers that were added later. So an earlier failure may hide a missing credit, and that one a
value that does not conform, but the credit is spent in any case (`Model.delivery_precedence`). What
user watchers come to is what their code comes to when it is run by itself: the frames below it make
no difference (`Machine.step?_withBase`).
-/

namespace GuardedData

open Machine

/-! ### User code over other frames -/

namespace Machine

/-- The machine with more frames below those that wait. -/
def withBase (base : List Frame) (s : Machine) : Machine := ⟨s.model, s.control, s.stack ++ base⟩

variable {base : List Frame} {s t : Machine}

lemma beginFlush_withBase (stack : List Frame) (m : Model)
    (next : Except ModelError Unit → Program) :
    beginFlush (stack ++ base) m next = withBase base (beginFlush stack m next) := by
  unfold beginFlush
  split <;> rfl

lemma edit_withBase (stack : List Frame) (m : Model) (path : String) (change : Edit)
    (next : Except ModelError (Option Value) → Program) :
    edit (stack ++ base) m path change next = withBase base (edit stack m path change next) := by
  cases happly : change.apply path m.data with
  | error fault =>
    rw [edit_of_error happly, edit_of_error happly]
    rfl
  | ok result =>
    rw [edit_of_ok happly, edit_of_ok happly]
    cases m.store.mode with
    | immediate => exact beginFlush_withBase stack _ _
    | deferred => rfl

/-- Only a poll on top of the frames below could tell that there are any: code would give way to
it. -/
lemma serve_withBase (hbase : ∀ task next, base.head? ≠ some (.poll task next)) (stack : List Frame)
    (m : Model) (request : Request) (next : request.Answer → Program) :
    serve (stack ++ base) m request next = withBase base (serve stack m request next) := by
  cases request with
  | edit path change => exact edit_withBase stack m path change next
  | flush => exact beginFlush_withBase stack m next
  | call name args =>
    simp only [serve]
    cases Entries.get? name m.methods with
    | none => rfl
    | some method => cases method <;> rfl
  | computed name =>
    simp only [serve]
    cases Entries.get? name m.computed <;> rfl
  | setComputed name value =>
    simp only [serve]
    cases Entries.get? name m.computed with
    | none => rfl
    | some property => cases property <;> rfl
  | start name args =>
    simp only [serve]
    cases Entries.get? name m.methods with
    | none => rfl
    | some method => cases method <;> rfl
  | poll task =>
    simp only [serve]
    cases m.task? task <;> rfl
  | pause =>
    simp only [serve, pause]
    cases stack with
    | nil =>
      cases base with
      | nil => rfl
      | cons frame base =>
        cases frame with
        | poll task next => exact absurd rfl (hbase task next)
        | _ => rfl
    | cons frame stack => cases frame <;> rfl
  | _ => rfl

/-- A machine takes the same steps over other frames. -/
theorem step?_withBase (hbase : ∀ task next, base.head? ≠ some (.poll task next))
    (h : s.step? = some t) : (withBase base s).step? = some (withBase base t) := by
  obtain ⟨m, control, stack⟩ := s
  cases control with
  | run p =>
    cases p with
    | ask request next =>
      cases h
      exact congrArg some (serve_withBase hbase stack m request next)
    | _ =>
      cases h
      rfl
  | drain =>
    simp only [step?, withBase] at h ⊢
    split at h <;> cases h <;> rfl
  | deliver callbacks value failure =>
    cases callbacks with
    | nil => cases failure <;> cases h <;> rfl
    | cons callback callbacks => cases callback <;> cases h <;> rfl
  | answer result =>
    cases stack with
    | nil => cases h
    | cons frame stack => cases frame <;> cases h <;> rfl

lemma eq_of_outcome? {m : Model} {result : Result} (h : s.outcome? = some (m, result)) :
    s = ⟨m, .answer result, []⟩ := by
  obtain ⟨m', control, stack⟩ := s
  unfold outcome? at h
  split at h
  · rename_i hcontrol hstack
    cases h
    simp only at hcontrol hstack
    rw [hcontrol, hstack]
  · cases h

/-- Code that comes to its end by itself, telling nobody, does so over other frames. -/
lemma tells_withBase (hbase : ∀ task next, base.head? ≠ some (.poll task next)) {n : Nat}
    {m' : Model}
    {result : Result} (hend : (runFor n s).outcome? = some (m', result))
    (hquiet : ∀ t ∈ trail n s, t.told? = none) :
    Tells [] (withBase base s) ⟨m', .answer result, base⟩ := by
  induction n generalizing s with
  | zero =>
    have hs : s = ⟨m', .answer result, []⟩ := eq_of_outcome? hend
    rw [hs]
    exact .refl _
  | succ n ih =>
    rw [runFor] at hend
    rw [trail] at hquiet
    cases hstep : s.step? with
    | none =>
      rw [hstep] at hend
      have hs : s = ⟨m', .answer result, []⟩ := eq_of_outcome? hend
      rw [hs]
      exact .refl _
    | some t =>
      rw [hstep] at hend hquiet
      obtain ⟨hfirst, hrest⟩ := List.forall_mem_cons.1 hquiet
      exact .silent (step?_withBase hbase hstep) hfirst (ih hend hrest)

end Machine

/-! ### User code inside of a flush -/

namespace Run

variable {m : Model} {past : List Machine} {s : Machine}

/-- Inside of a flush that goes on, user code tells nobody. -/
lemma told?_eq_none (h : Run m past s) (hflushing : m.store.flushing = true) : s.told? = none := by
  have hmarked := h.marked
  rw [hflushing] at hmarked
  obtain ⟨m', control, stack⟩ := s
  cases control with
  | run p =>
    cases hmove : Machine.move ⟨m', .run p, stack⟩ with
    | tell callback value =>
      cases p with
      | ask request next => exact absurd hmove ((moveOf_ne m' request).2 _ _)
      | _ => cases hmove
    | _ => simp [told?, hmove]
  | deliver callbacks value failure => exact absurd (hmarked.frames_eq_zero rfl).2.1 (by decide)
  | _ => rfl

/-- Inside of a flush that goes on, user code that makes no guarded entry keeps the guard. -/
lemma guard_eq (h : Run m past s) (hflushing : m.store.flushing = true)
    (hentry : ∀ t ∈ past, t.enters = false) : s.model.guard = m.guard := by
  induction h with
  | begin p => rfl
  | @step past s t h hs ih =>
    have hkept := ih fun t ht => hentry t (by simp [ht])
    rw [guard_of_step? hs, ← hkept]
    cases hmove : s.move with
    | enter =>
      have henters := move_eq_enter_iff.1 hmove
      rw [hentry s (by simp)] at henters
      cases henters
    | tell callback value =>
      have hquiet := h.told?_eq_none hflushing
      simp [told?, hmove] at hquiet
    | _ => rfl
  | next h p ih => exact ih hentry

end Run

namespace Model

/-! ### What user watchers come to -/

/-- Whether user code that is run by itself on a model comes to an end, with a result and a model
then, and makes no guarded entry on the way. -/
def Returns (m : Model) (p : Program) (m' : Model) (result : Result) : Prop :=
  ∃ n, m.perform? n p = some (m', result) ∧
    ∀ t ∈ trail n ⟨m, .run p, []⟩, t.enters = false

/-- Some user watchers are told of a value one after the other, each by itself: what each of them
comes to, and the model after the last one. -/
inductive Reacts (value : Option Value) :
    Model → List (Option Value → Program) → List Result → Model → Prop
  | nil (m : Model) : Reacts value m [] [] m
  | cons {m m₁ m₂ : Model} {body : Option Value → Program}
    {bodies : List (Option Value → Program)} {result : Result} {results : List Result}
    (hfirst : m.Returns (body value) m₁ result) (hrest : Reacts value m₁ bodies results m₂) :
    Reacts value m (body :: bodies) (result :: results) m₂

/-- The code of those of some user watchers that watch a path, in the order of registration. -/
def bodiesAt (watch : List (String × (Option Value → Program))) (path : String) :
    List (Option Value → Program) :=
  (watch.filter (·.1 == path)).map (·.2)

variable {m m' : Model} {p : Program} {result : Result} {value : Option Value}
  {bodies : List (Option Value → Program)} {results : List Result}

lemma Returns.head {m₁ : Model} {q : Program}
    (hstep : step? ⟨m, .run p, []⟩ = some ⟨m₁, .run q, []⟩)
    (hentry : enters ⟨m, .run p, []⟩ = false) (h : m₁.Returns q m' result) :
    m.Returns p m' result := by
  obtain ⟨n, hrun, htrail⟩ := h
  refine ⟨n + 1, ?_, ?_⟩
  · rw [perform?, runFor, hstep]
    exact hrun
  · rw [trail, hstep]
    exact List.forall_mem_cons.2 ⟨hentry, htrail⟩

/-- Inside of a flush, user code that returns by itself does so over other frames. It tells nobody,
keeps the guard and leaves the flush to go on. -/
lemma Returns.tells (h : m.Returns p m' result) (hflushing : m.store.flushing = true) :
    m'.store.flushing = true ∧ m'.guard = m.guard ∧
      ∀ base, (∀ task next, List.head? base ≠ some (.poll task next)) →
        Machine.Tells [] ⟨m, .run p, base⟩ ⟨m', .answer result, base⟩ := by
  obtain ⟨n, hrun, hentry⟩ := h
  have hcode := (Run.begin (m := m) p).runFor n
  rw [List.nil_append] at hcode
  have hquiet : ∀ t ∈ trail n ⟨m, .run p, []⟩, t.told? = none := by
    intro t ht
    obtain ⟨before, ht⟩ := hcode.of_mem_past ht
    exact ht.told?_eq_none hflushing
  have hguard := hcode.guard_eq hflushing hentry
  have hmarked := hcode.marked
  have hlast : runFor n ⟨m, .run p, []⟩ = ⟨m', .answer result, []⟩ := eq_of_outcome? hrun
  rw [hlast] at hguard hmarked
  refine ⟨?_, hguard, fun base hbase => tells_withBase hbase hrun hquiet⟩
  rw [hflushing] at hmarked
  cases hm' : m'.store.flushing with
  | true => rfl
  | false => simp [Marked, flushes, framesFlushes, Control.flushes, hm'] at hmarked

/-- User watchers are told in order, and the first error is kept. -/
lemma Reacts.tells (h : Reacts value m bodies results m') (hflushing : m.store.flushing = true) :
    m'.store.flushing = true ∧ m'.guard = m.guard ∧ ∀ callbacks failure stack,
      Machine.Tells (bodies.map fun body => (.react body, value))
        ⟨m, .deliver (bodies.map .react ++ callbacks) value failure, stack⟩
        ⟨m', .deliver callbacks value (failure.or (results.findSome? resume.errorOf)), stack⟩ := by
  induction h with
  | nil m =>
    refine ⟨hflushing, rfl, fun callbacks failure stack => ?_⟩
    rw [List.findSome?_nil, Option.or_none]
    exact .refl _
  | @cons m m₁ m₂ body bodies result results hfirst hrest ih =>
    obtain ⟨hflushing₁, hguard₁, hbody⟩ := hfirst.tells hflushing
    obtain ⟨hflushing₂, hguard₂, htells⟩ := ih hflushing₁
    refine ⟨hflushing₂, hguard₂.trans hguard₁, fun callbacks failure stack => ?_⟩
    have hruns := hbody (.deliver (bodies.map .react ++ callbacks) value failure :: stack) (by simp)
    have hlater := htells callbacks (failure.or (resume.errorOf result)) stack
    have herror : (failure.or (resume.errorOf result)).or (results.findSome? resume.errorOf) =
        failure.or ((result :: results).findSome? resume.errorOf) := by
      rw [Option.or_assoc, List.findSome?_cons]
      cases resume.errorOf result <;> rfl
    rw [herror] at hlater
    exact .head rfl (hruns.trans (.silent rfl rfl hlater))

/-- Inside of a flush, code that changes nothing returns. -/
lemma exists_returns_of_onlooking (hp : p.Keeps .onlooking) (hflushing : m.store.flushing = true) :
    ∃ m' result, m.Returns p m' result := by
  induction hp generalizing m with
  | @finish result h =>
    exact ⟨m, result, 1, rfl, by simp [trail, step?, enters, request?]⟩
  | @ask request next h hnext ih =>
    have hserved {m₁ : Model} {answer : request.Answer}
        (hstep : step? ⟨m, .run (.ask request next), []⟩ = some ⟨m₁, .run (next answer), []⟩)
        (hentry : m.isEntry request = false)
        (hrest : ∃ m' result, m₁.Returns (next answer) m' result) :
        ∃ m' result, m.Returns (.ask request next) m' result := by
      obtain ⟨m', result, hreturns⟩ := hrest
      exact ⟨m', result, hreturns.head hstep hentry⟩
    cases request with
    | value path => exact hserved rfl rfl (ih (m.data.at? path) trivial hflushing)
    | credits => exact hserved rfl rfl (ih m.credits trivial hflushing)
    | pending => exact hserved rfl rfl (ih m.store.pending trivial hflushing)
    | environment => exact hserved rfl rfl (ih m.environment trivial hflushing)
    | note entry =>
      have hnoted : ({ m with journal := m.journal ++ [entry] } : Model).store.flushing = true :=
        hflushing
      exact hserved rfl rfl (ih () trivial hnoted)
    | flush =>
      have hnothing := (step?_of_flushing (s := ⟨m, .run (.ask .flush next), []⟩) hflushing).1
      exact hserved (hnothing next rfl) rfl (ih (.ok ()) (Conduct.allows_ok ()) hflushing)
    | _ => exact h.elim
  | @watch path react next h hreact hnext ihreact ihnext =>
    have hwatched : (m.watch path (.react react)).store.flushing = true := hflushing
    obtain ⟨m', result, hreturns⟩ := ihnext hwatched
    exact ⟨m', result, hreturns.head rfl rfl⟩

/-- Inside of a flush, user watchers that change nothing come to something. -/
lemma exists_reacts_of_onlooking (hflushing : m.store.flushing = true)
    (hbodies : ∀ body ∈ bodies, (body value).Keeps .onlooking) :
    ∃ m' results, m.Reacts value bodies results m' := by
  induction bodies generalizing m with
  | nil => exact ⟨m, [], .nil m⟩
  | cons body bodies ih =>
    obtain ⟨hfirst, hrest⟩ := List.forall_mem_cons.1 hbodies
    obtain ⟨m₁, result, hreturns⟩ := exists_returns_of_onlooking hfirst hflushing
    obtain ⟨m', results, hreacts⟩ := ih (hreturns.tells hflushing).1 hrest
    exact ⟨m', result :: results, .cons hreturns hreacts⟩

/-! ### The callbacks of a watch path -/

lemma callbacks_eq_bodiesAt {s : Store Callback} {watch : List (String × (Option Value → Program))}
    {path : String} (h : s.watchers = watch.map fun (path, body) => ⟨path, .react body⟩) :
    s.callbacks path = (bodiesAt watch path).map .react := by
  rw [Store.callbacks, h, List.filter_map, List.map_map, bodiesAt, List.map_map]
  rfl

/-- On a path that is watched once by the guard, this one comes after the user watchers of the
definition and before the check, which comes before those that were added later. -/
lemma Created.callbacks_eq {d : Definition} {o : Options} (hm : m.Created d o)
    (himm : o.immutable = true) {store : Store Callback}
    {later : List (String × (Option Value → Program))}
    (hlater : store.watchers =
      m.store.watchers ++ later.map fun (path, body) => ⟨path, .react body⟩)
    {w : String} (hw : m.watchPaths.count w = 1) :
    store.callbacks w = (bodiesAt d.watch w).map .react ++
      .settle w :: (Enforcement.ofDefinition d).checkAt w :: (bodiesAt later w).map .react := by
  let part (watchers : List (Watcher Callback)) : Store Callback :=
    ⟨.null, .immediate, watchers, [], false⟩
  have happend (front back : List (Watcher Callback)) : (part (front ++ back)).callbacks w =
      (part front).callbacks w ++ (part back).callbacks w := by simp [part, Store.callbacks]
  have henforced : (part (Enforcement.ofDefinition d).watchers).callbacks w =
      [.settle w, (Enforcement.ofDefinition d).checkAt w] := by
    have hcost : (Enforcement.ofDefinition d).cost ⟨w, none⟩ = 1 := by
      rw [Enforcement.cost, ← hm.watchPaths, hw]
    have h := Enforcement.callbacks_eq (x := Enforcement.ofDefinition d)
      (s := part (Enforcement.ofDefinition d).watchers) rfl ⟨w, none⟩
    rw [hcost] at h
    exact h
  have hwhole : store.callbacks w = (part store.watchers).callbacks w := rfl
  rw [hwhole, hlater, hm.watchers, himm, if_pos rfl, ← Enforcement.watchers, happend, happend,
    henforced, callbacks_eq_bodiesAt rfl, callbacks_eq_bodiesAt rfl, List.append_assoc]
  rfl

/-- A change spends a credit or finds none. -/
lemma settle_of_guard {c : Int} (hguard : m.guard = some ⟨c⟩) (hc : 0 ≤ c) (path : String) :
    (m.settle path).2 = (if c = 0 then some (.immutable path) else none) ∧
      (m.settle path).1.store = m.store ∧
      (m.settle path).1.guard = some ⟨if 0 < c then c - 1 else 0⟩ := by
  by_cases hzero : c = 0
  · subst hzero
    simp [settle, hguard, Guard.settle]
  · have hpos : 0 < c := by omega
    have hsettle : Guard.settle ⟨c⟩ path = .ok ⟨c - 1⟩ := Guard.settle_eq_ok_iff.2 ⟨hpos, rfl⟩
    simp [settle, hguard, hsettle, hzero, hpos]

/-! ### The delivery of one event -/

/-- **Which error of an event counts.** Take an event of a guarded model whose path is a watch path
once. All its callbacks are told, and a credit is spent if there is one, whatever they come to. The
error is the first one of the user watchers of the definition; if they have none, that of a missing
credit; with a credit, that of the check; and if the value conforms, the first one of the user
watchers that were added later. User watchers of both kinds may do anything that comes to an end
without a guarded entry, and those that change nothing do come to an end. -/
theorem delivery_precedence {d : Definition} {o : Options} {current : Environment} {m : Model}
    (hm : create d o current = .ok m) (himm : o.immutable = true)
    (hdev : o.resolve current = .development) {past : List Machine} {s : Machine}
    (hrun : Run m past s) {w : String} {value : Option Value} {rest : List Event}
    (hdrain : s.control = .drain) (hpending : s.model.store.pending = ⟨w, value⟩ :: rest)
    (hw : m.watchPaths.count w = 1) {c : Int} (hc : s.model.credits = some c)
    {later : List (String × (Option Value → Program))}
    (hlater : s.model.store.watchers =
      m.store.watchers ++ later.map fun (path, body) => ⟨path, .react body⟩) :
    let x := Enforcement.ofDefinition d
    let taken : Model := { s.model with store := { s.model.store with pending := rest } }
    let first := bodiesAt d.watch w
    let last := bodiesAt later w
    let callbacks : List Callback := first.map .react ++ .settle w :: x.checkAt w :: last.map .react
    (∀ {m₁ m₂ results results'}, taken.Reacts value first results m₁ →
      (m₁.settle w).1.Reacts value last results' m₂ →
      Machine.Tells (callbacks.map (·, value)) s
        ⟨m₂, .deliver [] value ((results.findSome? resume.errorOf).or
          ((if c = 0 then some (.immutable w) else none).or
            ((x.checkError? ⟨w, value⟩).or (results'.findSome? resume.errorOf)))), s.stack⟩ ∧
      m₂.credits = some (if 0 < c then c - 1 else 0)) ∧
    ((∀ body ∈ first ++ last, (body value).Keeps .onlooking) → ∃ m₁ m₂ results results',
      taken.Reacts value first results m₁ ∧ (m₁.settle w).1.Reacts value last results' m₂) := by
  intro x taken first last callbacks
  have hcreated := created_of_create hm hdev
  have hflushing : taken.store.flushing = true :=
    (hrun.marked.frames_eq_zero (by rw [hdrain]; rfl)).2.2
  obtain ⟨⟨c'⟩, hguard, rfl⟩ := Option.map_eq_some_iff.1 hc
  have hpos : 0 ≤ c' := by
    have hguard₀ : m.guard = some ⟨(0 : Nat)⟩ := by
      rw [hcreated.guard, himm]
      rfl
    obtain ⟨k, hk⟩ := hrun.guard hguard₀
    cases hguard.symm.trans hk
    exact Int.natCast_nonneg k
  constructor
  · intro m₁ m₂ results results' hfirst hlast
    obtain ⟨hflushing₁, hguard₁, hbefore⟩ := hfirst.tells hflushing
    obtain ⟨herror, hstore, hspent⟩ := settle_of_guard (hguard₁.trans hguard) hpos w
    obtain ⟨-, hguard₂, hafter⟩ := hlast.tells (by rw [hstore, hflushing₁])
    refine ⟨?_, by rw [credits, hguard₂, hspent]; rfl⟩
    have htake : s.step? = some ⟨taken, .deliver callbacks value none, s.stack⟩ := by
      have hcallbacks : s.model.store.callbacks w = callbacks :=
        hcreated.callbacks_eq himm hlater hw
      rw [← hcallbacks]
      obtain ⟨m', control, stack⟩ := s
      simp only at hdrain hpending
      subst hdrain
      simp only [step?, Store.takeEvent?, hpending]
      rfl
    have hsilent : s.told? = none := by simp [told?, move, hdrain]
    have henforced (failure : Option ModelError) :
        Machine.Tells [(.settle w, value), (x.checkAt w, value)]
          ⟨m₁, .deliver (.settle w :: x.checkAt w :: last.map .react) value failure, s.stack⟩
          ⟨(m₁.settle w).1, .deliver (last.map .react) value
            ((failure.or (m₁.settle w).2).or (x.checkError? ⟨w, value⟩)), s.stack⟩ :=
      .head rfl (.head rfl (.refl _))
    have hbehind (failure : Option ModelError) := hafter [] failure s.stack
    simp only [List.append_nil] at hbehind
    have htold := Machine.Tells.silent htake hsilent
      ((hbefore _ none s.stack).trans ((henforced _).trans (hbehind _)))
    simpa [callbacks, herror, Option.or_assoc, Function.comp_def] using htold
  · intro honlooking
    rw [List.forall_mem_append] at honlooking
    obtain ⟨m₁, results, hfirst⟩ := exists_reacts_of_onlooking hflushing honlooking.1
    obtain ⟨hflushing₁, hguard₁, -⟩ := hfirst.tells hflushing
    obtain ⟨-, hstore, -⟩ := settle_of_guard (hguard₁.trans hguard) hpos w
    have hflushing₂ : (m₁.settle w).1.store.flushing = true := by rw [hstore, hflushing₁]
    obtain ⟨m₂, results', hlast⟩ := exists_reacts_of_onlooking hflushing₂ honlooking.2
    exact ⟨m₁, m₂, results, results', hfirst, hlast⟩

/-- A method writes a value that does not conform, and a user watcher of either kind fails. All four
callbacks are told, the error is that of the first one, and the credit of the method is spent. -/
theorem delivery_precedence_failing :
    let failing (message : String) : Option Value → Program := fun _ => .fail (.custom message)
    let d : Definition := {
      data := some (.object [("a", .ofInt 0)])
      schema := some (.object [("a", .leaf .number)])
      methods := [("break", .sync fun _ => .edit "a" (.set (.string "x")))]
      watch := [("a", failing "first")] }
    let p : Program := .watch "a" (failing "last") (.ask (.call "break" []) .finish)
    ∃ m s n m', create d {} .development = .ok m ∧ s = runFor 3 ⟨m, .run p, []⟩ ∧
      s.model.credits = some 1 ∧
      runFor n s =
        ⟨m', .deliver [] (some (.string "x")) (some (.custom "first")), s.stack⟩ ∧
      ((trail n s).filterMap told?).map (·.1.reacts) = [true, false, false, true] ∧
      m'.credits = some 0 := by
  intro failing d p
  obtain ⟨m, hm⟩ : ∃ m, create d {} .development = .ok m := ⟨_, rfl⟩
  obtain ⟨hdrain, hpending, hw, hc, hlater⟩ :
      (runFor 3 ⟨m, .run p, []⟩).control = .drain ∧
      (runFor 3 ⟨m, .run p, []⟩).model.store.pending = [⟨"a", some (.string "x")⟩] ∧
      m.watchPaths.count "a" = 1 ∧ (runFor 3 ⟨m, .run p, []⟩).model.credits = some 1 ∧
      (runFor 3 ⟨m, .run p, []⟩).model.store.watchers = m.store.watchers ++
        [("a", failing "last")].map fun (path, body) => ⟨path, .react body⟩ := by
    cases hm
    dsimp only [failing, d, p]
    exact ⟨rfl, rfl, rfl, rfl, rfl⟩
  have hrun := (Run.begin (m := m) p).runFor 3
  obtain ⟨hdelivery, -⟩ :=
    delivery_precedence hm rfl rfl hrun hdrain hpending hw hc hlater
  have hfails (m : Model) (message : String) : m.Reacts (some (.string "x")) [failing message]
      [.error (.custom message)] m :=
    .cons ⟨1, rfl, by simp [trail, step?, enters, request?, failing, Program.fail]⟩ (.nil m)
  obtain ⟨⟨n, hend, htold⟩, hcredits⟩ := hdelivery (hfails _ "first") (hfails _ "last")
  refine ⟨m, _, n, _, hm, rfl, hc, hend, ?_, hcredits⟩
  rw [htold]
  rfl

end Model

end GuardedData
