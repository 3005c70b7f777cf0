import GuardedData.Proofs.Model.Bare
import GuardedData.Proofs.Model.Solvency

/-!
# Credits along a run

A guarded entry is made by three requests: the call of a method that runs to its end, the start of a
method, and the assignment of a computed property that has a setter. However user code fails,
overlaps or is called again while it runs, the credits are at every point the entries so far less
the changes that the guard has let through, and they are never below zero
(`Model.credits_eq_entries_sub_spent`).
-/

namespace GuardedData

def Model.isEntry (m : Model) : Request → Bool
  | .call name _ =>
    match Entries.get? name m.methods with
    | some (.sync _) => true
    | _ => false
  | .start name _ => (Entries.get? name m.methods).isSome
  | .setComputed name _ =>
    match Entries.get? name m.computed with
    | some (.accessor _ _) => true
    | _ => false
  | _ => false

/-- User code that never makes up that the credits are off. -/
def Conduct.trusting : Conduct where
  asks _ := True
  watches := True
  fails e := ∀ count, e ≠ .creditsOff count
  fails_of_isRefusal e h count he := by
    subst he
    cases h

namespace Machine

/-- The request that the next step serves. -/
def request? (s : Machine) : Option Request :=
  match s.control with
  | .run (.ask request _) => some request
  | _ => none

/-- Whether the next step makes a guarded entry. -/
def enters (s : Machine) : Bool := s.request?.any s.model.isEntry

/-- What the guard answers to a change that the next step tells it of. -/
def settlement? (s : Machine) : Option (Except ModelError Guard) :=
  match s.move with
  | .tell (.settle path) _ => s.model.guard.map (·.settle path)
  | _ => none

def spends (s : Machine) : Bool :=
  match s.settlement? with
  | some (.ok _) => true
  | _ => false

/-! ### One step -/

variable {s t : Machine} {g : Guard}

lemma moveOf_eq_enter_iff {m : Model} {request : Request} :
    moveOf m request = .enter ↔ m.isEntry request = true := by
  cases request with
  | call name args =>
    simp only [moveOf, Model.isEntry]
    cases Entries.get? name m.methods with
    | none => simp
    | some method => cases method <;> simp
  | setComputed name value =>
    simp only [moveOf, Model.isEntry]
    cases Entries.get? name m.computed with
    | none => simp
    | some property => cases property <;> simp [Computed.set?]
  | start name args =>
    simp only [moveOf, Model.isEntry]
    cases Entries.get? name m.methods <;> simp
  | _ => simp [moveOf, Model.isEntry]

lemma move_eq_enter_iff : s.move = .enter ↔ s.enters = true := by
  obtain ⟨m, control, stack⟩ := s
  cases control with
  | run p =>
    cases p with
    | ask request next => simpa [move, enters, request?] using moveOf_eq_enter_iff
    | _ => simp [move, enters, request?]
  | deliver callbacks value failure => cases callbacks <;> simp [move, enters, request?]
  | _ => simp [move, enters, request?]

/-- A step that makes an entry settles nothing. -/
lemma settlement?_of_enters (h : s.enters = true) : s.settlement? = none := by
  simp [settlement?, move_eq_enter_iff.2 h]

/-- A step adds a credit if it makes an entry and takes one away if it spends one. -/
theorem credits_of_step? (hs : s.step? = some t) (hg : s.model.guard = some g) :
    t.model.guard =
      some ⟨g.credits + (if s.enters then 1 else 0) - if s.spends then 1 else 0⟩ := by
  have hguard := guard_of_step? hs
  rw [hg] at hguard
  by_cases henters : s.enters = true
  · have hmove := move_eq_enter_iff.2 henters
    have hspends : s.spends = false := by simp [spends, settlement?_of_enters henters]
    rw [hmove] at hguard
    simpa [henters, hspends, Guard.enter] using hguard
  · rw [if_neg henters]
    cases hmove : s.move with
    | enter => exact absurd (move_eq_enter_iff.1 hmove) henters
    | tell callback value =>
      rw [hmove] at hguard
      cases callback with
      | settle path =>
        rw [hguard]
        cases hsettle : g.settle path with
        | ok g' =>
          have hspends : s.spends = true := by simp [spends, settlement?, hmove, hg, hsettle]
          obtain ⟨-, rfl⟩ := Guard.settle_eq_ok_iff.1 hsettle
          simp [hspends, Guard.spend, hsettle]
        | error e =>
          have hspends : s.spends = false := by simp [spends, settlement?, hmove, hg, hsettle]
          simp [hspends, Guard.spend, hsettle]
      | _ =>
        have hspends : s.spends = false := by simp [spends, settlement?, hmove]
        simpa [hspends] using hguard
    | _ =>
      have hspends : s.spends = false := by simp [spends, settlement?, hmove]
      rw [hmove] at hguard
      simpa [hspends] using hguard

/-- User code that asks for something settles nothing. -/
lemma settlement?_of_request? {request : Request} (h : s.request? = some request) :
    s.settlement? = none ∧ s.enters = s.model.isEntry request := by
  obtain ⟨m, control, stack⟩ := s
  unfold request? at h
  split at h
  · rename_i asked next hcontrol
    cases h
    simp only at hcontrol
    subst hcontrol
    refine ⟨?_, rfl⟩
    unfold settlement?
    split
    · rename_i path value hmove
      exact absurd hmove ((moveOf_ne m request).2 _ _)
    · rfl
  · cases h

/-- A violation is what the guard answers to a change. -/
lemma settlement?_of_objected? {e : ModelError} (h : s.objected? = some e)
    (he : e.isGuardViolation = true) : s.settlement? = some (.error e) := by
  obtain ⟨m, control, stack⟩ := s
  cases control with
  | deliver callbacks value failure =>
    cases callbacks with
    | nil => cases h
    | cons callback callbacks =>
      cases callback with
      | react body => cases h
      | settle path =>
        simp only [objected?, objection?, Model.settle] at h
        simp only [settlement?, move]
        cases hguard : m.guard with
        | none => simp [hguard] at h
        | some g => cases hsettle : g.settle path <;> simp_all
      | check schema path =>
        simp only [objected?, objection?] at h
        split at h <;> cases h
        cases he
  | _ => cases h

/-- The guard objects only with a change that finds no credit, and then keeps what it has. -/
lemma settlement?_eq_error {e : ModelError} (hg : s.model.guard = some g) (hcredits : 0 ≤ g.credits)
    (h : s.settlement? = some (.error e)) : g.credits = 0 ∧ ∃ path, e = .immutable path := by
  unfold settlement? at h
  split at h
  · rename_i path value hmove
    rw [hg, Option.map_some, Option.some.injEq, Guard.settle] at h
    split_ifs at h with hzero hneg
    · cases h
      exact ⟨hzero, path, rfl⟩
    · omega
  · cases h

end Machine

/-! ### Runs -/

open Machine

/-- Along a run the guard gains a credit with each entry and loses one with each that is spent. -/
theorem Run.credits {m : Model} {g : Guard} (hm : m.guard = some g) {past : List Machine}
    {s : Machine} (h : Run m past s) :
    s.model.guard = some ⟨g.credits + past.countP enters - past.countP spends⟩ := by
  induction h with
  | begin p => simpa using hm
  | @step past s t h hs ih =>
    rw [credits_of_step? hs ih, List.countP_append, List.countP_append, List.countP_singleton,
      List.countP_singleton]
    congr 2
    push_cast
    split_ifs <;> omega
  | next h p ih => exact ih

namespace Model

variable {d : Definition} {o : Options} {current : Environment} {m : Model}

/-- Which requests are entries is settled when a model is made. -/
lemma SameMake.isEntry {m' : Model} (h : m.SameMake m') : m'.isEntry = m.isEntry := by
  funext request
  simp only [Model.isEntry, h.methods, h.computed]

/-- **Credits are conserved.** On a guarded model the credits are at every point of a run the
entries so far less the changes that were let through, and never below zero. Of the requests just
the entries add a credit, one each, when they are made. The guard objects with no more than a change
that finds no credit, which costs nothing; that the credits are off is never said, unless user code
makes it up. -/
theorem credits_eq_entries_sub_spent (hm : create d o current = .ok m) (himm : o.immutable = true)
    (hdev : o.resolve current = .development) {past : List Machine} {s : Machine}
    (hrun : Run m past s) :
    s.model.credits = some ((past.countP enters : Int) - past.countP spends) ∧
    past.countP spends ≤ past.countP enters ∧
    (∀ request t, s.request? = some request → s.step? = some t →
      t.model.credits = s.model.credits.map (· + if m.isEntry request then 1 else 0)) ∧
    (∀ e, s.settlement? = some (.error e) → (∃ path, e = .immutable path) ∧
      ∀ t, s.step? = some t → t.model.credits = s.model.credits) ∧
    (d.Keeps .trusting → Run.Keeping .trusting m past s →
      ∀ count, s.control ≠ .answer (.error (.creditsOff count))) := by
  have hcreated := created_of_create hm hdev
  have hguard₀ : m.guard = some ⟨0⟩ := by rw [hcreated.guard, himm]; rfl
  -- No settlement of a run fails but for want of a credit.
  have hsettlement {past : List Machine} {t : Machine} (h : Run m past t) {e : ModelError}
      (he : t.settlement? = some (.error e)) : ∃ path, e = .immutable path := by
    obtain ⟨k, hk⟩ := h.guard hguard₀
    exact (settlement?_eq_error hk (Int.natCast_nonneg k) he).2
  have hguard := hrun.credits hguard₀
  simp only [Int.zero_add] at hguard
  refine ⟨by rw [Model.credits, hguard]; rfl, ?_, ?_, ?_, ?_⟩
  · obtain ⟨k, hk⟩ := hrun.guard hguard₀
    rw [hguard, Option.some.injEq, Guard.mk.injEq] at hk
    omega
  · intro request t hrequest hs
    obtain ⟨hsettlement, henters⟩ := settlement?_of_request? hrequest
    have hspends : s.spends = false := by simp [spends, hsettlement]
    rw [Model.credits, credits_of_step? hs hguard, Model.credits, hguard, henters, hspends,
      hrun.sameMake.isEntry]
    simp
  · intro e he
    refine ⟨hsettlement hrun he, fun t hs => ?_⟩
    have henters : s.enters = false := by
      by_contra h
      rw [settlement?_of_enters (by simpa using h)] at he
      cases he
    have hspends : s.spends = false := by simp [spends, he]
    rw [Model.credits, credits_of_step? hs hguard, Model.credits, hguard, henters, hspends]
    simp
  · intro hcode hkeeping count hanswer
    have hobject : ∀ t ∈ past, ∀ e, t.objected? = some e → Conduct.trusting.fails e := by
      rintro t ht _ he count rfl
      obtain ⟨before, hbefore⟩ := hrun.of_mem_past ht
      obtain ⟨path, hpath⟩ := hsettlement hbefore (settlement?_of_objected? he rfl)
      cases hpath
    have hkeeps := hkeeping.keeps (keeps_of_create hm hcode) hobject
    have hresult := hkeeps.control
    rw [hanswer] at hresult
    exact hresult _ rfl count rfl

/-- A task that is dropped before it runs, a method that fails and an assignment that a watcher
fails are entries; what does not exist, runs otherwise or has no setter is none. The changes from
outside take the credits of the first two, and the last one finds none. -/
theorem credits_eq_entries_sub_spent_failing :
    let assign (path : String) : Value → Program := fun v => .edit path (.set v)
    let d : Definition := {
      data := some (.object [("a", .ofInt 0), ("b", .ofInt 0)])
      schema := some (.object [("a", .leaf .number), ("b", .leaf .number)])
      methods := [("later", .async fun _ => assign "a" (.ofInt 1)),
        ("broken", .sync fun _ => .fail (.custom "broken"))]
      computed := [("fixed", .getter (.pure .null)), ("b", .accessor (.pure .null) (assign "b"))]
      watch := [("b", fun _ => .ask .flush fun _ => .fail (.custom "seen"))] }
    let ask (request : Request) (p : Program) : Program := .ask request fun _ => p
    let refused : Program := ask (.call "later" []) <| ask (.call "none" []) <|
      ask (.setComputed "fixed" .null) <| ask (.setComputed "none" .null) <| .pure .null
    let p : Program := .ask (.start "later" []) fun task => ask (.drop task) <|
      ask (.call "broken" []) <| ask (.setComputed "b" (.ofInt 1)) <|
      ask (.edit "a" (.set (.ofInt 2))) <| ask (.edit "a" (.set (.ofInt 3))) <|
      ask (.edit "a" (.set (.ofInt 4))) refused
    ∃ m s past, create d {} .development = .ok m ∧ Run m past s ∧ s.outcome?.isSome = true ∧
      past = trail 80 ⟨m, .run p, []⟩ ∧ past.countP enters = 3 ∧ past.countP spends = 3 ∧
      past.filterMap settlement? = [.ok ⟨2⟩, .ok ⟨1⟩, .ok ⟨0⟩, .error (.immutable "a")] ∧
      s.model.credits = some (3 - 3) ∧
      ∀ count, s.control ≠ .answer (.error (.creditsOff count)) := by
  intro assign d ask refused p
  obtain ⟨m, hm⟩ : ∃ m, create d {} .development = .ok m := ⟨_, rfl⟩
  have hask {request : Request} {p : Program} (hp : p.Keeps .trusting) :
      (ask request p).Keeps .trusting := .ask trivial fun _ _ => hp
  have hassign (path : String) (v : Value) : (assign path v).Keeps .trusting := .edit trivial
  have hcustom (message : String) : Conduct.trusting.fails (.custom message) :=
    fun count he => by cases he
  have hcode : d.Keeps .trusting := by
    apply Definition.Keeps.of_forall
    · refine List.forall_mem_cons.2 ⟨fun _ => hassign _ _, List.forall_mem_singleton.2 ?_⟩
      exact fun _ => .fail (hcustom _)
    · refine List.forall_mem_cons.2 ⟨.pure _, List.forall_mem_singleton.2 ?_⟩
      exact ⟨.pure _, hassign _⟩
    · exact List.forall_mem_singleton.2 fun _ => hask (.fail (hcustom _))
  have hp : p.Keeps .trusting := .ask trivial fun _ _ => hask <| hask <| hask <| hask <| hask <|
    hask <| hask <| hask <| hask <| hask <| .pure _
  have hkeeping :
      Run.Keeping .trusting m (trail 80 ⟨m, .run p, []⟩) (runFor 80 ⟨m, .run p, []⟩) := by
    simpa using (Run.Keeping.begin (m := m) hp).runFor 80
  have hcounts : (runFor 80 ⟨m, .run p, []⟩).outcome?.isSome = true ∧
      (trail 80 ⟨m, .run p, []⟩).countP enters = 3 ∧
      (trail 80 ⟨m, .run p, []⟩).countP spends = 3 ∧
      (trail 80 ⟨m, .run p, []⟩).filterMap settlement? =
        [.ok ⟨2⟩, .ok ⟨1⟩, .ok ⟨0⟩, .error (.immutable "a")] := by
    cases hm
    dsimp only [assign, d, ask, refused, p]
    exact ⟨rfl, rfl, rfl, rfl⟩
  obtain ⟨hend, henters, hspends, hsettled⟩ := hcounts
  obtain ⟨hcredits, -, -, -, hnever⟩ := credits_eq_entries_sub_spent hm rfl rfl hkeeping.run
  rw [henters, hspends] at hcredits
  exact ⟨m, _, _, hm, hkeeping.run, hend, rfl, henters, hspends, hsettled, hcredits,
    hnever hcode hkeeping⟩

end Model

end GuardedData
