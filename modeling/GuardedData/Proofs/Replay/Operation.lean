import GuardedData.Proofs.Model.Creation
import GuardedData.Replay.Run
import Mathlib.Data.List.Perm.Subperm

/-!
# Operations of a replay

An operation of a replay makes one edit, after one guarded entry if it is guarded. So between two
operations all that matters of the model is the data, the credits and the queue (`Stands`), and
what an operation does to these is read off its edit: without deferral the queue is delivered
(`perform_op_immediate`), and with it the queue only grows (`perform_op_deferred`).
-/

namespace GuardedData

open Machine (ComesTo)

namespace Enforcement

lemma two_mul_cost_le {x : Enforcement} (event : Event) : 2 * x.cost event ≤ x.watchers.length := by
  have h : x.cost event ≤ x.paths.length := List.count_le_length
  simp only [watchers, settling, checking, List.length_append, List.length_map]
  omega

lemma two_mul_totalCost_le {x : Enforcement} (events : List Event) :
    2 * x.totalCost events ≤ events.length * x.watchers.length := by
  induction events with
  | nil => simp [totalCost]
  | cons event rest ih =>
    have h := two_mul_cost_le (x := x) event
    rw [totalCost, List.length_cons, Nat.add_mul]
    omega

end Enforcement

lemma length_eraseDups_le (paths : List String) : paths.eraseDups.length ≤ paths.length :=
  ((nodup_eraseDups paths).subperm fun _ => List.mem_eraseDups.1).length_le

lemma length_changes_le (s : Store Callback) (after : Value) (path : String) :
    (changes s.tree after (s.affected path)).length ≤ s.watchers.length := by
  calc (changes s.tree after (s.affected path)).length
      ≤ (s.affected path).length := List.length_filterMap_le _ _
    _ ≤ s.watchedPaths.length := List.length_filter_le _ _
    _ ≤ (s.watchers.map (·.path)).length := length_eraseDups_le _
    _ = s.watchers.length := List.length_map _

namespace Replay

/-- The model on which the edit of an operation is made. -/
def entered (m : Model) (op : Op) : Model := if op.guarded then m.enter else m

/-- The number of credits that an operation adds. -/
def credit (op : Op) : Nat := if op.guarded then 1 else 0

/-- Where a replay stands between two operations: the model is guarded and has no user watchers, and
no flush is under way. -/
structure Stands (x : Enforcement) (mode : FlushMode) (m : Model) (tree : Value) (credits : Nat)
    (queue : List Event) : Prop where
  tree : m.data = tree
  mode : m.store.mode = mode
  watchers : m.store.watchers = x.watchers
  methods : m.methods =
    [("append", .sync append), ("assign", .sync assign), ("delete", .sync delete)]
  guard : m.guard = some ⟨credits⟩
  pending : m.store.pending = queue
  flushing : m.store.flushing = false

variable {x : Enforcement} {mode : FlushMode} {m m' : Model} {tree after : Value} {credits : Nat}
  {queue : List Event} {op : Op} {removed : Option Value}

lemma store_entered (m : Model) (op : Op) : (entered m op).store = m.store := by
  unfold entered
  split <;> rfl

namespace Stands

lemma entered (h : Stands x mode m tree credits queue) (op : Op) :
    Stands x mode (entered m op) tree (credits + credit op) queue := by
  unfold Replay.entered credit
  split
  · exact { h with guard := by simp [Model.enter, h.guard, Guard.enter] }
  · simpa using h

lemma edited (h : Stands x mode m tree credits queue) (path : String) (after : Value) :
    Stands x mode (m.edited path after) after credits
      (queue ++ changes tree after (m.store.affected path)) :=
  { h with
    tree := rfl
    pending := by rw [← h.tree, ← h.pending]; rfl }

lemma put (h : Stands x mode m tree credits queue) (credits' : Nat) (queue' : List Event) :
    Stands x mode (m.put credits' queue' false) tree credits' queue' :=
  { h with
    guard := rfl
    pending := rfl
    flushing := rfl }

end Stands

/-- The bound leaves enough steps for a flush of the queue and of what one edit may add to it. -/
lemma le_stepBound (h : Stands x mode m tree credits queue) {events : List Event}
    (hlength : events.length ≤ queue.length + m.store.watchers.length) :
    2 * x.totalCost events + 2 * events.length + 16 ≤ stepBound m := by
  have hcost := Enforcement.two_mul_totalCost_le (x := x) events
  have hmul := Nat.mul_le_mul_right (x.watchers.length + 2) hlength
  rw [Nat.mul_add] at hmul
  simp only [stepBound, h.watchers, h.pending] at hmul ⊢
  omega

/-! ### One edit -/

/-- An operation is as good as its edit, made after its entry. -/
lemma comesTo_op (hmethods : m.methods = [("append", .sync append), ("assign", .sync assign),
    ("delete", .sync delete)]) (op : Op) :
    ∃ value : Option Value → Value, ∀ n m' answer,
      (∀ stack next, ComesTo n
        ⟨entered m op, .run (.ask (.edit op.path op.verb.toEdit) next), stack⟩
        ⟨m', .run (next answer), stack⟩) →
      ComesTo (n + 4) ⟨m, .run (opProgram op), []⟩ ⟨m', .answer (answer.map value), []⟩ := by
  obtain ⟨verb, path, guarded⟩ := op
  cases guarded with
  | false =>
    refine ⟨fun _ => .null, fun n m' answer hedit => ?_⟩
    refine .mono (by omega) ((hedit [] _).trans (.head ?_ (.refl _)))
    cases answer <;> rfl
  | true =>
    -- A method makes the edit, and its result is the one of the operation.
    have hcall (body : List Value → Program) (name : String) (args : List Value)
        (value : Option Value → Value) (hop : opProgram ⟨verb, path, true⟩ =
          .ask (.call name args) .finish) (hget : Entries.get? name m.methods = some (.sync body))
        (hbody : body args = .ask (.edit path verb.toEdit)
          (Program.andThen fun removed => .pure (value removed))) :
        ∀ n m' answer, (∀ stack next, ComesTo n
          ⟨m.enter, .run (.ask (.edit path verb.toEdit) next), stack⟩
          ⟨m', .run (next answer), stack⟩) →
        ComesTo (n + 4) ⟨m, .run (opProgram ⟨verb, path, true⟩), []⟩
          ⟨m', .answer (answer.map value), []⟩ := by
      intro n m' answer hedit
      have hfinish : ComesTo 3 ⟨m', .run ((Program.andThen fun removed =>
          .pure (value removed)) answer), [.resume .finish]⟩
          ⟨m', .answer (answer.map value), []⟩ := by
        cases answer <;> exact .head rfl (.head rfl (.head rfl (.refl _)))
      refine .mono (by omega) (.head ?_ ((hedit [.resume .finish] _).trans hfinish))
      simp only [hop, Machine.step?, Machine.serve, hget, Machine.runOn, hbody]
    cases verb with
    | set v => exact ⟨fun _ => .null, hcall assign _ _ _ rfl (by rw [hmethods]; rfl) rfl⟩
    | push v => exact ⟨fun _ => .null, hcall append _ _ _ rfl (by rw [hmethods]; rfl) rfl⟩
    | remove => exact ⟨(·.getD .null), hcall delete _ _ _ rfl (by rw [hmethods]; rfl) rfl⟩

lemma perform_eq {n : Nat} {p : Program} {result : Result}
    (h : ComesTo n ⟨m, .run p, []⟩ ⟨m', .answer result, []⟩) (hn : n ≤ stepBound m) :
    perform m p = (m', result) := by
  rw [perform, (h.mono hn).perform?]
  rfl

/-- An operation whose edit cannot be made fails, and makes its entry at most. -/
theorem perform_op_of_error (hmethods : m.methods = [("append", .sync append),
    ("assign", .sync assign), ("delete", .sync delete)]) {fault : PathFault}
    (happly : op.verb.toEdit.apply op.path m.data = .error fault) :
    perform m (opProgram op) = (entered m op, .error (.invalidPath op.path fault.reason)) := by
  obtain ⟨value, hop⟩ := comesTo_op hmethods op
  have hfault : op.verb.toEdit.apply op.path (entered m op).data = .error fault := by
    rw [Model.data, store_entered]
    exact happly
  have hcome := hop 1 (entered m op) (.error (.invalidPath op.path fault.reason)) fun stack next =>
    .head (congrArg some (Machine.edit_of_error hfault stack next)) (.refl _)
  rw [perform_eq hcome (by simp only [stepBound]; omega)]
  rfl

/-- With deferral an operation queues its changes. -/
theorem perform_op_deferred (h : Stands x .deferred m tree credits queue)
    (happly : op.verb.toEdit.apply op.path tree = .ok (after, removed)) :
    ∃ m' v, perform m (opProgram op) = (m', .ok v) ∧
      Stands x .deferred m' after (credits + credit op)
        (queue ++ changes tree after (m.store.affected op.path)) := by
  obtain ⟨value, hop⟩ := comesTo_op h.methods op
  have hm := h.entered op
  have hedit : op.verb.toEdit.apply op.path (entered m op).data = .ok (after, removed) := by
    rw [hm.tree, happly]
  have hrun (stack : List Frame) (next : Except ModelError (Option Value) → Program) :
      Machine.edit stack (entered m op) op.path op.verb.toEdit next =
        ⟨(entered m op).edited op.path after, .run (next (.ok removed)), stack⟩ := by
    rw [Machine.edit_of_ok hedit, hm.mode]
    rfl
  have hcome := hop 1 ((entered m op).edited op.path after) (.ok removed) fun stack next =>
    .head (congrArg some (hrun stack next)) (.refl _)
  rw [perform_eq hcome (by simp only [stepBound]; omega)]
  exact ⟨_, _, rfl, store_entered m op ▸ hm.edited op.path after⟩

/-- Without deferral an operation delivers the queue and its changes. -/
theorem perform_op_immediate (h : Stands x .immediate m tree credits queue)
    (happly : op.verb.toEdit.apply op.path tree = .ok (after, removed)) {events : List Event}
    (hevents : events = queue ++ changes tree after (m.store.affected op.path)) :
    ∃ m' result, perform m (opProgram op) = (m', result) ∧
      ((∃ v, result = .ok v) ↔ (x.deliver (credits + credit op) events).2.2 = none) ∧
      Stands x .immediate m' after (x.deliver (credits + credit op) events).1
        (x.deliver (credits + credit op) events).2.1 := by
  obtain ⟨value, hop⟩ := comesTo_op h.methods op
  have hm := h.entered op
  have hedit : op.verb.toEdit.apply op.path (entered m op).data = .ok (after, removed) := by
    rw [hm.tree, happly]
  have hqueue : events = (entered m op).store.pending ++
      changes (entered m op).data after ((entered m op).store.affected op.path) := by
    rw [hevents, hm.pending, hm.tree, store_entered]
  have hcome := hop _ _ _ fun stack next => Enforcement.comesTo_edit x hm.watchers hm.mode
    hm.flushing hm.guard hedit hqueue stack next
  have hlength : events.length ≤ queue.length + m.store.watchers.length := by
    rw [hevents, List.length_append, ← h.tree]
    exact Nat.add_le_add_left (length_changes_le m.store after op.path) _
  have hbound := le_stepBound h hlength
  rw [perform_eq hcome (by omega)]
  refine ⟨_, _, rfl, ?_, (hm.edited op.path after).put _ _⟩
  cases (x.deliver (credits + credit op) events).2.2 <;> simp [outcome, Except.map]

/-! ### The end -/

/-- The end of a replay delivers the queue, and it goes well exactly if the queue conforms and takes
every credit. -/
theorem finish_eq (h : Stands x mode m tree credits queue) :
    ∃ m' fault?, finish m = (m', fault?) ∧
      (fault? = none ↔ (∀ event ∈ queue, x.cost event = 0 ∨ x.checkError? event = none) ∧
        x.totalCost queue = credits) ∧
      Stands x mode m' tree (x.deliver credits queue).1 (x.deliver credits queue).2.1 := by
  have hflush := Enforcement.comesTo_flush x h.watchers h.flushing h.guard []
    (Program.andThen fun _ => .pure .null)
  rw [h.pending] at hflush
  have hcome : ComesTo (2 * x.totalCost queue + 2 * queue.length + 4) ⟨m, .run flushProgram, []⟩
      ⟨m.put (x.deliver credits queue).1 (x.deliver credits queue).2.1 false,
        .answer (outcome (x.deliver credits queue).2.2), []⟩ := by
    refine hflush.trans (.head ?_ (.refl _))
    cases (x.deliver credits queue).2.2 <;> rfl
  have hbound := le_stepBound h (Nat.le_add_right queue.length m.store.watchers.length)
  have hput := h.put (x.deliver credits queue).1 (x.deliver credits queue).2.1
  have hdeliver := Enforcement.deliver_eq_none_iff x credits queue
  rw [finish, perform_eq hcome (by omega)]
  cases hfailure : (x.deliver credits queue).2.2 with
  | some e =>
    refine ⟨_, _, rfl, ?_, hput⟩
    rw [hfailure] at hdeliver
    simp only [reduceCtorEq, false_iff] at hdeliver ⊢
    exact fun hq => hdeliver ⟨hq.1, Nat.le_of_eq hq.2⟩
  | none =>
    obtain ⟨hconforms, hle⟩ := hdeliver.1 hfailure
    have hleft : (x.deliver credits queue).1 = credits - x.totalCost queue := by
      rw [Enforcement.deliver_of_eq_none hfailure]
    simp only [outcome, Model.credits, Model.put, Option.map_some]
    refine ⟨_, _, rfl, ?_, hput⟩
    rw [hleft]
    constructor
    · intro hnone
      refine ⟨hconforms, ?_⟩
      simp only [ite_eq_left_iff, reduceCtorEq, imp_false, not_not] at hnone
      omega
    · rintro ⟨-, hcost⟩
      simp [hcost]

end Replay

end GuardedData
