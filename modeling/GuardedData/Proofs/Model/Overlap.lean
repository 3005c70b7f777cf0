import GuardedData.Proofs.Model.Conformance
import GuardedData.Proofs.Model.Judgement
import GuardedData.Proofs.Model.Ledger
import Mathlib.Data.List.Induction
import Mathlib.Data.List.Nodup

/-!
# Overlapping calls

Calls are numbered in the order of their entries, and an edit belongs to the call in whose code it
is made, however the code got to run: right away, in a task that is polled later, or on behalf of
another call. A call that makes one edit, which changes one watched value, takes back the credit
that it brought, or the one of a call that is still under way. So calls never get in each other's
way, and where no flush is under way the credits tell how many of them have not landed, next to the
landings that were overlooked (`Model.credits_of_overlapping_calls`).
-/

namespace GuardedData

/-- The calls of a run so far, numbered in the order of their entries. Code from outside belongs to
none. -/
structure Roster where
  /-- The number of calls. -/
  entered : Nat := 0
  /-- The call whose code runs, followed by those whose code waits in the frames. -/
  working : List (Option Nat) := [none]
  /-- The calls that tasks belong to. -/
  tasks : List (Nat × Option Nat) := []
  /-- The calls in which the data has been edited, in the order of the edits. -/
  landed : List (Option Nat) := []

namespace Roster

/-- The call whose code runs. -/
def current (r : Roster) : Option Nat := r.working.head?.join

/-- The call that code belongs to which the next step sets to work or makes a task of: a new one,
the one of the task that is polled, or the one whose code runs. -/
def newcomer (r : Roster) (s : Machine) : Option Nat :=
  if s.enters then some r.entered
  else match s.request? with
    | some (.poll task) => (r.tasks.lookup task).join
    | _ => r.current

def after (r : Roster) (s : Machine) : Roster :=
  let t := s.step?.getD s
  { entered := r.entered + if s.enters then 1 else 0
    working :=
      if t.stack.length < s.stack.length then r.working.tail
      else if s.stack.length < t.stack.length then r.newcomer s :: r.working
      else r.working
    tasks :=
      if s.model.nextTask < t.model.nextTask then (s.model.nextTask, r.newcomer s) :: r.tasks
      else r.tasks
    landed := r.landed ++ (s.edited?.map fun _ => r.current).toList }

end Roster

/-- The calls along some steps. -/
def roster (past : List Machine) : Roster := past.foldl Roster.after {}

lemma roster_concat (past : List Machine) (s : Machine) :
    roster (past ++ [s]) = (roster past).after s := by
  rw [roster, List.foldl_append]
  rfl

namespace Roster

/-- Whether each call that is mentioned has been entered. -/
structure Valid (r : Roster) : Prop where
  working : ∀ i, some i ∈ r.working → i < r.entered
  tasks : ∀ task i, (task, some i) ∈ r.tasks → i < r.entered
  landed : ∀ i, some i ∈ r.landed → i < r.entered

variable {r : Roster} {s : Machine} {i : Nat}

lemma mem_working_of_current (h : r.current = some i) : some i ∈ r.working := by
  cases hworking : r.working with
  | nil => simp [current, hworking] at h
  | cons call rest =>
    simp only [current, hworking, List.head?_cons, Option.join_some] at h
    simp [h]

lemma entered_le_after : r.entered ≤ (r.after s).entered := Nat.le_add_right _ _

lemma Valid.newcomer_lt (h : r.Valid) (hcall : r.newcomer s = some i) :
    i < (r.after s).entered := by
  unfold newcomer at hcall
  split at hcall
  · rename_i henters
    cases hcall
    simp [after, henters]
  · refine Nat.lt_of_lt_of_le ?_ entered_le_after
    split at hcall
    · rename_i task hrequest
      rw [Option.join_eq_some_iff] at hcall
      obtain ⟨front, back, htasks, -⟩ := List.lookup_eq_some_iff.1 hcall
      exact h.tasks task i (by simp [htasks])
    · exact h.working i (mem_working_of_current hcall)

lemma Valid.after (h : r.Valid) (s : Machine) : (r.after s).Valid := by
  have hold {i : Nat} (hi : i < r.entered) : i < (r.after s).entered :=
    Nat.lt_of_lt_of_le hi entered_le_after
  constructor
  case working =>
    intro i hmem
    simp only [Roster.after] at hmem
    split_ifs at hmem
    · exact hold (h.working i (List.mem_of_mem_tail hmem))
    · rcases List.mem_cons.1 hmem with hnew | hmem
      · exact h.newcomer_lt hnew.symm
      · exact hold (h.working i hmem)
    · exact hold (h.working i hmem)
  case tasks =>
    intro task i hmem
    simp only [Roster.after] at hmem
    split_ifs at hmem
    · rcases List.mem_cons.1 hmem with hnew | hmem
      · exact h.newcomer_lt (Prod.mk.inj hnew).2.symm
      · exact hold (h.tasks task i hmem)
    · exact hold (h.tasks task i hmem)
  case landed =>
    intro i hmem
    rcases List.mem_append.1 hmem with hmem | hmem
    · exact hold (h.landed i hmem)
    · obtain ⟨hedit, hcurrent⟩ : s.edited?.isSome = true ∧ r.current = some i := by
        cases hedit : s.edited? <;> simp_all
      exact hold (h.working i (mem_working_of_current hcurrent))

lemma valid (past : List Machine) : (roster past).Valid := by
  induction past using List.reverseRecOn with
  | nil => exact ⟨by simp [roster], by simp [roster], by simp [roster]⟩
  | append_singleton past s ih =>
    rw [roster_concat]
    exact ih.after s

end Roster

open Machine

lemma roster_entered (past : List Machine) : (roster past).entered = past.countP enters := by
  induction past using List.reverseRecOn with
  | nil => rfl
  | append_singleton past s ih =>
    rw [roster_concat, List.countP_append, List.countP_singleton, ← ih]
    rfl

lemma length_landed (past : List Machine) :
    (roster past).landed.length = past.countP (·.edited?.isSome) := by
  induction past using List.reverseRecOn with
  | nil => rfl
  | append_singleton past s ih =>
    rw [roster_concat, List.countP_append, List.countP_singleton, ← ih, Roster.after,
      List.length_append]
    cases s.edited? <;> rfl

namespace Machine

/-- Whether the next step changes the value at a watch path without noticing. -/
def overlooks (s : Machine) : Bool := !s.overlooked.isEmpty

variable {s t : Machine}

lemma mem_overlooked {m : Model} {path : String} {change : Edit}
    {next : Except ModelError (Option Value) → Program} {stack : List Frame} {after : Value}
    {removed : Option Value} (happly : change.apply path m.data = .ok (after, removed))
    {w : String} :
    w ∈ overlooked ⟨m, .run (.ask (.edit path change) next), stack⟩ ↔
      w ∈ m.watchPaths ∧ Overlooked m.data after path w := by
  simp only [overlooked, happly, List.mem_filter, Bool.and_eq_true, Bool.not_eq_true', Overlooked,
    Differs]

lemma eq_edit_of_moveOf {m : Model} {request : Request} {path : String} {change : Edit}
    (h : moveOf m request = .edit path change) : request = .edit path change := by
  cases request with
  | edit path' change' =>
    cases h
    rfl
  | call name args =>
    simp only [moveOf] at h
    split at h <;> cases h
  | setComputed name value =>
    simp only [moveOf] at h
    split at h <;> cases h
  | start name args =>
    simp only [moveOf] at h
    split at h <;> cases h
  | _ => cases h

/-- A step that edits is asked for by user code. -/
lemma exists_of_edited? {before after : Value} (h : s.edited? = some (before, after)) :
    ∃ path change removed, ∃ next : Except ModelError (Option Value) → Program,
      s = ⟨s.model, .run (.ask (.edit path change) next), s.stack⟩ ∧
        change.apply path s.model.data = .ok (after, removed) ∧ before = s.model.data := by
  unfold edited? at h
  split at h
  · rename_i path change hmove
    split at h
    · rename_i after' removed happly
      cases h
      obtain ⟨m, control, stack⟩ := s
      cases control with
      | run p =>
        cases p with
        | ask request next =>
          obtain rfl := eq_edit_of_moveOf hmove
          exact ⟨path, change, removed, next, rfl, happly, rfl⟩
        | _ => cases hmove
      | deliver callbacks value failure => cases callbacks <;> cases hmove
      | _ => cases hmove
    · cases h
  · cases h

/-- A step that edits nothing overlooks nothing. -/
lemma overlooks_of_edited?_eq_none (h : s.edited? = none) : s.overlooks = false := by
  cases hoverlooks : s.overlooks with
  | false => rfl
  | true =>
    obtain ⟨m, control, stack⟩ := s
    simp only [overlooks, Bool.not_eq_true', List.isEmpty_eq_false_iff] at hoverlooks
    unfold overlooked at hoverlooks
    split at hoverlooks
    · rename_i path change next hcontrol
      simp only at hcontrol
      subst hcontrol
      split at hoverlooks
      · rename_i after removed happly
        simp [edited?, move, moveOf, happly] at h
      · exact absurd rfl hoverlooks
    · exact absurd rfl hoverlooks

end Machine

/-! ### One edit -/

namespace Enforcement

variable {x : Enforcement} {s t : Machine}

/-- Where the watch paths are distinct each event of one costs a credit. -/
lemma totalCost_eq_length (hdistinct : x.paths.Nodup) {events : List Event}
    (h : ∀ event ∈ events, event.path ∈ x.paths) : x.totalCost events = events.length := by
  induction events with
  | nil => rfl
  | cons event rest ih =>
    obtain ⟨hevent, hrest⟩ := List.forall_mem_cons.1 h
    rw [totalCost, ih hrest, cost, List.count_eq_one_of_mem hdistinct hevent, List.length_cons,
      Nat.add_comm]

lemma mem_queued {m : Model} {path : String} {change : Edit}
    {next : Except ModelError (Option Value) → Program} {stack : List Frame} {after : Value}
    {removed : Option Value} (hw : m.store.watchers = x.watchers)
    (happly : change.apply path m.data = .ok (after, removed)) {event : Event} :
    event ∈ queued ⟨m, .run (.ask (.edit path change) next), stack⟩ ↔
      event.path ∈ x.paths ∧ Dotted.related event.path path = true ∧
        Differs m.data after event.path ∧ event.value = after.at? event.path := by
  simp only [queued, move, moveOf, happly]
  exact mem_changes_affected hw

/-- An edit that changes one watched value queues one event, or else overlooks the change. -/
lemma queued_of_one_change (hw : s.model.store.watchers = x.watchers)
    (hpaths : s.model.watchPaths = x.paths) (hdistinct : x.paths.Nodup) {before after : Value}
    (hedit : s.edited? = some (before, after)) {w : String} (hmem : w ∈ x.paths)
    (hone : ∀ v ∈ x.paths, Differs before after v ↔ v = w) :
    s.queued.length ≤ 1 ∧ x.totalCost s.queued + (if s.overlooks then 1 else 0) = 1 := by
  have hnodup := (queued_of_edited? hedit).1
  obtain ⟨m, control, stack⟩ := s
  obtain ⟨path, change, removed, next, hs, happly, rfl⟩ := exists_of_edited? hedit
  cases hs
  simp only at hw hpaths happly hone
  generalize hs : (⟨m, .run (.ask (.edit path change) next), stack⟩ : Machine) = s at hnodup ⊢
  -- Both what is queued and what is overlooked is about the one value.
  have hevents (event : Event) : event ∈ s.queued ↔ event.path = w ∧
      Dotted.related w path = true ∧ event.value = after.at? w := by
    rw [← hs, mem_queued hw happly]
    constructor
    · rintro ⟨hpath, hrelated, hdiffers, hvalue⟩
      obtain rfl := (hone event.path hpath).1 hdiffers
      exact ⟨rfl, hrelated, hvalue⟩
    · rintro ⟨rfl, hrelated, hvalue⟩
      exact ⟨hmem, hrelated, (hone event.path hmem).2 rfl, hvalue⟩
  have hoverlooked (v : String) : v ∈ s.overlooked ↔ v = w ∧ Dotted.related w path = false := by
    rw [← hs, mem_overlooked happly, hpaths]
    constructor
    · rintro ⟨hv, hunrelated, hdiffers⟩
      obtain rfl := (hone v hv).1 hdiffers
      exact ⟨rfl, hunrelated⟩
    · rintro ⟨rfl, hunrelated⟩
      exact ⟨hmem, hunrelated, (hone v hmem).2 rfl⟩
  have hlength : s.queued.length ≤ 1 := by
    have hall : s.queued.map (·.path) = List.replicate s.queued.length w := by
      refine List.eq_replicate_iff.2 ⟨List.length_map _, fun v hv => ?_⟩
      obtain ⟨event, hevent, rfl⟩ := List.mem_map.1 hv
      exact ((hevents event).1 hevent).1
    rw [hall, List.nodup_replicate] at hnodup
    exact hnodup
  refine ⟨hlength, ?_⟩
  rw [totalCost_eq_length hdistinct fun event hevent => by
    rw [((hevents event).1 hevent).1]
    exact hmem]
  cases hrelated : Dotted.related w path with
  | true =>
    have hnone : s.overlooks = false := by
      rw [overlooks, Bool.not_eq_false', List.isEmpty_iff, List.eq_nil_iff_forall_not_mem]
      intro v hv
      rw [((hoverlooked v).1 hv).2] at hrelated
      cases hrelated
    have hpos := List.length_pos_of_mem ((hevents ⟨w, after.at? w⟩).2 ⟨rfl, hrelated, rfl⟩)
    rw [hnone]
    simp only [Bool.false_eq_true, if_false]
    omega
  | false =>
    have hnil : s.queued = [] := by
      refine List.eq_nil_iff_forall_not_mem.2 fun event hevent => ?_
      rw [((hevents event).1 hevent).2.1] at hrelated
      cases hrelated
    have hsome : s.overlooks = true := by
      have hmem := (hoverlooked w).2 ⟨rfl, hrelated⟩
      rw [overlooks, Bool.not_eq_true', List.isEmpty_eq_false_iff]
      exact List.ne_nil_of_mem hmem
    rw [hnil, hsome]
    rfl

lemma Solvent.mono {more less : Nat} (h : x.Solvent more s) (hle : less ≤ more) :
    x.Solvent less s := by
  obtain ⟨g, hg, hcredits⟩ := h
  exact ⟨g, hg, by omega⟩

/-- Where the credits suffice for what is due, each settling callback that is told spends one. -/
lemma Solvent.countP_told {more : Nat} (h : x.Solvent more s) :
    s.told?.toList.countP (·.1.settles) = if s.spends then 1 else 0 := by
  obtain ⟨g, hg, hcredits⟩ := h
  cases hmove : s.move with
  | tell callback value =>
    cases callback with
    | settle path =>
      obtain ⟨rest, huntold⟩ := untold_of_move_tell hmove
      have hdue : 1 ≤ x.due s := by
        simp only [due, huntold, List.countP_cons, Callback.settles, if_true]
        omega
      have hsettle : g.settle path = .ok ⟨g.credits - 1⟩ :=
        Guard.settle_eq_ok_iff.2 ⟨by omega, rfl⟩
      simp [told?, spends, settlement?, hmove, hg, hsettle, Callback.settles]
    | _ => simp [told?, spends, settlement?, hmove, Callback.settles]
  | _ => simp [told?, spends, settlement?, hmove]

/-- What is known of the credits after some entries, edits, settled changes and overlooked ones:
they suffice for what is due and for the calls that have not landed, and each edit is due, settled
or overlooked. -/
structure Balanced (x : Enforcement) (entered landed spent missed : Nat) (s : Machine) : Prop where
  le : landed ≤ entered
  solvent : x.Solvent (entered - landed) s
  due : x.due s + spent + missed = landed

/-- A step keeps the balance if it edits for a call that has not landed yet. -/
theorem Balanced.step {entered landed spent missed : Nat}
    (h : x.Balanced entered landed spent missed s) (hs : s.step? = some t)
    (hframes : s.control.flushes = 1 → framesFlushes s.stack = 0)
    (hcharged : x.Charged s.model.store.watchers)
    (hle : landed + (if s.edited?.isSome then 1 else 0) ≤ entered + if s.enters then 1 else 0)
    (hone : s.edited?.isSome = true → x.totalCost s.queued + (if s.overlooks then 1 else 0) = 1) :
    x.Balanced (entered + if s.enters then 1 else 0) (landed + if s.edited?.isSome then 1 else 0)
      (spent + if s.spends then 1 else 0) (missed + if s.overlooks then 1 else 0) t := by
  obtain ⟨hle', hsolvent, hpast⟩ := h
  have hdue := due_of_step? hs hframes hcharged
  rw [hsolvent.countP_told] at hdue
  cases hedit : s.edited? with
  | none =>
    have hqueued := queued_of_edited?_eq_none hedit
    rw [hqueued, totalCost] at hdue
    rw [overlooks_of_edited?_eq_none hedit]
    simp only [Option.isSome_none, Bool.false_eq_true, if_false, Nat.add_zero]
    refine ⟨by omega, ?_, by omega⟩
    cases henters : s.enters with
    | true =>
      rw [if_pos rfl, Nat.sub_add_comm hle']
      exact hsolvent.enter hs (move_eq_enter_iff.2 henters) hframes hcharged
    | false =>
      refine Solvent.step hs hframes hcharged ?_
      rw [hqueued, totalCost, Nat.zero_add]
      exact hsolvent
  | some edit =>
    have hcost := hone (by rw [hedit]; rfl)
    have henters : s.enters = false := by
      cases henters : s.enters with
      | false => rfl
      | true => simp [edited?, move_eq_enter_iff.2 henters] at hedit
    rw [hedit, henters] at hle
    simp only [henters, Option.isSome_some, Bool.false_eq_true, if_true, if_false,
      Nat.add_zero] at hle ⊢
    refine ⟨hle, ?_, by omega⟩
    exact Solvent.step hs hframes hcharged (hsolvent.mono (by omega))

end Enforcement

/-! ### The queue between two pieces of code -/

/-- The number of events that may be queued: one for a flush to take. -/
def Control.room : Control → Nat
  | .drain => 1
  | _ => 0

namespace Machine

/-- Whether no delivery waits for code, and nothing is queued but what a flush is about to take. -/
structure Quiet (s : Machine) : Prop where
  frames : framesFlushes s.stack = 0
  pending : s.model.store.pending.length ≤ s.control.room

variable {s t : Machine}

/-- As long as only callbacks are told that are no user code, no delivery waits for code. -/
lemma framesFlushes_of_step? (hs : s.step? = some t) (h : framesFlushes s.stack = 0)
    (huser : ∀ body value, s.told? ≠ some (.react body, value)) : framesFlushes t.stack = 0 := by
  obtain ⟨m, control, stack⟩ := s
  cases control with
  | run p =>
    cases p with
    | ask request next =>
      cases hs
      rw [(turns_serve stack m request next).framesFlushes_eq]
      exact h
    | _ =>
      cases hs
      exact h
  | drain =>
    simp only [step?] at hs
    split at hs <;> cases hs <;> exact h
  | deliver callbacks value failure =>
    cases callbacks with
    | nil => cases failure <;> cases hs <;> exact h
    | cons callback callbacks =>
      cases hs
      cases callback with
      | react body => exact absurd rfl (huser body value)
      | _ => exact h
  | answer result =>
    cases stack with
    | nil => cases hs
    | cons frame stack =>
      cases hs
      rw [framesFlushes_cons, Nat.add_eq_zero_iff] at h
      cases frame <;> exact h.2

/-- An edit that queues at most one event is followed by its flush. -/
theorem Quiet.step (h : s.Quiet) (hs : s.step? = some t) (hmark : s.Marked 0)
    (hmode : s.model.store.mode = .immediate)
    (huser : ∀ body value, s.told? ≠ some (.react body, value))
    (hqueued : s.queued.length ≤ 1) : t.Quiet := by
  refine ⟨framesFlushes_of_step? hs h.frames huser, ?_⟩
  have hpending := congrArg List.length (pending_of_step? hs)
  rw [List.length_append, List.length_append] at hpending
  have hroom := h.pending
  cases hedit : s.edited? with
  | none =>
    rw [queued_of_edited?_eq_none hedit, List.length_nil] at hpending
    -- All that was queued has been taken.
    have hnone : s.model.store.pending.length ≤ s.taken?.toList.length := by
      obtain ⟨m, control, stack⟩ := s
      cases control with
      | drain =>
        have htaken : taken? ⟨m, .drain, stack⟩ = m.store.pending.head? := rfl
        rw [htaken]
        simp only [Control.room] at hroom ⊢
        cases hevents : m.store.pending with
        | nil => simp
        | cons event rest => simpa [hevents] using hroom
      | _ => exact Nat.le_trans hroom (Nat.zero_le _)
    omega
  | some trees =>
    obtain ⟨path, change, removed, next, hcontrol, happly, -⟩ := exists_of_edited? hedit
    have hcode : s.control.flushes = 0 ∧ s.control.room = 0 := by
      rw [hcontrol]
      exact ⟨rfl, rfl⟩
    have hidle : s.model.store.flushing = false := by
      simp only [Marked, flushes, hcode.1, h.frames] at hmark
      cases hflushing : s.model.store.flushing with
      | false => rfl
      | true => simp [hflushing] at hmark
    have hserved : s.step? = some (edit s.stack s.model path change next) := by
      rw [hcontrol]
      rfl
    have hedited : (s.model.edited path trees.2).store.flushing = false := hidle
    rw [edit_of_ok happly, hmode] at hserved
    simp only [beginFlush, hedited, Bool.false_eq_true, if_false] at hserved
    have hdrain : t.control = .drain := by
      rw [Option.some.inj (hs.symm.trans hserved)]
    rw [hdrain, Control.room]
    omega

end Machine

/-! ### Runs -/

/-- If no call lands twice, the calls are those that have landed and those that have not. -/
lemma Roster.Valid.entered_eq {r : Roster} (h : r.Valid) {calls : List Nat}
    (hlanded : r.landed = calls.map some) (honce : calls.Nodup) :
    r.entered = calls.length + ((List.range r.entered).filter (· ∉ calls)).length := by
  have hperm : ((List.range r.entered).filter (· ∈ calls)).Perm calls := by
    refine (List.perm_ext_iff_of_nodup (List.nodup_range.filter _) honce).2 fun i => ?_
    have hentered : i ∈ calls → i < r.entered := by
      intro hi
      apply h.landed i
      rw [hlanded]
      exact List.mem_map_of_mem hi
    simpa using hentered
  have hsplit := List.length_eq_length_filter_add (l := List.range r.entered) (· ∈ calls)
  rw [hperm.length_eq, List.length_range] at hsplit
  simpa using hsplit

/-- Without user watchers no callback that is told runs user code. -/
lemma Run.told?_ne_react {x : Enforcement} {m : Model} {past : List Machine} {s : Machine}
    (h : Run m past s) (hw : s.model.store.watchers = x.watchers) (body : Option Value → Program)
    (value : Option Value) : s.told? ≠ some (.react body, value) := by
  intro htold
  obtain ⟨w, hmem, hcallback⟩ := h.exists_watcher_of_told? htold
  rw [hw] at hmem
  exact Enforcement.callback_ne_react hmem body hcallback

/-- A run of calls that make one edit each, which changes one watched value, keeps the balance of
the guard and raises no violation. -/
theorem Run.balanced {x : Enforcement} {m : Model} (hguard : m.guard = some ⟨0⟩)
    (hpending : m.store.pending = []) (hidle : m.store.flushing = false)
    (hmode : m.store.mode = .immediate) (hpaths : m.watchPaths = x.paths)
    (hdistinct : x.paths.Nodup) {past : List Machine} {s : Machine} (h : Run m past s)
    (hw : s.model.store.watchers = x.watchers) {calls : List Nat}
    (hlanded : (roster past).landed = calls.map some) (honce : calls.Nodup)
    (hone : ∀ t ∈ past, ∀ before after, t.edited? = some (before, after) →
      ∃ w ∈ x.paths, ∀ v ∈ x.paths, Differs before after v ↔ v = w) :
    x.Balanced (past.countP enters) (past.countP (·.edited?.isSome)) (past.countP spends)
      (past.countP overlooks) s ∧ s.Quiet ∧
    ∀ t ∈ past, ∀ e, t.objected? = some e → e.isGuardViolation = false := by
  induction h generalizing calls with
  | begin p =>
    have hdue : x.due ⟨m, .run p, []⟩ = 0 := by
      simp [Enforcement.due, untold, hpending, Enforcement.totalCost]
    refine ⟨⟨Nat.le_refl 0, ⟨⟨0⟩, hguard, by simp [hdue]⟩, by simp [hdue]⟩, ⟨rfl, ?_⟩, by simp⟩
    simp [hpending]
  | @step past s t h hs ih =>
    have hwatchers := watchers_of_step? hs
    rw [hw] at hwatchers
    have hw' : s.model.store.watchers = x.watchers := by
      cases hregistered : s.registered? with
      | none => simpa [hregistered] using hwatchers.symm
      | some w =>
        -- What a run adds to the watchers is user code.
        obtain ⟨body, hbody⟩ : ∃ body, w.callback = .react body := by
          unfold registered? at hregistered
          split at hregistered <;> cases hregistered
          exact ⟨_, rfl⟩
        have hmem : w ∈ x.watchers := by simp [hwatchers, hregistered]
        exact absurd hbody (Enforcement.callback_ne_react hmem body)
    have hpaths' : s.model.watchPaths = x.paths := h.sameMake.watchPaths.trans hpaths
    have hmark : s.Marked 0 := by
      have hmark := h.marked
      rwa [hidle] at hmark
    have hcharged : x.Charged s.model.store.watchers := by
      rw [hw']
      exact x.charged_watchers
    have hlength : (past ++ [s]).countP (·.edited?.isSome) ≤ (past ++ [s]).countP enters := by
      rw [← length_landed, ← roster_entered, hlanded, List.length_map,
        (Roster.valid _).entered_eq hlanded honce]
      exact Nat.le_add_right _ _
    simp only [List.countP_append, List.countP_singleton] at hlength ⊢
    rw [roster_concat] at hlanded
    obtain ⟨before, new, rfl, hbefore, -⟩ := List.map_eq_append_iff.1 hlanded.symm
    obtain ⟨hbalanced, hquiet, hfine⟩ := ih hw' hbefore.symm (List.Nodup.of_append_left honce)
      fun t ht => hone t (List.mem_append_left _ ht)
    have hedit {first second : Value} (he : s.edited? = some (first, second)) :
        s.queued.length ≤ 1 ∧ x.totalCost s.queued + (if s.overlooks then 1 else 0) = 1 := by
      obtain ⟨w, hmem, hchange⟩ := hone s (by simp) first second he
      exact Enforcement.queued_of_one_change hw' hpaths' hdistinct he hmem hchange
    refine ⟨?_, ?_, ?_⟩
    · refine hbalanced.step hs h.frames_eq_zero hcharged hlength fun he => ?_
      obtain ⟨⟨first, second⟩, he⟩ := Option.isSome_iff_exists.1 he
      exact (hedit he).2
    · refine hquiet.step hs hmark (h.sameMake.mode.trans hmode) (h.told?_ne_react hw') ?_
      cases he : s.edited? with
      | none => simp [queued_of_edited?_eq_none he]
      | some trees => exact (hedit he).1
    · refine List.forall_mem_append.2 ⟨hfine, List.forall_mem_singleton.2 fun e he => ?_⟩
      exact hbalanced.solvent.not_violated he
  | next h p ih =>
    obtain ⟨hbalanced, hquiet, hfine⟩ := ih hw hlanded honce hone
    exact ⟨⟨hbalanced.le, hbalanced.solvent, hbalanced.due⟩, ⟨hquiet.frames, hquiet.pending⟩, hfine⟩

/-- Where no flush is under way, nothing is queued and nothing due. -/
lemma Machine.Quiet.due_eq_zero {x : Enforcement} {s : Machine} (h : s.Quiet)
    (hflushes : s.flushes = 0) : s.model.store.pending = [] ∧ x.due s = 0 := by
  have hcontrol : s.control.flushes = 0 := by
    rw [flushes] at hflushes
    omega
  have hroom : s.control.room = 0 ∧ s.control.untold = [] := by
    cases hc : s.control with
    | drain => simp [hc, Control.flushes] at hcontrol
    | deliver callbacks value failure => simp [hc, Control.flushes] at hcontrol
    | _ => exact ⟨rfl, rfl⟩
  have hpending : s.model.store.pending = [] := by
    have hle := h.pending
    rw [hroom.1, Nat.le_zero, List.length_eq_zero_iff] at hle
    exact hle
  refine ⟨hpending, ?_⟩
  have huntold : s.untold = [] := by
    rw [untold, standing, hroom.2, flatMap_untold_of_framesFlushes h.frames]
    rfl
  rw [Enforcement.due, hpending, huntold]
  rfl

/-- What a step overlooks escapes an edit. -/
lemma Machine.exists_escape_of_overlooks {s : Machine} (h : s.overlooks = true) :
    ∃ path change, ∃ next : Except ModelError (Option Value) → Program,
      s.control = .run (.ask (.edit path change) next) ∧
        ∃ w ∈ s.model.watchPaths, Escape s.model.data change path w := by
  cases hedit : s.edited? with
  | none =>
    rw [overlooks_of_edited?_eq_none hedit] at h
    cases h
  | some trees =>
    obtain ⟨path, change, removed, next, hs, happly, -⟩ := exists_of_edited? hedit
    obtain ⟨w, hw⟩ : ∃ w, w ∈ s.overlooked := by
      rw [overlooks, Bool.not_eq_true', List.isEmpty_eq_false_iff] at h
      exact List.exists_mem_of_ne_nil _ h
    rw [hs, mem_overlooked happly] at hw
    exact ⟨path, change, next, by rw [hs], w, hw.1, hw.2.escape happly⟩

namespace Model

/-- **Overlapping calls do not disturb each other.** Take a guarded model without user watchers that
does not defer its changes and whose watch paths are distinct, where no credit is left and nothing
is queued, and any run of calls of which each makes at most one edit, which changes the value at one
watch path. Then the guard objects to nothing, and nothing ends with a violation unless user code
has one of its own. Where no flush is under way the queue is empty, and the credits are the calls
less those that have landed, which are the calls that have not landed, and one more for each landing
that was overlooked. What is overlooked escapes in one of four ways. -/
theorem credits_of_overlapping_calls {d : Definition} {o : Options} {current : Environment}
    {m : Model} (hm : create d o current = .ok m) (himm : o.immutable = true)
    (hdev : o.resolve current = .development) (hsync : o.flush = .immediate)
    (hdistinct : m.watchPaths.Nodup) {earlier : List Machine} {m₀ : Model} {last : Result}
    (hearlier : Run m earlier ⟨m₀, .answer last, []⟩) (hcredits : m₀.credits = some 0)
    (hpending : m₀.store.pending = []) {past : List Machine} {s : Machine} (hrun : Run m₀ past s)
    (huser : ∀ w ∈ s.model.store.watchers, ∀ body, w.callback ≠ .react body) {calls : List Nat}
    (hlanded : (roster past).landed = calls.map some) (honce : calls.Nodup)
    (hone : ∀ t ∈ past, ∀ before after, t.edited? = some (before, after) →
      ∃ w ∈ m.watchPaths, ∀ v ∈ m.watchPaths, Differs before after v ↔ v = w) :
    (∀ t ∈ past, ∀ e, t.objected? = some e → e.isGuardViolation = false) ∧
    (m₀.Keeps .honest → Run.Keeping .honest m₀ past s →
      ∀ path, s.control ≠ .answer (.error (.immutable path))) ∧
    (s.flushes = 0 → s.model.store.pending = [] ∧
      s.model.credits = some ((past.countP enters : Int) - calls.length + past.countP overlooks)) ∧
    past.countP enters =
      calls.length + ((List.range (past.countP enters)).filter (· ∉ calls)).length ∧
    ∀ t ∈ past, t.overlooks = true → ∃ path change,
      ∃ next : Except ModelError (Option Value) → Program,
        t.control = .run (.ask (.edit path change) next) ∧
          ∃ w ∈ t.model.watchPaths, Escape t.model.data change path w := by
  have hcreated := created_of_create hm hdev
  have hguard : m₀.guard = some ⟨0⟩ := by
    obtain ⟨g, hg, h0⟩ := Option.map_eq_some_iff.1 hcredits
    rw [hg, ← h0]
  have hpaths : m.watchPaths = (Enforcement.ofDefinition d).paths := hcreated.watchPaths
  have hw := hcreated.watchers_of_run himm (hearlier.append hrun) huser
  have hmode : m₀.store.mode = .immediate :=
    hearlier.sameMake.mode.trans (hcreated.mode.trans hsync)
  have hidle : m₀.store.flushing = false := hearlier.flushing_of_idle hcreated.flushing
  rw [hpaths] at hdistinct hone
  obtain ⟨hbalanced, hquiet, hfine⟩ := hrun.balanced hguard hpending hidle hmode
    (hearlier.sameMake.watchPaths.trans hpaths) hdistinct hw hlanded honce hone
  have hlength : calls.length = past.countP (·.edited?.isSome) := by
    rw [← length_landed, hlanded, List.length_map]
  refine ⟨hfine, ?_, ?_, ?_, ?_⟩
  · intro hkeeps hkeeping path hanswer
    have hlast := (hkeeping.keeps hkeeps hfine).control
    rw [hanswer] at hlast
    have hhonest := hlast (.immutable path) rfl
    cases hhonest
  · intro hflushes
    obtain ⟨hempty, hdue⟩ := hquiet.due_eq_zero (x := Enforcement.ofDefinition d) hflushes
    refine ⟨hempty, ?_⟩
    have hbalance := hbalanced.due
    rw [Model.credits, hrun.credits hguard, Option.map_some, Option.some.injEq]
    simp only
    omega
  · have hentered := (Roster.valid past).entered_eq hlanded honce
    rwa [roster_entered] at hentered
  · intro t ht hoverlooks
    exact exists_escape_of_overlooks hoverlooks

/-- Two calls are started, of which the first lands late with a value that is refused, and the
second is dropped. A third call comes in between, and its landing is overlooked: with one call that
has not landed two credits are left. -/
theorem credits_of_overlapping_calls_overlooked :
    let d : Definition := {
      data := some (.object [("a", .object [("b", .ofInt 0)]), ("c", .ofInt 0)])
      schema := some (.object [("a", .object [("b", .leaf .number)]), ("c", .leaf .number)])
      methods := [("slow", .async fun _ => .ask .pause fun _ => .edit "c" (.set .null)),
        ("quick", .sync fun _ => .edit "a..b" (.set (.ofInt 1)))] }
    let ask (request : Request) (p : Program) : Program := .ask request fun _ => p
    let p : Program := ask (.start "slow" []) <| ask (.start "slow" []) <| ask (.poll 0) <|
      ask (.call "quick" []) <| ask (.poll 0) <| ask (.drop 1) <| .pure .null
    ∃ m s past, create d {} .development = .ok m ∧ Run m past s ∧ s.outcome?.isSome = true ∧
      past = trail 60 ⟨m, .run p, []⟩ ∧ past.countP enters = 3 ∧
      (roster past).landed = [some 2, some 0] ∧ past.countP overlooks = 1 ∧
      s.model.store.pending = [] ∧ s.model.credits = some (3 - 2 + 1) ∧
      ∀ path, s.control ≠ .answer (.error (.immutable path)) := by
  intro d ask p
  obtain ⟨m, hm⟩ : ∃ m, create d {} .development = .ok m := ⟨_, rfl⟩
  have hask {request : Request} {p : Program} (hp : p.Keeps .honest) :
      (ask request p).Keeps .honest := .ask trivial fun _ _ => hp
  have hcode : d.Keeps .honest := by
    apply Definition.Keeps.of_forall
    · refine List.forall_mem_cons.2 ⟨fun _ => .ask trivial fun _ _ => .edit trivial, ?_⟩
      exact List.forall_mem_singleton.2 fun _ => .edit trivial
    · exact List.forall_mem_nil _
    · exact List.forall_mem_nil _
  have hp : p.Keeps .honest := hask <| hask <| hask <| hask <| hask <| hask <| .pure _
  have hkeeping : Run.Keeping .honest m (trail 60 ⟨m, .run p, []⟩) (runFor 60 ⟨m, .run p, []⟩) := by
    simpa using (Run.Keeping.begin (m := m) hp).runFor 60
  have hcounts : (runFor 60 ⟨m, .run p, []⟩).outcome?.isSome = true ∧
      (runFor 60 ⟨m, .run p, []⟩).model.store.watchers = (Enforcement.ofDefinition d).watchers ∧
      (runFor 60 ⟨m, .run p, []⟩).flushes = 0 ∧
      (trail 60 ⟨m, .run p, []⟩).countP enters = 3 ∧
      (roster (trail 60 ⟨m, .run p, []⟩)).landed = [some 2, some 0] ∧
      (trail 60 ⟨m, .run p, []⟩).countP overlooks = 1 ∧
      ((trail 60 ⟨m, .run p, []⟩).filterMap edited?).map (fun trees => m.watchPaths.filter
        fun w => !Value.equalOption (trees.2.at? w) (trees.1.at? w)) = [["a.b"], ["c"]] ∧
      m.watchPaths = ["a.b", "c"] ∧ m.credits = some 0 ∧ m.store.pending = [] := by
    cases hm
    dsimp only [d, ask, p]
    exact ⟨rfl, rfl, rfl, rfl, rfl, rfl, rfl, rfl, rfl, rfl⟩
  obtain ⟨hend, hwatchers, hflushes, henters, hlanded, hoverlooks, hchanged, hpaths, hcredits,
    hpending⟩ := hcounts
  have huser : ∀ w ∈ (runFor 60 ⟨m, .run p, []⟩).model.store.watchers, ∀ body,
      w.callback ≠ .react body := by
    rw [hwatchers]
    exact fun w hw => Enforcement.callback_ne_react hw
  have hone : ∀ t ∈ trail 60 ⟨m, .run p, []⟩, ∀ before after, t.edited? = some (before, after) →
      ∃ w ∈ m.watchPaths, ∀ v ∈ m.watchPaths, Differs before after v ↔ v = w := by
    intro t ht before after hedit
    have hmem := List.mem_map_of_mem (f := fun trees : Value × Value => m.watchPaths.filter
      fun w => !Value.equalOption (trees.2.at? w) (trees.1.at? w))
      (List.mem_filterMap.2 ⟨t, ht, hedit⟩)
    rw [hchanged] at hmem
    have hsingle : ∃ w, m.watchPaths.filter
        (fun w => !Value.equalOption (after.at? w) (before.at? w)) = [w] := by
      rcases List.mem_pair.1 hmem with h | h
      · exact ⟨"a.b", h⟩
      · exact ⟨"c", h⟩
    obtain ⟨w, hw⟩ := hsingle
    have hiff (v : String) : v ∈ m.watchPaths ∧ Differs before after v ↔ v = w := by
      rw [← List.mem_singleton, ← hw, List.mem_filter, Bool.not_eq_true', Differs]
    exact ⟨w, ((hiff w).2 rfl).1, fun v hv =>
      ⟨fun h => (hiff v).1 ⟨hv, h⟩, fun h => ((hiff v).2 h).2⟩⟩
  have hbefore : Run m [⟨m, .run (.pure .null), []⟩] ⟨m, .answer (.ok .null), []⟩ :=
    (Run.begin (.pure .null)).step rfl
  have hcalls : (roster (trail 60 ⟨m, .run p, []⟩)).landed = [2, 0].map some := hlanded
  obtain ⟨-, hnever, hquiet, -, -⟩ := credits_of_overlapping_calls hm rfl rfl rfl
    (by rw [hpaths]; decide) hbefore hcredits hpending hkeeping.run huser hcalls (by decide) hone
  obtain ⟨hempty, hleft⟩ := hquiet hflushes
  rw [henters, hoverlooks] at hleft
  exact ⟨m, _, _, hm, hkeeping.run, hend, rfl, henters, hlanded, hoverlooks, hempty, hleft,
    hnever (keeps_of_create hm hcode) hkeeping⟩

end Model

end GuardedData
