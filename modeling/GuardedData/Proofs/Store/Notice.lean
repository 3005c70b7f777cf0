import GuardedData.Proofs.Store.Frame
import GuardedData.Store.Basic

/-!
# Which changes are noticed

An edit looks for changes only at the watched paths that are related to its own. The events that it
queues are those of all watched paths exactly if it overlooks none, and a path is overlooked in four
ways only: it is the root, one of the two paths has a gap, the two write an index differently, or
the edit takes an element out of an array and the path leads through a later one
(`Store.pending_edit_iff`).
-/

namespace GuardedData

open Dotted

/-- Two lists of which neither comes first in the other part at some place. -/
lemma exists_fork {α : Type*} {p q : List α} (hp : ¬p <+: q) (hq : ¬q <+: p) :
    ∃ r a s b t, p = r ++ a :: s ∧ q = r ++ b :: t ∧ a ≠ b := by
  induction p generalizing q with
  | nil => exact absurd List.nil_prefix hp
  | cons a p ih =>
    cases q with
    | nil => exact absurd List.nil_prefix hq
    | cons b q =>
      by_cases hab : a = b
      · subst hab
        rw [List.cons_prefix_cons] at hp hq
        obtain ⟨r, c, s, d, t, rfl, rfl, hcd⟩ := ih (fun h => hp ⟨rfl, h⟩) (fun h => hq ⟨rfl, h⟩)
        exact ⟨a :: r, c, s, d, t, rfl, rfl, hcd⟩
      · exact ⟨[], a, p, b, q, rfl, rfl, hab⟩

/-! ### Overlooked paths -/

/-- Whether the value at a watched path differs after a change of the tree. -/
def Differs (before after : Value) (watched : String) : Prop :=
  Value.equalOption (after.at? watched) (before.at? watched) = false

/-- Whether the value at a watched path differs although the path counts as unrelated to the edited
one. -/
def Overlooked (before after : Value) (path watched : String) : Prop :=
  related watched path = false ∧ Differs before after watched

/-- How an edit at a path changes the value at a watched path that counts as unrelated. -/
inductive Escape (root : Value) (edit : Edit) (path watched : String) : Prop
  /-- The watched path is the root, which counts as unrelated to what is below it. -/
  | root (h : segments watched = [])
  /-- Two dots with nothing between them tell apart texts with the same segments. -/
  | gap (h : HasGap watched ∨ HasGap path)
  /-- The paths part at two ways to write one index. -/
  | respelled (front : List String) (a : String) (as : List String) (b : String) (bs : List String)
      (i : Nat) (hwatched : segments watched = front ++ a :: as)
      (hpath : segments path = front ++ b :: bs) (hne : a ≠ b) (ha : index? a = some i)
      (hb : index? b = some i)
  /-- A removal from an array moves the elements behind the removed one. -/
  | shifted (hedit : edit = .remove) (h : Edit.Shifts root (segments path) (segments watched))

lemma Differs.ne {before after : Value} {watched : String} (h : Differs before after watched) :
    after.at? watched ≠ before.at? watched := by
  intro he
  rw [Differs, he, Value.equalOption_self] at h
  exact Bool.noConfusion h

/-- There is no fifth way for a change to be overlooked. -/
lemma Overlooked.escape {edit : Edit} {path watched : String} {before after : Value}
    {removed : Option Value} (h : edit.apply path before = .ok (after, removed))
    (ho : Overlooked before after path watched) : Escape before edit path watched := by
  obtain ⟨hunrelated, hdiff⟩ := ho
  rcases Edit.of_find?_apply_ne h hdiff.ne with hmeet | ⟨hedit, hshift⟩
  · by_cases hw : segments watched = []
    · exact .root hw
    by_cases hg : HasGap watched ∨ HasGap path
    · exact .gap hg
    rw [not_or] at hg
    have hc : segments path ≠ [] := fun hnil => by
      rw [related_iff.2 (Or.inl (segments_eq_nil_iff.1 hnil))] at hunrelated
      exact Bool.noConfusion hunrelated
    have hfork : ¬(segments watched <+: segments path ∨ segments path <+: segments watched) := by
      rw [← related_iff_of_not_hasGap hw hc hg.1 hg.2, hunrelated]
      exact Bool.noConfusion
    rw [not_or] at hfork
    -- The paths part somewhere, and as they meet they do so at one index.
    obtain ⟨front, a, as, b, bs, hwatched, hpath, hne⟩ := exists_fork hfork.1 hfork.2
    rw [hwatched, hpath, meet_append rfl, Bool.and_eq_true, meet, Bool.and_eq_true] at hmeet
    have hstep : (index? a).isSome = true ∧ index? a = index? b := by
      simpa [sameStep, hne] using hmeet.2.1
    obtain ⟨i, hi⟩ := Option.isSome_iff_exists.1 hstep.1
    exact .respelled front a as b bs i hwatched hpath hne hi (hstep.2 ▸ hi)
  · exact .shifted hedit hshift

/-! ### The queue -/

lemma nodup_eraseDups : ∀ l : List String, l.eraseDups.Nodup
  | [] => .nil
  | s :: rest => by
    rw [List.eraseDups_cons]
    exact List.nodup_cons.2 ⟨by simp, nodup_eraseDups _⟩
termination_by l => l.length
decreasing_by exact Nat.lt_succ_of_le (List.length_filter_le _ rest)

lemma changes_eq_map (before after : Value) (paths : List String) :
    changes before after paths =
      (paths.filter fun w => !Value.equalOption (after.at? w) (before.at? w)).map
        fun w => ⟨w, after.at? w⟩ := by
  induction paths with
  | nil => rfl
  | cons w paths ih =>
    rw [changes] at ih
    cases h : Value.equalOption (after.at? w) (before.at? w) <;> simp [changes, h, ih]

lemma mem_changes {before after : Value} {paths : List String} {event : Event} :
    event ∈ changes before after paths ↔ event.path ∈ paths ∧
      Differs before after event.path ∧ event.value = after.at? event.path := by
  obtain ⟨path, value⟩ := event
  simp only [changes_eq_map, List.mem_map, List.mem_filter, Bool.not_eq_true', Event.mk.injEq,
    Differs]
  constructor
  · rintro ⟨w, ⟨hw, hd⟩, rfl, rfl⟩
    exact ⟨hw, hd, rfl⟩
  · rintro ⟨hw, hd, rfl⟩
    exact ⟨path, ⟨hw, hd⟩, rfl, rfl⟩

namespace Store

variable {κ : Type}

/-- One event for each watched path at which a new tree has another value, whether the path is
related to the edited one or not. -/
def allChanges (s : Store κ) (after : Value) : List Event :=
  (s.watchedPaths.filter fun w => !Value.equalOption (after.at? w) (s.tree.at? w)).map
    fun w => ⟨w, after.at? w⟩

lemma edit_eq_ok_iff {s s' : Store κ} {path : String} {change : Edit} {removed : Option Value} :
    s.edit path change = .ok (s', removed) ↔
      ∃ tree, change.apply path s.tree = .ok (tree, removed) ∧
        s' = { s with tree, pending := s.pending ++ changes s.tree tree (s.affected path) } := by
  rw [edit]
  cases h : change.apply path s.tree with
  | error fault => simp
  | ok result =>
    obtain ⟨tree, out⟩ := result
    simp only [Except.ok.injEq, Prod.mk.injEq]
    constructor
    · rintro ⟨rfl, rfl⟩
      exact ⟨tree, ⟨rfl, rfl⟩, rfl⟩
    · rintro ⟨tree, ⟨rfl, rfl⟩, rfl⟩
      exact ⟨rfl, rfl⟩

lemma changes_affected_eq_iff (s : Store κ) (path : String) (after : Value) :
    changes s.tree after (s.affected path) = s.allChanges after ↔
      ∀ w ∈ s.watchedPaths, ¬Overlooked s.tree after path w := by
  have hinj : Function.Injective fun w : String => (⟨w, after.at? w⟩ : Event) :=
    fun v w h => congrArg Event.path h
  rw [changes_eq_map, allChanges, List.map_inj_right (fun _ _ h => hinj h), affected]
  constructor
  · rintro h w hw ⟨hunrelated, hdiff⟩
    have hmem : w ∈ s.watchedPaths.filter
        fun w => !Value.equalOption (after.at? w) (s.tree.at? w) :=
      List.mem_filter.2 ⟨hw, by simpa [Differs] using hdiff⟩
    rw [← h] at hmem
    have hrelated := (List.mem_filter.1 (List.mem_filter.1 hmem).1).2
    rw [hunrelated] at hrelated
    exact Bool.noConfusion hrelated
  · intro h
    rw [List.filter_filter]
    apply List.filter_congr
    intro w hw
    cases hd : Value.equalOption (after.at? w) (s.tree.at? w) with
    | true => simp
    | false =>
      cases hr : related w path with
      | true => simp
      | false => exact absurd ⟨hr, hd⟩ (h w hw)

/-- An edit queues the events of all watched paths whose value it changes, in the order of their
first registration, exactly if it overlooks none of them; and what it overlooks escapes in one of
four ways. -/
theorem pending_edit_iff {s s' : Store κ} {path : String} {change : Edit} {removed : Option Value}
    (h : s.edit path change = .ok (s', removed)) :
    (s'.pending = s.pending ++ s.allChanges s'.tree ↔
      ∀ w ∈ s.watchedPaths, ¬Overlooked s.tree s'.tree path w) ∧
    ∀ w, Overlooked s.tree s'.tree path w → Escape s.tree change path w := by
  obtain ⟨tree, happly, rfl⟩ := edit_eq_ok_iff.1 h
  refine ⟨?_, fun w hw => hw.escape happly⟩
  rw [List.append_cancel_left_eq]
  exact changes_affected_eq_iff s path tree

/-- A doubled dot in the path of an edit leads to the watched value and past its watcher. -/
theorem pending_edit_iff_doubled_dot :
    let before : Store Unit :=
      ⟨.object [("a", .object [("b", .ofInt 1)])], .immediate, [⟨"a.b", ()⟩], [], false⟩
    let after : Store Unit := { before with tree := .object [("a", .object [("b", .ofInt 2)])] }
    before.edit "a..b" (.set (.ofInt 2)) = .ok (after, none) ∧
      after.pending ≠ before.pending ++ before.allChanges after.tree ∧
        Escape before.tree (.set (.ofInt 2)) "a..b" "a.b" := by
  intro before after
  have h : before.edit "a..b" (.set (.ofInt 2)) = .ok (after, none) := rfl
  have ho : Overlooked before.tree after.tree "a..b" "a.b" := ⟨by decide, rfl⟩
  obtain ⟨hiff, hescape⟩ := pending_edit_iff h
  exact ⟨h, fun he => hiff.1 he "a.b" (by decide) ho, hescape "a.b" ho⟩

end Store

end GuardedData
