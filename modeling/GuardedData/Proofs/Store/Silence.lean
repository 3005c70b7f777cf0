import GuardedData.Proofs.Store.Laws
import GuardedData.Proofs.Store.Notice
import GuardedData.Proofs.Value.Equality

/-!
# Writing an equal value

A value in which a child is replaced by an equal one is equal to what it was, and equal values have
equal values along every path. So an edit that leaves an equal value at its path changes nothing
that a watcher could be told of, wherever the watched path is (`Store.silent_of_rewrites`).
-/

namespace GuardedData

namespace Value

/-! ### Equal values in place -/

/-- An equal child makes an equal value. -/
lemma equal_putChild {v old new : Value} {segment : String} (h : v.child? segment = some old)
    (he : new.equal old = true) : (v.putChild segment new).equal v = true := by
  cases v with
  | object entries =>
    rw [putChild, equal_object_iff]
    intro key
    by_cases hkey : key = segment
    · subst hkey
      rw [child?] at h
      rw [Entries.get?_put_self, h]
      exact he
    · rw [Entries.get?_put_of_ne hkey]
      exact equalOption_self _
  | array items =>
    obtain ⟨i, hi, hold⟩ := Option.bind_eq_some_iff.1 h
    have hlt : i < items.length := (List.getElem?_eq_some_iff.1 hold).1
    simp only [putChild, hi]
    rw [equal_array_iff]
    intro j
    by_cases hij : i = j
    · subst hij
      rw [List.getElem?_set_self hlt, hold]
      exact he
    · rw [List.getElem?_set_ne hij]
      exact equalOption_self _
  | _ => cases h

/-- An equal value in a place makes an equal whole. -/
lemma equal_putAt {v old new : Value} {p : List String} (h : v.find? p = some old)
    (he : new.equal old = true) : (v.putAt p new).equal v = true := by
  induction p generalizing v with
  | nil =>
    cases h
    exact he
  | cons segment rest ih =>
    obtain ⟨child, hchild, hrest⟩ := Option.bind_eq_some_iff.1 h
    rw [putAt_cons hchild]
    exact equal_putChild hchild (ih hrest)

end Value

/-! ### Edits that leave an equal value -/

/-- Whether an edit leaves a value in place that is equal to the one that it finds there. -/
def Edit.Rewrites (old : Value) : Edit → Prop
  | .set value => old.equal value = true
  | .update f => old.equal (f old) = true
  | .push _ | .remove => False

namespace Edit

/-- An edit that leaves an equal value at its path leaves an equal whole. -/
lemma Rewrites.equal {edit : Edit} {path : String} {root root' old : Value}
    {removed : Option Value} (h : edit.apply path root = .ok (root', removed))
    (hold : root.at? path = some old) (hequal : edit.Rewrites old) : root'.equal root = true := by
  cases edit with
  | set value =>
    obtain ⟨parent, last, v, v', hpath, hparent, hset, rfl⟩ := onParent_eq_ok_iff.1 h
    rw [Value.at?, hpath, Value.find?_concat hparent] at hold
    rw [setChild_eq_putChild hset]
    exact Value.equal_putAt hparent (Value.equal_putChild hold (Value.equal_symm hequal))
  | update f =>
    obtain ⟨v, v', hv, hf, rfl⟩ := Value.alter_eq_ok_iff.1 h
    cases hf
    cases hold.symm.trans hv
    exact Value.equal_putAt hv (Value.equal_symm hequal)
  | push value => exact absurd hequal id
  | remove => exact absurd hequal id

end Edit

namespace Store

variable {κ : Type}

/-- **Writing an equal value is silent.** An edit that leaves at its path a value equal to the one
that was there queues no event, whatever paths are watched: at no path at all is there another value
than before. -/
theorem silent_of_rewrites {s s' : Store κ} {path : String} {change : Edit} {old : Value}
    {removed : Option Value} (h : s.edit path change = .ok (s', removed))
    (hold : s.tree.at? path = some old) (hequal : change.Rewrites old) :
    s'.pending = s.pending ∧
      ∀ w, Value.equalOption (s'.tree.at? w) (s.tree.at? w) = true := by
  obtain ⟨tree, happly, rfl⟩ := edit_eq_ok_iff.1 h
  have hsame (w : String) : Value.equalOption (tree.at? w) (s.tree.at? w) = true :=
    Value.equalOption_find? (hequal.equal happly hold) (Dotted.segments w)
  refine ⟨?_, hsame⟩
  have hnone : changes s.tree tree (s.affected path) = [] := by
    simp [changes_eq_map, hsame]
  rw [hnone, List.append_nil]

/-- An object with its keys in another order at two depths, and with a zero of the other sign, is
equal to what was there, so that not even the watcher of the zero is told. -/
theorem silent_of_rewrites_reordered :
    let zero (negative : Bool) : Value := .number (.double ⟨negative, 0, by decide⟩)
    let old : Value := .object [("x", zero false),
      ("list", .array [.object [("p", .null), ("q", .ofInt 1)]])]
    let new : Value := .object [("list", .array [.object [("q", .ofInt 1), ("p", .null)]]),
      ("x", zero true)]
    let s : Store Unit := ⟨.object [("a", old)], .deferred,
      [⟨"", ()⟩, ⟨"a", ()⟩, ⟨"a.list.0", ()⟩, ⟨"a.x", ()⟩], [⟨"a", none⟩], false⟩
    ∃ s', s.edit "a" (.set new) = .ok (s', none) ∧ s.tree.at? "a" = some old ∧
      (Edit.set new).Rewrites old ∧ s'.pending = [⟨"a", none⟩] := by
  intro zero old new s
  obtain ⟨s', h⟩ : ∃ s', s.edit "a" (.set new) = .ok (s', none) := ⟨_, rfl⟩
  have hold : s.tree.at? "a" = some old := rfl
  have hequal : (Edit.set new).Rewrites old := rfl
  exact ⟨s', h, hold, hequal, (silent_of_rewrites h hold hequal).1⟩

end Store

end GuardedData
