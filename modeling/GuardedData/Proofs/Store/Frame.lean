import GuardedData.Proofs.Path.Related
import GuardedData.Proofs.Store.Laws

/-!
# What an edit can change

Two paths meet if they agree, segment by segment, as far as the shorter one goes. An edit changes
the value at a path only if the path meets its own, or if it takes an element out of an array and
the path leads through a later element, which has moved (`of_find?_apply_ne`).
-/

namespace GuardedData

namespace Dotted

/-- Whether two segments can lead to one place: they are the same, or write the same index. -/
def sameStep (a b : String) : Bool := a == b || ((index? a).isSome && index? a == index? b)

/-- Whether the segments of two paths agree as far as the shorter path goes. -/
def meet : List String → List String → Bool
  | a :: as, b :: bs => sameStep a b && meet as bs
  | _, _ => true

/-- Whether a segment writes a later index than another one. -/
def laterIndex (a b : String) : Prop := ∃ i j, index? a = some i ∧ index? b = some j ∧ j < i

@[simp] lemma sameStep_self (a : String) : sameStep a a = true := by simp [sameStep]

lemma sameStep_of_index? {a b : String} {i : Nat} (ha : index? a = some i)
    (hb : index? b = some i) : sameStep a b = true := by
  simp [sameStep, ha, hb]

@[simp] lemma meet_nil_left (p : List String) : meet [] p = true := by simp [meet]

@[simp] lemma meet_nil_right (p : List String) : meet p [] = true := by
  cases p <;> simp [meet]

lemma meet_append {p q : List String} (h : p.length = q.length) (r s : List String) :
    meet (p ++ r) (q ++ s) = (meet p q && meet r s) := by
  induction p generalizing q with
  | nil =>
    rw [List.length_nil, eq_comm, List.length_eq_zero_iff] at h
    simp [h]
  | cons a p ih =>
    cases q with
    | nil => simp at h
    | cons b q => simp [meet, ih (by simpa using h), Bool.and_assoc]

lemma meet_append_right {p q : List String} (h : p.length ≤ q.length) (s : List String) :
    meet p (q ++ s) = meet p q := by
  induction p generalizing q with
  | nil => simp
  | cons a p ih =>
    cases q with
    | nil => simp at h
    | cons b q => simp [meet, ih (by simpa using h)]

end Dotted

namespace Value

open Dotted

/-! ### Changing a child -/

/-- A segment that takes the child another one takes is the same step. -/
lemma SameChild.sameStep {v old : Value} {other segment : String}
    (hsame : v.SameChild other segment) (h : v.child? segment = some old) :
    sameStep other segment = true := by
  cases v with
  | object entries =>
    rw [SameChild] at hsame
    rw [hsame, sameStep_self]
  | array items =>
    obtain ⟨i, hi, -⟩ := Option.bind_eq_some_iff.1 h
    exact sameStep_of_index? (hsame.trans hi) hi
  | _ => cases h

/-- A child that is put in place is seen by the segments that can lead there, and others see what
they saw before. -/
lemma child?_putChild {v old : Value} {segment : String} (h : v.child? segment = some old)
    (new : Value) (other : String) :
    (v.putChild segment new).child? other = v.child? other ∨
      sameStep other segment = true ∧ v.child? other = some old ∧
        (v.putChild segment new).child? other = some new := by
  by_cases hsame : v.SameChild other segment
  · have hsame' := (sameChild_putChild v new segment other segment).2 hsame
    exact Or.inr ⟨hsame.sameStep h, hsame.child?_eq.trans h,
      hsame'.child?_eq.trans (child?_putChild_self h new)⟩
  · exact Or.inl (child?_putChild_of_not_sameChild hsame new)

/-- A value with another one in place of a part of it differs from the old one at a path only if the
path ends on the way, or leads on to a place at which the two parts differ. -/
lemma of_find?_putAt_ne {p q : List String} {v old new : Value} (h : v.find? p = some old)
    (hne : (v.putAt p new).find? q ≠ v.find? q) :
    q.length ≤ p.length ∧ meet q p = true ∨
      ∃ r s, q = r ++ s ∧ r.length = p.length ∧ meet r p = true ∧ new.find? s ≠ old.find? s := by
  induction p generalizing q v with
  | nil =>
    cases h
    exact Or.inr ⟨[], q, rfl, rfl, rfl, hne⟩
  | cons segment p ih =>
    obtain ⟨child, hchild, hrest⟩ := Option.bind_eq_some_iff.1 h
    rw [putAt_cons hchild] at hne
    cases q with
    | nil => exact Or.inl ⟨by simp, by simp⟩
    | cons other q =>
      rcases child?_putChild hchild (child.putAt p new) other with hsame | ⟨hstep, hold, hnew⟩
      · exact absurd (by rw [find?, find?, hsame]) hne
      · rw [find?_cons hold, find?_cons hnew] at hne
        rcases ih hrest hne with ⟨hlen, hmeet⟩ | ⟨r, s, rfl, hlen, hmeet, hs⟩
        · exact Or.inl ⟨by simpa using hlen, by simp [meet, hstep, hmeet]⟩
        · exact Or.inr ⟨other :: r, s, rfl, by simpa using hlen, by simp [meet, hstep, hmeet], hs⟩

end Value

namespace Edit

open Dotted

/-! ### Changing the last segment -/

lemma of_setChild_child?_ne {segment other : String} {value v v' : Value} {removed : Option Value}
    (h : setChild segment value v = .ok (v', removed)) (hne : v'.child? other ≠ v.child? other) :
    sameStep other segment = true := by
  have hsame : v.SameChild other segment := by
    by_contra hsame
    rw [setChild_eq_putChild h] at hne
    exact hne (Value.child?_putChild_of_not_sameChild hsame value)
  obtain ⟨-, ⟨entries, rfl, -⟩ | ⟨items, i, rfl, hi, -⟩⟩ := setChild_eq_ok_iff.1 h
  · rw [Value.SameChild] at hsame
    rw [hsame, sameStep_self]
  · exact sameStep_of_index? (hsame.trans hi) hi

lemma of_removeChild_child?_ne {segment other : String} {v v' : Value} {removed : Option Value}
    (h : removeChild segment v = .ok (v', removed)) (hne : v'.child? other ≠ v.child? other) :
    sameStep other segment = true ∨ (∃ items, v = .array items) ∧ laterIndex other segment := by
  obtain ⟨-, ⟨entries, rfl, rfl⟩ | ⟨items, i, rfl, hi, -, rfl⟩⟩ := removeChild_eq_ok_iff.1 h
  · refine Or.inl ?_
    by_contra hstep
    have hk : other ≠ segment := fun he => hstep (by simp [he])
    exact hne (Entries.get?_remove_of_ne hk entries)
  · cases ho : index? other with
    | none => simp [Value.child?, ho] at hne
    | some j =>
      rcases Nat.lt_trichotomy j i with hj | rfl | hj
      · exact absurd (by simp [Value.child?, ho, List.getElem?_eraseIdx, hj]) hne
      · exact Or.inl (sameStep_of_index? ho hi)
      · exact Or.inr ⟨⟨items, rfl⟩, j, i, ho, hi, hj⟩

/-! ### Whole edits -/

/-- Whether some segments lead through an element behind the one at other segments of an array. -/
def Shifts (root : Value) (segments moved : List String) : Prop :=
  ∃ parent last front other rest items, segments = parent ++ [last] ∧
    moved = front ++ other :: rest ∧ front.length = parent.length ∧ meet front parent = true ∧
      root.find? parent = some (.array items) ∧ laterIndex other last

/-- An edit at the parent of a place changes only what the edit of the parent changes. -/
lemma of_find?_onParent_ne {f : String → Value → Except PathFault (Value × Option Value)}
    {path : String} {q : List String} {v v' : Value} {removed : Option Value}
    (h : onParent f path v = .ok (v', removed)) (hne : v'.find? q ≠ v.find? q) :
    meet q (segments path) = true ∨ ∃ parent last front other rest old new,
      segments path = parent ++ [last] ∧ q = front ++ other :: rest ∧
        front.length = parent.length ∧ meet front parent = true ∧ v.find? parent = some old ∧
          f last old = .ok (new, removed) ∧ new.child? other ≠ old.child? other := by
  obtain ⟨parent, last, old, new, hpath, hold, hf, rfl⟩ := onParent_eq_ok_iff.1 h
  rw [hpath]
  rcases Value.of_find?_putAt_ne hold hne with ⟨hlen, hmeet⟩ | ⟨front, s, rfl, hlen, hmeet, hs⟩
  · exact Or.inl (by rw [meet_append_right hlen, hmeet])
  · cases s with
    | nil => exact Or.inl (by rw [List.append_nil, meet_append_right (Nat.le_of_eq hlen), hmeet])
    | cons other rest =>
      refine Or.inr ⟨parent, last, front, other, rest, old, new, rfl, rfl, hlen, hmeet, hold,
        hf, fun hchild => hs ?_⟩
      rw [Value.find?, Value.find?, hchild]

lemma meet_of_find?_alter_ne {missing : PathFault}
    {f : Value → Except PathFault (Value × Option Value)} {segments q : List String}
    {v v' : Value} {removed : Option Value} (h : v.alter missing f segments = .ok (v', removed))
    (hne : v'.find? q ≠ v.find? q) : meet q segments = true := by
  obtain ⟨old, new, hold, -, rfl⟩ := Value.alter_eq_ok_iff.1 h
  rcases Value.of_find?_putAt_ne hold hne with ⟨-, hmeet⟩ | ⟨r, s, rfl, hlen, hmeet, -⟩
  · exact hmeet
  · have := meet_append hlen s []
    rw [List.append_nil] at this
    rw [this, hmeet, meet_nil_right]
    rfl

/-- An edit changes the value at a path only if the path meets its own, or if it takes an element
out of an array and the path leads through a later one. -/
theorem of_find?_apply_ne {edit : Edit} {path : String} {root root' : Value}
    {removed : Option Value} (h : edit.apply path root = .ok (root', removed)) {q : List String}
    (hne : root'.find? q ≠ root.find? q) :
    meet q (segments path) = true ∨ edit = .remove ∧ Shifts root (segments path) q := by
  cases edit with
  | set value =>
    rcases of_find?_onParent_ne h hne with hmeet |
      ⟨parent, last, front, other, rest, old, new, hseg, rfl, hlen, hmeet, -, hf, hchild⟩
    · exact Or.inl hmeet
    · have hstep := of_setChild_child?_ne hf hchild
      exact Or.inl (by rw [hseg, meet_append hlen, hmeet, meet, hstep, meet_nil_right]; rfl)
  | push value => exact Or.inl (meet_of_find?_alter_ne h hne)
  | remove =>
    rcases of_find?_onParent_ne h hne with hmeet |
      ⟨parent, last, front, other, rest, old, new, hseg, rfl, hlen, hmeet, hold, hf, hchild⟩
    · exact Or.inl hmeet
    · rcases of_removeChild_child?_ne hf hchild with hstep | ⟨⟨items, rfl⟩, hlater⟩
      · exact Or.inl (by rw [hseg, meet_append hlen, hmeet, meet, hstep, meet_nil_right]; rfl)
      · exact Or.inr ⟨rfl, parent, last, front, other, rest, items, hseg, rfl, hlen, hmeet, hold,
          hlater⟩
  | update f => exact Or.inl (meet_of_find?_alter_ne h hne)

end Edit

end GuardedData
