import GuardedData.Proofs.Entries
import GuardedData.Proofs.Except
import GuardedData.Store.Edit
import GuardedData.Value.Reader

/-!
# Values whose objects have each key once

A value is plain data, and nothing in its type keeps an object from having a key twice. What is read
from a text has each key of each object once (`Value.distinct_of_read`), and no edit adds a second
entry to a key unless it writes a value that has one (`Edit.Distinct.apply`).
-/

namespace GuardedData

namespace Value

/-- Whether each object in a value has each key once. -/
inductive Distinct : Value → Prop
  | null : Distinct .null
  | bool (b : Bool) : Distinct (.bool b)
  | number (n : Number) : Distinct (.number n)
  | string (s : String) : Distinct (.string s)
  | array {items : List Value} (h : ∀ item ∈ items, Distinct item) : Distinct (.array items)
  | object {entries : List (String × Value)} (h : Entries.Distinct Distinct entries) :
    Distinct (.object entries)

lemma Distinct.child? {v w : Value} (h : v.Distinct) {segment : String}
    (hw : v.child? segment = some w) : w.Distinct := by
  cases h with
  | array h =>
    obtain ⟨i, -, hi⟩ := Option.bind_eq_some_iff.1 hw
    exact h w (List.mem_of_getElem? hi)
  | object h => exact h.of_get? hw
  | _ => cases hw

/-! ### Reading -/

section Reading

variable {P : Value → Prop} {read : List Char → Read Value} {fuel : Nat} {s rest : List Char}

lemma forall_of_readItems (hread : ∀ {s v rest}, read s = .ok (v, rest) → P v)
    {soFar items : List Value} (hsoFar : ∀ v ∈ soFar, P v)
    (h : readItems read fuel soFar s = .ok (items, rest)) : ∀ v ∈ items, P v := by
  induction fuel generalizing soFar s with
  | zero =>
    rw [readItems] at h
    cases h
  | succ fuel ih =>
    have hitem {s : List Char} (h : readItems.item read fuel soFar s = .ok (items, rest)) :
        ∀ v ∈ items, P v := by
      rw [readItems.item] at h
      split at h
      · cases h
      · rename_i v rest' hv
        exact ih (List.forall_mem_cons.2 ⟨hread hv, hsoFar⟩) h
    rw [readItems] at h
    split at h
    · cases h
    · cases h
      simpa using hsoFar
    · split at h
      · exact hitem h
      · split at h
        · cases h
        · cases h
        · exact hitem h
    · split at h
      · exact hitem h
      · cases h

lemma distinct_of_readEntries (hread : ∀ {s v rest}, read s = .ok (v, rest) → P v)
    {soFar entries : List (String × Value)} (hsoFar : Entries.Distinct P soFar)
    (h : readEntries read fuel soFar s = .ok (entries, rest)) : Entries.Distinct P entries := by
  induction fuel generalizing soFar s with
  | zero =>
    rw [readEntries] at h
    cases h
  | succ fuel ih =>
    have hentry {s : List Char} (h : readEntries.entry read fuel soFar s = .ok (entries, rest)) :
        Entries.Distinct P entries := by
      rw [readEntries.entry] at h
      split at h
      · cases h
      · split at h
        · cases h
        · split at h
          · cases h
          · rename_i hv
            exact ih (hsoFar.put _ (hread hv)) h
        · cases h
    rw [readEntries] at h
    split at h
    · cases h
    · cases h
      exact hsoFar
    · split at h
      · cases h
      · split at h
        · cases h
        · exact hentry h
        · cases h
        · cases h
    · split at h
      · exact hentry h
      · cases h
    · cases h

lemma eq_of_readWord {value v : Value} {word : List Char}
    (h : readWord value word s = .ok (v, rest)) : v = value := by
  induction word generalizing s with
  | nil =>
    cases h
    rfl
  | cons w ws ih =>
    cases s with
    | nil => cases h
    | cons c s =>
      rw [readWord] at h
      split at h
      · exact ih h
      · cases h

end Reading

lemma distinct_of_readValue {depth : Nat} {s rest : List Char} {v : Value}
    (h : readValue depth s = .ok (v, rest)) : v.Distinct := by
  unfold readValue at h
  split at h
  · cases h
  · obtain rfl := eq_of_readWord h
    exact .null
  · obtain rfl := eq_of_readWord h
    exact .bool true
  · obtain rfl := eq_of_readWord h
    exact .bool false
  · obtain ⟨⟨text, rest⟩, -, he⟩ := Except.map_eq_ok_iff.1 h
    cases he
    exact .string text
  · obtain ⟨⟨n, rest⟩, -, he⟩ := Except.map_eq_ok_iff.1 h
    cases he
    exact .number n
  · cases depth with
    | zero => cases h
    | succ depth =>
      obtain ⟨⟨items, rest⟩, hitems, he⟩ := Except.map_eq_ok_iff.1 h
      cases he
      exact .array (forall_of_readItems distinct_of_readValue (by simp) hitems)
  · cases depth with
    | zero => cases h
    | succ depth =>
      obtain ⟨⟨entries, rest⟩, hentries, he⟩ := Except.map_eq_ok_iff.1 h
      cases he
      exact .object (distinct_of_readEntries distinct_of_readValue .nil hentries)
  · split at h
    · obtain ⟨⟨n, rest⟩, -, he⟩ := Except.map_eq_ok_iff.1 h
      cases he
      exact .number n
    · cases h
termination_by depth

/-- What is read from a text has each key of each object once. -/
theorem distinct_of_read {text : String} {v : Value} (h : read text = .ok v) : v.Distinct := by
  simp only [read] at h
  split at h
  · cases h
  · rename_i hread
    split at h
    · cases h
      exact distinct_of_readValue hread
    · cases h

/-! ### Editing -/

namespace Distinct

variable {v new : Value}

lemma array_set {items : List Value} (h : ∀ item ∈ items, item.Distinct) (i : Nat)
    (hnew : new.Distinct) : (Value.array (items.set i new)).Distinct := by
  refine .array fun item hmem => ?_
  rcases List.mem_or_eq_of_mem_set hmem with hmem | rfl
  · exact h item hmem
  · exact hnew

lemma putChild (h : v.Distinct) (segment : String) (hnew : new.Distinct) :
    (v.putChild segment new).Distinct := by
  cases h with
  | array h =>
    rw [Value.putChild]
    split
    · exact array_set h _ hnew
    · exact .array h
  | object h => exact .object (h.put segment hnew)
  | null => exact .null
  | bool b => exact .bool b
  | number n => exact .number n
  | string s => exact .string s

/-- A change deep inside keeps keys apart if it does so where it happens. -/
lemma alter {α : Type} {missing : PathFault} {f : Value → Except PathFault (Value × α)} {a : α}
    (hf : ∀ {old new a}, old.Distinct → f old = .ok (new, a) → new.Distinct)
    {segments : List String}
    (h : v.Distinct) (halter : v.alter missing f segments = .ok (new, a)) : new.Distinct := by
  induction segments generalizing v new with
  | nil => exact hf h halter
  | cons segment rest ih =>
    rw [Value.alter] at halter
    split at halter
    · cases halter
    · rename_i old hold
      split at halter
      · cases halter
      · rename_i inner b hinner
        cases halter
        exact h.putChild segment (ih (h.child? hold) hinner)

end Distinct

end Value

namespace Edit

/-- Whether an edit writes no value in which an object has a key twice. -/
def Distinct : Edit → Prop
  | .set value | .push value => value.Distinct
  | .remove => True
  | .update f => ∀ v, v.Distinct → (f v).Distinct

variable {segment : String} {old new value : Value} {removed : Option Value}

lemma distinct_of_setChild (hvalue : value.Distinct) (h : old.Distinct)
    (hset : setChild segment value old = .ok (new, removed)) : new.Distinct := by
  cases h with
  | array h =>
    obtain ⟨i, -, he⟩ := Except.map_eq_ok_iff.1 hset
    cases he
    exact .array_set h i hvalue
  | object h =>
    cases hset
    exact .object (h.put segment hvalue)
  | _ => cases hset

lemma distinct_of_removeChild (h : old.Distinct)
    (hremove : removeChild segment old = .ok (new, removed)) : new.Distinct := by
  cases h with
  | array h =>
    obtain ⟨i, -, he⟩ := Except.map_eq_ok_iff.1 hremove
    cases he
    exact .array fun item hmem => h item (List.mem_of_mem_eraseIdx hmem)
  | object h =>
    cases hremove
    exact .object (h.remove segment)
  | _ => cases hremove

lemma distinct_of_pushItem (hvalue : value.Distinct) (h : old.Distinct)
    (hpush : pushItem value old = .ok (new, removed)) : new.Distinct := by
  cases h with
  | array h =>
    cases hpush
    refine .array fun item hmem => ?_
    rcases List.mem_append.1 hmem with hmem | hmem
    · exact h item hmem
    · exact List.mem_singleton.1 hmem ▸ hvalue
  | _ => cases hpush

lemma distinct_of_onParent {f : String → Value → Except PathFault (Value × Option Value)}
    (hf : ∀ {last old new removed}, old.Distinct → f last old = .ok (new, removed) → new.Distinct)
    {path : String} (h : old.Distinct) (happly : onParent f path old = .ok (new, removed)) :
    new.Distinct := by
  unfold onParent at happly
  split at happly
  · cases happly
  · exact h.alter hf happly

/-- An edit that writes no key twice leaves none in the data. -/
theorem Distinct.apply {edit : Edit} (hedit : edit.Distinct) {path : String} (h : old.Distinct)
    (happly : edit.apply path old = .ok (new, removed)) : new.Distinct := by
  cases edit with
  | set value => exact distinct_of_onParent (distinct_of_setChild hedit) h happly
  | push value => exact h.alter (distinct_of_pushItem hedit) happly
  | remove => exact distinct_of_onParent distinct_of_removeChild h happly
  | update f =>
    refine h.alter (fun hold he => ?_) happly
    cases he
    exact hedit _ hold

end Edit

end GuardedData
