import GuardedData.Entries
import Mathlib.Tactic.Common

/-!
# Entries by their keys

A key of a list of entries means its first entry. What is made of entries one by one, with repeated
keys left out, has an entry for each first one, in order (`Entries.Firstwise`), and that is so
exactly if it has the keys of the first ones and what is looked up in the two answers to each other
(`Entries.Firstwise.exists_get?`, `Entries.Firstwise.of_keys_eq`).

Where each key has one entry (`Entries.Distinct`), all entries are seen, and writing and removing
leave it so.
-/

namespace GuardedData.Entries

variable {α β : Type}

/-! ### Keys -/

lemma mem_keys_iff {key : String} {entries : List (String × α)} :
    key ∈ keys entries ↔ ∃ a, get? key entries = some a := by
  rw [← not_iff_not, ← get?_eq_none_iff, Option.eq_none_iff_forall_ne_some, not_exists]

lemma get?_replace_of_ne {key k : String} (h : k ≠ key) (front : List (String × α)) (a b : α)
    (back : List (String × α)) :
    get? k (front ++ (key, a) :: back) = get? k (front ++ (key, b) :: back) := by
  simp only [get?_append, get?_cons, if_neg h.symm]

lemma mem_keys_firsts {key : String} {entries : List (String × α)} :
    key ∈ keys (firsts entries) ↔ key ∈ keys entries := by
  simp only [mem_keys_iff, get?_firsts]

lemma keys_firsts_cons (key : String) (a : α) (rest : List (String × α)) :
    keys (firsts ((key, a) :: rest)) = key :: (keys (firsts rest)).filter (· ≠ key) :=
  congrArg (key :: ·) (keys_filter_ne key (firsts rest))

/-- Which keys come first is read off the keys alone. -/
lemma keys_firsts_congr {entries : List (String × α)} {others : List (String × β)}
    (h : keys others = keys entries) : keys (firsts others) = keys (firsts entries) := by
  induction entries generalizing others with
  | nil =>
    cases others with
    | nil => rfl
    | cons other later => cases h
  | cons entry rest ih =>
    cases others with
    | nil => cases h
    | cons other later =>
      obtain ⟨key, a⟩ := entry
      obtain ⟨key', b⟩ := other
      obtain ⟨rfl, hrest⟩ : key' = key ∧ keys later = keys rest := List.cons.inj h
      rw [keys_firsts_cons, keys_firsts_cons, ih hrest]

lemma exists_get?_iff {entries : List (String × α)} {others : List (String × β)}
    (h : keys others = keys (firsts entries)) (key : String) :
    (∃ b, get? key others = some b) ↔ ∃ a, get? key entries = some a := by
  rw [← mem_keys_iff, ← mem_keys_iff, h, mem_keys_firsts]

lemma filter_keys_firsts_cons (seen : List String) (key : String) (a : α)
    (rest : List (String × α)) : (keys (firsts ((key, a) :: rest))).filter (· ∉ seen) =
      if key ∈ seen then (keys (firsts rest)).filter (· ∉ seen)
      else key :: (keys (firsts rest)).filter (· ∉ key :: seen) := by
  rw [keys_firsts_cons]
  split
  · rename_i hseen
    rw [List.filter_cons_of_neg (by simpa), List.filter_filter]
    refine List.filter_congr fun k _ => ?_
    by_cases hk : k = key <;> simp [hk, hseen]
  · rename_i hnew
    rw [List.filter_cons_of_pos (by simpa), List.filter_filter]
    simp [not_or, Bool.and_comm]

/-! ### One entry for each key -/

/-- Whether a list has an entry for each key of another list, in order, repeated keys and those seen
before apart, and whether the values of each key are related. -/
inductive Firstwise (R : String → α → β → Prop) :
    List String → List (String × α) → List (String × β) → Prop
  | nil {seen : List String} : Firstwise R seen [] []
  | again {seen : List String} {key : String} {a : α} {rest : List (String × α)}
    {others : List (String × β)} (hseen : key ∈ seen) (h : Firstwise R seen rest others) :
    Firstwise R seen ((key, a) :: rest) others
  | next {seen : List String} {key : String} {a : α} {b : β} {rest : List (String × α)}
    {others : List (String × β)} (hnew : key ∉ seen) (hab : R key a b)
    (h : Firstwise R (key :: seen) rest others) :
    Firstwise R seen ((key, a) :: rest) ((key, b) :: others)

namespace Firstwise

variable {R : String → α → β → Prop} {seen : List String} {entries : List (String × α)}
  {others : List (String × β)}

lemma keys_eq (h : Firstwise R seen entries others) :
    keys others = (keys (firsts entries)).filter (· ∉ seen) := by
  induction h with
  | nil => rfl
  | again hseen h ih => rw [ih, filter_keys_firsts_cons, if_pos hseen]
  | next hnew hab h ih =>
    rw [filter_keys_firsts_cons, if_neg hnew, ← ih]
    rfl

/-- The first entry of a key has one that answers to it. -/
lemma exists_get? (h : Firstwise R seen entries others) {key : String} {a : α} (hkey : key ∉ seen)
    (ha : get? key entries = some a) : ∃ b, get? key others = some b ∧ R key a b := by
  induction h with
  | nil => cases ha
  | @again _ k _ _ _ hseen h ih =>
    have hne : k ≠ key := fun he => hkey (he ▸ hseen)
    rw [get?_cons, if_neg hne] at ha
    exact ih hkey ha
  | @next _ k a' b _ _ hnew hab h ih =>
    rw [get?_cons] at ha ⊢
    split at ha
    · rename_i hk
      subst hk
      cases ha
      exact ⟨b, by simp, hab⟩
    · rename_i hk
      rw [if_neg hk]
      exact ih (by simp [hkey, Ne.symm hk]) ha

/-- Entries with the keys of the first ones answer to them. -/
lemma of_keys_eq (hkeys : keys others = (keys (firsts entries)).filter (· ∉ seen))
    (h : ∀ key a b, key ∉ seen → get? key entries = some a → get? key others = some b →
      R key a b) : Firstwise R seen entries others := by
  induction entries generalizing seen others with
  | nil =>
    have hnil : others = [] := by simpa [keys, firsts] using hkeys
    subst hnil
    exact .nil
  | cons entry rest ih =>
    obtain ⟨k, a⟩ := entry
    rw [filter_keys_firsts_cons] at hkeys
    have hlater {key : String} (hkey : key ≠ k) {γ : Type} (c : γ) (later : List (String × γ)) :
        get? key ((k, c) :: later) = get? key later := by rw [get?_cons, if_neg hkey.symm]
    split at hkeys
    · rename_i hseen
      refine .again hseen (ih hkeys fun key c d hkey hc hd => h key c d hkey ?_ hd)
      have hne : key ≠ k := fun he => hkey (he ▸ hseen)
      rwa [hlater hne]
    · rename_i hnew
      cases others with
      | nil => cases hkeys
      | cons other later =>
        obtain ⟨k', b⟩ := other
        obtain ⟨rfl, hkeys⟩ := List.cons.inj hkeys
        refine .next hnew (h k' a b hnew (by simp [get?_cons]) (by simp [get?_cons])) (ih hkeys ?_)
        intro key c d hkey hc hd
        simp only [List.mem_cons, not_or] at hkey
        exact h key c d hkey.2 (by rwa [hlater hkey.1]) (by rwa [hlater hkey.1])

end Firstwise

/-! ### Each key once -/

/-- Whether each key has one entry, and all values a property. -/
inductive Distinct (P : α → Prop) : List (String × α) → Prop
  | nil : Distinct P []
  | cons {key : String} {a : α} {rest : List (String × α)} (hkey : key ∉ keys rest) (ha : P a)
    (h : Distinct P rest) : Distinct P ((key, a) :: rest)

lemma distinct_iff {P : α → Prop} {entries : List (String × α)} :
    Distinct P entries ↔ (keys entries).Nodup ∧ ∀ entry ∈ entries, P entry.2 := by
  induction entries with
  | nil => simp [keys, Distinct.nil]
  | cons entry rest ih =>
    obtain ⟨key, a⟩ := entry
    rw [keys, List.map_cons, List.nodup_cons, List.forall_mem_cons, ← keys]
    constructor
    · rintro (_ | ⟨hkey, ha, h⟩)
      exact ⟨⟨hkey, (ih.1 h).1⟩, ha, (ih.1 h).2⟩
    · rintro ⟨⟨hkey, hnodup⟩, ha, hall⟩
      exact .cons hkey ha (ih.2 ⟨hnodup, hall⟩)

/-- To take the entry of a key out leaves the others, in some order. -/
lemma swapOut_perm (key : String) (entries : List (String × α)) :
    (swapOut key entries).Perm (entries.eraseP (·.1 = key)) := by
  induction entries with
  | nil => exact .nil
  | cons entry rest ih =>
    obtain ⟨k, a⟩ := entry
    by_cases hk : k = key
    · rw [swapOut, if_pos hk, List.eraseP_cons_of_pos (by simpa)]
      cases hlast : rest.getLast? with
      | none => rw [List.getLast?_eq_none_iff.1 hlast]
      | some last =>
        obtain ⟨front, rfl⟩ := List.getLast?_eq_some_iff.1 hlast
        rw [List.dropLast_concat]
        exact (List.perm_append_singleton last front).symm
    · rw [swapOut, if_neg hk, List.eraseP_cons_of_neg (by simpa)]
      exact ih.cons _

namespace Distinct

variable {P : α → Prop} {entries : List (String × α)}

lemma of_get? (h : Distinct P entries) {key : String} {a : α} (ha : get? key entries = some a) :
    P a :=
  (distinct_iff.1 h).2 _ (mem_of_get? ha)

lemma sublist (h : Distinct P entries) {fewer : List (String × α)} (hsub : fewer.Sublist entries) :
    Distinct P fewer := by
  obtain ⟨hnodup, hall⟩ := distinct_iff.1 h
  exact distinct_iff.2
    ⟨hnodup.sublist (hsub.map _), fun entry hmem => hall entry (hsub.subset hmem)⟩

lemma perm (h : Distinct P entries) {others : List (String × α)} (hperm : others.Perm entries) :
    Distinct P others := by
  obtain ⟨hnodup, hall⟩ := distinct_iff.1 h
  exact distinct_iff.2 ⟨(hperm.map _).nodup_iff.2 hnodup,
    fun entry hmem => hall entry (hperm.mem_iff.1 hmem)⟩

/-- All entries are seen. -/
lemma firsts_eq (h : Distinct P entries) : firsts entries = entries := by
  induction h with
  | nil => rfl
  | @cons key _ rest hkey _ _ ih =>
    rw [firsts, ih, List.filter_eq_self.2]
    intro entry hmem
    have hne : entry.1 ≠ key := fun he => hkey (he ▸ List.mem_map_of_mem hmem)
    simpa using hne

lemma put (h : Distinct P entries) (key : String) {a : α} (ha : P a) :
    Distinct P (Entries.put key a entries) := by
  induction h with
  | nil => exact .cons (by simp [keys]) ha .nil
  | @cons k b rest hkey hb h ih =>
    rw [Entries.put]
    split
    · exact .cons hkey ha h
    · rename_i hne
      refine .cons ?_ hb ih
      rw [keys_put]
      split <;> simp [hkey, hne]

lemma remove (h : Distinct P entries) (key : String) : Distinct P (Entries.remove key entries) := by
  rw [Entries.remove, h.firsts_eq]
  exact (h.sublist List.eraseP_sublist).perm (swapOut_perm key entries)

end Distinct

end GuardedData.Entries
