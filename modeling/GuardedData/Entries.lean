/-!
# Entries in insertion order

A list of keys with their values, read as a finite map: a key means its first entry, and an entry
behind another one of its key is never seen. Writing to a key keeps its position, and removing one
moves the last entry into its place. The look-up `get?` is the view that the lemmas speak of.
-/

namespace GuardedData.Entries

variable {β : Type}

def get? (key : String) : List (String × β) → Option β
  | [] => none
  | (k, v) :: rest => if k = key then some v else get? key rest

def keys (entries : List (String × β)) : List String := entries.map (·.1)

/-- Give a key a value: in its place if it is there, else as the last entry. -/
def put (key : String) (value : β) : List (String × β) → List (String × β)
  | [] => [(key, value)]
  | (k, v) :: rest => if k = key then (k, value) :: rest else (k, v) :: put key value rest

/-- The entries that are seen. -/
def firsts : List (String × β) → List (String × β)
  | [] => []
  | (k, v) :: rest => (k, v) :: (firsts rest).filter (·.1 ≠ k)

/-- Take the entry of a key out; the last entry takes its place. -/
def swapOut (key : String) : List (String × β) → List (String × β)
  | [] => []
  | (k, v) :: rest =>
    if k = key then
      match rest.getLast? with
      | none => []
      | some last => last :: rest.dropLast
    else (k, v) :: swapOut key rest

def remove (key : String) (entries : List (String × β)) : List (String × β) :=
  swapOut key (firsts entries)

/-- Give a key a value in a list sorted by key. -/
def putSorted (key : String) (value : β) : List (String × β) → List (String × β)
  | [] => [(key, value)]
  | (k, v) :: rest =>
    if k = key then (k, value) :: rest
    else if key < k then (key, value) :: (k, v) :: rest
    else (k, v) :: putSorted key value rest

/-! ### Looking up -/

@[simp] theorem get?_nil (key : String) : get? key ([] : List (String × β)) = none := rfl

theorem get?_cons (key k : String) (v : β) (rest : List (String × β)) :
    get? key ((k, v) :: rest) = if k = key then some v else get? key rest := rfl

@[simp] theorem get?_eq_none_iff {key : String} {entries : List (String × β)} :
    get? key entries = none ↔ key ∉ keys entries := by
  induction entries with
  | nil => simp [keys]
  | cons entry rest ih =>
    obtain ⟨k, v⟩ := entry
    by_cases h : k = key
    · simp [get?_cons, keys, h]
    · simp only [get?_cons, if_neg h, ih, keys, List.map_cons, List.mem_cons, not_or]
      exact ⟨fun hr => ⟨fun he => h he.symm, hr⟩, And.right⟩

theorem mem_of_get? {key : String} {v : β} {entries : List (String × β)}
    (h : get? key entries = some v) : (key, v) ∈ entries := by
  induction entries with
  | nil => simp at h
  | cons entry rest ih =>
    obtain ⟨k, w⟩ := entry
    rw [get?_cons] at h
    split at h
    · rename_i hk
      cases h
      simp [hk]
    · exact List.mem_cons_of_mem _ (ih h)

theorem mem_keys_of_get? {key : String} {v : β} {entries : List (String × β)}
    (h : get? key entries = some v) : key ∈ keys entries :=
  List.mem_map_of_mem (f := (·.1)) (mem_of_get? h)

theorem get?_of_mem {key : String} {v : β} {entries : List (String × β)}
    (hkeys : (keys entries).Nodup) (h : (key, v) ∈ entries) : get? key entries = some v := by
  induction entries with
  | nil => cases h
  | cons entry rest ih =>
    obtain ⟨k, w⟩ := entry
    rw [keys, List.map_cons, List.nodup_cons] at hkeys
    rcases List.mem_cons.1 h with he | hrest
    · cases he
      simp [get?_cons]
    · have hne : k ≠ key := by
        rintro rfl
        exact hkeys.1 (List.mem_map.2 ⟨_, hrest, rfl⟩)
      rw [get?_cons, if_neg hne]
      exact ih hkeys.2 hrest

theorem get?_append (key : String) (a b : List (String × β)) :
    get? key (a ++ b) = (get? key a).or (get? key b) := by
  induction a with
  | nil => simp
  | cons entry rest ih =>
    obtain ⟨k, v⟩ := entry
    by_cases h : k = key <;> simp [get?_cons, h, ih]

/-- A walk over entries that passes over keys seen before comes to entries that are seen. -/
theorem exists_of_mem_walk {α : Type} {walk : List String → List (String × β) → List α}
    {f : String → β → List α} (hnil : ∀ seen, walk seen [] = [])
    (hcons : ∀ seen key v rest, walk seen ((key, v) :: rest) =
      if seen.contains key then walk seen rest else f key v ++ walk (key :: seen) rest)
    {seen : List String} {entries : List (String × β)} {a : α} (h : a ∈ walk seen entries) :
    ∃ key v, key ∉ seen ∧ get? key entries = some v ∧ a ∈ f key v := by
  induction entries generalizing seen with
  | nil =>
    rw [hnil] at h
    cases h
  | cons entry rest ih =>
    obtain ⟨k, w⟩ := entry
    have hlater {key : String} (hkey : key ≠ k) : get? key ((k, w) :: rest) = get? key rest := by
      rw [get?_cons, if_neg (Ne.symm hkey)]
    rw [hcons] at h
    split at h
    · rename_i hseen
      obtain ⟨key, v, hnew, hget, ha⟩ := ih h
      have hne : key ≠ k := by
        rintro rfl
        exact hnew (by simpa using hseen)
      exact ⟨key, v, hnew, (hlater hne).trans hget, ha⟩
    · rename_i hseen
      rcases List.mem_append.1 h with hw | hrest
      · exact ⟨k, w, by simpa using hseen, by simp [get?_cons], hw⟩
      · obtain ⟨key, v, hnew, hget, ha⟩ := ih hrest
        simp only [List.mem_cons, not_or] at hnew
        exact ⟨key, v, hnew.2, (hlater hnew.1).trans hget, ha⟩

/-! ### Writing -/

theorem get?_put_self (key : String) (value : β) (entries : List (String × β)) :
    get? key (put key value entries) = some value := by
  induction entries with
  | nil => simp [put, get?_cons]
  | cons entry rest ih =>
    obtain ⟨k, v⟩ := entry
    by_cases h : k = key <;> simp [put, get?_cons, h, ih]

theorem get?_put_of_ne {key other : String} (h : other ≠ key) (value : β)
    (entries : List (String × β)) : get? other (put key value entries) = get? other entries := by
  induction entries with
  | nil => simp [put, get?_cons, h.symm]
  | cons entry rest ih =>
    obtain ⟨k, v⟩ := entry
    by_cases hk : k = key
    · subst hk
      simp [put, get?_cons, h.symm]
    · simp only [put, if_neg hk, get?_cons, ih]

/-- A key that is there keeps its position, and a new one is the last. -/
theorem keys_put (key : String) (value : β) (entries : List (String × β)) :
    keys (put key value entries) =
      if key ∈ keys entries then keys entries else keys entries ++ [key] := by
  induction entries with
  | nil => simp [put, keys]
  | cons entry rest ih =>
    obtain ⟨k, v⟩ := entry
    by_cases hk : k = key
    · simp [put, keys, hk]
    · have hne : key ≠ k := fun he => hk he.symm
      simp only [keys] at ih
      simp only [put, if_neg hk, keys, List.map_cons, List.mem_cons, hne, false_or, ih]
      split <;> rename_i hm <;> simp [hm]

/-! ### Removing -/

theorem get?_filter_ne {key k : String} (h : key ≠ k) (entries : List (String × β)) :
    get? key (entries.filter (·.1 ≠ k)) = get? key entries := by
  induction entries with
  | nil => rfl
  | cons entry rest ih =>
    obtain ⟨j, v⟩ := entry
    by_cases hj : j = k
    · simp only [ne_eq, hj, not_true_eq_false, decide_false, Bool.false_eq_true, not_false_eq_true,
        List.filter_cons_of_neg, get?_cons, h.symm, if_false]
      exact ih
    · simp only [ne_eq, hj, not_false_eq_true, decide_true, List.filter_cons_of_pos, get?_cons]
      split
      · rfl
      · exact ih

theorem keys_filter_ne (k : String) (entries : List (String × β)) :
    keys (entries.filter (·.1 ≠ k)) = (keys entries).filter (· ≠ k) := by
  induction entries with
  | nil => rfl
  | cons entry rest ih =>
    simp only [keys] at ih
    by_cases h : entry.1 = k <;> simp_all [keys]

@[simp] theorem get?_firsts (key : String) (entries : List (String × β)) :
    get? key (firsts entries) = get? key entries := by
  induction entries with
  | nil => rfl
  | cons entry rest ih =>
    obtain ⟨k, v⟩ := entry
    by_cases h : k = key
    · simp [firsts, get?_cons, h]
    · simp only [firsts, get?_cons, if_neg h]
      rw [get?_filter_ne (fun he => h he.symm), ih]

theorem nodup_keys_firsts (entries : List (String × β)) : (keys (firsts entries)).Nodup := by
  induction entries with
  | nil => exact .nil
  | cons entry rest ih =>
    obtain ⟨k, v⟩ := entry
    rw [firsts, keys, List.map_cons, ← keys, keys_filter_ne]
    exact List.nodup_cons.2 ⟨by simp, ih.filter _⟩

theorem get?_swapOut_self {key : String} {entries : List (String × β)}
    (h : (keys entries).Nodup) : get? key (swapOut key entries) = none := by
  induction entries with
  | nil => rfl
  | cons entry rest ih =>
    obtain ⟨k, v⟩ := entry
    have ⟨hk, hr⟩ := List.nodup_cons.1 h
    by_cases he : k = key
    · subst he
      cases hl : rest.getLast? with
      | none => simp [swapOut, hl]
      | some last =>
        obtain ⟨front, rfl⟩ := List.getLast?_eq_some_iff.1 hl
        simp only [swapOut, if_true, hl, List.dropLast_concat, get?_eq_none_iff]
        simpa [keys, and_comm] using hk
    · simp only [swapOut, if_neg he, get?_cons]
      exact ih hr

theorem get?_swapOut_of_ne {key other : String} (hne : other ≠ key) {entries : List (String × β)}
    (h : (keys entries).Nodup) : get? other (swapOut key entries) = get? other entries := by
  induction entries with
  | nil => rfl
  | cons entry rest ih =>
    obtain ⟨k, v⟩ := entry
    have ⟨_, hr⟩ := List.nodup_cons.1 h
    by_cases he : k = key
    · subst he
      cases hl : rest.getLast? with
      | none => simp_all [swapOut, get?_cons, hne.symm]
      | some last =>
        obtain ⟨front, rfl⟩ := List.getLast?_eq_some_iff.1 hl
        obtain ⟨j, w⟩ := last
        simp only [swapOut, if_true, hl, List.dropLast_concat, get?_cons, if_neg hne.symm,
          get?_append, get?_nil]
        split
        · rename_i hj
          have hnone : get? other front = none := by
            rw [get?_eq_none_iff, ← hj]
            intro hm
            rw [List.map_append, List.nodup_append] at hr
            exact hr.2.2 j hm j (by simp) rfl
          simp [hnone]
        · simp
    · simp only [swapOut, if_neg he, get?_cons, ih hr]

theorem get?_remove_self (key : String) (entries : List (String × β)) :
    get? key (remove key entries) = none :=
  get?_swapOut_self (nodup_keys_firsts entries)

theorem get?_remove_of_ne {key other : String} (h : other ≠ key) (entries : List (String × β)) :
    get? other (remove key entries) = get? other entries := by
  rw [remove, get?_swapOut_of_ne h (nodup_keys_firsts entries), get?_firsts]

end GuardedData.Entries
