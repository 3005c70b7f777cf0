import GuardedData.Path.Dotted
import Mathlib.Data.List.Infix
import Mathlib.Tactic.Common

/-!
# The text of a dotted path and its segments

A path is walked by its segments, while its parent and the paths related to it are read off its
text. Trimming a path of outer dots keeps its segments (`segments_eq_trimmedParts`), and the parent
that is cut off at the last dot of the trimmed text has all of them but the last
(`segments_eq_of_parent?_eq_some`).
-/

namespace GuardedData

/-! ### Parts of a text -/

namespace Text

lemma intercalate_append {α : Type*} (separator : List α) {a b : List (List α)} (ha : a ≠ [])
    (hb : b ≠ []) : separator.intercalate (a ++ b) =
      separator.intercalate a ++ separator ++ separator.intercalate b := by
  induction a with
  | nil => exact absurd rfl ha
  | cons x a ih =>
    cases a with
    | nil =>
      obtain ⟨y, b, rfl⟩ := List.exists_cons_of_ne_nil hb
      simp
    | cons z a =>
      rw [List.cons_append, List.cons_append, List.intercalate_cons_cons, ← List.cons_append,
        ih (by simp), List.intercalate_cons_cons]
      simp

/-- The parts of a text come first among those of another one if the other one continues it behind
a separator, or is the same. -/
lemma splitOn_prefix_iff {separator : Char} {s t : List Char} :
    s.splitOn separator <+: t.splitOn separator ↔ t = s ∨ ∃ rest, t = s ++ separator :: rest := by
  constructor
  · rintro ⟨others, h⟩
    have hs : [separator].intercalate (s.splitOn separator) = s :=
      List.intercalate_splitOn separator
    have ht : [separator].intercalate (t.splitOn separator) = t :=
      List.intercalate_splitOn separator
    rw [← h] at ht
    cases others with
    | nil =>
      rw [List.append_nil, hs] at ht
      exact Or.inl ht.symm
    | cons other others =>
      rw [intercalate_append _ (List.splitOn_ne_nil separator s) (by simp), hs] at ht
      exact Or.inr ⟨[separator].intercalate (other :: others), by rw [← ht]; simp⟩
  · rintro (rfl | ⟨rest, rfl⟩)
    · exact List.prefix_rfl
    · rw [List.splitOn_append_cons_self]
      exact List.prefix_append _ _

/-- Where a text has an empty part, it is empty, it begins or ends with a separator, or two
separators in it are neighbours. -/
lemma of_nil_mem_splitOn {separator : Char} {s : List Char} (h : [] ∈ s.splitOn separator) :
    s = [] ∨ (∃ rest, s = separator :: rest) ∨ (∃ front, s = front ++ [separator]) ∨
      [separator, separator] <:+: s := by
  obtain ⟨front, back, hparts⟩ := List.append_of_mem h
  have hs : [separator].intercalate (s.splitOn separator) = s := List.intercalate_splitOn separator
  rw [hparts] at hs
  -- What is joined before and behind the empty part tells where the separators next to it are.
  cases front with
  | nil =>
    cases back with
    | nil => exact Or.inl (by simpa using hs.symm)
    | cons next back =>
      rw [List.nil_append, List.intercalate_cons_cons] at hs
      exact Or.inr (Or.inl ⟨_, hs.symm⟩)
  | cons first front =>
    rw [intercalate_append _ (by simp) (by simp)] at hs
    cases back with
    | nil =>
      rw [List.intercalate_singleton, List.append_nil] at hs
      exact Or.inr (Or.inr (Or.inl ⟨_, hs.symm⟩))
    | cons next back =>
      refine Or.inr (Or.inr (Or.inr ⟨[separator].intercalate (first :: front),
        [separator].intercalate (next :: back), ?_⟩))
      rw [← hs, List.intercalate_cons_cons]
      simp

lemma nil_mem_splitOn_of_infix {separator : Char} {s : List Char}
    (h : [separator, separator] <:+: s) : [] ∈ s.splitOn separator := by
  obtain ⟨front, back, rfl⟩ := h
  have hs : front ++ [separator, separator] ++ back =
      front ++ separator :: ([] ++ separator :: back) := by simp
  rw [hs, List.splitOn_append_cons_self, List.splitOn_append_cons_self]
  simp

end Text

namespace Dotted

/-! ### Trimming -/

lemma exists_eq_dropDots (s : List Char) : ∃ n, s = List.replicate n '.' ++ dropDots s := by
  induction s with
  | nil => exact ⟨0, rfl⟩
  | cons c rest ih =>
    by_cases h : c = '.'
    · obtain ⟨n, hn⟩ := ih
      refine ⟨n + 1, ?_⟩
      rw [List.replicate_succ, List.cons_append, dropDots, h, List.dropWhile_cons_of_pos (by simp),
        ← dropDots, ← hn]
    · exact ⟨0, by simp [dropDots, h]⟩

lemma not_dot_of_dropDots_eq_cons {s rest : List Char} {c : Char} (h : dropDots s = c :: rest) :
    c ≠ '.' := by
  induction s with
  | nil => simp [dropDots] at h
  | cons a s ih =>
    by_cases ha : a = '.'
    · rw [dropDots, ha, List.dropWhile_cons_of_pos (by simp)] at h
      exact ih h
    · rw [dropDots, List.dropWhile_cons_of_neg (by simpa using ha)] at h
      cases h
      exact ha

/-- A text is its trimmed text between some dots. -/
lemma exists_eq_trimDots (s : List Char) :
    ∃ m n, s = List.replicate m '.' ++ trimDots s ++ List.replicate n '.' := by
  obtain ⟨m, hm⟩ := exists_eq_dropDots s
  obtain ⟨n, hn⟩ := exists_eq_dropDots (dropDots s).reverse
  refine ⟨m, n, ?_⟩
  have h : dropDots s = trimDots s ++ List.replicate n '.' := by
    have := congrArg List.reverse hn
    simpa [trimDots] using this
  rw [List.append_assoc, ← h, ← hm]

lemma not_dot_of_trimDots_eq_cons {s rest : List Char} {c : Char} (h : trimDots s = c :: rest) :
    c ≠ '.' := by
  -- What leads the trimmed text leads the text already rid of its front dots.
  obtain ⟨n, hn⟩ := exists_eq_dropDots (dropDots s).reverse
  have hs : dropDots s = c :: (rest ++ List.replicate n '.') := by
    have := congrArg List.reverse hn
    rw [List.reverse_reverse, List.reverse_append] at this
    rw [this, ← trimDots, h]
    simp
  exact not_dot_of_dropDots_eq_cons hs

lemma not_dot_of_trimDots_eq_concat {s front : List Char} {c : Char}
    (h : trimDots s = front ++ [c]) : c ≠ '.' := by
  have hreverse : dropDots (dropDots s).reverse = c :: front.reverse := by
    have := congrArg List.reverse h
    simpa [trimDots] using this
  exact not_dot_of_dropDots_eq_cons hreverse

/-! ### Parts of a path -/

/-- The parts of a path between the dots that are left when it is trimmed; some may be empty. -/
def trimmedParts (path : String) : List (List Char) := (trimDots path.toList).splitOn '.'

lemma filter_splitOn_dots (n : Nat) (s : List Char) :
    ((List.replicate n '.' ++ s).splitOn '.').filter (!·.isEmpty) =
      (s.splitOn '.').filter (!·.isEmpty) := by
  induction n with
  | zero => rfl
  | succ n ih =>
    rw [List.replicate_succ, List.cons_append, List.splitOn_cons_eq_if_modifyHead]
    simpa using ih

lemma filter_splitOn_append_dots (s : List Char) (n : Nat) :
    ((s ++ List.replicate n '.').splitOn '.').filter (!·.isEmpty) =
      (s.splitOn '.').filter (!·.isEmpty) := by
  cases n with
  | zero => simp
  | succ n =>
    have h := filter_splitOn_dots n []
    rw [List.append_nil] at h
    rw [List.replicate_succ, List.splitOn_append_cons_self, List.filter_append, h]
    simp

/-- Trimming a path keeps its segments. -/
lemma segments_eq_trimmedParts (path : String) :
    segments path = ((trimmedParts path).filter (!·.isEmpty)).map String.ofList := by
  obtain ⟨m, n, h⟩ := exists_eq_trimDots path.toList
  rw [segments, trimmedParts]
  conv_lhs => rw [h]
  rw [filter_splitOn_append_dots, filter_splitOn_dots]

lemma segments_eq_nil_iff {path : String} : segments path = [] ↔ trimDots path.toList = [] := by
  rw [segments_eq_trimmedParts, List.map_eq_nil_iff, List.filter_eq_nil_iff, trimmedParts]
  constructor
  · intro h
    cases hp : trimDots path.toList with
    | nil => rfl
    | cons c rest =>
      -- The first part holds the first character, which is no dot.
      have hc : (c == '.') = false := by simpa using not_dot_of_trimDots_eq_cons hp
      obtain ⟨part, others, ho⟩ := List.exists_cons_of_ne_nil (List.splitOn_ne_nil '.' rest)
      have hmem : c :: part ∈ (trimDots path.toList).splitOn '.' := by
        rw [hp, List.splitOn_cons_eq_if_modifyHead, hc, ho]
        exact List.mem_cons_self
      exact absurd rfl (h _ hmem)
  · intro h
    simp [h]

/-! ### The parent of a path -/

lemma splitAtLastDot?_eq_none_iff {s : List Char} : splitAtLastDot? s = none ↔ '.' ∉ s := by
  induction s with
  | nil => simp [splitAtLastDot?]
  | cons c rest ih =>
    rw [splitAtLastDot?, List.mem_cons, not_or]
    cases hrest : splitAtLastDot? rest with
    | some parts => simp [← ih, hrest]
    | none => simp [← ih, hrest, eq_comm]

lemma of_splitAtLastDot?_eq_some {s before behind : List Char}
    (h : splitAtLastDot? s = some (before, behind)) :
    s = before ++ '.' :: behind ∧ '.' ∉ behind := by
  induction s generalizing before with
  | nil => cases h
  | cons c rest ih =>
    rw [splitAtLastDot?] at h
    split at h
    · rename_i hrest
      cases h
      obtain ⟨hsplit, hdot⟩ := ih hrest
      exact ⟨by rw [hsplit]; rfl, hdot⟩
    · rename_i hrest
      split at h
      · rename_i hc
        cases h
        exact ⟨by rw [hc]; rfl, splitAtLastDot?_eq_none_iff.1 hrest⟩
      · cases h

/-- Only the root has no parent. -/
lemma parent?_eq_none_iff {path : String} : parent? path = none ↔ segments path = [] := by
  rw [segments_eq_nil_iff, parent?]
  simp

/-- A path leads through the segments of its parent and then through its last segment. -/
theorem segments_eq_of_parent?_eq_some {path parent last : String}
    (h : parent? path = some (parent, last)) : segments path = segments parent ++ [last] := by
  rw [parent?] at h
  split at h
  · cases h
  rename_i hroot
  cases hsplit : splitAtLastDot? (trimDots path.toList) with
  | none =>
    rw [hsplit] at h
    cases h
    have hdot := splitAtLastDot?_eq_none_iff.1 hsplit
    rw [segments_eq_trimmedParts, trimmedParts, List.splitOn_eq_singleton hdot]
    simp [hroot]
  | some parts =>
    obtain ⟨before, behind⟩ := parts
    rw [hsplit] at h
    cases h
    obtain ⟨htrim, hdot⟩ := of_splitAtLastDot?_eq_some hsplit
    -- A trimmed text does not end in a dot, so that something is behind the last one.
    have hbehind : behind ≠ [] := by
      rintro rfl
      exact not_dot_of_trimDots_eq_concat htrim rfl
    rw [segments_eq_trimmedParts, trimmedParts, htrim, List.splitOn_append_cons_self,
      List.splitOn_eq_singleton hdot, List.filter_append, List.map_append, segments,
      String.toList_ofList]
    simp [hbehind]

end Dotted

end GuardedData
