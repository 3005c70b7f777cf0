import GuardedData.Proofs.Path.Segments

/-!
# When two dotted paths are related

Whether a change at one path counts as touching another one is decided on their text, while a path
is walked by its segments. Trimmed of outer dots, two paths are related exactly if the parts of one
of them, the empty ones included, are the first parts of the other (`related_iff`). The two readings
agree on paths without gaps, whose parts are their segments (`related_iff_of_not_hasGap`), and those
are the paths in which, trimmed, no two dots are neighbours (`related_iff_of_canonical`).
-/

namespace GuardedData.Dotted

/-! ### Gaps -/

/-- Whether two dots in a path, trimmed, have nothing between them. -/
def HasGap (path : String) : Prop := trimDots path.toList ≠ [] ∧ [] ∈ trimmedParts path

/-- A path has a gap exactly if two dots in it, trimmed, are neighbours. -/
lemma hasGap_iff {path : String} : HasGap path ↔ ['.', '.'] <:+: trimDots path.toList := by
  constructor
  · rintro ⟨hroot, hgap⟩
    rcases Text.of_nil_mem_splitOn hgap with h | ⟨rest, h⟩ | ⟨front, h⟩ | h
    · exact absurd h hroot
    · exact absurd rfl (not_dot_of_trimDots_eq_cons h)
    · exact absurd rfl (not_dot_of_trimDots_eq_concat h)
    · exact h
  · intro h
    have hroot : trimDots path.toList ≠ [] := by
      intro hnil
      simp [hnil] at h
    exact ⟨hroot, Text.nil_mem_splitOn_of_infix h⟩

lemma segments_eq_of_not_hasGap {path : String} (hroot : trimDots path.toList ≠ [])
    (h : ¬HasGap path) : segments path = (trimmedParts path).map String.ofList := by
  rw [segments_eq_trimmedParts, List.filter_eq_self.2]
  intro part hpart
  have hne : part ≠ [] := by
    rintro rfl
    exact h ⟨hroot, hpart⟩
  simpa using hne

/-! ### Related paths -/

lemma isBelow_iff {path ancestor : List Char} :
    isBelow path ancestor = true ↔ ∃ rest, path = ancestor ++ '.' :: rest := by
  induction ancestor generalizing path with
  | nil =>
    cases path with
    | nil => simp [isBelow]
    | cons c rest =>
      by_cases h : c = '.'
      · simp [isBelow, h]
      · simp [isBelow, h]
  | cons a ancestor ih =>
    cases path with
    | nil => simp [isBelow]
    | cons c rest => simp [isBelow, ih]

/-- Two paths are related exactly if the changed one is the root or the parts of one of them come
first among the parts of the other. -/
theorem related_iff {watched changed : String} :
    related watched changed = true ↔ trimDots changed.toList = [] ∨
      trimmedParts watched <+: trimmedParts changed ∨
        trimmedParts changed <+: trimmedParts watched := by
  simp only [related, trimmedParts, Text.splitOn_prefix_iff, Bool.or_eq_true, List.isEmpty_iff,
    beq_iff_eq, isBelow_iff]
  constructor
  · rintro (((h | h) | h) | h)
    · exact Or.inl h
    · exact Or.inr (Or.inl (Or.inl h.symm))
    · exact Or.inr (Or.inr (Or.inr h))
    · exact Or.inr (Or.inl (Or.inr h))
  · rintro (h | (h | h) | (h | h))
    · exact Or.inl (Or.inl (Or.inl h))
    · exact Or.inl (Or.inl (Or.inr h.symm))
    · exact Or.inr h
    · exact Or.inl (Or.inl (Or.inr h))
    · exact Or.inl (Or.inr h)

/-- Paths below the root without gaps are related exactly if the segments of one of them come first
among those of the other. -/
theorem related_iff_of_not_hasGap {watched changed : String} (hw : segments watched ≠ [])
    (hc : segments changed ≠ []) (gw : ¬HasGap watched) (gc : ¬HasGap changed) :
    related watched changed = true ↔
      segments watched <+: segments changed ∨ segments changed <+: segments watched := by
  have hw' : trimDots watched.toList ≠ [] := fun h => hw (segments_eq_nil_iff.2 h)
  have hc' : trimDots changed.toList ≠ [] := fun h => hc (segments_eq_nil_iff.2 h)
  have hinj : Function.Injective String.ofList := fun a b h => by
    simpa using congrArg String.toList h
  rw [related_iff, segments_eq_of_not_hasGap hw' gw, segments_eq_of_not_hasGap hc' gc,
    List.prefix_map_iff_of_injective hinj, List.prefix_map_iff_of_injective hinj]
  simp [hc']

/-! ### Canonical paths -/

/-- Whether a path, trimmed of outer dots, is not empty and has no two dots that are neighbours. -/
structure Canonical (path : String) : Prop where
  not_root : trimDots path.toList ≠ []
  no_double_dot : ¬['.', '.'] <:+: trimDots path.toList

instance (path : String) : Decidable (Canonical path) :=
  decidable_of_iff (trimDots path.toList ≠ [] ∧ ¬['.', '.'] <:+: trimDots path.toList)
    ⟨fun h => ⟨h.1, h.2⟩, fun h => ⟨h.not_root, h.no_double_dot⟩⟩

namespace Canonical

variable {path : String}

lemma segments_ne_nil (h : Canonical path) : segments path ≠ [] :=
  fun hnil => h.not_root (segments_eq_nil_iff.1 hnil)

lemma not_hasGap (h : Canonical path) : ¬HasGap path :=
  fun hgap => h.no_double_dot (hasGap_iff.1 hgap)

end Canonical

/-- **Canonical paths are related exactly if the segments of one of them come first among those of
the other**, or are the same. Their texts are compared and not their segments, but where the shorter
text ends a dot has to follow, so that it does not end within a segment of the longer one. -/
theorem related_iff_of_canonical {watched changed : String} (hw : Canonical watched)
    (hc : Canonical changed) : related watched changed = true ↔
      segments watched <+: segments changed ∨ segments changed <+: segments watched :=
  related_iff_of_not_hasGap hw.segments_ne_nil hc.segments_ne_nil hw.not_hasGap hc.not_hasGap

/-- A path is related to one above it whatever dots are around them, and not to one that ends within
a segment of it. -/
theorem related_iff_of_canonical_outer_dots :
    let agree (watched changed : String) : Prop := related watched changed = true ↔
      segments watched <+: segments changed ∨ segments changed <+: segments watched
    (Canonical ".shop.list.0." ∧ Canonical "..shop.list" ∧
      related ".shop.list.0." "..shop.list" = true ∧ agree ".shop.list.0." "..shop.list") ∧
    Canonical "shop.lists" ∧ Canonical "shop.list" ∧
      related "shop.lists" "shop.list" = false ∧ agree "shop.lists" "shop.list" := by
  intro agree
  have helement : Canonical ".shop.list.0." := by decide +kernel
  have harray : Canonical "..shop.list" := by decide +kernel
  have hlists : Canonical "shop.lists" := by decide +kernel
  have hlist : Canonical "shop.list" := by decide +kernel
  exact ⟨⟨helement, harray, by decide +kernel, related_iff_of_canonical helement harray⟩,
    hlists, hlist, by decide +kernel, related_iff_of_canonical hlists hlist⟩

end GuardedData.Dotted
