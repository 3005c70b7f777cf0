import GuardedData.Proofs.Model.Delivery

/-!
# How a model is made

In development a model that can be made has valid data, an empty queue and its watchers in order:
those of the user, those of the guard, and the checks (`Model.created_of_create`). A run adds user
watchers at most, so a model without any has exactly the watchers that enforce its schema
(`Model.Created.watchers_of_run`).
-/

namespace GuardedData

namespace Enforcement

/-- What is enforced on a model of a definition. -/
def ofDefinition (d : Definition) : Enforcement where
  paths := (d.schema.map Schema.watchPaths).getD []
  schema := d.schema
  name := d.name.getD anonymous

end Enforcement

namespace Model

/-- Whether a model is what a definition makes in development. -/
structure Created (d : Definition) (o : Options) (m : Model) : Prop where
  data : d.data = some m.data
  name : m.name = d.name.getD anonymous
  methods : m.methods = d.methods
  watchPaths : m.watchPaths = (Enforcement.ofDefinition d).paths
  mode : m.store.mode = o.flush
  pending : m.store.pending = []
  flushing : m.store.flushing = false
  guard : m.guard = if o.immutable then some {} else none
  watchers : m.store.watchers = d.watch.map (fun (path, body) => ⟨path, .react body⟩) ++
    ((if o.immutable then (Enforcement.ofDefinition d).settling else []) ++
      (Enforcement.ofDefinition d).checking)
  valid : ∀ s, d.schema = some s → validate m.data s m.name = .ok ()

lemma watchAll_eq (m : Model) (watchers : List (String × Callback)) :
    m.watchAll watchers = { m with store := { m.store with
      watchers := m.store.watchers ++
        watchers.map fun (path, callback) => ⟨path, callback⟩ } } := by
  rw [watchAll]
  induction watchers generalizing m with
  | nil => simp
  | cons watcher watchers ih =>
    rw [List.foldl_cons, ih]
    simp [watch, Store.watch]

theorem created_of_create {d : Definition} {o : Options} {current : Environment} {m : Model}
    (h : create d o current = .ok m) (hdev : o.resolve current = .development) :
    m.Created d o := by
  obtain ⟨name, data, schema, methods, computed, watch⟩ := d
  cases data with
  | none => simp [create] at h
  | some data =>
    rw [create] at h
    simp only [hdev] at h
    split at h
    · cases h
    · cases schema with
      | none =>
        cases h
        constructor <;> simp [unchecked, Model.data, Enforcement.ofDefinition,
          Enforcement.settling, Enforcement.checking, Environment.isProduction]
      | some s =>
        simp only [show Environment.development.isProduction = false from rfl,
          Bool.false_eq_true, if_false] at h
        split at h
        · cases h
        · rename_i hvalid
          cases h
          rw [watchAll_eq]
          constructor
          case watchers =>
            cases himm : o.immutable <;> simp [unchecked, enforcers, Enforcement.ofDefinition,
              Enforcement.settling, Enforcement.checking, Enforcement.checkAt,
              Environment.isProduction, Function.comp_def, himm]
          case valid =>
            rintro _ ⟨⟩
            exact hvalid
          all_goals simp [unchecked, Model.data, Enforcement.ofDefinition,
            Environment.isProduction]

/-- A guarded model that has no user watchers has the watchers that enforce its schema. -/
theorem Created.watchers_of_run {d : Definition} {o : Options} {m : Model} (hm : m.Created d o)
    (himm : o.immutable = true) {past : List Machine} {s : Machine} (h : Run m past s)
    (huser : ∀ w ∈ s.model.store.watchers, ∀ body, w.callback ≠ .react body) :
    s.model.store.watchers = (Enforcement.ofDefinition d).watchers := by
  obtain ⟨later, hw, hlater⟩ := h.watchers
  rw [hw, hm.watchers, himm, if_pos rfl, ← Enforcement.watchers] at huser ⊢
  have hnil : later = [] := by
    refine List.eq_nil_iff_forall_not_mem.2 fun w hmem => ?_
    obtain ⟨body, hbody⟩ := hlater w hmem
    exact huser w (by simp [hmem]) body hbody
  have hwatch : d.watch = [] := by
    refine List.eq_nil_iff_forall_not_mem.2 fun w hmem => ?_
    have hfirst := List.mem_map_of_mem (f := fun w : String × (Option Value → Program) =>
      (⟨w.1, .react w.2⟩ : Watcher Callback)) hmem
    exact huser _ (List.mem_append_left _ (List.mem_append_left _ hfirst)) w.2 rfl
  simp [hnil, hwatch]

end Model

end GuardedData
