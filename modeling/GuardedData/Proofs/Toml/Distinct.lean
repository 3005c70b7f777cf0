import GuardedData.Proofs.Toml.Conversion
import GuardedData.Proofs.Value.Distinct

/-!
# Documents whose tables have each key once

A draft of a document adds no key to a table that has it, whatever the order of its headers and
dotted keys, and so the value of a text, be it TOML or JSON, has each key of each object once
(`Document.distinct_of_ofText`).
-/

namespace GuardedData

namespace Toml

/-! ### What is written -/

inductive Written.Distinct : Written → Prop
  | string (s : String) : Distinct (.string s)
  | integer (n : Int) : Distinct (.integer n)
  | float (d : Double) : Distinct (.float d)
  | huge : Distinct .huge
  | nonFinite (x : NonFinite) : Distinct (.nonFinite x)
  | boolean (b : Bool) : Distinct (.boolean b)
  | datetime (d : Datetime) : Distinct (.datetime d)
  | array {items : List Written} (h : ∀ w ∈ items, Distinct w) : Distinct (.array items)
  | table {entries : List (String × Written)} (h : Entries.Distinct Distinct entries) :
    Distinct (.table entries)

inductive Node.Distinct : Node → Prop
  | leaf {w : Written} (h : w.Distinct) : Distinct (.leaf w)
  | table {origin : Origin} {entries : Nodes} (h : Entries.Distinct Distinct entries) :
    Distinct (.table origin entries)
  | tables {earlier : List Nodes} {last : Nodes}
    (hearlier : ∀ entries ∈ earlier, Entries.Distinct Distinct entries)
    (hlast : Entries.Distinct Distinct last) : Distinct (.tables earlier last)

/-- Whether the entries of a table have each key once, and so have the tables inside. -/
abbrev Nodes.Distinct (entries : Nodes) : Prop := Entries.Distinct Node.Distinct entries

namespace Node

lemma keys_written (entries : Nodes) : Entries.keys (written entries) = Entries.keys entries := by
  induction entries with
  | nil => rfl
  | cons entry rest ih => exact congrArg (entry.1 :: ·) ih

mutual

lemma distinct_toWritten : ∀ {node : Node}, node.Distinct → node.toWritten.Distinct
  | .leaf w, h => by
    cases h with
    | leaf h => exact h
  | .table _ entries, h => by
    cases h with
    | table h => exact .table (distinct_written h)
  | .tables earlier last, h => by
    cases h with
    | tables hearlier hlast =>
      refine .array fun w hmem => ?_
      rcases List.mem_append.1 hmem with hmem | hmem
      · exact distinct_writtenTables hearlier w hmem
      · obtain rfl := List.mem_singleton.1 hmem
        exact .table (distinct_written hlast)

lemma distinct_written : ∀ {entries : Nodes}, entries.Distinct →
    Entries.Distinct Written.Distinct (written entries)
  | [], _ => .nil
  | (key, node) :: rest, h => by
    cases h with
    | cons hkey hnode h =>
      exact .cons (keys_written rest ▸ hkey) (distinct_toWritten hnode) (distinct_written h)

lemma distinct_writtenTables : ∀ {tables : List Nodes}, (∀ entries ∈ tables, entries.Distinct) →
    ∀ w ∈ writtenTables tables, w.Distinct
  | [], _ => by simp [writtenTables]
  | entries :: rest, h => by
    obtain ⟨hentries, h⟩ := List.forall_mem_cons.1 h
    exact List.forall_mem_cons.2 ⟨.table (distinct_written hentries), distinct_writtenTables h⟩

end

end Node

/-! ### What a draft does -/

namespace Nodes.Distinct

variable {entries new : Nodes}

/-- A change deep inside keeps keys apart if it does so where it happens. -/
lemma alter {α : Type} {P : α → Prop} {made : Origin} {f : Origin → Nodes → Option (Nodes × α)}
    {a : α} (hf : ∀ {origin old new a}, Nodes.Distinct old → f origin old = some (new, a) →
      Nodes.Distinct new ∧ P a) {path : List String} {origin : Origin} (h : entries.Distinct)
    (halter : entries.alter made f path origin = some (new, a)) : new.Distinct ∧ P a := by
  induction path generalizing origin entries new with
  | nil => exact hf h halter
  | cons key rest ih =>
    rw [Nodes.alter] at halter
    split at halter
    · obtain ⟨⟨inner, b⟩, hinner, he⟩ := Option.map_eq_some_iff.1 halter
      cases he
      obtain ⟨hdistinct, ha⟩ := ih .nil hinner
      exact ⟨h.put key (.table hdistinct), ha⟩
    · rename_i hget
      split at halter
      · cases halter
      · obtain ⟨⟨inner, b⟩, hinner, he⟩ := Option.map_eq_some_iff.1 halter
        cases he
        cases h.of_get? hget with
        | table hold =>
          obtain ⟨hdistinct, ha⟩ := ih hold hinner
          exact ⟨h.put key (.table hdistinct), ha⟩
    · rename_i hget
      obtain ⟨⟨inner, b⟩, hinner, he⟩ := Option.map_eq_some_iff.1 halter
      cases he
      cases h.of_get? hget with
      | tables hearlier hlast =>
        obtain ⟨hdistinct, ha⟩ := ih hlast hinner
        exact ⟨h.put key (.tables hearlier hdistinct), ha⟩
    · cases halter

lemma insert (h : entries.Distinct) {key : List String × String} {w : Written} (hw : w.Distinct)
    (hinsert : entries.insert key w = some new) : new.Distinct := by
  obtain ⟨path, name⟩ := key
  obtain ⟨⟨altered, u⟩, halter, rfl⟩ := Option.map_eq_some_iff.1 hinsert
  refine (h.alter (P := fun _ => True) (fun {origin old new a} hold hadd => ⟨?_, trivial⟩) halter).1
  unfold Nodes.insert.add at hadd
  split at hadd
  · split at hadd
    · cases hadd
      exact hold.put name (.leaf hw)
    · cases hadd
  · cases hadd

end Nodes.Distinct

namespace Header

variable {name : String} {parent : Nodes}

lemma distinct_take (header : Header) {new opened : Nodes} (h : parent.Distinct)
    (htake : header.take name parent = some (new, opened)) : new.Distinct ∧ opened.Distinct := by
  unfold take at htake
  split at htake
  · cases htake
    exact ⟨h, .nil⟩
  · rename_i hget
    cases htake
    cases h.of_get? hget with
    | table hold => exact ⟨h.sublist List.filter_sublist, hold⟩
  · cases htake
    exact ⟨h, .nil⟩
  · cases htake

lemma distinct_place (header : Header) {entries : Nodes} (h : parent.Distinct)
    (hentries : entries.Distinct) : (header.place name entries parent).Distinct := by
  unfold place
  split
  · rename_i hget
    cases h.of_get? hget with
    | @tables earlier last hearlier hlast =>
      refine h.put name (.tables (fun table hmem => ?_) hentries)
      rcases List.mem_append.1 hmem with hmem | hmem
      · exact hearlier table hmem
      · exact List.mem_singleton.1 hmem ▸ hlast
  · exact h.put name (.tables (by simp) hentries)
  · exact h.put name (.table hentries)

end Header

structure Draft.Distinct (d : Draft) : Prop where
  root : d.root.Distinct
  opened : ∀ {o}, d.opened = some o → o.entries.Distinct

namespace Draft.Distinct

variable {d d' : Draft}

lemma empty : Distinct {} := ⟨.nil, fun h => by cases h⟩

lemma insert (h : d.Distinct) {key : List String × String} {w : Written} (hw : w.Distinct)
    (hinsert : d.insert key w = some d') : d'.Distinct := by
  unfold Draft.insert at hinsert
  split at hinsert
  · rename_i hopened
    obtain ⟨root, hroot, rfl⟩ := Option.map_eq_some_iff.1 hinsert
    exact ⟨h.root.insert hw hroot, fun ho => by simp [hopened] at ho⟩
  · rename_i hopened
    obtain ⟨entries, hentries, rfl⟩ := Option.map_eq_some_iff.1 hinsert
    refine ⟨h.root, fun ho => ?_⟩
    cases ho
    exact (h.opened hopened).insert hw hentries

lemma close (h : d.Distinct) {root : Nodes} (hclose : d.close = some root) : root.Distinct := by
  unfold Draft.close at hclose
  split at hclose
  · cases hclose
    exact h.root
  · rename_i o hopened
    obtain ⟨⟨altered, u⟩, halter, rfl⟩ := Option.map_eq_some_iff.1 hclose
    refine (h.root.alter (P := fun _ => True) (fun hold he => ?_) halter).1
    cases he
    exact ⟨o.header.distinct_place hold (h.opened hopened), trivial⟩

lemma openTable (h : d.Distinct) {header : Header} {key : List String × String}
    (hopen : d.openTable header key = some d') : d'.Distinct := by
  obtain ⟨path, name⟩ := key
  obtain ⟨root, hclose, hopen⟩ := Option.bind_eq_some_iff.1 hopen
  obtain ⟨⟨root', entries⟩, halter, he⟩ := Option.bind_eq_some_iff.1 hopen
  cases he
  obtain ⟨hroot, hentries⟩ :=
    (h.close hclose).alter (P := Nodes.Distinct) (header.distinct_take) halter
  refine ⟨hroot, fun ho => ?_⟩
  cases ho
  exact hentries

end Draft.Distinct

/-! ### Reading -/

section Words

variable {s : List Char} {w : Written}

lemma distinct_of_basedInteger {base : Nat} (h : basedInteger base s = some w) : w.Distinct := by
  obtain ⟨digits, -, he⟩ := Option.bind_eq_some_iff.1 h
  cases he
  exact .integer _

lemma distinct_of_decimalNumber {negative : Bool} (h : decimalNumber negative s = some w) :
    w.Distinct := by
  have hreal (whole fraction : List Char) (exponent : Int) :
      (decimalNumber.real negative whole fraction exponent).Distinct := by
    rw [decimalNumber.real]
    split
    · exact .float _
    · exact .huge
  obtain ⟨whole, -, h⟩ := Option.bind_eq_some_iff.1 h
  simp only at h
  split at h
  all_goals
    obtain ⟨⟨fraction, rest⟩, -, h⟩ := Option.bind_eq_some_iff.1 h
    cases rest with
    | nil =>
      simp only at h
      split at h
      · cases h
        exact .integer _
      · cases h
        exact hreal whole fraction 0
    | cons _ digits =>
      obtain ⟨exponent, -, he⟩ := Option.bind_eq_some_iff.1 h
      cases he
      exact hreal whole fraction exponent

lemma distinct_of_signedNumber {negative : Bool} (h : signedNumber negative s = some w) :
    w.Distinct := by
  rw [signedNumber] at h
  split_ifs at h
  · cases h
    exact .nonFinite _
  · cases h
    exact .nonFinite _
  · exact distinct_of_decimalNumber h

lemma distinct_of_readWholeWord (h : readWholeWord s = some w) : w.Distinct := by
  unfold readWholeWord at h
  split_ifs at h
  · cases h
    exact .boolean true
  · cases h
    exact .boolean false
  · obtain ⟨d, -, rfl⟩ := Option.map_eq_some_iff.1 h
    exact .datetime d
  · split at h
    · exact distinct_of_basedInteger h
    · exact distinct_of_basedInteger h
    · exact distinct_of_basedInteger h
    · exact distinct_of_signedNumber h
    · exact distinct_of_signedNumber h
    · exact distinct_of_signedNumber h

lemma distinct_of_readWord {rest : List Char} (h : readWord s = some (w, rest)) : w.Distinct := by
  have hword {word rest' : List Char} (h : (readWholeWord word).map (·, rest') = some (w, rest)) :
      w.Distinct := by
    obtain ⟨w', hw, he⟩ := Option.map_eq_some_iff.1 h
    cases he
    exact distinct_of_readWholeWord hw
  simp only [readWord] at h
  split at h
  · split at h
    · exact hword h
    · exact hword h
  · exact hword h

end Words

section Containers

variable {read : List Char → Read Written} {fuel : Nat} {s rest : List Char}

lemma distinct_of_readElements (hread : ∀ {s w rest}, read s = some (w, rest) → w.Distinct)
    {soFar items : List Written} (hsoFar : ∀ w ∈ soFar, w.Distinct)
    (h : readElements read fuel soFar s = some (items, rest)) : ∀ w ∈ items, w.Distinct := by
  induction fuel generalizing soFar s with
  | zero =>
    rw [readElements] at h
    cases h
  | succ fuel ih =>
    rw [readElements] at h
    split at h
    · cases h
      simpa using hsoFar
    · split at h
      · cases h
      · rename_i w rest' hw
        have hmore : ∀ w' ∈ w :: soFar, w'.Distinct := List.forall_mem_cons.2 ⟨hread hw, hsoFar⟩
        split at h
        · exact ih hmore h
        · cases h
          simpa only [List.mem_reverse] using hmore
        · cases h

lemma distinct_of_readEntries (hread : ∀ {s w rest}, read s = some (w, rest) → w.Distinct)
    {soFar entries : Nodes} (hsoFar : soFar.Distinct)
    (h : readEntries read fuel soFar s = some (entries, rest)) : entries.Distinct := by
  induction fuel generalizing soFar s with
  | zero =>
    rw [readEntries] at h
    cases h
  | succ fuel ih =>
    rw [readEntries] at h
    split at h
    · cases h
      exact hsoFar
    · split at h
      · cases h
      · split at h
        · cases h
        · rename_i w rest' hw
          split at h
          · rename_i hinsert _
            exact ih (hsoFar.insert (hread hw) hinsert) h
          · rename_i hinsert _
            cases h
            exact hsoFar.insert (hread hw) hinsert
          · cases h

end Containers

lemma distinct_of_readValue {depth : Nat} {s rest : List Char} {w : Written}
    (h : readValue depth s = some (w, rest)) : w.Distinct := by
  unfold readValue at h
  split at h
  · cases h
  · cases h
  · obtain ⟨⟨items, rest⟩, hitems, he⟩ := Option.map_eq_some_iff.1 h
    cases he
    exact .array (distinct_of_readElements distinct_of_readValue (by simp) hitems)
  · obtain ⟨⟨entries, rest⟩, hentries, he⟩ := Option.map_eq_some_iff.1 h
    cases he
    exact .table (Node.distinct_written
      (distinct_of_readEntries distinct_of_readValue .nil hentries))
  · split at h
    · obtain ⟨⟨text, rest⟩, -, he⟩ := Option.map_eq_some_iff.1 h
      cases he
      exact .string text
    · obtain ⟨⟨text, rest⟩, -, he⟩ := Option.map_eq_some_iff.1 h
      cases he
      exact .string text
    · exact distinct_of_readWord h
termination_by depth

namespace Draft.Distinct

variable {d d' : Draft} {s rest : List Char}

lemma readHeader (h : d.Distinct) {header : Header}
    (hread : Toml.readHeader header d s = some (d', rest)) : d'.Distinct := by
  obtain ⟨⟨key, behind⟩, -, hread⟩ := Option.bind_eq_some_iff.1 hread
  have hopened {behind : List Char}
      (hbind : (d.openTable header key).bind (fun opened => some (opened, behind)) =
        some (d', rest)) : d'.Distinct := by
    obtain ⟨opened, hopen, he⟩ := Option.bind_eq_some_iff.1 hbind
    cases he
    exact h.openTable hopen
  simp only at hread
  split at hread
  · exact hopened hread
  · exact hopened hread
  · cases hread

lemma readLine (h : d.Distinct) (hread : Toml.readLine d s = some (d', rest)) : d'.Distinct := by
  unfold Toml.readLine at hread
  split at hread
  · cases hread
    exact h
  · cases hread
    exact h
  · cases hread
    exact h
  · cases hread
    exact h
  · exact h.readHeader hread
  · exact h.readHeader hread
  · obtain ⟨⟨key, behind⟩, -, hread⟩ := Option.bind_eq_some_iff.1 hread
    obtain ⟨⟨w, behind'⟩, hw, hread⟩ := Option.bind_eq_some_iff.1 hread
    obtain ⟨filled, hinsert, he⟩ := Option.bind_eq_some_iff.1 hread
    cases he
    exact h.insert (distinct_of_readValue hw) hinsert

lemma readLines {fuel : Nat} (h : d.Distinct) (hread : Toml.readLines fuel d s = some d') :
    d'.Distinct := by
  induction fuel generalizing d s with
  | zero =>
    rw [Toml.readLines] at hread
    cases hread
  | succ fuel ih =>
    cases s with
    | nil =>
      cases hread
      exact h
    | cons c s =>
      rw [Toml.readLines] at hread
      · split at hread
        · cases hread
        · rename_i hline
          split at hread
          · cases hread
          · exact ih (h.readLine hline) hread
      · exact List.cons_ne_nil c s

end Draft.Distinct

/-- A text writes each key of each table once. -/
theorem distinct_of_read? {text : String} {entries : List (String × Written)}
    (h : read? text = some entries) : Entries.Distinct Written.Distinct entries := by
  obtain ⟨d, hd, h⟩ := Option.bind_eq_some_iff.1 h
  obtain ⟨root, hroot, he⟩ := Option.bind_eq_some_iff.1 h
  cases he
  exact Node.distinct_written ((Draft.Distinct.empty.readLines hd).close hroot)

/-! ### What is meant -/

namespace Written

lemma keys_of_entries? {entries : List (String × Written)} {items : List (String × Item)}
    (h : entries? entries = some items) : Entries.keys items = Entries.keys entries := by
  induction entries generalizing items with
  | nil =>
    cases h
    rfl
  | cons entry rest ih =>
    rw [entries?] at h
    split at h
    · cases h
    · obtain ⟨others, hothers, rfl⟩ := Option.map_eq_some_iff.1 h
      exact congrArg (entry.1 :: ·) (ih hothers)

lemma exists_of_toItem?_table {entries : List (String × Written)} {item : Item}
    (h : (table entries).toItem? = some item) :
    (∃ d, item = .datetime d) ∨ ∃ items, entries? entries = some items ∧ item = .table items := by
  cases entries with
  | nil =>
    cases h
    exact .inr ⟨[], rfl, rfl⟩
  | cons entry rest =>
    obtain ⟨key, w⟩ := entry
    unfold toItem? at h
    split at h
    · split at h
      · obtain ⟨d, -, rfl⟩ := Option.map_eq_some_iff.1 h
        exact .inl ⟨d, rfl⟩
      · cases h
    · split at h
      · cases h
      · rename_i hitem
        obtain ⟨others, hothers, rfl⟩ := Option.map_eq_some_iff.1 h
        exact .inr ⟨_, by rw [entries?, hitem, hothers]; rfl, rfl⟩

mutual

/-- The value that mirrors what is meant has each key once if what is written has. -/
lemma distinct_of_mirrors : ∀ {w : Written} {item : Item} {v : Value}, w.Distinct →
    w.toItem? = some item → item.Mirrors v → v.Distinct
  | .array items, item, v, h, hitem, hv => by
    obtain ⟨others, hothers, rfl⟩ := Option.map_eq_some_iff.1 hitem
    cases h with
    | array h =>
      cases hv with
      | array hv => exact .array (forall_distinct_of_mirrors h hothers hv)
  | .table entries, item, v, h, hitem, hv => by
    cases h with
    | table h =>
      obtain ⟨d, rfl⟩ | ⟨items, hitems, rfl⟩ := exists_of_toItem?_table hitem
      · cases hv
        exact .string d.text
      · cases hv with
        | table hkeys hv => exact .object (entries_distinct_of_mirrors h hitems hkeys hv)
  | .string s, item, v, h, hitem, hv => by
    cases hitem
    cases hv
    exact .string s
  | .integer n, item, v, h, hitem, hv => by
    rw [toItem?] at hitem
    split at hitem
    · cases hitem
      cases hv
      exact .number _
    · cases hitem
  | .float d, item, v, h, hitem, hv => by
    cases hitem
    cases hv
    exact .number _
  | .huge, item, v, h, hitem, hv => by cases hitem
  | .nonFinite x, item, v, h, hitem, hv => by
    cases hitem
    cases hv
  | .boolean b, item, v, h, hitem, hv => by
    cases hitem
    cases hv
    exact .bool b
  | .datetime d, item, v, h, hitem, hv => by
    cases hitem
    cases hv
    exact .string d.text

lemma forall_distinct_of_mirrors : ∀ {ws : List Written} {items : List Item} {values : List Value},
    (∀ w ∈ ws, w.Distinct) → items? ws = some items → List.Forall₂ Item.Mirrors items values →
    ∀ v ∈ values, v.Distinct
  | [], items, values, h, hitems, hv => by
    cases hitems
    cases hv
    simp
  | w :: rest, items, values, h, hitems, hv => by
    obtain ⟨hw, h⟩ := List.forall_mem_cons.1 h
    rw [items?] at hitems
    split at hitems
    · cases hitems
    · rename_i item hitem
      obtain ⟨others, hothers, rfl⟩ := Option.map_eq_some_iff.1 hitems
      cases hv with
      | cons hv hrest =>
        exact List.forall_mem_cons.2
          ⟨distinct_of_mirrors hw hitem hv, forall_distinct_of_mirrors h hothers hrest⟩

lemma entries_distinct_of_mirrors : ∀ {entries : List (String × Written)}
    {items : List (String × Item)} {fields : List (String × Value)},
    Entries.Distinct Written.Distinct entries → entries? entries = some items →
    Entries.keys items = Entries.keys fields →
    List.Forall₂ Item.Mirrors (items.map (·.2)) (fields.map (·.2)) →
    Entries.Distinct Value.Distinct fields
  | [], items, fields, h, hitems, hkeys, hv => by
    cases hitems
    cases fields with
    | nil => exact .nil
    | cons field fields => cases hkeys
  | (key, w) :: rest, items, fields, h, hitems, hkeys, hv => by
    cases h with
    | cons hkey hw h =>
      rw [entries?] at hitems
      split at hitems
      · cases hitems
      · rename_i item hitem
        obtain ⟨others, hothers, rfl⟩ := Option.map_eq_some_iff.1 hitems
        cases fields with
        | nil => cases hkeys
        | cons field fields =>
          obtain ⟨name, v⟩ := field
          obtain ⟨rfl, hlater⟩ : key = name ∧ Entries.keys others = Entries.keys fields :=
            List.cons.inj hkeys
          cases hv with
          | cons hv hrest =>
            refine .cons ?_ (distinct_of_mirrors hw hitem hv)
              (entries_distinct_of_mirrors h hothers hlater hrest)
            rwa [← hlater, keys_of_entries? hothers]

end

end Written

end Toml

/-- The value of the text of a file, be it TOML or JSON, has each key of each object once. -/
theorem Document.distinct_of_ofText {name text : String} {v : Value}
    (h : Document.ofText name text = .ok v) : v.Distinct := by
  rw [ofText] at h
  split at h
  · split at h
    · cases h
    · rename_i items hitems
      obtain ⟨entries, hread, hitems⟩ := Option.bind_eq_some_iff.1 hitems
      cases ofItem_eq_ok_iff.1 h with
      | table hkeys hv =>
        exact .object
          (Toml.Written.entries_distinct_of_mirrors (Toml.distinct_of_read? hread) hitems hkeys hv)
  · split at h
    · cases h
    · rename_i hread
      cases h
      exact Value.distinct_of_read hread

end GuardedData
