import InfraGraph.Entries

/-!
# Entries that stand under a field of their values

The graph keeps its components, relations and health states in maps whose keys are fields of the
values. Such a map is known by its values alone, and writing a value under its own field keeps it
one.

## Main results

* `insert_of_notMem` — a new key goes to the end.
* `getElem?_insert` — no entry moves, and only the one under the written key changes.
* `KeyedBy.insert` — a map stays under a field of its values.
-/

namespace InfraGraph.Entries

variable {α : Type}

/-! ## Single entries -/

theorem hasKey_eq_false_iff (entries : Entries α) (key : String) :
    hasKey entries key = false ↔ key ∉ keys entries := by
  rw [← hasKey_iff, Bool.not_eq_true]

theorem mem_keys {entries : Entries α} {e : String × α} (h : e ∈ entries) :
    e.1 ∈ keys entries :=
  List.mem_map_of_mem h

/-- What is found under a key is an entry. -/
theorem mem_of_get? {entries : Entries α} {key : String} {value : α}
    (h : get? entries key = some value) : (key, value) ∈ entries := by
  induction entries with
  | nil => cases h
  | cons e rest ih =>
      obtain ⟨k, v⟩ := e
      by_cases hk : k = key
      · subst hk
        simp only [get?, if_true, Option.some.injEq] at h
        exact h ▸ List.mem_cons_self
      · rw [get?, if_neg hk] at h
        exact List.mem_cons_of_mem _ (ih h)

/-- Values are changed under every key alike. -/
theorem get?_map {β : Type} (f : α → β) (entries : Entries α) (key : String) :
    get? (entries.map fun e => (e.1, f e.2)) key = (get? entries key).map f := by
  induction entries with
  | nil => rfl
  | cons e rest ih =>
      by_cases hk : e.1 = key
      · simp [get?, hk]
      · simp [get?, hk, ih]

/-- Every entry is found under its key, if keys are distinct. -/
theorem get?_of_mem {entries : Entries α} (hnodup : (keys entries).Nodup)
    {key : String} {value : α} (h : (key, value) ∈ entries) :
    get? entries key = some value := by
  induction entries with
  | nil => simp at h
  | cons e rest ih =>
      obtain ⟨k, v⟩ := e
      rw [keys_cons, List.nodup_cons] at hnodup
      rcases List.mem_cons.1 h with heq | hrest
      · obtain ⟨rfl, rfl⟩ := Prod.mk.inj heq
        simp [get?]
      · have hne : k ≠ key := by
          rintro rfl
          have hmem := mem_keys hrest
          exact hnodup.1 hmem
        simpa [get?, hne] using ih hnodup.2 hrest

/-! ## Writing -/

/-- A new key is written at the end. -/
theorem insert_of_notMem {entries : Entries α} {key : String}
    (h : key ∉ keys entries) (value : α) :
    insert entries key value = entries ++ [(key, value)] := by
  induction entries with
  | nil => rfl
  | cons e rest ih =>
      obtain ⟨k, v⟩ := e
      rw [keys_cons, List.mem_cons, not_or] at h
      simp [insert, Ne.symm h.1, ih h.2]

/-- An entry stays where it is, and changes only if it is the one that is
written. -/
theorem getElem?_insert {entries : Entries α} {i : Nat} {e : String × α}
    (h : entries[i]? = some e) (key : String) (value : α) :
    (insert entries key value)[i]? = some e ∨
      e.1 = key ∧ (insert entries key value)[i]? = some (key, value) := by
  induction entries generalizing i with
  | nil => simp at h
  | cons head rest ih =>
      obtain ⟨k, v⟩ := head
      by_cases hk : k = key
      · subst hk
        cases i with
        | zero =>
            have he : (k, v) = e := by simpa using h
            exact Or.inr ⟨he ▸ rfl, by simp [insert]⟩
        | succ i => exact Or.inl (by simpa [insert] using h)
      · cases i with
        | zero => exact Or.inl (by simpa [insert, hk] using h)
        | succ i => simpa [insert, hk] using ih (by simpa using h)

/-- What is in a map after writing: the written entry, and the old ones under
other keys. -/
theorem mem_insert {entries : Entries α} (hnodup : (keys entries).Nodup)
    {key : String} {value : α} {e : String × α}
    (h : e ∈ insert entries key value) :
    e = (key, value) ∨ e ∈ entries ∧ e.1 ≠ key := by
  induction entries with
  | nil => exact Or.inl (by simpa [insert] using h)
  | cons head rest ih =>
      obtain ⟨k, v⟩ := head
      rw [keys_cons, List.nodup_cons] at hnodup
      by_cases hk : k = key
      · subst hk
        simp only [insert, if_true, List.mem_cons] at h
        rcases h with rfl | hrest
        · exact Or.inl rfl
        · refine Or.inr ⟨List.mem_cons_of_mem _ hrest, ?_⟩
          rintro rfl
          have hmem := mem_keys hrest
          exact hnodup.1 hmem
      · simp only [insert, hk, if_false, List.mem_cons] at h
        rcases h with rfl | hrest
        · exact Or.inr ⟨List.mem_cons_self, hk⟩
        · rcases ih hnodup.2 hrest with heq | ⟨hmem, hne⟩
          · exact Or.inl heq
          · exact Or.inr ⟨List.mem_cons_of_mem _ hmem, hne⟩

/-! ## Maps under a field -/

/-- Every entry stands under the key that is read off its value, and no key
occurs twice. -/
structure KeyedBy (key : α → String) (entries : Entries α) : Prop where
  key_eq : ∀ e ∈ entries, e.1 = key e.2
  nodup : (keys entries).Nodup

namespace KeyedBy

variable {key : α → String} {entries : Entries α}

theorem nil (key : α → String) : KeyedBy key [] := ⟨by simp, by simp⟩

theorem insert (h : KeyedBy key entries) (value : α) :
    KeyedBy key (insert entries (key value) value) where
  key_eq e he := by
    rcases mem_insert h.nodup he with rfl | ⟨hmem, _⟩
    · rfl
    · exact h.key_eq e hmem
  nodup := nodup_insert h.nodup _ _

/-- The keys of a keyed map are those of its values. -/
theorem keys_eq (h : KeyedBy key entries) :
    keys entries = (entries.map Prod.snd).map key := by
  rw [keys, List.map_map]
  exact List.map_congr_left h.key_eq

/-- A key is in a keyed map just if one of its values has it. -/
theorem mem_keys_iff (h : KeyedBy key entries) (k : String) :
    k ∈ keys entries ↔ ∃ value ∈ entries.map Prod.snd, key value = k := by
  rw [h.keys_eq, List.mem_map]

/-- A value is found under its own field. -/
theorem get?_key (h : KeyedBy key entries) {value : α}
    (hmem : value ∈ entries.map Prod.snd) :
    get? entries (key value) = some value := by
  obtain ⟨⟨k, v⟩, he, rfl⟩ := List.mem_map.1 hmem
  have hk : k = key v := h.key_eq _ he
  exact get?_of_mem h.nodup (hk ▸ he)

end KeyedBy

end InfraGraph.Entries
