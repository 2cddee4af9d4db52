/-!
# Entries: maps that keep the order of insertion

A map with text keys is the list of its entries in the order in which their keys were first written.
Writing an existing key changes its value in place; removing and reordering do not exist, so the
keys of a map only ever grow at the end.

## Main results

* `get?_insert` — `insert` changes the value under its own key and no other.
* `keys_insert` — it keeps the keys and their order and adds a new key at the end.
* `nodup_insert` — no key ever occurs twice.
-/

namespace InfraGraph

/-- A map with text keys, as its entries in the order of insertion. -/
abbrev Entries (α : Type) := List (String × α)

namespace Entries

variable {α : Type}

/-- The value under a key. -/
def get? : Entries α → String → Option α
  | [], _ => none
  | (k, v) :: rest, key => if k = key then some v else get? rest key

/-- The keys in order. -/
def keys (entries : Entries α) : List String := entries.map Prod.fst

/-- Whether a key has a value. -/
def hasKey (entries : Entries α) (key : String) : Bool := (get? entries key).isSome

/-- The map with a value written under a key. -/
def insert : Entries α → String → α → Entries α
  | [], key, value => [(key, value)]
  | (k, v) :: rest, key, value =>
    if k = key then (k, value) :: rest else (k, v) :: insert rest key value

/-- The map with all entries of another one written into it, in order. -/
def extend (entries more : Entries α) : Entries α :=
  more.foldl (fun m e => insert m e.1 e.2) entries

/-- The map that a list of writes makes. -/
def ofList (writes : List (String × α)) : Entries α := extend [] writes

/-! ## Reading after writing -/

@[simp] theorem get?_nil (key : String) : get? ([] : Entries α) key = none := rfl

/-- Writing a key changes its own value and no other. -/
theorem get?_insert (entries : Entries α) (key other : String) (value : α) :
    get? (insert entries key value) other =
      if key = other then some value else get? entries other := by
  induction entries with
  | nil => simp [insert, get?]
  | cons e rest ih =>
    obtain ⟨k, v⟩ := e
    by_cases hk : k = key
    · subst hk
      by_cases ho : k = other <;> simp [insert, get?, ho]
    · by_cases ho : k = other
      · subst ho
        simp [insert, get?, hk, Ne.symm hk]
      · simp [insert, get?, hk, ho, ih]

@[simp] theorem get?_insert_self (entries : Entries α) (key : String) (value : α) :
    get? (insert entries key value) key = some value := by
  simp [get?_insert]

/-! ## The keys -/

@[simp] theorem keys_nil : keys ([] : Entries α) = [] := rfl

@[simp] theorem keys_cons (e : String × α) (rest : Entries α) :
    keys (e :: rest) = e.1 :: keys rest := rfl

/-- A map has a value under just the keys that it holds. -/
theorem get?_isSome_iff (entries : Entries α) (key : String) :
    (get? entries key).isSome = true ↔ key ∈ keys entries := by
  induction entries with
  | nil => simp
  | cons e rest ih =>
    obtain ⟨k, v⟩ := e
    by_cases hk : k = key
    · simp [get?, hk]
    · simp [get?, hk, ih, Ne.symm hk]

theorem hasKey_iff (entries : Entries α) (key : String) :
    hasKey entries key = true ↔ key ∈ keys entries :=
  get?_isSome_iff entries key

/-- Writing a key keeps the order of the keys; a new one comes last. -/
theorem keys_insert (entries : Entries α) (key : String) (value : α) :
    keys (insert entries key value) =
      if key ∈ keys entries then keys entries else keys entries ++ [key] := by
  induction entries with
  | nil => simp [insert]
  | cons e rest ih =>
    obtain ⟨k, v⟩ := e
    by_cases hk : k = key
    · simp [insert, hk]
    · by_cases hmem : key ∈ keys rest <;> simp [insert, hk, ih, hmem, Ne.symm hk]

theorem keys_prefix_insert (entries : Entries α) (key : String) (value : α) :
    keys entries <+: keys (insert entries key value) := by
  rw [keys_insert]
  split
  · exact List.prefix_rfl
  · exact List.prefix_append _ _

/-- Writing never makes a key occur twice. -/
theorem nodup_insert {entries : Entries α} (h : (keys entries).Nodup) (key : String) (value : α) :
    (keys (insert entries key value)).Nodup := by
  rw [keys_insert]
  split
  · exact h
  · rename_i hmem
    rw [List.nodup_append]
    refine ⟨h, by simp, ?_⟩
    intro a ha b hb
    simp only [List.mem_singleton] at hb
    subst hb
    exact fun e => hmem (e ▸ ha)

end Entries

end InfraGraph
