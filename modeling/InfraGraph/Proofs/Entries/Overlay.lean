import InfraGraph.Proofs.Entries.Keyed

/-!
# One map laid over another

Writing all entries of one map into another, one after the other, lays the first one over the
second: the old keys keep their places and take new values where there are any, and the keys that
are new stand behind them, in their own order. Both maps must have each key once.

## Main results

* `insert_of_mem` — an old key keeps its place.
* `extend_eq_overlay` — what all writes come to.
-/

namespace InfraGraph.Entries

variable {α : Type}

/-- The first map with the entries of the second laid over it. -/
def overlay (base own : Entries α) : Entries α :=
  base.map (fun e => (e.1, (get? own e.1).getD e.2)) ++ own.filter fun e => e.1 ∉ keys base

/-- Nothing is found under just the keys that are not there. -/
theorem get?_eq_none_iff (entries : Entries α) (key : String) :
    get? entries key = none ↔ key ∉ keys entries := by
  rw [← get?_isSome_iff, Option.not_isSome_iff_eq_none]

theorem get?_cons_of_ne {key other : String} (h : key ≠ other) (value : α) (rest : Entries α) :
    get? ((key, value) :: rest) other = get? rest other := by
  simp [get?, h]

/-- A key that is there already keeps its place. -/
theorem insert_of_mem {entries : Entries α} (hnodup : (keys entries).Nodup) {key : String}
    (h : key ∈ keys entries) (value : α) :
    insert entries key value = entries.map fun e => if e.1 = key then (key, value) else e := by
  induction entries with
  | nil => simp at h
  | cons e rest ih =>
      obtain ⟨k, v⟩ := e
      rw [keys_cons, List.nodup_cons] at hnodup
      by_cases hk : k = key
      · subst hk
        have hother : ∀ e ∈ rest, (if e.1 = k then (k, value) else e) = e := by
          intro e he
          refine if_neg ?_
          rintro rfl
          have hmem := mem_keys he
          exact hnodup.1 hmem
        simp [insert, List.map_congr_left hother]
      · have hkey : key ∈ keys rest := by simpa [Ne.symm hk] using h
        simp [insert, hk, ih hnodup.2 hkey]

section

variable {base rest : Entries α} {key : String}

/-- Writing an old key first changes its value only. -/
theorem overlay_insert_of_mem (hbase : (keys base).Nodup) (hmem : key ∈ keys base)
    (hrest : key ∉ keys rest) (value : α) :
    overlay (insert base key value) rest = overlay base ((key, value) :: rest) := by
  have hkeys : keys (insert base key value) = keys base := by rw [keys_insert, if_pos hmem]
  have hnone : get? rest key = none := (get?_eq_none_iff rest key).2 hrest
  have hvalue : ∀ e ∈ base,
      (fun e => (e.1, (get? rest e.1).getD e.2)) (if e.1 = key then (key, value) else e) =
        (e.1, (get? ((key, value) :: rest) e.1).getD e.2) := by
    intro e _
    by_cases he : e.1 = key
    · simp [he, hnone, get?]
    · rw [if_neg he, get?_cons_of_ne (Ne.symm he)]
  unfold overlay
  rw [hkeys, List.filter_cons_of_neg (by simpa using hmem), insert_of_mem hbase hmem, List.map_map]
  exact congrArg (· ++ _) (List.map_congr_left hvalue)

/-- Writing a new key first puts its entry between the old ones and the further new ones. -/
theorem overlay_insert_of_notMem (hmem : key ∉ keys base) (hrest : key ∉ keys rest) (value : α) :
    overlay (insert base key value) rest = overlay base ((key, value) :: rest) := by
  have hkeys : keys (insert base key value) = keys base ++ [key] := by
    rw [keys_insert, if_neg hmem]
  have hnone : get? rest key = none := (get?_eq_none_iff rest key).2 hrest
  have hfilter : rest.filter (fun e => e.1 ∉ keys base ++ [key]) =
      rest.filter fun e => e.1 ∉ keys base := by
    refine List.filter_congr fun e he => ?_
    have hne : e.1 ≠ key := fun heq => hrest (heq ▸ mem_keys he)
    simp [hne]
  have hvalue : ∀ e ∈ base, (e.1, (get? rest e.1).getD e.2) =
      (e.1, (get? ((key, value) :: rest) e.1).getD e.2) := by
    intro e he
    have hne : key ≠ e.1 := fun heq => hmem (heq ▸ mem_keys he)
    rw [get?_cons_of_ne hne]
  unfold overlay
  rw [hkeys, hfilter, List.filter_cons_of_pos (by simpa using hmem), insert_of_notMem hmem,
    List.map_append, List.map_congr_left hvalue]
  simp [hnone]

end

/-- Writing all entries of a map lays it over. -/
theorem extend_eq_overlay {base own : Entries α} (hbase : (keys base).Nodup)
    (hown : (keys own).Nodup) : extend base own = overlay base own := by
  induction own generalizing base with
  | nil => simp [extend, overlay]
  | cons e rest ih =>
      obtain ⟨key, value⟩ := e
      rw [keys_cons, List.nodup_cons] at hown
      -- The first entry is written into the base, and the rest is laid over what this makes.
      have hwritten : extend base ((key, value) :: rest) =
          overlay (insert base key value) rest := ih (nodup_insert hbase key value) hown.2
      rw [hwritten]
      by_cases hmem : key ∈ keys base
      · exact overlay_insert_of_mem hbase hmem hown.1 value
      · exact overlay_insert_of_notMem hmem hown.1 value

end InfraGraph.Entries
