import InfraGraph.Graph.Snapshot
import InfraGraph.Decimal.Read
import InfraGraph.Proofs.Text.Lines

/-!
# What a snapshot shows of a graph

A snapshot holds the parts of a graph in their order. Only the labels of components change: each is
kept where it first occurs. Going through labels with those already seen at hand gives the same
labels, and every property of the result is kept by a step of that walk: there are no repeats, no
label is lost, and labels stand in the order in which they first occur.

The line that sums up a snapshot consists of words, and the numbers among them are the counts.

## Main results

* `eraseDups_eq_unseen` — each item at its first place, by a walk that remembers what it has seen.
* `firstOccurrences_eraseDups` — what that does to a list.
* `Snapshot.numbersIn_summary` — the counts are read off the line again.
* `Graph.snapshot_faithful` — what a snapshot shows of a graph.
-/

namespace InfraGraph

variable {α : Type} [DecidableEq α]

/-! ## First occurrences -/

/-- What in a list has not been seen before; each item is seen from then on. -/
def unseen (seen : List α) : List α → List α
  | [] => []
  | a :: rest => if a ∈ seen then unseen seen rest else a :: unseen (a :: seen) rest

/-- A list holds the items of another one without repeats, in the order in which they first
occur. -/
structure FirstOccurrences (items distinct : List α) : Prop where
  nodup : distinct.Nodup
  mem_iff : ∀ a, a ∈ distinct ↔ a ∈ items
  sublist : distinct.Sublist items
  ordered : ∀ a ∈ items, ∀ b ∈ items,
    (distinct.idxOf a < distinct.idxOf b ↔ items.idxOf a < items.idxOf b)

section Unseen

variable {seen items : List α} {a b : α}

private theorem unseen_sublist (seen items : List α) : (unseen seen items).Sublist items := by
  induction items generalizing seen with
  | nil => exact .slnil
  | cons x rest ih =>
      rw [unseen]
      split
      · exact (ih seen).cons x
      · exact (ih (x :: seen)).cons_cons x

/-- The unseen items are those that have not been seen. -/
theorem mem_unseen_iff : a ∈ unseen seen items ↔ a ∈ items ∧ a ∉ seen := by
  induction items generalizing seen with
  | nil => simp [unseen]
  | cons x rest ih =>
      rw [unseen]
      by_cases hx : x ∈ seen
      · rw [if_pos hx, ih, List.mem_cons]
        constructor
        · exact fun h => ⟨.inr h.1, h.2⟩
        · rintro ⟨rfl | ha, hseen⟩
          · exact absurd hx hseen
          · exact ⟨ha, hseen⟩
      · rw [if_neg hx, List.mem_cons, List.mem_cons, ih, List.mem_cons, not_or]
        constructor
        · rintro (rfl | ⟨ha, -, hseen⟩)
          · exact ⟨.inl rfl, hx⟩
          · exact ⟨.inr ha, hseen⟩
        · rintro ⟨rfl | ha, hseen⟩
          · exact .inl rfl
          · by_cases hax : a = x
            · exact .inl hax
            · exact .inr ⟨ha, hax, hseen⟩

private theorem nodup_unseen (seen items : List α) : (unseen seen items).Nodup := by
  induction items generalizing seen with
  | nil => exact List.nodup_nil
  | cons x rest ih =>
      rw [unseen]
      split
      · exact ih seen
      · refine List.nodup_cons.2 ⟨fun hx => ?_, ih (x :: seen)⟩
        exact (mem_unseen_iff.1 hx).2 List.mem_cons_self

/-- Of two items that are still to be seen, the one that occurs first is kept first. -/
theorem idxOf_unseen_lt_iff (ha : a ∈ items) (hb : b ∈ items) (haseen : a ∉ seen)
    (hbseen : b ∉ seen) :
    (unseen seen items).idxOf a < (unseen seen items).idxOf b ↔
      items.idxOf a < items.idxOf b := by
  induction items generalizing seen with
  | nil => cases ha
  | cons x rest ih =>
      have hstep : ∀ {seen : List α}, a ≠ x → b ≠ x → a ∉ seen → b ∉ seen →
          ((unseen seen rest).idxOf a < (unseen seen rest).idxOf b ↔
            (x :: rest).idxOf a < (x :: rest).idxOf b) := by
        intro seen hax hbx haseen hbseen
        rw [ih (List.mem_of_ne_of_mem hax ha) (List.mem_of_ne_of_mem hbx hb) haseen hbseen,
          List.idxOf_cons_ne _ (Ne.symm hax), List.idxOf_cons_ne _ (Ne.symm hbx),
          Nat.succ_lt_succ_iff]
      rw [unseen]
      by_cases hx : x ∈ seen
      · rw [if_pos hx]
        exact hstep (fun h => haseen (h ▸ hx)) (fun h => hbseen (h ▸ hx)) haseen hbseen
      rw [if_neg hx]
      by_cases hax : a = x
      · subst hax
        by_cases hbx : b = a
        · simp [hbx]
        · simp [List.idxOf_cons_ne _ (Ne.symm hbx)]
      by_cases hbx : b = x
      · subst hbx
        simp
      · rw [List.idxOf_cons_ne _ (Ne.symm hax), List.idxOf_cons_ne _ (Ne.symm hbx),
          Nat.succ_lt_succ_iff]
        exact hstep hax hbx (by simp [hax, haseen]) (by simp [hbx, hbseen])

theorem eraseDups_filter_eq_unseen (seen items : List α) :
    (items.filter fun a => a ∉ seen).eraseDups = unseen seen items := by
  induction items generalizing seen with
  | nil => rfl
  | cons x rest ih =>
      rw [unseen]
      by_cases hx : x ∈ seen
      · rw [if_pos hx, List.filter_cons_of_neg (by simpa using hx), ih]
      · rw [if_neg hx, List.filter_cons_of_pos (by simpa using hx), List.eraseDups_cons,
          List.filter_filter, ← ih]
        congr 3
        funext a
        simp [beq_eq_decide]

/-- Erasing duplicates leaves the items that are unseen when they come. -/
theorem eraseDups_eq_unseen (items : List α) : items.eraseDups = unseen [] items := by
  rw [← eraseDups_filter_eq_unseen, List.filter_eq_self.2 (by simp)]

private theorem unseen_eq_self (h : items.Nodup) (hseen : ∀ a ∈ items, a ∉ seen) :
    unseen seen items = items := by
  induction items generalizing seen with
  | nil => rfl
  | cons x rest ih =>
      obtain ⟨hx, hrest⟩ := List.nodup_cons.1 h
      obtain ⟨hxseen, hseen⟩ := List.forall_mem_cons.1 hseen
      rw [unseen, if_neg hxseen, ih hrest fun a ha hmem => ?_]
      rcases List.mem_cons.1 hmem with rfl | hmem
      · exact hx ha
      · exact hseen a ha hmem

end Unseen

/-- Erasing duplicates leaves the first occurrence of each item. -/
theorem firstOccurrences_eraseDups (items : List α) : FirstOccurrences items items.eraseDups := by
  rw [eraseDups_eq_unseen]
  exact ⟨nodup_unseen [] items, fun a => by simp [mem_unseen_iff], unseen_sublist [] items,
    fun a ha b hb => idxOf_unseen_lt_iff ha hb List.not_mem_nil List.not_mem_nil⟩

/-- A list without repeats stays as it is. -/
theorem eraseDups_eq_self {items : List α} (h : items.Nodup) : items.eraseDups = items := by
  rw [eraseDups_eq_unseen]
  exact unseen_eq_self h fun a _ => List.not_mem_nil

/-! ## Components -/

/-- What is published of a component differs from it in its labels alone. -/
structure Component.ShownAs (c published : Component) : Prop where
  fields : published = { c with labels := published.labels }
  labels : FirstOccurrences c.labels published.labels
  settled : published.withDistinctLabels = published

private theorem Component.shownAs_withDistinctLabels (c : Component) :
    c.ShownAs c.withDistinctLabels where
  fields := rfl
  labels := firstOccurrences_eraseDups c.labels
  settled := by
    show { c with labels := c.labels.eraseDups.eraseDups } = { c with labels := c.labels.eraseDups }
    rw [eraseDups_eq_self (firstOccurrences_eraseDups c.labels).nodup]

/-! ## The line -/

/-- The numbers among the words of a line. -/
def numbersIn (line : List Char) : List Nat :=
  ((Text.splitOn [' '] line).filter Decimal.isDigits).map Decimal.valueOf

private theorem isDigits_toDigits (n : Nat) : Decimal.isDigits (Nat.toDigits 10 n) = true := by
  rw [Decimal.isDigits, Bool.and_eq_true, List.all_eq_true]
  exact ⟨by simp [Nat.toDigits_ne_nil],
    fun c hc => Nat.isDigit_of_mem_toDigits (by decide) (by decide) hc⟩

private theorem valueOf_toDigits (n : Nat) : Decimal.valueOf (Nat.toDigits 10 n) = n :=
  Nat.ofDigitChars_toDigits (by decide) (by decide)

private theorem space_notMem_toDigits (n : Nat) : ' ' ∉ Nat.toDigits 10 n := by
  intro h
  have hdigit := Nat.isDigit_of_mem_toDigits (by decide) (by decide) h
  revert hdigit
  decide

namespace Snapshot

/-- The words of the line for four counts. -/
def summaryWords (components relations health events : Nat) : List (List Char) :=
  [Nat.toDigits 10 components, "components,".toList, Nat.toDigits 10 relations,
    "relations,".toList, Nat.toDigits 10 health, "health".toList, "states,".toList,
    Nat.toDigits 10 events, "events".toList]

private theorem toList_summary (s : Snapshot) :
    s.summary.toList = [' '].intercalate
      (summaryWords s.components.length s.relations.length s.health.length s.events.length) := by
  simp [summary, summaryWords, Nat.toString_eq_repr, Nat.toList_repr, List.intercalate]

/-- The numbers in a summary are those of components, relations, health states and events. -/
theorem numbersIn_summary (s : Snapshot) :
    numbersIn s.summary.toList =
      [s.components.length, s.relations.length, s.health.length, s.events.length] := by
  have hwords : ∀ word ∈ summaryWords s.components.length s.relations.length s.health.length
      s.events.length, ' ' ∉ word := by
    simp [summaryWords, space_notMem_toDigits]
  rw [numbersIn, Text.splitOn_singleton, toList_summary,
    List.splitOn_intercalate ' ' hwords (List.cons_ne_nil _ _)]
  have hcomponents : Decimal.isDigits "components,".toList = false := by decide
  have hrelations : Decimal.isDigits "relations,".toList = false := by decide
  have hhealth : Decimal.isDigits "health".toList = false := by decide
  have hstates : Decimal.isDigits "states,".toList = false := by decide
  have hevents : Decimal.isDigits "events".toList = false := by decide
  simp only [summaryWords, List.filter_cons, isDigits_toDigits, hcomponents, hrelations, hhealth,
    hstates, hevents, List.filter_nil, if_true, Bool.false_eq_true, if_false, List.map_cons,
    List.map_nil, valueOf_toDigits]

end Snapshot

/-! ## Snapshots -/

/-- A snapshot has the components of the graph in their order, each with its labels where they first
occur and with everything else as it was, and all else of the graph as it is. The line that sums it
up gives the four counts of the graph. -/
theorem Graph.snapshot_faithful (g : Graph) :
    List.Forall₂ Component.ShownAs g.componentList g.snapshot.components ∧
      g.snapshot.relations = g.relationList ∧
      g.snapshot.health = g.healthList ∧
      g.snapshot.events = g.events ∧
      numbersIn g.snapshot.summary.toList =
        [g.componentList.length, g.relationList.length, g.healthList.length, g.events.length] := by
  refine ⟨?_, rfl, rfl, rfl, ?_⟩
  · rw [Graph.snapshot, List.forall₂_map_right_iff, List.forall₂_same]
    exact fun c _ => c.shownAs_withDistinctLabels
  · rw [Snapshot.numbersIn_summary]
    simp [Graph.snapshot]

end InfraGraph
