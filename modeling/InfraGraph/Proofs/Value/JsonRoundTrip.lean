import InfraGraph.Proofs.Value.JsonReading
import InfraGraph.Text.Search

/-!
# Values, published and read again

A value is read back from its JSON text if there is no floating-point number in it: one that is not
finite is written like null. The proof is by induction on the absence of such numbers. What is
written of a value is read back in front of every rest that can stand behind a part of an array or
an object; parts that are read back one by one are then read back with commas between them.

## Main results

* `readEnclosed_listed` — arrays and objects are read back if their parts are.
* `readJson_json` — every value without floating-point numbers is read back.
-/

namespace InfraGraph.Value

open InfraGraph.Decimal (wordText)

variable {α : Type}

/-! ## Parts with commas between them -/

/-- What stands behind a part: the end, a comma or a closing mark. -/
def Follows (rest : List Char) : Prop :=
  ∀ c more, rest = c :: more → c = ',' ∨ c = ']' ∨ c = '\x7d'

private theorem Follows.endsNumber {rest : List Char} (h : Follows rest) :
    Reading.EndsNumber rest := by
  intro c more hcons
  rcases h c more hcons with rfl | rfl | rfl
  · decide
  · decide
  · decide

private theorem follows_cons {c : Char} (hc : c = ',' ∨ c = ']' ∨ c = '\x7d') (more : List Char) :
    Follows (c :: more) := by
  intro d _ h
  obtain ⟨rfl, -⟩ := List.cons.inj h
  exact hc

/-- The parts of an array or an object as they are written. -/
def listed (write : α → List Char) (parts : List α) : List Char :=
  [','].intercalate (parts.map write)

theorem listed_cons (write : α → List Char) (a : α) {parts : List α} (h : parts ≠ []) :
    listed write (a :: parts) = write a ++ ',' :: listed write parts := by
  have hne : parts.map write ≠ [] := fun hnil => h (List.map_eq_nil_iff.1 hnil)
  rw [listed, List.map_cons, Text.intercalate_cons _ _ hne, List.append_assoc]
  rfl

private theorem length_write_le (write : α → List Char) {a : α} {parts : List α} (ha : a ∈ parts) :
    (write a).length ≤ (listed write parts).length := by
  induction parts with
  | nil => exact absurd ha List.not_mem_nil
  | cons b parts ih =>
      by_cases hnil : parts = []
      · subst hnil
        obtain rfl := List.mem_singleton.1 ha
        simp [listed, List.intercalate]
      · rw [listed_cons write b hnil, List.length_append, List.length_cons]
        rcases List.mem_cons.1 ha with rfl | hmem
        · omega
        · have := ih hmem
          omega

private theorem length_parts_le {write : α → List Char} {parts : List α}
    (hwrite : ∀ a ∈ parts, write a ≠ []) : parts.length ≤ (listed write parts).length := by
  induction parts with
  | nil => exact Nat.zero_le _
  | cons a parts ih =>
      have hpos := List.length_pos_iff.2 (hwrite a List.mem_cons_self)
      by_cases hnil : parts = []
      · subst hnil
        simpa [listed, List.intercalate, Nat.succ_le_iff] using hpos
      · have := ih fun b hb => hwrite b (List.mem_cons_of_mem a hb)
        rw [listed_cons write a hnil, List.length_append, List.length_cons, List.length_cons]
        omega

section

variable {part : List Char → Option (α × List Char)} {write : α → List Char} {closing : Char}
  {parts : List α}

/-- Parts that are read back one by one are read back with commas between them. -/
theorem readParts_listed (hclosing : closing = ']' ∨ closing = '\x7d') (hne : parts ≠ [])
    (hread : ∀ a ∈ parts, ∀ {rest}, Follows rest → part (write a ++ rest) = some (a, rest))
    {n : Nat} (hn : parts.length ≤ n) (rest : List Char) :
    readParts part closing n (listed write parts ++ closing :: rest) = some (parts, rest) := by
  induction parts generalizing n with
  | nil => exact absurd rfl hne
  | cons a parts ih =>
      rw [List.length_cons] at hn
      obtain ⟨m, rfl⟩ : ∃ m, n = m + 1 := ⟨n - 1, by omega⟩
      by_cases hnil : parts = []
      · subst hnil
        have ha := hread a List.mem_cons_self (follows_cons (.inr hclosing) rest)
        have hblank : isJsonBlank closing = false := by rcases hclosing with rfl | rfl <;> rfl
        have hcomma : closing ≠ ',' := by rcases hclosing with rfl | rfl <;> decide
        have hlisted : listed write [a] = write a := by simp [listed, List.intercalate]
        rw [hlisted, readParts, ha]
        simp [afterBlanks_cons hblank, hcomma]
      · have ha := hread a List.mem_cons_self
          (follows_cons (.inl rfl) (listed write parts ++ closing :: rest))
        have hmore := ih hnil (fun b hb => hread b (List.mem_cons_of_mem a hb))
          (by omega : parts.length ≤ m)
        rw [listed_cons write a hnil, List.append_assoc, List.cons_append, readParts, ha]
        simp [afterBlanks_cons (c := ',') rfl, hmore]

/-- A part begins with a character that tells it from blanks and closing marks. -/
def BeginsPart (cs : List Char) : Prop :=
  ∃ c more, cs = c :: more ∧ isJsonBlank c = false ∧ c ≠ ']' ∧ c ≠ '\x7d'

/-- Parts between brackets are read back if each of them is. -/
theorem readEnclosed_listed (hclosing : closing = ']' ∨ closing = '\x7d')
    (hbegins : ∀ a ∈ parts, BeginsPart (write a))
    (hread : ∀ a ∈ parts, ∀ {rest}, Follows rest → part (write a ++ rest) = some (a, rest))
    {n : Nat} (hn : (listed write parts).length ≤ n) (rest : List Char) :
    readEnclosed part closing n (listed write parts ++ closing :: rest) = some (parts, rest) := by
  have hblank : isJsonBlank closing = false := by rcases hclosing with rfl | rfl <;> rfl
  cases hparts : parts with
  | nil =>
      show readEnclosed part closing n (closing :: rest) = _
      simp [readEnclosed, afterBlanks_cons hblank]
  | cons a more =>
      have hne : parts ≠ [] := by simp [hparts]
      have hlength : parts.length ≤ n := by
        refine (length_parts_le fun b hb hnil => ?_).trans hn
        obtain ⟨c, cs, hwrite, -⟩ := hbegins b hb
        rw [hnil] at hwrite
        cases hwrite
      have hall := readParts_listed hclosing hne hread hlength rest
      obtain ⟨c, cs, hwrite, hc, hlist, hobject⟩ := hbegins a (by simp [hparts])
      have hbegin : ∃ cs, listed write parts = c :: cs := by
        by_cases hmore : more = []
        · exact ⟨cs, by simp [hparts, hmore, listed, List.intercalate, hwrite]⟩
        · exact ⟨_, by rw [hparts, listed_cons write a hmore, hwrite, List.cons_append]⟩
      obtain ⟨ds, hds⟩ := hbegin
      have hnot : c ≠ closing := by
        rcases hclosing with rfl | rfl
        · exact hlist
        · exact hobject
      rw [← hparts]
      rw [hds, List.cons_append] at hall ⊢
      rw [readEnclosed, afterBlanks_cons hc]
      exact (if_neg hnot).trans hall

end

/-! ## Values -/

/-- There is no floating-point number in a value. -/
inductive FloatFree : Value → Prop
  | null : FloatFree null
  | bool (b : Bool) : FloatFree (bool b)
  | int (n : Int64) : FloatFree (int n)
  | string (s : String) : FloatFree (string s)
  | list {items : List Value} (h : ∀ v ∈ items, FloatFree v) : FloatFree (list items)
  | map {entries : List (String × Value)} (h : ∀ e ∈ entries, FloatFree e.2) :
      FloatFree (map entries)

/-- A member of an object as it is written. -/
def memberText (e : String × Value) : List Char :=
  (jsonString e.1).toList ++ ':' :: (json e.2).toList

/-- A list is written with its items between brackets. -/
theorem toList_json_list (items : List Value) :
    (json (list items)).toList = '[' :: (listed (fun v => (json v).toList) items ++ [']']) := by
  have hitems : (jsonItems items).map String.toList = items.map fun v => (json v).toList := by
    induction items with
    | nil => rfl
    | cons v items ih => rw [jsonItems, List.map_cons, List.map_cons, ih]
  simp [json, listed, hitems]

/-- A map is written with its members between braces. -/
theorem toList_json_map (entries : List (String × Value)) :
    (json (map entries)).toList = '\x7b' :: (listed memberText entries ++ ['\x7d']) := by
  have hentries : (jsonEntries entries).map String.toList = entries.map memberText := by
    induction entries with
    | nil => rfl
    | cons e entries ih => simp [jsonEntries, ih, memberText]
  simp [json, listed, hentries]

private theorem beginsPart_memberText (e : String × Value) : BeginsPart (memberText e) := by
  obtain ⟨cs, hstring, -⟩ := readString_jsonString e.1 []
  exact ⟨'"', cs ++ ':' :: (json e.2).toList, by rw [memberText, hstring]; rfl, by decide⟩

/-- A member is read back where its value is. -/
theorem readMember_memberText {value : List Char → Option (Value × List Char)} {e : String × Value}
    {rest : List Char} (hvalue : value ((json e.2).toList ++ rest) = some (e.2, rest)) :
    readMember value (memberText e ++ rest) = some (e, rest) := by
  obtain ⟨cs, hkey, hread⟩ := readString_jsonString e.1 (':' :: ((json e.2).toList ++ rest))
  have htext : memberText e ++ rest = '"' :: (cs ++ ':' :: ((json e.2).toList ++ rest)) := by
    simp [memberText, hkey]
  rw [htext, readMember, afterBlanks_cons rfl]
  simp [hread, afterBlanks_cons (c := ':') rfl, hvalue]

/-- Integers begin with a digit or a minus sign. -/
theorem exists_wordText (w : Int64) :
    ∃ c cs, wordText w = c :: cs ∧ ∀ d, d.isDigit = false → d ≠ '-' → c ≠ d := by
  obtain ⟨d, ds, hds, hd⟩ := exists_digits w.toInt.natAbs
  rw [wordText, Decimal.intText, hds]
  by_cases hneg : w.toInt < 0
  · exact ⟨'-', d :: ds, if_pos hneg, fun e _ he => he.symm⟩
  · exact ⟨d, ds, if_neg hneg, fun e he _ => Reading.ne_of_class hd he⟩

/-- Values begin with none of the marks that stand behind them. -/
theorem beginsPart_json {v : Value} (h : FloatFree v) : BeginsPart (json v).toList := by
  cases h with
  | null => exact ⟨'n', "ull".toList, rfl, by decide⟩
  | bool b =>
      cases b with
      | true => exact ⟨'t', "rue".toList, rfl, by decide⟩
      | false => exact ⟨'f', "alse".toList, rfl, by decide⟩
  | int w =>
      obtain ⟨c, cs, hw, hc⟩ := exists_wordText w
      have hblank : isJsonBlank c = false := by
        simp [isJsonBlank, hc ' ' rfl, hc '\t' rfl, hc '\n' rfl, hc '\r' rfl]
      exact ⟨c, cs, by simp [json, hw], hblank, hc ']' rfl (by decide), hc '\x7d' rfl (by decide)⟩
  | string s =>
      obtain ⟨cs, hstring, -⟩ := readString_jsonString s []
      exact ⟨'"', cs, hstring, by decide⟩
  | list h => exact ⟨'[', _, toList_json_list _, by decide⟩
  | map h => exact ⟨'\x7b', _, toList_json_map _, by decide⟩

/-- An integer is read as a number, since no other value begins like it. -/
theorem readValue_wordText (w : Int64) (n : Nat) {rest : List Char} (hrest : Follows rest) :
    readValue (n + 1) (wordText w ++ rest) = some (.int w, rest) := by
  have hnumber := readNumber_wordText w hrest.endsNumber
  obtain ⟨c, cs, hw, hc⟩ := exists_wordText w
  have hblank : isJsonBlank c = false := by
    simp [isJsonBlank, hc ' ' rfl, hc '\t' rfl, hc '\n' rfl, hc '\r' rfl]
  have hword : readWord (c :: (cs ++ rest)) = none := by
    simp [readWord, jsonWords, (hc 'n' rfl (by decide)).symm, (hc 't' rfl (by decide)).symm,
      (hc 'f' rfl (by decide)).symm]
  rw [hw, List.cons_append] at hnumber ⊢
  rw [readValue, afterBlanks_cons hblank]
  dsimp only
  rw [if_neg (hc '"' rfl (by decide)), if_neg (hc '[' rfl (by decide)),
    if_neg (hc '\x7b' rfl (by decide)), hword, Option.none_or, hnumber]

/-- What is written of a value without floating-point numbers is read back, whatever follows. -/
theorem readValue_json {v : Value} (h : FloatFree v) {n : Nat} (hn : (json v).toList.length < n)
    {rest : List Char} (hrest : Follows rest) :
    readValue n ((json v).toList ++ rest) = some (v, rest) := by
  induction h generalizing n rest with
  | null =>
      obtain ⟨m, rfl⟩ : ∃ m, n = m + 1 := ⟨n - 1, by omega⟩
      rfl
  | bool b =>
      obtain ⟨m, rfl⟩ : ∃ m, n = m + 1 := ⟨n - 1, by omega⟩
      cases b <;> rfl
  | int w =>
      obtain ⟨m, rfl⟩ : ∃ m, n = m + 1 := ⟨n - 1, by omega⟩
      have htext : (json (.int w)).toList = wordText w := by simp [json]
      rw [htext]
      exact readValue_wordText w m hrest
  | string s =>
      obtain ⟨m, rfl⟩ : ∃ m, n = m + 1 := ⟨n - 1, by omega⟩
      obtain ⟨cs, hstring, hread⟩ := readString_jsonString s rest
      rw [json, hstring]
      show (readString (cs ++ rest)).map _ = _
      rw [hread]
      rfl
  | @list items hitems ih =>
      rw [toList_json_list, List.length_cons, List.length_append] at hn
      obtain ⟨m, rfl⟩ : ∃ m, n = m + 1 := ⟨n - 1, by omega⟩
      have hread : ∀ v ∈ items, ∀ {rest}, Follows rest →
          readValue m ((json v).toList ++ rest) = some (v, rest) := by
        intro v hv rest hrest
        have hlength : (json v).toList.length ≤ (listed (fun v => (json v).toList) items).length :=
          length_write_le (fun v => (json v).toList) hv
        exact ih v hv (by omega) hrest
      have henclosed := readEnclosed_listed (.inl rfl) (fun v hv => beginsPart_json (hitems v hv))
        hread (n := m) (by omega) rest
      rw [toList_json_list, List.cons_append, List.append_assoc, List.singleton_append]
      show (readEnclosed (readValue m) ']' m _).map _ = _
      rw [henclosed]
      rfl
  | @map entries hentries ih =>
      rw [toList_json_map, List.length_cons, List.length_append] at hn
      obtain ⟨m, rfl⟩ : ∃ m, n = m + 1 := ⟨n - 1, by omega⟩
      have hread : ∀ e ∈ entries, ∀ {rest}, Follows rest →
          readMember (readValue m) (memberText e ++ rest) = some (e, rest) := by
        intro e he rest hrest
        have hlength : (memberText e).length ≤ (listed memberText entries).length :=
          length_write_le memberText he
        rw [memberText, List.length_append, List.length_cons] at hlength
        exact readMember_memberText (ih e he (by omega) hrest)
      have henclosed := readEnclosed_listed (.inr rfl) (fun e _ => beginsPart_memberText e)
        hread (n := m) (by omega) rest
      rw [toList_json_map, List.cons_append, List.append_assoc, List.singleton_append]
      show (readEnclosed (readMember (readValue m)) '\x7d' m _).map _ = _
      rw [henclosed]
      rfl

/-- Every value without floating-point numbers is read back from its JSON text. -/
theorem readJson_json {v : Value} (h : FloatFree v) : readJson (json v) = some v := by
  have hfollows : Follows [] := fun _ _ hnil => by cases hnil
  have hread := readValue_json h (n := (json v).length + 1)
    (by rw [String.length_toList]; omega) hfollows
  rw [List.append_nil] at hread
  rw [readJson, hread]
  rfl

/-- Texts with blanks and escapes that are never published are read as well. -/
example : readJson "[ null ,\"\\ud83D\\uDE00\"]" = some (.list [.null, .string "😀"]) := by cbv

end InfraGraph.Value
