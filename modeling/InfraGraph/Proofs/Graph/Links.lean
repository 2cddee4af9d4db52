import InfraGraph.Graph.Event
import InfraGraph.Proofs.Text.Pattern

/-!
# Links on events

A text writes a link as `[title](url)`. A title may have brackets in it and a URL parentheses, so
that one text may write several links; then the longest title is meant. Reading finds it, and so
does matching the pattern of links.

## Main results

* `exists_splitFrom?`, `splitFrom?_eq_some` — a split is found if there is one, and then that with
  the longest title.
* `read_eq_ok_iff` — the link that is read has the longest title.
* `captures_linkPattern` — the pattern captures the parts of the link that is read.
* `read_meaning` — which texts are links, and which link a text is.
-/

namespace InfraGraph.SourceLink

open Text

/-! ## Splitting -/

/-- A text, of which `taken` has been passed already, backwards, is divided into a title that does
not end before and a URL. -/
structure Divides (taken cs title url : List Char) : Prop where
  text_eq : taken.reverse ++ cs = title ++ ']' :: '(' :: (url ++ [')'])
  passed : taken.length ≤ title.length
  isTitle : isTitle title = true
  isUrl : isUrl url = true

/-- The split right behind what has been passed. -/
def splitHere? (taken cs : List Char) : Option (List Char × List Char) :=
  match cs with
  | ']' :: '(' :: rest =>
    if isTitle taken.reverse ∧ rest.getLast? = some ')' ∧ isUrl rest.dropLast then
      some (taken.reverse, rest.dropLast)
    else none
  | _ => none

/-- The last place at which a text can be split counts. -/
theorem splitFrom?_cons (taken : List Char) (c : Char) (cs : List Char) :
    splitFrom? taken (c :: cs) = (splitFrom? (c :: taken) cs).or (splitHere? taken (c :: cs)) :=
  rfl

section Split

variable {taken cs title url : List Char} {c : Char}

/-- A text is split here if a title stands before the mark and a URL behind it, up to the end. -/
theorem splitHere?_eq_some_iff :
    splitHere? taken cs = some (title, url) ↔ taken.reverse = title ∧
      cs = ']' :: '(' :: (url ++ [')']) ∧ isTitle title = true ∧ isUrl url = true := by
  unfold splitHere?
  split
  · rename_i rest
    constructor
    · intro h
      split at h
      · rename_i hparts
        obtain ⟨htitle, hlast, hurl⟩ := hparts
        obtain ⟨before, rfl⟩ := List.getLast?_eq_some_iff.1 hlast
        rw [List.dropLast_concat] at h hurl
        cases h
        exact ⟨rfl, rfl, htitle, hurl⟩
      · cases h
    · rintro ⟨rfl, hcs, htitle, hurl⟩
      obtain rfl : rest = url ++ [')'] := by simpa using hcs
      rw [List.dropLast_concat, if_pos ⟨htitle, List.getLast?_concat, hurl⟩]
  · rename_i hno
    refine ⟨nofun, ?_⟩
    rintro ⟨-, rfl, -⟩
    exact absurd rfl (hno _)

private theorem divides_of_splitHere? (h : splitHere? taken cs = some (title, url)) :
    Divides taken cs title url := by
  obtain ⟨rfl, rfl, htitle, hurl⟩ := splitHere?_eq_some_iff.1 h
  exact ⟨rfl, by rw [List.length_reverse], htitle, hurl⟩

private theorem Divides.of_cons (h : Divides (c :: taken) cs title url) :
    Divides taken (c :: cs) title url := by
  refine ⟨?_, ?_, h.isTitle, h.isUrl⟩
  · rw [← h.text_eq]
    simp
  · have hpassed := h.passed
    rw [List.length_cons] at hpassed
    omega

/-- A title ends right behind what has been passed, or one character must be passed more. -/
theorem Divides.cases (h : Divides taken (c :: cs) title url) :
    splitHere? taken (c :: cs) = some (title, url) ∨ Divides (c :: taken) cs title url := by
  rcases Nat.eq_or_lt_of_le h.passed with hsame | hmore
  · left
    rw [splitHere?_eq_some_iff]
    obtain ⟨htitle, hrest⟩ := List.append_inj h.text_eq (by rw [List.length_reverse, hsame])
    exact ⟨htitle, hrest, h.isTitle, h.isUrl⟩
  · right
    refine ⟨?_, hmore, h.isTitle, h.isUrl⟩
    rw [← h.text_eq]
    simp

private theorem not_divides_nil : ¬ Divides taken [] title url := by
  intro h
  have hlength := congrArg List.length h.text_eq
  have hpassed := h.passed
  simp only [List.append_nil, List.length_reverse, List.length_append, List.length_cons] at hlength
  omega

/-- A split is found if there is one. -/
theorem exists_splitFrom? (h : Divides taken cs title url) :
    ∃ found, splitFrom? taken cs = some found := by
  induction cs generalizing taken with
  | nil => exact absurd h not_divides_nil
  | cons c cs ih =>
      rw [splitFrom?_cons]
      rcases h.cases with hhere | hlater
      · rw [hhere]
        cases splitFrom? (c :: taken) cs with
        | none => exact ⟨_, rfl⟩
        | some found => exact ⟨_, rfl⟩
      · obtain ⟨found, hfound⟩ := ih hlater
        exact ⟨found, by rw [hfound]; rfl⟩

/-- The split that is found has the longest title. -/
theorem splitFrom?_eq_some (h : splitFrom? taken cs = some (title, url)) :
    Divides taken cs title url ∧
      ∀ title' url', Divides taken cs title' url' → title'.length ≤ title.length := by
  induction cs generalizing taken with
  | nil => cases h
  | cons c cs ih =>
      rw [splitFrom?_cons] at h
      cases hlater : splitFrom? (c :: taken) cs with
      | some found =>
          rw [hlater, Option.some_or, Option.some.injEq] at h
          rw [h] at hlater
          obtain ⟨hdivides, hlongest⟩ := ih hlater
          refine ⟨hdivides.of_cons, fun title' url' hother => ?_⟩
          rcases hother.cases with hhere | hother
          · obtain ⟨rfl, -⟩ := splitHere?_eq_some_iff.1 hhere
            have hpassed := hdivides.passed
            rw [List.length_cons] at hpassed
            rw [List.length_reverse]
            omega
          · exact hlongest title' url' hother
      | none =>
          rw [hlater, Option.none_or] at h
          refine ⟨divides_of_splitHere? h, fun title' url' hother => ?_⟩
          rcases hother.cases with hhere | hother
          · rw [h] at hhere
            cases hhere
            exact le_rfl
          · obtain ⟨found, hfound⟩ := exists_splitFrom? hother
            rw [hlater] at hfound
            cases hfound

end Split

/-! ## Texts that write links -/

/-- A text writes a link. -/
structure Writes (text : String) (l : SourceLink) : Prop where
  text_eq : text = "[" ++ l.title ++ "](" ++ l.url ++ ")"
  title_ne : l.title ≠ ""
  title_line : '\n' ∉ l.title.toList
  url_ne : l.url ≠ ""
  url_unbroken : ∀ c ∈ l.url.toList, isBlank c = false

/-- A title is not empty and has one line. -/
theorem isTitle_iff {cs : List Char} :
    isTitle cs = true ↔ cs ≠ [] ∧ ∀ c ∈ cs, (c != '\n') = true := by
  simp [isTitle]

/-- A URL is not empty and holds no blank. -/
theorem isUrl_iff {cs : List Char} :
    isUrl cs = true ↔ cs ≠ [] ∧ ∀ c ∈ cs, (!isBlank c) = true := by
  simp [isUrl]

private theorem isTitle_toList_iff (title : String) :
    isTitle title.toList = true ↔ title ≠ "" ∧ '\n' ∉ title.toList := by
  rw [isTitle_iff, ← List.forall_mem_ne']
  simp

private theorem isUrl_toList_iff (url : String) :
    isUrl url.toList = true ↔ url ≠ "" ∧ ∀ c ∈ url.toList, isBlank c = false := by
  simp [isUrl_iff]

section Writing

variable {text : String} {l m : SourceLink}

theorem toList_brackets (title url : String) :
    ("[" ++ title ++ "](" ++ url ++ ")").toList =
      '[' :: (title.toList ++ ']' :: '(' :: (url.toList ++ [')'])) := by
  simp

/-- A text writes a link just if it is divided into its title and its URL behind a bracket. -/
theorem writes_iff : Writes text l ↔
    ∃ cs, text.toList = '[' :: cs ∧ Divides [] cs l.title.toList l.url.toList := by
  constructor
  · intro h
    refine ⟨l.title.toList ++ ']' :: '(' :: (l.url.toList ++ [')']),
      by rw [h.text_eq, toList_brackets], rfl, Nat.zero_le _, ?_, ?_⟩
    · exact (isTitle_toList_iff _).2 ⟨h.title_ne, h.title_line⟩
    · exact (isUrl_toList_iff _).2 ⟨h.url_ne, h.url_unbroken⟩
  · rintro ⟨cs, htext, hdivides⟩
    obtain ⟨htitle, hline⟩ := (isTitle_toList_iff _).1 hdivides.isTitle
    obtain ⟨hurl, hunbroken⟩ := (isUrl_toList_iff _).1 hdivides.isUrl
    refine ⟨?_, htitle, hline, hurl, hunbroken⟩
    rw [← String.toList_inj, toList_brackets, htext]
    exact congrArg _ hdivides.text_eq

/-- Of two links that one text writes, the title tells which is which by its length. -/
theorem Writes.eq_of_length (hl : Writes text l) (hm : Writes text m)
    (hlength : l.title.length = m.title.length) : l = m := by
  have hsame := congrArg String.toList (hl.text_eq.symm.trans hm.text_eq)
  rw [toList_brackets, toList_brackets] at hsame
  obtain ⟨htitle, hrest⟩ := List.append_inj (List.cons.inj hsame).2 hlength
  have hurl : l.url.toList = m.url.toList := by simpa using hrest
  cases l
  cases m
  rw [String.toList_inj] at htitle hurl
  simp_all

/-! ## Reading -/

/-- Every text that writes a link is read. -/
theorem exists_ofText? (h : Writes text l) : ∃ m, ofText? text = some m := by
  obtain ⟨cs, htext, hdivides⟩ := writes_iff.1 h
  obtain ⟨found, hfound⟩ := exists_splitFrom? hdivides
  rw [ofText?, htext]
  show ∃ m, (splitFrom? [] cs).map _ = some m
  rw [hfound]
  exact ⟨_, rfl⟩

/-- The link that is read from a text is written by it, and no other one has a longer title. -/
theorem ofText?_eq_some (h : ofText? text = some l) :
    Writes text l ∧ ∀ m, Writes text m → m.title.length ≤ l.title.length := by
  unfold ofText? at h
  split at h
  · rename_i cs htext
    obtain ⟨⟨title, url⟩, hsplit, rfl⟩ := Option.map_eq_some_iff.1 h
    obtain ⟨hdivides, hlongest⟩ := splitFrom?_eq_some hsplit
    refine ⟨writes_iff.2 ⟨cs, htext, ?_⟩, fun m hm => ?_⟩
    · simpa using hdivides
    · obtain ⟨cs', htext', hother⟩ := writes_iff.1 hm
      rw [htext] at htext'
      cases htext'
      rw [String.length_ofList, ← String.length_toList]
      exact hlongest _ _ hother
  · cases h

/-- A link is read just if the text writes it and no other one with a longer title. -/
theorem read_eq_ok_iff (event : String) : read text event = .ok l ↔
    Writes text l ∧ ∀ m, Writes text m → m.title.length ≤ l.title.length := by
  unfold read
  constructor
  · intro h
    split at h
    · rename_i m hm
      cases h
      exact ofText?_eq_some hm
    · cases h
  · rintro ⟨hwrites, hlongest⟩
    obtain ⟨m, hm⟩ := exists_ofText? hwrites
    obtain ⟨hwrites', hlongest'⟩ := ofText?_eq_some hm
    rw [hm, hwrites'.eq_of_length hwrites (Nat.le_antisymm (hlongest m hwrites')
      (hlongest' l hwrites))]

/-- A text that writes no link is malformed. -/
theorem read_eq_error (event : String) (h : ¬ ∃ l, Writes text l) :
    read text event = .error (.malformedLink text event) := by
  unfold read
  split
  · rename_i m hm
    exact absurd ⟨m, (ofText?_eq_some hm).1⟩ h
  · rfl

/-- A longer title would end inside the URL, which would have `](` in it. -/
theorem Writes.longest (hl : Writes text l) (hurl : ¬ [']', '('] <:+: l.url.toList)
    (hm : Writes text m) : m.title.length ≤ l.title.length := by
  have hsame := congrArg String.toList (hl.text_eq.symm.trans hm.text_eq)
  rw [toList_brackets, toList_brackets] at hsame
  rw [← String.length_toList, ← String.length_toList]
  rcases List.append_eq_append_iff.1 (List.cons.inj hsame).2 with
    ⟨further, htitle, hrest⟩ | ⟨further, htitle, -⟩
  · rcases further with _ | ⟨a, _ | ⟨b, further⟩⟩
    · rw [htitle, List.append_nil]
    · simp at hrest
    · refine absurd ⟨further, m.url.toList, ?_⟩ hurl
      have hbehind : (further ++ ']' :: '(' :: m.url.toList) ++ [')'] = l.url.toList ++ [')'] := by
        simp only [List.cons_append, List.cons.injEq] at hrest
        simp [hrest.2.2]
      simpa using List.append_cancel_right hbehind
  · rw [htitle, List.length_append]
    exact Nat.le_add_right _ _

end Writing

/-! ## The pattern of links -/

/-- The pattern `[title](url)`. -/
def linkPattern : Pattern := [.one (· == '['), .run (· != '\n'), .one (· == ']'), .one (· == '('),
  .run fun c => !isBlank c, .one (· == ')')]

section Matching

private theorem matches_linkPattern_iff {cs : List Char} {pieces : List (List Char)} :
    linkPattern.Matches cs pieces ↔
      ∃ title url rest, cs = '[' :: rest ∧ Divides [] rest title url ∧ pieces = [title, url] := by
  unfold linkPattern
  simp only [Pattern.matches_one_iff, Pattern.matches_run_iff, Pattern.matches_nil_iff]
  constructor
  · rintro ⟨c, cs, rfl, hc, title, cs, more, rfl, rfl, htitle, hline, d, cs, rfl, hd, e, cs, rfl,
      he, url, cs, more, rfl, rfl, hurl, hunbroken, f, cs, rfl, hf, rfl, rfl⟩
    simp only [beq_iff_eq] at hc hd he hf
    subst hc hd he hf
    exact ⟨title, url, _, rfl,
      ⟨rfl, Nat.zero_le _, isTitle_iff.2 ⟨htitle, hline⟩, isUrl_iff.2 ⟨hurl, hunbroken⟩⟩, rfl⟩
  · rintro ⟨title, url, rest, rfl, h, rfl⟩
    obtain rfl : rest = title ++ ']' :: '(' :: (url ++ [')']) := h.text_eq
    obtain ⟨htitle, hline⟩ := isTitle_iff.1 h.isTitle
    obtain ⟨hurl, hunbroken⟩ := isUrl_iff.1 h.isUrl
    exact ⟨_, _, rfl, rfl, title, _, _, rfl, rfl, htitle, hline, _, _, rfl, rfl, _, _, rfl, rfl,
      url, _, _, rfl, rfl, hurl, hunbroken, _, _, rfl, rfl, rfl, rfl⟩

/-- The pattern matches a text as often as it writes a link. -/
theorem matches_toList_iff {text : String} {pieces : List (List Char)} :
    linkPattern.Matches text.toList pieces ↔
      ∃ l, Writes text l ∧ pieces = [l.title.toList, l.url.toList] := by
  rw [matches_linkPattern_iff]
  constructor
  · rintro ⟨title, url, rest, htext, hdivides, rfl⟩
    refine ⟨⟨String.ofList title, String.ofList url⟩, writes_iff.2 ⟨rest, htext, ?_⟩, ?_⟩
    · simpa using hdivides
    · simp
  · rintro ⟨l, h, rfl⟩
    obtain ⟨rest, htext, hdivides⟩ := writes_iff.1 h
    exact ⟨_, _, rest, htext, hdivides, rfl⟩

/-- The pattern captures the parts of the link that is read. -/
theorem captures_linkPattern (text event : String) :
    linkPattern.captures text.toList =
      (read text event).toOption.map fun l => [l.title.toList, l.url.toList] := by
  cases hcaptures : linkPattern.captures text.toList with
  | none =>
      have hno : ¬ ∃ l, Writes text l := by
        rintro ⟨l, h⟩
        obtain ⟨pieces, hpieces⟩ :=
          Pattern.exists_captures (matches_toList_iff.2 ⟨l, h, rfl⟩)
        rw [hcaptures] at hpieces
        cases hpieces
      rw [read_eq_error event hno]
      rfl
  | some pieces =>
      obtain ⟨l, hl, rfl⟩ := matches_toList_iff.1 (Pattern.matches_of_captures hcaptures)
      have hlongest : ∀ m, Writes text m → m.title.length ≤ l.title.length := by
        intro m hm
        have hlex := Pattern.not_lex_of_captures hcaptures (matches_toList_iff.2 ⟨m, hm, rfl⟩)
        simp only [List.map_cons, List.cons_lex_cons_iff, String.length_toList] at hlex
        exact not_lt.1 fun hmore => hlex (.inl hmore)
      rw [(read_eq_ok_iff event).2 ⟨hl, hlongest⟩]
      rfl

end Matching

/-! ## The meaning of a link -/

/-- A text is read as a link just if it writes one, namely as the one with the longest title, and
refused with its text if it writes none. A link whose URL does not have `](` in it is read back from
its writing. The pattern of links matches the same texts and captures the same parts. -/
theorem read_meaning (text event : String) :
    (∀ l, read text event = .ok l ↔
      Writes text l ∧ ∀ m, Writes text m → m.title.length ≤ l.title.length) ∧
    ((∃ l, read text event = .ok l) ↔ ∃ l, Writes text l) ∧
    ((¬ ∃ l, Writes text l) → read text event = .error (.malformedLink text event)) ∧
    (∀ l, Writes text l → ¬ [']', '('] <:+: l.url.toList → read text event = .ok l) ∧
    linkPattern.captures text.toList =
      (read text event).toOption.map fun l => [l.title.toList, l.url.toList] := by
  refine ⟨fun l => read_eq_ok_iff event, ⟨?_, ?_⟩, read_eq_error event, ?_,
    captures_linkPattern text event⟩
  · rintro ⟨l, h⟩
    exact ⟨l, ((read_eq_ok_iff event).1 h).1⟩
  · rintro ⟨l, h⟩
    obtain ⟨m, hm⟩ := exists_ofText? h
    exact ⟨m, (read_eq_ok_iff event).2 (ofText?_eq_some hm)⟩
  · intro l h hurl
    exact (read_eq_ok_iff event).2 ⟨h, fun m hm => h.longest hurl hm⟩

/-- This text writes two links; the title of the one that is read has brackets in it. -/
theorem read_meaning_nested :
    Writes "[x](y](z)" ⟨"x", "y](z"⟩ ∧ Writes "[x](y](z)" ⟨"x](y", "z"⟩ ∧
      read "[x](y](z)" "deployed" = .ok ⟨"x](y", "z"⟩ := by
  have hshort : Writes "[x](y](z)" ⟨"x", "y](z"⟩ :=
    ⟨rfl, by decide, by decide, by decide, by simp [isBlank, blankRanges]⟩
  have hlong : Writes "[x](y](z)" ⟨"x](y", "z"⟩ :=
    ⟨rfl, by decide, by decide, by decide, by simp [isBlank, blankRanges]⟩
  have hread := (read_meaning "[x](y](z)" "deployed").2.2.2.1 _ hlong (by decide)
  exact ⟨hshort, hlong, hread⟩

end InfraGraph.SourceLink
