import InfraGraph.Text.Blank
import InfraGraph.Text.Search
import InfraGraph.Text.Span

/-!
# Parts of a text

A span is of use if both its ends lie between characters, since only then it can be cut out of the
text. If something is put into a text, the spans behind it move, and those around it grow by it;
what a span covers is the same but for what has been put inside it.

## Main results

* `Span.Within.exists_parts` — a span of a text stands between two parts of it.
* `slice_opened`, `exists_slice_opened` — what a span covers after something has been put elsewhere,
  or inside it.
* `slice_beside` — what spans next to each other cover.
* `filter_intercalate_words` — splitting a text into words changes nothing but blanks.
* `intercalate_words` — with spaces between them, words are the text with its blanks collapsed.
-/

namespace InfraGraph.Text

/-! ## Boundaries -/

/-- An offset lies between two characters of a text, or at one of its ends. -/
def Boundary (cs : List Char) (n : Nat) : Prop := ∃ before, before <+: cs ∧ width before = n

private theorem boundary_append (before behind : List Char) :
    Boundary (before ++ behind) (width before) :=
  ⟨before, List.prefix_append before behind, rfl⟩

theorem boundary_width (cs : List Char) : Boundary cs (width cs) := ⟨cs, List.prefix_rfl, rfl⟩

/-- A boundary lies inside the text. -/
theorem Boundary.le_width {cs : List Char} {n : Nat} (h : Boundary cs n) : n ≤ width cs := by
  obtain ⟨before, ⟨behind, rfl⟩, rfl⟩ := h
  rw [width_append]
  omega

/-- A span covers a part of a text, which may be empty. -/
structure Span.Within (span : Span) (cs : List Char) : Prop where
  start : Boundary cs span.start
  stop : Boundary cs span.stop
  ordered : span.start ≤ span.stop

/-- The part between two others is covered by a span. -/
theorem within_middle (before middle behind : List Char) :
    Span.Within ⟨width before, width before + width middle⟩ (before ++ (middle ++ behind)) where
  start := boundary_append before (middle ++ behind)
  stop := by
    rw [← width_append, ← List.append_assoc]
    exact boundary_append (before ++ middle) behind
  ordered := Nat.le_add_right _ _

/-- Of two beginnings of a text, the shorter one begins the longer one. -/
theorem prefix_of_width_le {xs ys cs : List Char} (hxs : xs <+: cs) (hys : ys <+: cs)
    (h : width xs ≤ width ys) : xs <+: ys := by
  rcases List.prefix_or_prefix_of_prefix hxs hys with hprefix | ⟨rest, rfl⟩
  · exact hprefix
  · have hzero : width rest = 0 := by
      rw [width_append] at h
      omega
    cases rest with
    | nil => simp
    | cons c rest =>
        have hpos := c.utf8Size_pos
        rw [width_cons] at hzero
        omega

/-- A span in a text divides it into three parts. -/
theorem Span.Within.exists_parts {s : Span} {cs : List Char} (h : s.Within cs) :
    ∃ xs ms ys, cs = xs ++ (ms ++ ys) ∧ s = ⟨width xs, width xs + width ms⟩ := by
  obtain ⟨⟨xs, hxs, hstart⟩, ⟨zs, hzs, hstop⟩, hordered⟩ := h
  rw [← hstart, ← hstop] at hordered
  obtain ⟨ms, rfl⟩ := prefix_of_width_le hxs hzs hordered
  obtain ⟨ys, rfl⟩ := hzs
  rw [width_append] at hstop
  refine ⟨xs, ms, ys, List.append_assoc xs ms ys, ?_⟩
  show Span.mk s.start s.stop = _
  rw [← hstart, ← hstop]

/-- What two spans next to each other cover stands next to each other. -/
theorem slice_beside {a b c : Nat} {cs : List Char} (hab : Span.Within ⟨a, b⟩ cs)
    (hbc : Span.Within ⟨b, c⟩ cs) :
    slice ⟨a, c⟩ cs = slice ⟨a, b⟩ cs ++ slice ⟨b, c⟩ cs := by
  obtain ⟨xs, ms, ys, htext, hspan⟩ := hab.exists_parts
  obtain ⟨rfl, rfl⟩ := Span.mk.inj hspan
  obtain ⟨-, ⟨zs, hzs, rfl⟩, hle⟩ := hbc
  rw [← width_append] at hle
  have hprefix : xs ++ ms <+: cs := ⟨ys, by rw [htext, List.append_assoc]⟩
  obtain ⟨ks, rfl⟩ := prefix_of_width_le hprefix hzs hle
  obtain ⟨more, rfl⟩ := hzs
  have hwhole := slice_append xs (ms ++ ks) more
  have hfirst := slice_append xs ms (ks ++ more)
  have hsecond := slice_append (xs ++ ms) ks more
  simp only [width_append, List.append_assoc, Nat.add_assoc] at hwhole hfirst hsecond ⊢
  rw [hwhole, hfirst, hsecond]

/-! ## Texts in which something is put -/

/-- A span of a text, after something with a width has been put at a place of the text. -/
def Span.opened (place distance : Nat) (s : Span) : Span where
  start := if s.start < place then s.start else s.start + distance
  stop := if s.stop ≤ place then s.stop else s.stop + distance

/-- A span begins before a place and ends behind it. -/
def Span.Surrounds (s : Span) (place : Nat) : Prop := s.start < place ∧ place < s.stop

instance (s : Span) (place : Nat) : Decidable (s.Surrounds place) :=
  inferInstanceAs (Decidable (_ ∧ _))

section

variable {before put after : List Char} {s : Span}

/-- What a span covers is the same after something has been put elsewhere. -/
theorem slice_opened (hs : s.Within (before ++ after)) (hpos : s.start < s.stop)
    (helsewhere : ¬ s.Surrounds (width before)) :
    slice (s.opened (width before) (width put)) (before ++ (put ++ after)) =
      slice s (before ++ after) := by
  obtain ⟨xs, ms, ys, htext, rfl⟩ := hs.exists_parts
  rw [htext, slice_append]
  dsimp only at hpos
  by_cases hstop : width xs + width ms ≤ width before
  · have hprefix : xs ++ ms <+: before :=
      prefix_of_width_le ⟨ys, by rw [htext, List.append_assoc]⟩ (List.prefix_append before after)
        (by rw [width_append]; exact hstop)
    obtain ⟨zs, hbefore⟩ := hprefix
    have hopened : Span.opened (width before) (width put) ⟨width xs, width xs + width ms⟩ =
        ⟨width xs, width xs + width ms⟩ := by
      have hstart : width xs < width before := by omega
      rw [Span.opened, if_pos hstop, if_pos hstart]
    rw [hopened, ← hbefore, List.append_assoc, List.append_assoc]
    exact slice_append xs ms _
  · have hstart : width before ≤ width xs :=
      Nat.le_of_not_lt fun hlt => helsewhere ⟨hlt, Nat.lt_of_not_le hstop⟩
    obtain ⟨zs, rfl⟩ := prefix_of_width_le (List.prefix_append before after)
      ⟨ms ++ ys, htext.symm⟩ hstart
    rw [List.append_assoc] at htext
    have hafter := List.append_cancel_left htext
    have hopened : Span.opened (width before) (width put)
        ⟨width (before ++ zs), width (before ++ zs) + width ms⟩ =
        ⟨width (before ++ (put ++ zs)), width (before ++ (put ++ zs)) + width ms⟩ := by
      rw [Span.opened, if_neg (Nat.not_lt.2 hstart), if_neg hstop]
      simp only [width_append]
      congr 1 <;> omega
    rw [hopened, hafter]
    have hwhole : before ++ (put ++ (zs ++ (ms ++ ys))) =
        (before ++ (put ++ zs)) ++ (ms ++ ys) := by simp
    rw [hwhole]
    exact slice_append _ ms ys

/-- Where something is put inside a span, it is covered too. -/
theorem exists_slice_opened (hs : s.Within (before ++ after))
    (hinside : s.Surrounds (width before)) :
    ∃ zs us, slice s (before ++ after) = zs ++ us ∧
      slice (s.opened (width before) (width put)) (before ++ (put ++ after)) =
        zs ++ (put ++ us) := by
  obtain ⟨xs, ms, ys, htext, rfl⟩ := hs.exists_parts
  obtain ⟨hstart, hstop⟩ := hinside
  dsimp only at hstart hstop
  have hbefore : before <+: xs ++ (ms ++ ys) := htext ▸ List.prefix_append before after
  obtain ⟨zs, rfl⟩ := prefix_of_width_le (List.prefix_append xs (ms ++ ys)) hbefore
    (Nat.le_of_lt hstart)
  have hmiddle : zs <+: ms := by
    have hprefix : xs ++ ms <+: xs ++ (ms ++ ys) := ⟨ys, List.append_assoc xs ms ys⟩
    have hshort : width (xs ++ zs) ≤ width (xs ++ ms) := by
      rw [width_append xs ms]
      omega
    have hboth : xs ++ zs <+: xs ++ ms := prefix_of_width_le hbefore hprefix hshort
    exact (List.prefix_append_right_inj xs).1 hboth
  obtain ⟨us, rfl⟩ := hmiddle
  have hafter : after = us ++ ys := by
    have hsame : xs ++ (zs ++ after) = xs ++ (zs ++ (us ++ ys)) := by simpa using htext
    exact List.append_cancel_left (List.append_cancel_left hsame)
  refine ⟨zs, us, by rw [htext, slice_append], ?_⟩
  have hopened : Span.opened (width (xs ++ zs)) (width put)
      ⟨width xs, width xs + width (zs ++ us)⟩ =
      ⟨width xs, width xs + width (zs ++ (put ++ us))⟩ := by
    rw [Span.opened, if_pos hstart, if_neg (Nat.not_le.2 hstop)]
    simp only [width_append]
    congr 1
    omega
  have hwhole : xs ++ zs ++ (put ++ after) = xs ++ ((zs ++ (put ++ us)) ++ ys) := by
    simp [hafter]
  rw [hopened, hwhole]
  exact slice_append xs _ ys

end

/-! ## Words -/

/-- Between words, only blanks are changed. -/
theorem filter_intercalate_wordsFrom (word cs : List Char) :
    ([' '].intercalate (wordsFrom word cs)).filter (fun c => !isBlank c) =
      (word.reverse ++ cs).filter fun c => !isBlank c := by
  induction cs generalizing word with
  | nil =>
      by_cases hword : word = []
      · subst hword
        rfl
      · simp [wordsFrom, hword, List.intercalate]
  | cons c cs ih =>
      by_cases hc : isBlank c = true
      · by_cases hword : word = []
        · subst hword
          simp [wordsFrom, hc, ih]
        · have hmore := ih []
          rw [List.reverse_nil, List.nil_append] at hmore
          by_cases hnone : wordsFrom [] cs = []
          · rw [hnone] at hmore
            simp [wordsFrom, hc, hword, hnone, List.intercalate, ← hmore]
          · have hspace : isBlank ' ' = true := by decide
            simp [wordsFrom, hc, hword, intercalate_cons _ _ hnone, hmore, hspace]
      · rw [wordsFrom, if_neg hc, ih]
        simp

/-- Words hold all characters that are no blanks, in their order. -/
theorem filter_intercalate_words (cs : List Char) :
    ([' '].intercalate (words cs)).filter (fun c => !isBlank c) =
      cs.filter fun c => !isBlank c :=
  filter_intercalate_wordsFrom [] cs

/-- A text with one space in place of each run of blanks. -/
def collapse : List Char → List Char
  | [] => []
  | c :: cs =>
    if isBlank c then if cs.head?.any isBlank then collapse cs else ' ' :: collapse cs
    else c :: collapse cs

/-- Splitting into words goes on with the word that has begun, or behind a blank. -/
theorem intercalate_wordsFrom_eq {cs : List Char}
    (hlast : ∀ c, cs.getLast? = some c → isBlank c = false) :
    (∀ word, word ≠ [] →
      [' '].intercalate (wordsFrom word cs) = word.reverse ++ collapse cs) ∧
    ∀ c, isBlank c = true → cs ≠ [] →
      wordsFrom [] cs ≠ [] ∧ collapse (c :: cs) = ' ' :: [' '].intercalate (wordsFrom [] cs) := by
  induction cs with
  | nil => exact ⟨fun word hword => by simp [wordsFrom, hword, collapse, List.intercalate], by simp⟩
  | cons d ds ih =>
      have hmore : isBlank d = true → ds ≠ [] := by
        rintro hd rfl
        rw [hlast d rfl] at hd
        cases hd
      obtain ⟨hword, hblank⟩ := ih fun c hc => hlast c (by
        rw [List.getLast?_cons_of_ne_nil (by rintro rfl; cases hc)]
        exact hc)
      by_cases hd : isBlank d = true
      · obtain ⟨hne, hcollapse⟩ := hblank d hd (hmore hd)
        refine ⟨fun word hopen => ?_, fun c hc _ => ?_⟩
        · rw [wordsFrom, if_pos hd, if_neg (by simpa using hopen), intercalate_cons _ _ hne,
            hcollapse, List.append_assoc]
          rfl
        · rw [wordsFrom, if_pos hd, List.isEmpty_nil, if_pos rfl]
          refine ⟨hne, ?_⟩
          rw [collapse, if_pos hc, List.head?_cons, Option.any_some, if_pos hd, hcollapse]
      · have hcollapse : collapse (d :: ds) = d :: collapse ds := by rw [collapse, if_neg hd]
        refine ⟨fun word _ => ?_, fun c hc _ => ?_⟩
        · rw [wordsFrom, if_neg hd, hword (d :: word) (List.cons_ne_nil d word), hcollapse]
          simp
        · have hstart := hword [d] (List.cons_ne_nil d [])
          rw [wordsFrom, if_neg hd, hstart]
          refine ⟨fun hnil => ?_, ?_⟩
          · rw [hnil] at hstart
            cases hstart
          · rw [collapse, if_pos hc, List.head?_cons, Option.any_some, if_neg hd, hcollapse]
            rfl

/-- Joining the words of a text with spaces collapses its blanks, if it neither begins nor ends with
one. -/
theorem intercalate_words {cs : List Char} (hfirst : ∀ c, cs.head? = some c → isBlank c = false)
    (hlast : ∀ c, cs.getLast? = some c → isBlank c = false) :
    [' '].intercalate (words cs) = collapse cs := by
  cases cs with
  | nil => rfl
  | cons c cs =>
      have hc := hfirst c rfl
      have hend : ∀ d, cs.getLast? = some d → isBlank d = false := fun d hd => hlast d (by
        rw [List.getLast?_cons_of_ne_nil (by rintro rfl; cases hd)]
        exact hd)
      have hmore := (intercalate_wordsFrom_eq hend).1 [c] (List.cons_ne_nil c [])
      rw [words, wordsFrom, hc, if_neg (by decide), hmore, collapse, hc, if_neg (by decide)]
      rfl

end InfraGraph.Text
