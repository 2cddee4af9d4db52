import InfraGraph.Reading.Lexeme

/-!
# Texts made of pieces

A text that is put together from pieces is cut into these pieces again if each of them is cut off
where the others follow. It is enough to know this for chunks of pieces that stand alone: chunks
with a space between them are cut one after the other, because a chunk ends at a space and the space
is a gap of its own.

## Main results

* `pieces_of_cutsOff` — a text is cut into the pieces that it was put together from.
* `cutsOff_spaced` — chunks may be put together with spaces.
* `lexemes_of_cutsOff` — the lexemes of a text made of pieces.
-/

namespace InfraGraph.Reading

open InfraGraph.Text (width)

variable {τ : Type} {cut : Cut τ}

/-! ## Cutting on -/

private theorem piecesUpTo_eq (h : cut.Faithful) {m n : Nat} {cs : List Char} (hm : cs.length ≤ m)
    (hn : cs.length ≤ n) : piecesUpTo cut m cs = piecesUpTo cut n cs := by
  induction m generalizing n cs with
  | zero =>
      obtain rfl : cs = [] := List.eq_nil_of_length_eq_zero (by omega)
      cases n <;> rfl
  | succ m ih =>
      cases cs with
      | nil => cases n <;> rfl
      | cons c cs =>
          rw [List.length_cons] at hm hn
          obtain ⟨n, rfl⟩ : ∃ l, n = l + 1 := ⟨n - 1, by omega⟩
          obtain ⟨happ, hne⟩ := h c cs
          have hlength := congrArg List.length happ
          have hpos := List.length_pos_iff.2 hne
          rw [List.length_append, List.length_cons] at hlength
          rw [piecesUpTo, piecesUpTo, ih (n := n) (by omega) (by omega)]

/-- A text is cut into its first piece and the pieces of the rest. -/
theorem pieces_cons (h : cut.Faithful) (c : Char) (cs : List Char) :
    pieces cut (c :: cs) = (cut c cs).1 :: pieces cut (cut c cs).2 := by
  obtain ⟨happ, hne⟩ := h c cs
  have hlength := congrArg List.length happ
  have hpos := List.length_pos_iff.2 hne
  rw [List.length_append, List.length_cons] at hlength
  rw [pieces, List.length_cons, piecesUpTo, pieces,
    piecesUpTo_eq h (m := cs.length) (n := (cut c cs).2.length) (by omega) (by omega)]

/-- The pieces of a text are cut off somewhere in it. -/
theorem exists_cut_of_mem_piecesUpTo {n : Nat} {cs : List Char} {p : Piece τ}
    (hp : p ∈ piecesUpTo cut n cs) : ∃ c more, p = (cut c more).1 := by
  induction n generalizing cs with
  | zero => exact absurd hp List.not_mem_nil
  | succ n ih =>
      cases cs with
      | nil => exact absurd hp List.not_mem_nil
      | cons c cs =>
          rcases List.mem_cons.1 hp with h | h
          · exact ⟨c, cs, h⟩
          · exact ih h

/-- A piece is cut off where `rest` follows it. -/
def CutOff (cut : Cut τ) (p : Piece τ) (rest : List Char) : Prop :=
  ∃ c cs, p.text = c :: cs ∧ cut c (cs ++ rest) = (p, rest)

/-- The text of some pieces. -/
def textOf (ps : List (Piece τ)) : List Char := ps.flatMap Piece.text

@[simp] theorem textOf_nil : textOf ([] : List (Piece τ)) = [] := rfl

@[simp] theorem textOf_cons (p : Piece τ) (ps : List (Piece τ)) :
    textOf (p :: ps) = p.text ++ textOf ps := by
  simp [textOf]

@[simp] theorem textOf_append (ps qs : List (Piece τ)) :
    textOf (ps ++ qs) = textOf ps ++ textOf qs := by
  simp [textOf]

/-- The pieces of a text make the text. -/
theorem textOf_pieces (h : cut.Faithful) (cs : List Char) : textOf (pieces cut cs) = cs :=
  flatMap_pieces h cs

/-- Pieces are cut off one after the other where `rest` follows them. -/
def CutsOff (cut : Cut τ) : List (Piece τ) → List Char → Prop
  | [], _ => True
  | p :: ps, rest => CutOff cut p (textOf ps ++ rest) ∧ CutsOff cut ps rest

/-- Pieces are cut off if the first and then the last of them are. -/
theorem cutsOff_append {ps qs : List (Piece τ)} {rest : List Char} :
    CutsOff cut (ps ++ qs) rest ↔ CutsOff cut ps (textOf qs ++ rest) ∧ CutsOff cut qs rest := by
  induction ps with
  | nil => simp [CutsOff]
  | cons p ps ih =>
      rw [List.cons_append, CutsOff, CutsOff, ih, textOf_append, List.append_assoc, and_assoc]

/-- Pieces that are cut off are the first ones of the text. -/
theorem pieces_of_cutsOff (h : cut.Faithful) {ps : List (Piece τ)} {rest : List Char}
    (hps : CutsOff cut ps rest) : pieces cut (textOf ps ++ rest) = ps ++ pieces cut rest := by
  induction ps with
  | nil => rfl
  | cons p ps ih =>
      obtain ⟨⟨c, cs, htext, hcut⟩, hmore⟩ := hps
      rw [textOf_cons, htext, List.append_assoc, List.cons_append, pieces_cons h, hcut,
        ih hmore, List.cons_append]

/-! ## Chunks and spaces -/

/-- A space between two chunks. -/
def blank : Piece τ := ⟨[' '], .gap⟩

/-- What follows ends a token: the end of the text, a space, or the end of a statement. -/
def Ends (rest : List Char) : Prop := ∀ c more, rest = c :: more → c = ' ' ∨ c = '\n' ∨ c = ';'

theorem ends_nil : Ends [] := fun _ _ h => by cases h

theorem ends_cons {c : Char} (hc : c = ' ' ∨ c = '\n' ∨ c = ';') (more : List Char) :
    Ends (c :: more) := by
  intro d _ h
  obtain ⟨rfl, -⟩ := List.cons.inj h
  exact hc

/-- Pieces that can stand alone: a space before them is a gap of its own, and they are cut off where
a token ends. -/
structure Chunk (cut : Cut τ) (ps : List (Piece τ)) : Prop where
  begins : ∃ c cs, textOf ps = c :: cs ∧ ∀ more, cut ' ' (c :: more) = (blank, c :: more)
  cutsOff : ∀ {rest : List Char}, Ends rest → CutsOff cut ps rest

/-- A piece that is cut off wherever a token ends can stand alone. -/
theorem chunk_of_cut {p : Piece τ} (c : Char) (cs : List Char) (htext : p.text = c :: cs)
    (hspace : ∀ more, cut ' ' (c :: more) = (blank, c :: more))
    (hcut : ∀ rest, Ends rest → cut c (cs ++ rest) = (p, rest)) : Chunk cut [p] where
  begins := ⟨c, cs, by rw [textOf_cons, htext]; simp, hspace⟩
  cutsOff := fun {rest} hrest => ⟨⟨c, cs, htext, hcut rest hrest⟩, trivial⟩

/-- Chunks with a space between them. -/
def spaced : List (List (Piece τ)) → List (Piece τ)
  | [] => []
  | [chunk] => chunk
  | chunk :: next :: more => chunk ++ blank :: spaced (next :: more)

theorem spaced_cons {chunk : List (Piece τ)} {more : List (List (Piece τ))} (h : more ≠ []) :
    spaced (chunk :: more) = chunk ++ blank :: spaced more := by
  cases more with
  | nil => exact absurd rfl h
  | cons next more => rfl

/-- Chunks with a space behind each of them. -/
def followed (chunks : List (List (Piece τ))) : List (Piece τ) :=
  chunks.flatMap fun chunk => chunk ++ [blank]

theorem followed_append (chunks others : List (List (Piece τ))) :
    followed (chunks ++ others) = followed chunks ++ followed others :=
  List.flatMap_append

theorem followed_cons (chunk : List (Piece τ)) (more : List (List (Piece τ))) :
    followed (chunk :: more) = chunk ++ blank :: followed more := by
  simp [followed]

/-- Chunks before others are followed by a space each. -/
theorem spaced_append (chunks : List (List (Piece τ))) {others : List (List (Piece τ))}
    (hothers : others ≠ []) : spaced (chunks ++ others) = followed chunks ++ spaced others := by
  induction chunks with
  | nil => rfl
  | cons chunk more ih =>
      rw [List.cons_append, spaced_cons (by simp [hothers]), ih, followed_cons, List.append_assoc,
        List.cons_append]

/-- Chunks begin like the first one. -/
theorem begins_spaced {chunks : List (List (Piece τ))} (hne : chunks ≠ [])
    (h : ∀ chunk ∈ chunks, Chunk cut chunk) :
    ∃ c cs, textOf (spaced chunks) = c :: cs ∧
      ∀ more, cut ' ' (c :: more) = (blank, c :: more) := by
  cases chunks with
  | nil => exact absurd rfl hne
  | cons chunk more =>
      obtain ⟨c, cs, htext, hspace⟩ := (h chunk List.mem_cons_self).begins
      cases more with
      | nil => exact ⟨c, cs, htext, hspace⟩
      | cons next more =>
          refine ⟨c, cs ++ textOf (blank :: spaced (next :: more)), ?_, hspace⟩
          rw [spaced, textOf_append, htext, List.cons_append]

/-- Chunks with spaces between them are cut off. -/
theorem cutsOff_spaced {chunks : List (List (Piece τ))} (h : ∀ chunk ∈ chunks, Chunk cut chunk)
    {rest : List Char} (hrest : Ends rest) : CutsOff cut (spaced chunks) rest := by
  induction chunks with
  | nil => trivial
  | cons chunk more ih =>
      have hchunk := h chunk List.mem_cons_self
      have hmore : ∀ c ∈ more, Chunk cut c := fun c hc => h c (List.mem_cons_of_mem chunk hc)
      cases more with
      | nil => exact hchunk.cutsOff hrest
      | cons next more =>
          rw [spaced_cons (by simp), cutsOff_append]
          refine ⟨hchunk.cutsOff (ends_cons (.inl rfl) _), ?_, ih hmore⟩
          obtain ⟨c, cs, htext, hspace⟩ := begins_spaced (by simp) hmore
          refine ⟨' ', [], rfl, ?_⟩
          rw [List.nil_append, htext, List.cons_append, hspace]

/-- Their text has the texts of the chunks with spaces between them. -/
theorem textOf_spaced (chunks : List (List (Piece τ))) :
    textOf (spaced chunks) = [' '].intercalate (chunks.map textOf) := by
  induction chunks with
  | nil => rfl
  | cons chunk more ih =>
      cases more with
      | nil => simp [spaced, List.intercalate]
      | cons next more =>
          rw [spaced, textOf_append, textOf_cons, ih]
          simp [blank, List.intercalate]

/-! ## Lexemes -/

/-- The token that a piece is. -/
def Piece.token? (p : Piece τ) : Option τ :=
  match p.kind with
  | .token t => some t
  | _ => none

/-- There is no fault among some pieces. -/
def Flawless (ps : List (Piece τ)) : Prop := ∀ p ∈ ps, ∀ cause shown, p.kind ≠ .fault cause shown

private theorem faultsFrom_eq_nil {ps : List (Piece τ)} (h : Flawless ps) (offset : Nat) :
    faultsFrom offset ps = [] := by
  induction ps generalizing offset with
  | nil => rfl
  | cons p ps ih =>
      have hmore := ih fun q hq => h q (List.mem_cons_of_mem p hq)
      rw [faultsFrom]
      cases hkind : p.kind with
      | fault cause shown => exact absurd hkind (h p List.mem_cons_self cause shown)
      | gap => exact hmore _
      | token t => exact hmore _

/-- Pieces without faults are flawless. -/
theorem flawless_of_faultsFrom {ps : List (Piece τ)} {offset : Nat}
    (h : faultsFrom offset ps = []) : Flawless ps := by
  induction ps generalizing offset with
  | nil => exact fun p hp => absurd hp List.not_mem_nil
  | cons p ps ih =>
      rw [faultsFrom] at h
      have hsplit : Flawless ps ∧ ∀ cause shown, p.kind ≠ .fault cause shown := by
        cases hkind : p.kind with
        | gap =>
            rw [hkind] at h
            exact ⟨ih h, fun _ _ hfault => by cases hfault⟩
        | token t =>
            rw [hkind] at h
            exact ⟨ih h, fun _ _ hfault => by cases hfault⟩
        | fault cause shown =>
            rw [hkind] at h
            cases h
      exact List.forall_mem_cons.2 ⟨hsplit.2, hsplit.1⟩

/-- The tokens of the lexemes are those of the pieces. -/
theorem map_token_lexemesFrom (offset : Nat) (ps : List (Piece τ)) :
    (lexemesFrom offset ps).map Lexeme.token = ps.filterMap Piece.token? := by
  induction ps generalizing offset with
  | nil => rfl
  | cons p ps ih =>
      rw [lexemesFrom]
      cases hkind : p.kind with
      | token t => simp [Piece.token?, hkind, ih]
      | gap => simp [Piece.token?, hkind, ih]
      | fault cause shown => simp [Piece.token?, hkind, ih]

/-- The lexemes of more pieces start where the text of the first ones ends. -/
theorem lexemesFrom_append (offset : Nat) (ps qs : List (Piece τ)) :
    lexemesFrom offset (ps ++ qs) =
      lexemesFrom offset ps ++ lexemesFrom (offset + width (textOf ps)) qs := by
  induction ps generalizing offset with
  | nil => rfl
  | cons p ps ih =>
      rw [List.cons_append, lexemesFrom, lexemesFrom, textOf_cons, Text.width_append,
        ← Nat.add_assoc]
      cases p.kind with
      | token t => exact congrArg _ (ih _)
      | gap => exact ih _
      | fault cause shown => exact ih _

/-- Spaces between chunks are no tokens. -/
theorem filterMap_token?_spaced (chunks : List (List (Piece τ))) :
    (spaced chunks).filterMap Piece.token? =
      chunks.flatMap fun chunk => chunk.filterMap Piece.token? := by
  induction chunks with
  | nil => rfl
  | cons chunk more ih =>
      cases more with
      | nil => simp [spaced]
      | cons next more =>
          rw [spaced, List.filterMap_append, List.flatMap_cons, ← ih]
          rfl

theorem filterMap_token?_followed (chunks : List (List (Piece τ))) :
    (followed chunks).filterMap Piece.token? =
      chunks.flatMap fun chunk => chunk.filterMap Piece.token? := by
  induction chunks with
  | nil => rfl
  | cons chunk more ih =>
      rw [followed_cons, List.filterMap_append, List.flatMap_cons, ← ih]
      rfl

theorem flawless_append {ps qs : List (Piece τ)} (hp : Flawless ps) (hq : Flawless qs) :
    Flawless (ps ++ qs) := by
  intro p hmem
  rcases List.mem_append.1 hmem with h | h
  · exact hp p h
  · exact hq p h

/-- Chunks without faults have none when they are spaced. -/
theorem flawless_spaced {chunks : List (List (Piece τ))}
    (h : ∀ chunk ∈ chunks, Flawless chunk) : Flawless (spaced chunks) := by
  induction chunks with
  | nil => exact fun _ hp => absurd hp List.not_mem_nil
  | cons chunk more ih =>
      have hchunk := h chunk List.mem_cons_self
      cases more with
      | nil => exact hchunk
      | cons next more =>
          refine flawless_append hchunk (List.forall_mem_cons.2 ⟨fun _ _ => by simp [blank], ?_⟩)
          exact ih fun c hc => h c (List.mem_cons_of_mem chunk hc)

/-- The piece of a token, given how it is written. -/
def tokenPiece (spelling : τ → List Char) (t : τ) : Piece τ := ⟨spelling t, .token t⟩

/-- The chunks of some tokens, each of them alone. -/
def tokenChunks (spelling : τ → List Char) (ts : List τ) : List (List (Piece τ)) :=
  ts.map fun t => [tokenPiece spelling t]

/-- Tokens are written with spaces between them. -/
theorem textOf_tokenChunks (spelling : τ → List Char) (ts : List τ) :
    textOf (spaced (tokenChunks spelling ts)) = [' '].intercalate (ts.map spelling) := by
  rw [textOf_spaced, tokenChunks, List.map_map]
  exact congrArg _ (List.map_congr_left fun t _ => List.append_nil _)

/-- The tokens are read from them. -/
theorem filterMap_tokenChunks (spelling : τ → List Char) (ts : List τ) :
    (spaced (tokenChunks spelling ts)).filterMap Piece.token? = ts := by
  rw [filterMap_token?_spaced, tokenChunks, List.flatMap_map]
  exact List.flatMap_singleton' ts

theorem flawless_tokenChunks (spelling : τ → List Char) (ts : List τ) :
    ∀ chunk ∈ tokenChunks spelling ts, Flawless chunk := by
  intro chunk hchunk
  obtain ⟨t, -, rfl⟩ := List.mem_map.1 hchunk
  intro p hp
  rw [List.mem_singleton.1 hp]
  exact fun _ _ => by simp [tokenPiece]

/-- Pieces without faults that are cut off make the lexemes of their text. -/
theorem lexemes_of_cutsOff (h : cut.Faithful) {ps : List (Piece τ)} (hps : CutsOff cut ps [])
    (hflaw : Flawless ps) : lexemes cut (textOf ps) = .ok (lexemesFrom 0 ps) := by
  have hpieces : pieces cut (textOf ps) = ps := by
    simpa [pieces, piecesUpTo] using pieces_of_cutsOff h hps
  rw [lexemes, hpieces, faultsFrom_eq_nil hflaw]

end InfraGraph.Reading
