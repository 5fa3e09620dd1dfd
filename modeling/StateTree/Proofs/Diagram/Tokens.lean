import StateTree.Diagram.Dot

/-!
How DOT reads quoted strings. A quoted string goes on to the first double quote that no backslash
escapes, and a pair of backslashes escapes nothing after it. Quotes are escaped in what is written
and backslashes are not, so a text is read back as one string only if none of its quotes, nor its
end, stands after an odd number of backslashes.
-/

namespace StateTree.Dot

/-- A quoted string with its escaped quotes resolved, or a character outside of any. -/
inductive Token
  | bare (c : Char)
  | quoted (text : List Char)
  deriving DecidableEq

/-- Outside of quotes, or inside with what was read so far; a backslash may be waiting. -/
inductive Scan
  | outside
  | inside (read : List Char)
  | escaped (read : List Char)

/-- No tokens where a quoted string is left open. -/
def tokens? : Scan → List Char → Option (List Token)
  | .outside, [] => some []
  | .inside _, [] | .escaped _, [] => none
  | .outside, c :: rest =>
    if c = '"' then tokens? (.inside []) rest else (tokens? .outside rest).map (.bare c :: ·)
  | .inside read, c :: rest =>
    if c = '"' then (tokens? .outside rest).map (.quoted read :: ·)
    else if c = '\\' then tokens? (.escaped read) rest
    else tokens? (.inside (read ++ [c])) rest
  | .escaped read, c :: rest =>
    tokens? (.inside (read ++ if c = '"' then ['"'] else ['\\', c])) rest

/-- The tokens that a piece is meant to be. -/
def Piece.tokens : Piece → List Token
  | plain text => text.toList.map .bare
  | quoted text => [.quoted text.toList]

/-- How many backslashes stand at the end. -/
def backslashes (text : List Char) : Nat := (text.reverse.takeWhile (· = '\\')).length

/-- No quote of the text, nor its end, stands after an odd number of backslashes. -/
def Sealed (text : String) : Prop :=
  ∀ before after, text.toList = before ++ after → (∀ c ∈ after.head?, c = '"') →
    backslashes before % 2 = 0

/-- The same from left to right; `odd` tells whether an odd number of backslashes stands before the
text. -/
def isSealed (odd : Bool) : List Char → Bool
  | [] => !odd
  | c :: rest =>
    if c = '"' then !odd && isSealed false rest
    else if c = '\\' then isSealed (!odd) rest
    else isSealed false rest

theorem backslashes_concat (text : List Char) (c : Char) :
    backslashes (text ++ [c]) = if c = '\\' then backslashes text + 1 else 0 := by
  by_cases hc : c = '\\' <;> simp [backslashes, hc]

/-- A cut is before the first character or after it. -/
theorem forall_cuts {P : List Char → List Char → Prop} {c : Char} {text : List Char} :
    (∀ before after, c :: text = before ++ after → P before after) ↔
      P [] (c :: text) ∧ ∀ before after, text = before ++ after → P (c :: before) after := by
  constructor
  · intro h
    refine ⟨h [] (c :: text) rfl, ?_⟩
    intro before after htext
    exact h (c :: before) after (by rw [htext, List.cons_append])
  · rintro ⟨hfirst, hlater⟩ before after htext
    rcases List.cons_eq_append_iff.mp htext with ⟨rfl, rfl⟩ | ⟨before, rfl, hrest⟩
    · exact hfirst
    · exact hlater before after hrest

/-- What was seen before counts with its backslashes only. -/
theorem isSealed_iff (seen text : List Char) :
    isSealed (backslashes seen % 2 = 1) text = true ↔
      ∀ before after, text = before ++ after → (∀ c ∈ after.head?, c = '"') →
        backslashes (seen ++ before) % 2 = 0 := by
  induction text generalizing seen with
  | nil => simp [isSealed]
  | cons c text ih =>
    have hlater := ih (seen ++ [c])
    simp only [List.append_assoc, List.singleton_append] at hlater
    rw [forall_cuts, ← hlater, isSealed, backslashes_concat]
    by_cases hquote : c = '"'
    · simp [hquote]
    by_cases hback : c = '\\'
    · have hodd : decide ((backslashes seen + 1) % 2 = 1) = !decide (backslashes seen % 2 = 1) := by
        by_cases h : backslashes seen % 2 = 1 <;> simp [h] <;> omega
      simp [hback, hodd]
    · simp [hquote, hback]

theorem sealed_iff (text : String) : Sealed text ↔ isSealed false text.toList = true :=
  (isSealed_iff [] text.toList).symm

instance (text : String) : Decidable (Sealed text) := decidable_of_iff' _ (sealed_iff text)

/-- A text begins anew after a sealed one. -/
theorem isSealed_append {odd : Bool} {text : List Char} (h : isSealed odd text = true)
    (more : List Char) : isSealed odd (text ++ more) = isSealed false more := by
  induction text generalizing odd with
  | nil =>
    have hodd : odd = false := by simpa [isSealed] using h
    rw [hodd, List.nil_append]
  | cons c text ih =>
    rw [isSealed] at h
    rw [List.cons_append, isSealed]
    split at h
    · obtain ⟨hodd, htext⟩ := Bool.and_eq_true_iff.mp h
      rw [if_pos ‹_›, hodd, Bool.true_and, ih htext]
    · rw [if_neg ‹_›]
      split at h
      · rw [if_pos ‹_›, ih h]
      · rw [if_neg ‹_›, ih h]

theorem sealed_append {text : String} (h : Sealed text) (more : String) :
    Sealed (text ++ more) ↔ Sealed more := by
  rw [sealed_iff] at h ⊢
  rw [String.toList_append, isSealed_append h, sealed_iff]

/-- The scan inside of a string, with a backslash waiting or not. -/
def Scan.pending (odd : Bool) (read : List Char) : Scan :=
  if odd then .escaped read else .inside read

/-- What was read, with the backslash that waits. -/
def held (odd : Bool) (read : List Char) : List Char := if odd then read ++ ['\\'] else read

/-- How a character is written inside of quotes. -/
def quoteChar (c : Char) : List Char := if c = '"' then ['\\', '"'] else [c]

/-- A written character becomes part of what was read, unless it is a quote and a backslash waits:
then the backslash that is to escape the quote is escaped itself. -/
theorem scan_step (c : Char) {odd : Bool} (h : odd = true → c ≠ '"') (read : List Char) :
    ∃ odd' read', held odd' read' = held odd read ++ [c] ∧
      (∀ cs, tokens? (.pending odd read) (quoteChar c ++ cs) = tokens? (.pending odd' read') cs) ∧
      ∀ text, isSealed odd (c :: text) = isSealed odd' text := by
  by_cases hquote : c = '"'
  · subst hquote
    cases odd with
    | true => exact absurd rfl (h rfl)
    | false => exact ⟨false, read ++ ['"'], rfl, fun _ => rfl, fun _ => rfl⟩
  have hwrite : quoteChar c = [c] := if_neg hquote
  by_cases hback : c = '\\'
  · subst hback
    cases odd with
    | false => exact ⟨true, read, rfl, fun _ => rfl, fun _ => rfl⟩
    | true =>
      exact ⟨false, read ++ ['\\', '\\'], by simp [held], fun _ => rfl, fun _ => rfl⟩
  · cases odd with
    | false =>
      refine ⟨false, read ++ [c], rfl, ?_, ?_⟩
      · intro cs
        simp [hwrite, Scan.pending, tokens?, hquote, hback]
      · intro text
        simp [isSealed, hquote, hback]
    | true =>
      refine ⟨false, read ++ ['\\', c], by simp [held], ?_, ?_⟩
      · intro cs
        simp [hwrite, Scan.pending, tokens?, hquote]
      · intro text
        simp [isSealed, hquote, hback]

theorem tokens_sealed {text : List Char} {odd : Bool} (h : isSealed odd text = true)
    (read rest : List Char) :
    tokens? (.pending odd read) (text.flatMap quoteChar ++ '"' :: rest) =
      (tokens? .outside rest).map (.quoted (held odd read ++ text) :: ·) := by
  induction text generalizing odd read with
  | nil =>
    cases odd with
    | false => simp [Scan.pending, held, tokens?]
    | true => cases h
  | cons c text ih =>
    have hc : odd = true → c ≠ '"' := by
      rintro rfl rfl
      cases h
    obtain ⟨odd', read', hheld, hstep, hsealed⟩ := scan_step c hc read
    rw [List.flatMap_cons, List.append_assoc, hstep, ih (hsealed text ▸ h), hheld,
      List.append_assoc, List.singleton_append]

/-- A string that is being read begins with what was read of it. -/
theorem tokens_inside {cs read : List Char} {odd : Bool} {tokens : List Token}
    (h : tokens? (.pending odd read) cs = some tokens) :
    ∃ more after, tokens = .quoted (read ++ more) :: after := by
  induction cs generalizing odd read with
  | nil => cases odd <;> cases h
  | cons c cs ih =>
    -- a step keeps what was read, whatever it adds
    have hstep (odd : Bool) (added : List Char)
        (h : tokens? (.pending odd (read ++ added)) cs = some tokens) :
        ∃ more after, tokens = .quoted (read ++ more) :: after := by
      obtain ⟨more, after, rfl⟩ := ih h
      exact ⟨added ++ more, after, by rw [List.append_assoc]⟩
    cases odd with
    | true => exact hstep false _ h
    | false =>
      simp only [Scan.pending, Bool.false_eq_true, if_false, tokens?] at h
      split at h
      · obtain ⟨after, _, rfl⟩ := Option.map_eq_some_iff.mp h
        exact ⟨[], after, by rw [List.append_nil]⟩
      · split at h
        · exact hstep true [] (by simpa [Scan.pending] using h)
        · exact hstep false _ h

/-- A text that is not sealed is cut short, or goes on after its end. -/
theorem tokens_broken {text : List Char} {odd : Bool} (h : isSealed odd text = false)
    (read rest : List Char) (after : List Token) :
    tokens? (.pending odd read) (text.flatMap quoteChar ++ '"' :: rest) ≠
      some (.quoted (held odd read ++ text) :: after) := by
  induction text generalizing odd read with
  | nil =>
    cases odd with
    | false => cases h
    | true =>
      -- the closing quote is taken for an escaped one
      intro hread
      have hinside : tokens? (.pending false (read ++ ['"'])) rest =
          some (.quoted (held true read ++ []) :: after) := hread
      obtain ⟨more, after', he⟩ := tokens_inside hinside
      simp [held] at he
  | cons c text ih =>
    by_cases hc : odd = true → c ≠ '"'
    · obtain ⟨odd', read', hheld, hstep, hsealed⟩ := scan_step c hc read
      have hrest := ih (hsealed text ▸ h) read'
      rw [hheld, List.append_assoc, List.singleton_append] at hrest
      rw [List.flatMap_cons, List.append_assoc, hstep]
      exact hrest
    · obtain ⟨rfl, rfl⟩ : odd = true ∧ c = '"' := by simpa using hc
      intro hread
      simp [Scan.pending, held, tokens?, quoteChar] at hread

theorem tokens_bare {text : List Char} (h : '"' ∉ text) (rest : List Char) :
    tokens? .outside (text ++ rest) = (tokens? .outside rest).map (text.map .bare ++ ·) := by
  induction text with
  | nil => simp
  | cons c text ih =>
    obtain ⟨hc, htext⟩ : ¬ '"' = c ∧ '"' ∉ text := by simpa using h
    rw [List.cons_append, tokens?, if_neg (Ne.symm hc), ih htext, Option.map_map]
    rfl

theorem tokens_quote (text : String) (rest : List Char) :
    tokens? .outside (quote text.toList ++ rest) =
      tokens? (.pending false []) (text.toList.flatMap quoteChar ++ '"' :: rest) := by
  have hquote : quote text.toList = '"' :: text.toList.flatMap quoteChar ++ ['"'] := rfl
  rw [hquote]
  simp [tokens?, Scan.pending]

/-- No quote is ever read as a character outside of quotes. -/
theorem bare_ne_quote {scan : Scan} {cs : List Char} {tokens : List Token}
    (h : tokens? scan cs = some tokens) : .bare '"' ∉ tokens := by
  induction cs generalizing scan tokens with
  | nil =>
    cases scan with
    | outside =>
      cases h
      exact List.not_mem_nil
    | inside read => cases h
    | escaped read => cases h
  | cons c cs ih =>
    cases scan with
    | outside =>
      rw [tokens?] at h
      split at h
      · exact ih h
      · next hc =>
        obtain ⟨after, hafter, rfl⟩ := Option.map_eq_some_iff.mp h
        simp [ih hafter, Ne.symm hc]
    | inside read =>
      rw [tokens?] at h
      split at h
      · obtain ⟨after, hafter, rfl⟩ := Option.map_eq_some_iff.mp h
        simp [ih hafter]
      · split at h
        · exact ih h
        · exact ih h
    | escaped read => exact ih h

/-- A piece that is read back as it was meant. -/
def Piece.Whole : Piece → Prop
  | plain text => '"' ∉ text.toList
  | quoted text => Sealed text

theorem tokens_pieces (ps : List Piece) :
    tokens? .outside (ps.flatMap Piece.write) = some (ps.flatMap Piece.tokens) ↔
      ∀ p ∈ ps, p.Whole := by
  induction ps with
  | nil => simp [tokens?]
  | cons p ps ih =>
    rw [List.flatMap_cons, List.flatMap_cons, List.forall_mem_cons, ← ih]
    cases p with
    | plain text =>
      rw [Piece.write, Piece.tokens, Piece.Whole]
      by_cases hquote : '"' ∈ text.toList
      · refine iff_of_false ?_ fun h => h.1 hquote
        intro hread
        exact bare_ne_quote hread (List.mem_append_left _ (List.mem_map_of_mem hquote))
      · rw [tokens_bare hquote]
        simp [hquote]
    | quoted text =>
      rw [Piece.write, Piece.tokens, Piece.Whole, tokens_quote]
      by_cases hsealed : Sealed text
      · rw [tokens_sealed ((sealed_iff text).mp hsealed)]
        simp [held, hsealed]
      · refine iff_of_false ?_ fun h => hsealed h.1
        rw [sealed_iff, Bool.not_eq_true] at hsealed
        exact tokens_broken hsealed [] _ _

end StateTree.Dot
