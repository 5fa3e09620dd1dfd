import Mathlib.Data.Option.Basic
import StateTree.Json.Reader

/-!
Reading what was written. A document without numbers is read back from its text in either layout:
what stands between its parts is blank, and the escapes of a text are undone one by one.
-/

namespace StateTree.Json

/-- The stroke that a written character is read as. -/
def stroke (c : Char) : Stroke :=
  if c.toNat < 32 ∧ c ∉ ['\n', '\r', '\t', '\x08', '\x0c'] then .code c.toNat else .plain c

theorem hexCode_read {n : Nat} (hn : n < 32) :
    hexCode? '0' '0' (Nat.digitChar (n / 16)) (Nat.digitChar (n % 16)) = some n := by
  revert n
  decide

theorem strokes_short {e c : Char} (he : e ≠ 'u') (hc : shortEscape? e = some c) (cs : List Char) :
    strokes? ('\\' :: e :: cs) = (strokes? cs).map fun r => (.plain c :: r.1, r.2) := by
  rw [strokes?, hc]
  · cases strokes? cs <;> rfl
  · exact fun _ _ _ _ _ h => absurd h he

theorem strokes_escape (c : Char) (cs : List Char) :
    strokes? (escapeChar c ++ cs) = (strokes? cs).map fun r => (stroke c :: r.1, r.2) := by
  by_cases hshort : c ∈ ['"', '\\', '\n', '\r', '\t', '\x08', '\x0c']
  · -- each of them has an escape of its own
    simp only [List.mem_cons, List.not_mem_nil, or_false] at hshort
    rcases hshort with rfl | rfl | rfl | rfl | rfl | rfl | rfl <;>
      exact strokes_short (by decide) rfl cs
  · simp only [List.mem_cons, List.not_mem_nil, or_false, not_or] at hshort
    obtain ⟨hquote, hback, hn, hr, ht, hb, hf⟩ := hshort
    by_cases hlow : c.toNat < 32
    · have hescape : escapeChar c = ['\\', 'u'] ++ hexCode c.toNat := by
        simp [escapeChar, hquote, hback, hn, hr, ht, hb, hf, hlow]
      have hstroke : stroke c = .code c.toNat := by simp [stroke, hn, hr, ht, hb, hf, hlow]
      rw [hescape, hstroke, hexCode, List.append_assoc]
      simp only [List.cons_append, List.nil_append]
      rw [strokes?, hexCode_read hlow]
      cases strokes? cs <;> rfl
    · have hescape : escapeChar c = [c] := by
        simp [escapeChar, hquote, hback, hn, hr, ht, hb, hf, hlow]
      have hstroke : stroke c = .plain c := by simp [stroke, hlow]
      have hplain : (guard (32 ≤ c.toNat && c != '\\') : Option Unit) = some () :=
        if_pos (by simp [hback, Nat.le_of_not_lt hlow])
      rw [hescape, hstroke, List.singleton_append, strokes?, hplain]
      · cases strokes? cs <;> rfl
      · exact hquote
      · exact fun _ _ _ _ _ h => absurd h hback
      · exact fun _ _ h => absurd h hback

theorem strokes_text (text rest : List Char) :
    strokes? (text.flatMap escapeChar ++ '"' :: rest) = some (text.map stroke, rest) := by
  induction text with
  | nil => rfl
  | cons c text ih =>
    rw [List.flatMap_cons, List.append_assoc, strokes_escape, ih]
    rfl

theorem join_stroke (c : Char) (strokes : List Stroke) :
    joinStrokes? (stroke c :: strokes) = (joinStrokes? strokes).map (c :: ·) := by
  unfold stroke
  split
  · next h =>
    -- so low a code is no half of a surrogate pair
    have hlow : c.toNat < 32 := h.1
    have hhigh : isHigh c.toNat = false := by simp [isHigh]; omega
    have hhalf : isLow c.toNat = false := by simp [isLow]; omega
    have hchar : Char.ofNat c.toNat = c := Char.ofNat_toNat c
    cases strokes with
    | nil => simp [joinStrokes?, hhigh, hhalf, hchar]
    | cons s strokes => cases s <;> simp [joinStrokes?, hhigh, hhalf, hchar]
  · rw [joinStrokes?]

theorem join_strokes (text : List Char) : joinStrokes? (text.map stroke) = some text := by
  induction text with
  | nil => rfl
  | cons c text ih => rw [List.map_cons, join_stroke, ih, Option.map_some]

/-- A written text is read after its opening quote. -/
theorem text_read (s : String) (rest : List Char) :
    textAfterQuote? (s.toList.flatMap escapeChar ++ '"' :: rest) = some (some s, rest) := by
  rw [textAfterQuote?, strokes_text]
  simp [join_strokes]

/-! Layouts differ in blanks only. -/

structure Layout.Blank (ℓ : Layout) : Prop where
  gap : ∀ d, ∀ c ∈ ℓ.gap d, isBlank c = true
  colon : ∃ blanks, ℓ.colon = ':' :: blanks ∧ ∀ c ∈ blanks, isBlank c = true

theorem compact_blank : Layout.compact.Blank := ⟨nofun, [], rfl, nofun⟩

theorem pretty_blank : Layout.pretty.Blank := by
  refine ⟨?_, [' '], rfl, by simp [isBlank]⟩
  intro d c hc
  simp only [Layout.pretty, List.mem_cons, List.mem_replicate] at hc
  rcases hc with rfl | ⟨_, rfl⟩ <;> rfl

theorem skipBlanks_append {blanks : List Char} (h : ∀ c ∈ blanks, isBlank c = true)
    (cs : List Char) : skipBlanks (blanks ++ cs) = skipBlanks cs :=
  List.dropWhile_append_of_pos h

theorem skipBlanks_cons {c : Char} (h : isBlank c = false) (cs : List Char) :
    skipBlanks (c :: cs) = c :: cs := by
  rw [skipBlanks, List.dropWhile_cons, h]
  rfl

theorem value_append {blanks : List Char} (h : ∀ c ∈ blanks, isBlank c = true) (n : Nat)
    (cs : List Char) : value? n (blanks ++ cs) = value? n cs := by
  cases n with
  | zero => rfl
  | succ n => simp only [value?, skipBlanks_append h]

theorem fields_append {blanks : List Char} (h : ∀ c ∈ blanks, isBlank c = true) (n : Nat)
    (cs : List Char) : fields? n (blanks ++ cs) = fields? n cs := by
  cases n with
  | zero => rfl
  | succ n => simp only [fields?, skipBlanks_append h]

mutual

/-- No number is in the document, and nothing that has no value. -/
def isBasic : Json → Bool
  | null | bool _ | text _ => true
  | number _ | unreadable => false
  | array items => allBasic items
  | object fields => allFieldsBasic fields

def allBasic : List Json → Bool
  | [] => true
  | item :: items => item.isBasic && allBasic items

def allFieldsBasic : List (String × Json) → Bool
  | [] => true
  | (_, value) :: fields => value.isBasic && allFieldsBasic fields

end

/-- The document is read back wherever it stands, in twice as many steps as it has characters. -/
def Reads (ℓ : Layout) (j : Json) : Prop :=
  ∀ (d : Nat) (rest : List Char) (n : Nat), 2 * (j.write ℓ d).length ≤ n →
    value? n (j.write ℓ d ++ rest) = some (j, rest)

theorem write_head {j : Json} (hj : j.isBasic = true) (ℓ : Layout) (d : Nat) :
    ∃ c cs, j.write ℓ d = c :: cs ∧ isBlank c = false ∧ c ≠ ']' := by
  cases j with
  | null => exact ⟨'n', _, rfl, rfl, by decide⟩
  | bool b => cases b <;> exact ⟨_, _, rfl, rfl, by decide⟩
  | number digits => cases hj
  | text s => exact ⟨'"', _, rfl, rfl, by decide⟩
  | array items => cases items <;> exact ⟨'[', _, rfl, rfl, by decide⟩
  | object fields => cases fields <;> exact ⟨'\x7b', _, rfl, rfl, by decide⟩
  | unreadable => cases hj

theorem items_read {ℓ : Layout} (hℓ : ℓ.Blank) {item : Json} {items : List Json}
    (h : ∀ j ∈ item :: items, Reads ℓ j) (d : Nat) {close : List Char}
    (hclose : ∀ c ∈ close, isBlank c = true) (rest : List Char) {n : Nat}
    (hn : 2 * ((item.write ℓ d).length + (writeItems ℓ d items).length) < n) :
    items? n (ℓ.gap d ++ (item.write ℓ d ++ (writeItems ℓ d items ++ (close ++ ']' :: rest)))) =
      some (item :: items, rest) := by
  induction items generalizing item n with
  | nil =>
    obtain ⟨n, rfl⟩ : ∃ k, n = k + 1 := ⟨n - 1, by omega⟩
    have hitem := h item List.mem_cons_self
    rw [items?, value_append (hℓ.gap d), hitem d _ n (by omega), writeItems, List.nil_append]
    simp [skipBlanks_append hclose, skipBlanks_cons (c := ']') rfl]
  | cons next items ih =>
    obtain ⟨n, rfl⟩ : ∃ k, n = k + 1 := ⟨n - 1, by omega⟩
    obtain ⟨hitem, hitems⟩ := List.forall_mem_cons.mp h
    have hwrite : writeItems ℓ d (next :: items) =
        ',' :: (ℓ.gap d ++ (next.write ℓ d ++ writeItems ℓ d items)) := by simp [writeItems]
    rw [hwrite] at hn ⊢
    simp only [List.length_cons, List.length_append] at hn
    have hrest := ih (n := n) hitems (by omega)
    rw [items?, value_append (hℓ.gap d), hitem d _ n (by omega)]
    simp [skipBlanks_cons (c := ',') rfl, hrest]

theorem array_reads {ℓ : Layout} (hℓ : ℓ.Blank) {items : List Json}
    (hbasic : allBasic items = true) (h : ∀ j ∈ items, Reads ℓ j) : Reads ℓ (.array items) := by
  intro d rest n hn
  cases items with
  | nil =>
    obtain ⟨n, rfl⟩ : ∃ k, n = k + 1 := ⟨n - 1, by simp [write] at hn; omega⟩
    simp [write, value?, skipBlanks_cons (c := '[') rfl, skipBlanks_cons (c := ']') rfl]
  | cons item items =>
    have hwrite : (array (item :: items)).write ℓ d =
        '[' :: (ℓ.gap (d + 1) ++ (item.write ℓ (d + 1) ++
          (writeItems ℓ (d + 1) items ++ (ℓ.gap d ++ [']'])))) := by simp [write]
    rw [hwrite] at hn ⊢
    simp only [List.length_cons, List.length_append] at hn
    obtain ⟨n, rfl⟩ : ∃ k, n = k + 1 := ⟨n - 1, by omega⟩
    have hitems := items_read hℓ h (d + 1) (hℓ.gap d) rest (n := n) (by omega)
    obtain ⟨c, cs, hhead, hblank, hne⟩ :=
      write_head (j := item) (by simp [allBasic] at hbasic; exact hbasic.1) ℓ (d + 1)
    -- an item does not begin with the closing bracket
    have hskip (cs' : List Char) : skipBlanks (ℓ.gap (d + 1) ++ (item.write ℓ (d + 1) ++ cs')) =
        c :: (cs ++ cs') := by
      rw [skipBlanks_append (hℓ.gap _), hhead, List.cons_append, skipBlanks_cons hblank]
    simp only [List.cons_append, List.append_assoc, List.nil_append] at hitems ⊢
    rw [value?, skipBlanks_cons (c := '[') rfl]
    simp [hskip, hne, hitems]

/-- The fields as they are read, each with a key that has a value. -/
def keyed (fields : List (String × Json)) : List (Option String × Json) :=
  fields.map fun field => (some field.1, field.2)

theorem ofFields_keyed (fields : List (String × Json)) :
    ofFields (keyed fields) = .object fields := by
  have hkeys : (keyed fields).mapM (fun field => field.1.map fun key => (key, field.2)) =
      some fields := by
    induction fields with
    | nil => rfl
    | cons field fields ih =>
      rw [keyed] at ih
      simp [keyed, ih]
  rw [ofFields, hkeys]

/-- How reading goes on after a field. -/
def afterField (n : Nat) (field : Option String × Json) (tail : List Char) :
    Option (List (Option String × Json) × List Char) :=
  match skipBlanks tail with
  | '\x7d' :: rest => some ([field], rest)
  | ',' :: rest => (fields? n rest).map fun found => (field :: found.1, found.2)
  | _ => none

theorem fields_step {ℓ : Layout} (hℓ : ℓ.Blank) (key : String) {value : Json}
    (hvalue : Reads ℓ value) (d : Nat) (tail : List Char) {n : Nat}
    (hn : 2 * (value.write ℓ d).length ≤ n) :
    fields? (n + 1) (ℓ.gap d ++ (writeText key ++ (ℓ.colon ++ (value.write ℓ d ++ tail)))) =
      afterField n (some key, value) tail := by
  obtain ⟨blanks, hcolon, hblanks⟩ := hℓ.colon
  have hwrite (cs : List Char) :
      writeText key ++ cs = '"' :: (key.toList.flatMap escapeChar ++ '"' :: cs) := by
    simp [writeText]
  rw [fields_append (hℓ.gap d), fields?, hwrite, skipBlanks_cons (c := '"') rfl, hcolon,
    List.cons_append]
  simp only [text_read, Option.bind_eq_bind, Option.bind_some, skipBlanks_cons (c := ':') rfl,
    value_append hblanks, hvalue d tail n hn]
  rfl

theorem fields_read {ℓ : Layout} (hℓ : ℓ.Blank) {key : String} {value : Json}
    {fields : List (String × Json)} (h : ∀ f ∈ (key, value) :: fields, Reads ℓ f.2) (d : Nat)
    {close : List Char} (hclose : ∀ c ∈ close, isBlank c = true) (rest : List Char) {n : Nat}
    (hn : 2 * ((value.write ℓ d).length + (writeFields ℓ d fields).length) < n) :
    fields? n (ℓ.gap d ++ (writeText key ++ (ℓ.colon ++ (value.write ℓ d ++
      (writeFields ℓ d fields ++ (close ++ '\x7d' :: rest)))))) =
        some (keyed ((key, value) :: fields), rest) := by
  induction fields generalizing key value n with
  | nil =>
    obtain ⟨n, rfl⟩ : ∃ k, n = k + 1 := ⟨n - 1, by omega⟩
    have hvalue : Reads ℓ value := h (key, value) List.mem_cons_self
    rw [fields_step hℓ key hvalue d _ (by omega), writeFields, List.nil_append, afterField,
      skipBlanks_append hclose, skipBlanks_cons (c := '\x7d') rfl]
    rfl
  | cons next fields ih =>
    obtain ⟨n, rfl⟩ : ∃ k, n = k + 1 := ⟨n - 1, by omega⟩
    obtain ⟨nextKey, nextValue⟩ := next
    have hvalue : Reads ℓ value := h (key, value) List.mem_cons_self
    have hfields := (List.forall_mem_cons.mp h).2
    have hwrite : writeFields ℓ d ((nextKey, nextValue) :: fields) =
        ',' :: (ℓ.gap d ++ (writeText nextKey ++ (ℓ.colon ++ (nextValue.write ℓ d ++
          writeFields ℓ d fields)))) := by simp [writeFields]
    rw [hwrite] at hn ⊢
    simp only [List.length_cons, List.length_append] at hn
    have hrest := ih (n := n) hfields (by omega)
    rw [fields_step hℓ key hvalue d _ (by omega), afterField, List.cons_append,
      skipBlanks_cons (c := ',') rfl]
    simp [hrest, keyed]

theorem object_reads {ℓ : Layout} (hℓ : ℓ.Blank) {fields : List (String × Json)}
    (h : ∀ f ∈ fields, Reads ℓ f.2) : Reads ℓ (.object fields) := by
  intro d rest n hn
  cases fields with
  | nil =>
    obtain ⟨n, rfl⟩ : ∃ k, n = k + 1 := ⟨n - 1, by simp [write] at hn; omega⟩
    simp [write, value?, skipBlanks_cons (c := '\x7b') rfl, skipBlanks_cons (c := '\x7d') rfl]
  | cons field fields =>
    obtain ⟨key, value⟩ := field
    have hwrite : (object ((key, value) :: fields)).write ℓ d =
        '\x7b' :: (ℓ.gap (d + 1) ++ (writeText key ++ (ℓ.colon ++ (value.write ℓ (d + 1) ++
          (writeFields ℓ (d + 1) fields ++ (ℓ.gap d ++ ['\x7d'])))))) := by simp [write]
    rw [hwrite] at hn ⊢
    simp only [List.length_cons, List.length_append] at hn
    obtain ⟨n, rfl⟩ : ∃ k, n = k + 1 := ⟨n - 1, by omega⟩
    have hfields := fields_read hℓ h (d + 1) (hℓ.gap d) rest (n := n) (by omega)
    have hskip (cs : List Char) : skipBlanks (ℓ.gap (d + 1) ++ (writeText key ++ cs)) =
        '"' :: (key.toList.flatMap escapeChar ++ '"' :: cs) := by
      rw [skipBlanks_append (hℓ.gap _), writeText, List.cons_append, List.cons_append,
        skipBlanks_cons (c := '"') rfl, List.append_assoc, List.singleton_append]
    simp only [List.cons_append, List.append_assoc, List.nil_append] at hfields ⊢
    rw [value?, skipBlanks_cons (c := '\x7b') rfl]
    simp [hskip, hfields, ofFields_keyed]

theorem word_reads {ℓ : Layout} {j : Json} (hj : j = .null ∨ ∃ b, j = .bool b) : Reads ℓ j := by
  intro d rest n hn
  rcases hj with rfl | ⟨b, rfl⟩
  · obtain ⟨n, rfl⟩ : ∃ k, n = k + 1 := ⟨n - 1, by simp [write] at hn; omega⟩
    simp [write, value?, skipBlanks_cons (c := 'n') rfl]
  · cases b
    · obtain ⟨n, rfl⟩ : ∃ k, n = k + 1 := ⟨n - 1, by simp [write] at hn; omega⟩
      simp [write, value?, skipBlanks_cons (c := 'f') rfl]
    · obtain ⟨n, rfl⟩ : ∃ k, n = k + 1 := ⟨n - 1, by simp [write] at hn; omega⟩
      simp [write, value?, skipBlanks_cons (c := 't') rfl]

theorem text_reads {ℓ : Layout} (s : String) : Reads ℓ (.text s) := by
  intro d rest n hn
  have hwrite : (text s).write ℓ d ++ rest =
      '"' :: (s.toList.flatMap escapeChar ++ '"' :: rest) := by simp [write, writeText]
  obtain ⟨n, rfl⟩ : ∃ k, n = k + 1 := ⟨n - 1, by simp [write, writeText] at hn; omega⟩
  rw [hwrite, value?, skipBlanks_cons (c := '"') rfl]
  simp [text_read]

mutual

theorem basic_reads {ℓ : Layout} (hℓ : ℓ.Blank) (j : Json) (hj : j.isBasic = true) : Reads ℓ j :=
  match j with
  | null => word_reads (.inl rfl)
  | bool b => word_reads (.inr ⟨b, rfl⟩)
  | number _ => nomatch hj
  | text s => text_reads s
  | array items => array_reads hℓ hj (items_basic_reads hℓ items hj)
  | object fields => object_reads hℓ (fields_basic_reads hℓ fields hj)
  | unreadable => nomatch hj

theorem items_basic_reads {ℓ : Layout} (hℓ : ℓ.Blank) (items : List Json)
    (h : allBasic items = true) : ∀ j ∈ items, Reads ℓ j :=
  match items with
  | [] => fun _ hm => absurd hm List.not_mem_nil
  | item :: items => by
    obtain ⟨hitem, hitems⟩ := Bool.and_eq_true_iff.mp h
    exact List.forall_mem_cons.mpr ⟨basic_reads hℓ item hitem, items_basic_reads hℓ items hitems⟩

theorem fields_basic_reads {ℓ : Layout} (hℓ : ℓ.Blank) (fields : List (String × Json))
    (h : allFieldsBasic fields = true) : ∀ f ∈ fields, Reads ℓ f.2 :=
  match fields with
  | [] => fun _ hm => absurd hm List.not_mem_nil
  | (key, value) :: fields => by
    obtain ⟨hvalue, hfields⟩ := Bool.and_eq_true_iff.mp h
    exact List.forall_mem_cons.mpr
      ⟨basic_reads hℓ value hvalue, fields_basic_reads hℓ fields hfields⟩

end

/-- A document without numbers is what its text is read as. -/
theorem read_render {ℓ : Layout} (hℓ : ℓ.Blank) {j : Json} (hj : j.isBasic = true) :
    read? (j.render ℓ) = some j := by
  have hvalue := basic_reads hℓ j hj 0 [] (2 * (j.write ℓ 0).length + 2) (by omega)
  rw [List.append_nil] at hvalue
  rw [read?, render, String.toList_ofList, ofChars?, hvalue]
  rfl

end StateTree.Json
