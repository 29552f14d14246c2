import SqlGrammar.Proofs.MemberText
import SqlGrammar.Proofs.Reading

/-!
The grammar of JSON, as the texts that an outline has (`Spells`): words, numerals and strings, lists and records
with commas between their parts, and white space around every value and every key. What is proved: each such text is
scanned as its outline to the end (`outline_of_spells`).

What follows a value must not be taken for a part of it. Only a numeral has no end of its own, so it is enough that
what follows is no digit, no point and no exponent (`Parted`); after a string nothing is looked at
(`scanString_append`). White space behind a value is left over by the scanner, which skips it afterwards, so the
rest is told up to white space in front of it.
-/

namespace SqlGrammar.Json

/-- A member of a record with its texts. -/
structure Entry where
  key : Key
  keyText : List Char
  value : Outline
  text : List Char

def Entry.chars (m : Entry) : List Char := m.keyText ++ ':' :: m.text

def commaText (texts : List (List Char)) : List Char := [','].intercalate texts

/-- The text is JSON, and this is its outline. A numeral or a string is what is read to its end as one; a string
may hold half a surrogate pair, and a numeral may be beyond the doubles. -/
inductive Spells : Outline → List Char → Prop
  | null : Spells .null ['n', 'u', 'l', 'l']
  | true : Spells (.bool Bool.true) ['t', 'r', 'u', 'e']
  | false : Spells (.bool Bool.false) ['f', 'a', 'l', 's', 'e']
  | number {n : Numeral} {s : List Char} : scanNumeral s = .read n [] → Spells (.number n.number) s
  | string {content : Except Fault (List Char)} {s : List Char} : scanString s = .closed content [] →
    Spells (.string (content.map String.ofList)) ('"' :: s)
  | emptyList {w : List Char} : (∀ c ∈ w, isSpace c = Bool.true) → Spells (.list [] .closed) ('[' :: (w ++ [']']))
  | list {items : List (Outline × List Char)} : items ≠ [] → (∀ i ∈ items, Spells i.1 i.2) →
    Spells (.list (items.map Prod.fst) .closed) ('[' :: (commaText (items.map Prod.snd) ++ [']']))
  | emptyRecord {w : List Char} : (∀ c ∈ w, isSpace c = Bool.true) →
    Spells (.record [] .closed) ('\x7b' :: (w ++ ['\x7d']))
  | record {members : List Entry} : members ≠ [] → (∀ m ∈ members, Spells (.string m.key) m.keyText) →
    (∀ m ∈ members, Spells m.value m.text) →
    Spells (.record (members.map fun m => (m.key, m.value)) .closed)
      ('\x7b' :: (commaText (members.map Entry.chars) ++ ['\x7d']))
  | before {c : Char} {o : Outline} {s : List Char} : isSpace c = Bool.true → Spells o s → Spells o (c :: s)
  | after {c : Char} {o : Outline} {s : List Char} : isSpace c = Bool.true → Spells o s → Spells o (s ++ [c])

/-! ## Strings -/

namespace StringScan

theorem push_eq_closed {c : Char} {x : StringScan} {content : Except Fault (List Char)} {r : List Char} :
    x.push c = .closed content r ↔ ∃ inner, inner.map (c :: ·) = content ∧ x = .closed inner r := by
  cases x with
  | closed inner rest =>
    constructor
    · rintro ⟨⟩
      exact ⟨inner, rfl, rfl⟩
    · rintro ⟨_, rfl, ⟨⟩⟩
      rfl
  | broken f g => simp [push]

theorem fault_eq_closed {f : Fault} {x : StringScan} {content : Except Fault (List Char)} {r : List Char} :
    x.fault f = .closed content r ↔ (∃ inner, x = .closed inner r) ∧ .error f = content := by
  cases x <;> simp [fault, and_comm]

end StringScan

theorem cutSurrogate_append {r : List Char} (h0 : r ≠ []) (h1 : r ≠ ['\\'])
    (h2 : ∀ short, r ≠ '\\' :: 'u' :: short) (t : List Char) :
    r ++ t ≠ [] ∧ r ++ t ≠ ['\\'] ∧ ∀ short, r ++ t ≠ '\\' :: 'u' :: short := by
  match r, h0, h1, h2 with
  | [c], _, h1, _ => exact ⟨nofun, by simp_all, by simp_all⟩
  | c :: d :: r, _, _, h2 => exact ⟨nofun, by simp_all, by simp_all⟩

/-- **A string is closed by its quote**, whatever follows. -/
theorem scanString_append {s r : List Char} {content : Except Fault (List Char)}
    (h : scanString s = .closed content r) (t : List Char) : scanString (s ++ t) = .closed content (r ++ t) := by
  fun_induction scanString s generalizing content r with
  | case1 | case3 | case4 | case7 | case8 | case9 | case12 | case14 | case15 | case17 => cases h
  | case2 r =>
    cases h
    rfl
  | case5 a b c d r m code low ih =>
    obtain ⟨⟨inner, closed⟩, rfl⟩ := StringScan.fault_eq_closed.1 h
    simp [scanString, code, low, ih closed, StringScan.fault]
  | case6 a b c d r m code low high ih =>
    obtain ⟨inner, rfl, closed⟩ := StringScan.push_eq_closed.1 h
    simp [scanString, code, low, high, ih closed, StringScan.push]
  | case10 a b c d m code low high a' b' c' d' r m' code' low' ih =>
    obtain ⟨inner, rfl, closed⟩ := StringScan.push_eq_closed.1 h
    simp [scanString, code, low, high, code', low', ih closed, StringScan.push]
  | case11 a b c d m code low high a' b' c' d' r m' code' low' ih =>
    obtain ⟨⟨inner, closed⟩, rfl⟩ := StringScan.fault_eq_closed.1 h
    simp [scanString, code, low, high, code', low', ih closed, StringScan.fault]
  | case13 a b c d m code low high r h0 h1 _ h2 ih =>
    obtain ⟨⟨inner, closed⟩, rfl⟩ := StringScan.fault_eq_closed.1 h
    obtain ⟨g0, g1, g2⟩ := cutSurrogate_append h0 h1 h2 t
    simp only [List.cons_append, scanString, code, if_neg low, if_neg high]
    split
    · next he => exact absurd he g0
    · next he => exact absurd he g1
    · next he => exact absurd he (g2 _)
    · next he => exact absurd he (g2 _)
    · simp [ih closed, StringScan.fault]
  | case16 c u _ hu e escape ih =>
    obtain ⟨inner, rfl, closed⟩ := StringScan.push_eq_closed.1 h
    show scanString ('\\' :: c :: (u ++ t)) = _
    rw [scanString]
    · simp [escape, ih closed, StringScan.push]
    · exact fun _ _ _ _ _ he => absurd he hu
    · exact hu
  | case18 c r hq hb plain ih =>
    obtain ⟨inner, rfl, closed⟩ := StringScan.push_eq_closed.1 h
    simp [scanString, plain, ih closed, StringScan.push]

/-! ## Numerals -/

/-- What cannot go on with a numeral. -/
def Parted (t : List Char) : Prop := ∀ c ∈ t.head?, c.isDigit = false ∧ c ≠ '.' ∧ c ≠ 'e' ∧ c ≠ 'E'

section Numerals

variable {negative : Bool} {whole places s rest t : List Char} {n : Numeral} (ht : Parted t)

include ht

theorem span_append (s : List Char) : (s ++ t).takeWhile Char.isDigit = s.takeWhile Char.isDigit ∧
    (s ++ t).dropWhile Char.isDigit = s.dropWhile Char.isDigit ++ t := by
  induction s with
  | nil =>
    cases t with
    | nil => exact ⟨rfl, rfl⟩
    | cons c t =>
      have stop : ¬c.isDigit = true := by simp [(ht c rfl).1]
      exact ⟨List.takeWhile_cons_of_neg stop, List.dropWhile_cons_of_neg stop⟩
  | cons c s ih =>
    by_cases hc : c.isDigit
    · simp [hc, ih.1, ih.2]
    · simp [hc]

theorem scanPower_append (h : scanPower negative whole places s = .read n rest) :
    scanPower negative whole places (s ++ t) = .read n (rest ++ t) := by
  have digits {up : Bool} {r : List Char}
      (hd : (if r.takeWhile Char.isDigit = [] then missingDigit r
        else .read ⟨negative, whole, places, some (up, r.takeWhile Char.isDigit)⟩ (r.dropWhile Char.isDigit)) =
          .read n rest) :
      (if (r ++ t).takeWhile Char.isDigit = [] then missingDigit (r ++ t)
        else .read ⟨negative, whole, places, some (up, (r ++ t).takeWhile Char.isDigit)⟩
          ((r ++ t).dropWhile Char.isDigit)) = .read n (rest ++ t) := by
    rw [(span_append ht r).1, (span_append ht r).2]
    split at hd
    · cases hd
    · next given =>
      cases hd
      exact if_neg given
  cases s with
  | nil =>
    cases h
    cases t with
    | nil => rfl
    | cons c t =>
      obtain ⟨-, -, small, big⟩ := ht c rfl
      simp [scanPower, small, big]
  | cons c s =>
    rw [List.cons_append]
    unfold scanPower at h ⊢
    dsimp only at h ⊢
    split at h
    · next hc =>
      rw [if_pos hc]
      split at h
      · exact digits h
      · exact digits h
      · next plus minus =>
        cases s with
        | nil => cases h
        | cons d s =>
          rw [List.cons_append]
          split
          · next he => exact absurd (congrArg (· :: s) (List.cons.inj he).1) (plus s)
          · next he => exact absurd (congrArg (· :: s) (List.cons.inj he).1) (minus s)
          · exact digits h
    · next hc =>
      rw [if_neg hc]
      cases h
      rfl

theorem scanPlaces_append (h : scanPlaces negative whole s = .read n rest) :
    scanPlaces negative whole (s ++ t) = .read n (rest ++ t) := by
  unfold scanPlaces at h
  split at h
  · next r =>
    split at h
    · cases h
    · next given =>
      have places := scanPower_append ht h
      rw [List.cons_append, scanPlaces, (span_append ht r).1, (span_append ht r).2, if_neg given, places]
  · next point =>
    have power := scanPower_append ht h
    unfold scanPlaces
    split
    · next r he =>
      -- the point would be one of what follows
      cases s with
      | nil => exact absurd rfl (ht '.' (by rw [← List.nil_append t, he]; rfl)).2.1
      | cons c s => exact absurd (congrArg (· :: s) (List.cons.inj he).1) (point s)
    · exact power

theorem scanWhole_append (h : scanWhole negative s = .read n rest) :
    scanWhole negative (s ++ t) = .read n (rest ++ t) := by
  unfold scanWhole at h
  split at h
  · next c r =>
    split at h
    · cases h
    · next hc =>
      have places := scanPlaces_append ht h
      rw [List.cons_append, List.cons_append, scanWhole, if_neg hc]
      exact places
  · next zero =>
    split at h
    · cases h
    · next given =>
      have places := scanPlaces_append ht h
      unfold scanWhole
      split
      · next c r he =>
        -- a zero that ends the text is followed by no digit
        match s with
        | [] => simp at given
        | [x] =>
          obtain ⟨rfl, rfl⟩ := List.cons.inj he
          rw [if_neg (by simp [(ht c rfl).1])]
          exact places
        | x :: y :: s => exact absurd (congrArg (· :: y :: s) (List.cons.inj he).1) (zero y s)
      · rw [(span_append ht s).1, (span_append ht s).2, if_neg given]
        exact places

/-- **A numeral ends before what cannot go on with it.** -/
theorem scanNumeral_append (h : scanNumeral s = .read n rest) : scanNumeral (s ++ t) = .read n (rest ++ t) := by
  unfold scanNumeral at h
  split at h
  · exact scanWhole_append ht h
  · next minus =>
    have whole := scanWhole_append ht h
    unfold scanNumeral
    split
    · next r he =>
      cases s with
      | nil => cases h
      | cons c s => exact absurd (congrArg (· :: s) (List.cons.inj he).1) (minus s)
    · exact whole

end Numerals

theorem exists_cons_of_scanNumeral {s : List Char} {n : Numeral} (h : scanNumeral s = .read n []) :
    ∃ c u, s = c :: u ∧ (c = '-' ∨ c.isDigit) := by
  cases s with
  | nil => cases h
  | cons c u =>
    refine ⟨c, u, rfl, ?_⟩
    by_contra none
    obtain ⟨sign, digit⟩ := not_or.1 none
    have whole : scanNumeral (c :: u) = scanWhole false (c :: u) := by
      unfold scanNumeral
      split
      · next he => exact absurd (List.cons.inj he).1 sign
      · rfl
    have zero : c ≠ '0' := by
      rintro rfl
      exact digit rfl
    rw [whole, scanWhole, List.takeWhile_cons_of_neg digit] at h
    · cases h
    · intro d r he
      exact absurd (List.cons.inj he).1 zero

/-! ## White space -/

theorem skipSpace_blanks {w : List Char} (hw : ∀ c ∈ w, isSpace c = true) (t : List Char) :
    skipSpace (w ++ t) = skipSpace t := List.dropWhile_append_of_pos hw

theorem skipSpace_append {s u : List Char} {c : Char} (h : skipSpace s = c :: u) (t : List Char) :
    skipSpace (s ++ t) = c :: (u ++ t) := by
  rw [skipSpace, List.dropWhile_append]
  rw [skipSpace] at h
  simp [h]

theorem scanValue_skipSpace (fuel : Nat) (s : List Char) : scanValue fuel (skipSpace s) = scanValue fuel s := by
  cases fuel with
  | zero => rfl
  | succ fuel => rw [scanValue, scanValue, skipSpace_skipSpace]

theorem scanItems_skipSpace (fuel : Nat) (s : List Char) : scanItems fuel (skipSpace s) = scanItems fuel s := by
  cases fuel with
  | zero => rfl
  | succ fuel => rw [scanItems, scanItems, scanValue_skipSpace]

/-! ## Values -/

/-- The text is scanned as this outline, before anything that cannot go on with it; white space may be left over
in front of what follows. It starts with no closing bracket or brace. -/
structure Scanned (o : Outline) (s : List Char) : Prop where
  value (fuel : Nat) (rest : List Char) : 2 * s.length ≤ fuel → Parted rest →
    ∃ left, scanValue fuel (s ++ rest) = (o, left) ∧ skipSpace left = skipSpace rest
  start : ∃ c u, skipSpace s = c :: u ∧ c ≠ ']' ∧ c ≠ '\x7d'

/-- The text of a string, as the scanner of members meets it. -/
def ScannedKey (k : Key) (s : List Char) : Prop :=
  ∀ t, ∃ r content left, skipSpace (s ++ t) = '"' :: r ∧ scanString r = .closed content left ∧
    content.map String.ofList = k ∧ skipSpace left = skipSpace t

theorem parted_of_isSpace {c : Char} (hc : isSpace c = true) (t : List Char) : Parted (c :: t) := by
  rintro _ ⟨⟩
  have space : c = ' ' ∨ c = '\t' ∨ c = '\n' ∨ c = '\r' := by simpa [isSpace, or_assoc] using hc
  rcases space with rfl | rfl | rfl | rfl <;> decide

theorem skipSpace_of_isSpace {c : Char} (hc : isSpace c = true) (t : List Char) : skipSpace (c :: t) = skipSpace t :=
  List.dropWhile_cons_of_pos hc

theorem commaText_singleton (s : List Char) : commaText [s] = s := List.intercalate_singleton

theorem commaText_cons_cons (s u : List Char) (texts : List (List Char)) :
    commaText (s :: u :: texts) = s ++ ',' :: commaText (u :: texts) := by
  rw [commaText, List.intercalate_cons_cons, List.append_assoc]
  rfl

theorem exists_commaText (s : List Char) (texts : List (List Char)) : ∃ u, commaText (s :: texts) = s ++ u := by
  cases texts with
  | nil => exact ⟨[], by rw [commaText_singleton, List.append_nil]⟩
  | cons u texts => exact ⟨_, commaText_cons_cons s u texts⟩

/-! ### Lists -/

/-- **Items with commas between them are scanned** up to the closing bracket. -/
theorem scanItems_commaText {items : List (Outline × List Char)} (given : items ≠ [])
    (scanned : ∀ i ∈ items, Scanned i.1 i.2) (fuel : Nat) (rest : List Char)
    (enough : 2 * (commaText (items.map Prod.snd)).length + 1 ≤ fuel) :
    scanItems fuel (commaText (items.map Prod.snd) ++ ']' :: rest) = (items.map Prod.fst, .closed, rest) := by
  induction items generalizing fuel with
  | nil => exact absurd rfl given
  | cons i items ih =>
    obtain ⟨fuel, rfl⟩ := Nat.exists_eq_add_of_lt (Nat.lt_of_lt_of_le (Nat.succ_pos _) enough)
    rw [Nat.zero_add] at enough ⊢
    obtain ⟨first, others⟩ := List.forall_mem_cons.1 scanned
    cases items with
    | nil =>
      rw [List.map_singleton, commaText_singleton] at enough ⊢
      obtain ⟨left, item, behind⟩ := first.value fuel (']' :: rest) (by omega) (by rintro _ ⟨⟩; decide)
      exact scanItems_last item behind
    | cons j items =>
      rw [List.map_cons, List.map_cons, commaText_cons_cons, List.length_append, List.length_cons] at enough
      rw [List.map_cons, List.map_cons, commaText_cons_cons, List.append_assoc, List.cons_append]
      obtain ⟨left, item, behind⟩ := first.value fuel (',' :: (commaText (j.2 :: items.map Prod.snd) ++ ']' :: rest))
        (by omega) (by rintro _ ⟨⟩; decide)
      obtain ⟨c, u, start, bracket, -⟩ := (others j List.mem_cons_self).start
      obtain ⟨v, text⟩ := exists_commaText j.2 (items.map Prod.snd)
      have next : skipSpace (commaText (j.2 :: items.map Prod.snd) ++ ']' :: rest) =
          c :: (u ++ (v ++ ']' :: rest)) := by
        rw [text, List.append_assoc]
        exact skipSpace_append start _
      have later := ih (List.cons_ne_nil _ _) others fuel (by rw [List.map_cons]; omega)
      rw [List.map_cons, ← scanItems_skipSpace, next] at later
      exact scanItems_next item behind next bracket later

/-! ### Records -/

theorem scanMembers_commaText {members : List Entry} (given : members ≠ [])
    (keys : ∀ m ∈ members, ScannedKey m.key m.keyText) (values : ∀ m ∈ members, Scanned m.value m.text)
    (fuel : Nat) (rest : List Char) (enough : 2 * (commaText (members.map Entry.chars)).length + 1 ≤ fuel) :
    scanMembers fuel (skipSpace (commaText (members.map Entry.chars) ++ '\x7d' :: rest)) =
      (members.map fun m => (m.key, m.value), .closed, rest) := by
  induction members generalizing fuel with
  | nil => exact absurd rfl given
  | cons m members ih =>
    obtain ⟨fuel, rfl⟩ := Nat.exists_eq_add_of_lt (Nat.lt_of_lt_of_le (Nat.succ_pos _) enough)
    rw [Nat.zero_add] at enough ⊢
    obtain ⟨key, otherKeys⟩ := List.forall_mem_cons.1 keys
    obtain ⟨value, otherValues⟩ := List.forall_mem_cons.1 values
    have length : m.chars.length = m.keyText.length + m.text.length + 1 := by
      rw [Entry.chars, List.length_append, List.length_cons]
      omega
    cases members with
    | nil =>
      rw [List.map_singleton, commaText_singleton] at enough ⊢
      rw [Entry.chars, List.append_assoc, List.cons_append]
      obtain ⟨r, content, behind, quote, string, same, colon⟩ := key (':' :: (m.text ++ '\x7d' :: rest))
      obtain ⟨left, read, stop⟩ := value.value fuel ('\x7d' :: rest) (by omega) (by rintro _ ⟨⟩; decide)
      rw [quote]
      exact scanMembers_last string same colon read stop
    | cons n members =>
      rw [List.map_cons, List.map_cons, commaText_cons_cons, List.length_append, List.length_cons] at enough
      rw [List.map_cons, List.map_cons, commaText_cons_cons, Entry.chars, List.append_assoc, List.append_assoc,
        List.cons_append, List.cons_append]
      obtain ⟨r, content, behind, quote, string, same, colon⟩ :=
        key (':' :: (m.text ++ ',' :: (commaText (n.chars :: members.map Entry.chars) ++ '\x7d' :: rest)))
      obtain ⟨left, read, comma⟩ :=
        value.value fuel (',' :: (commaText (n.chars :: members.map Entry.chars) ++ '\x7d' :: rest))
          (by omega) (by rintro _ ⟨⟩; decide)
      obtain ⟨v, text⟩ := exists_commaText n.chars (members.map Entry.chars)
      obtain ⟨c, -, -, next, -⟩ := otherKeys n List.mem_cons_self (':' :: (n.text ++ (v ++ '\x7d' :: rest)))
      have start : skipSpace (commaText (n.chars :: members.map Entry.chars) ++ '\x7d' :: rest) = '"' :: c := by
        rw [text, Entry.chars, List.append_assoc, List.append_assoc, List.cons_append]
        exact next
      have later := ih (List.cons_ne_nil _ _) otherKeys otherValues fuel (by rw [List.map_cons]; omega)
      rw [List.map_cons, start] at later
      rw [quote]
      exact scanMembers_next string same colon read comma start later

/-! ### Whole texts -/

namespace Scanned

variable {c : Char} {o : Outline} {s : List Char}

theorem of_step {u : List Char} (text : s = c :: u) (space : isSpace c = false) (bracket : c ≠ ']')
    (brace : c ≠ '\x7d') (step : ∀ fuel rest, 2 * s.length ≤ fuel + 1 → Parted rest →
      scanValue (fuel + 1) (s ++ rest) = (o, rest)) : Scanned o s where
  value fuel rest enough parted := by
    obtain ⟨fuel, rfl⟩ : ∃ n, fuel = n + 1 := Nat.exists_eq_succ_of_ne_zero (by rintro rfl; simp [text] at enough)
    exact ⟨rest, step fuel rest enough parted, rfl⟩
  start := ⟨c, u, by rw [text, skipSpace_cons space], bracket, brace⟩

theorem before (hc : isSpace c = true) (h : Scanned o s) : Scanned o (c :: s) where
  value fuel rest enough parted := by
    rw [List.length_cons] at enough
    obtain ⟨left, read, behind⟩ := h.value fuel rest (by omega) parted
    refine ⟨left, ?_, behind⟩
    rw [← scanValue_skipSpace, List.cons_append, skipSpace_of_isSpace hc, scanValue_skipSpace, read]
  start := by
    rw [skipSpace_of_isSpace hc]
    exact h.start

theorem after (hc : isSpace c = true) (h : Scanned o s) : Scanned o (s ++ [c]) where
  value fuel rest enough parted := by
    rw [List.length_append] at enough
    rw [List.append_assoc]
    obtain ⟨left, read, behind⟩ := h.value fuel (c :: rest) (by omega) (parted_of_isSpace hc rest)
    exact ⟨left, read, behind.trans (skipSpace_of_isSpace hc rest)⟩
  start := by
    obtain ⟨d, u, first, solid⟩ := h.start
    exact ⟨d, u ++ [c], skipSpace_append first [c], solid⟩

end Scanned

theorem scannedKey_of_spells {k : Key} {s : List Char} (h : Spells (.string k) s) : ScannedKey k s := by
  generalize same : Outline.string k = o at h
  induction h with
  | @string content s closed =>
    cases same
    intro t
    exact ⟨s ++ t, content, t, rfl, scanString_append closed t, rfl, rfl⟩
  | @before c o s hc _ ih =>
    intro t
    rw [List.cons_append, skipSpace_of_isSpace hc]
    exact ih same t
  | @after c o s hc _ ih =>
    intro t
    obtain ⟨r, content, left, quote, closed, name, behind⟩ := ih same (c :: t)
    rw [List.append_assoc]
    exact ⟨r, content, left, quote, closed, name, behind.trans (skipSpace_of_isSpace hc t)⟩
  | _ => cases same

/-- **Every JSON text is scanned as its outline.** -/
theorem scanned_of_spells {o : Outline} {s : List Char} (h : Spells o s) : Scanned o s := by
  induction h with
  | null => exact .of_step rfl (by decide) (by decide) (by decide) fun _ _ _ _ => rfl
  | true => exact .of_step rfl (by decide) (by decide) (by decide) fun _ _ _ _ => rfl
  | false => exact .of_step rfl (by decide) (by decide) (by decide) fun _ _ _ _ => rfl
  | @number n s read =>
    obtain ⟨c, u, rfl, hc⟩ := exists_cons_of_scanNumeral read
    refine .of_step rfl (isSpace_of_numeral hc) ?_ ?_ fun fuel rest _ parted => ?_
    · rintro rfl
      simp at hc
    · rintro rfl
      simp at hc
    · have further := scanNumeral_append parted read
      rw [List.cons_append] at further ⊢
      rw [scanValue_numeral hc, further]
      rfl
  | @string content s closed =>
    refine .of_step rfl (by decide) (by decide) (by decide) fun fuel rest _ _ => ?_
    have quote : skipSpace ('"' :: (s ++ rest)) = '"' :: (s ++ rest) := rfl
    rw [List.cons_append, scanValue, quote]
    simp [scanString_append closed rest]
  | @emptyList w blank =>
    refine .of_step rfl (by decide) (by decide) (by decide) fun fuel rest _ _ => ?_
    have bracket : skipSpace ('[' :: (w ++ [']'] ++ rest)) = '[' :: (w ++ [']'] ++ rest) := rfl
    have stop : skipSpace (w ++ [']'] ++ rest) = ']' :: rest := by
      rw [List.append_assoc, skipSpace_blanks blank]
      rfl
    rw [List.cons_append, scanValue, bracket]
    simp only [stop]
  | @list items given _ ih =>
    refine .of_step rfl (by decide) (by decide) (by decide) fun fuel rest enough _ => ?_
    simp only [List.length_cons, List.length_append] at enough
    have inner := scanItems_commaText given ih fuel rest (by omega)
    obtain ⟨i, others, rfl⟩ := List.exists_cons_of_ne_nil given
    obtain ⟨c, u, start, solid, -⟩ := (ih i List.mem_cons_self).start
    obtain ⟨v, text⟩ := exists_commaText i.2 (others.map Prod.snd)
    have first : skipSpace (commaText ((i :: others).map Prod.snd) ++ ']' :: rest) =
        c :: (u ++ (v ++ ']' :: rest)) := by
      rw [List.map_cons, text, List.append_assoc]
      exact skipSpace_append start _
    rw [← scanItems_skipSpace, first] at inner
    rw [List.cons_append, List.append_assoc]
    exact scanValue_list rfl first solid inner
  | @emptyRecord w blank =>
    refine .of_step rfl (by decide) (by decide) (by decide) fun fuel rest _ _ => ?_
    have brace : skipSpace ('\x7b' :: (w ++ ['\x7d'] ++ rest)) = '\x7b' :: (w ++ ['\x7d'] ++ rest) := rfl
    have stop : skipSpace (w ++ ['\x7d'] ++ rest) = '\x7d' :: rest := by
      rw [List.append_assoc, skipSpace_blanks blank]
      rfl
    rw [List.cons_append, scanValue_brace brace, stop]
    rfl
  | @record members given keys _ _ ih =>
    refine .of_step rfl (by decide) (by decide) (by decide) fun fuel rest enough _ => ?_
    simp only [List.length_cons, List.length_append] at enough
    have scannedKeys := fun m hm => scannedKey_of_spells (keys m hm)
    have inner := scanMembers_commaText given scannedKeys ih fuel rest (by omega)
    obtain ⟨m, others, rfl⟩ := List.exists_cons_of_ne_nil given
    obtain ⟨v, text⟩ := exists_commaText m.chars (others.map Entry.chars)
    obtain ⟨r, -, -, quote, -⟩ := scannedKeys m List.mem_cons_self (':' :: (m.text ++ (v ++ '\x7d' :: rest)))
    have first : skipSpace (commaText ((m :: others).map Entry.chars) ++ '\x7d' :: rest) = '"' :: r := by
      rw [List.map_cons, text, Entry.chars, List.append_assoc, List.append_assoc, List.cons_append]
      exact quote
    rw [first] at inner
    rw [List.cons_append, List.append_assoc]
    exact scanValue_record rfl first inner
  | before hc _ ih => exact ih.before hc
  | after hc _ ih => exact ih.after hc

/-- **A JSON text is read to its end as its outline**, but for white space behind it. -/
theorem outline_of_spells {o : Outline} {s : List Char} (h : Spells o s) :
    ∃ left, outline s = (o, left) ∧ skipSpace left = [] := by
  obtain ⟨left, read, behind⟩ := (scanned_of_spells h).value (2 * s.length + 2) [] (Nat.le_add_right _ _) nofun
  rw [List.append_nil] at read
  exact ⟨left, read, behind⟩

/-! ## The text of data -/

theorem spells_quoted (s : String) : Spells (.string (.ok s)) (quoted s) := by
  have spelled := Spells.string (scanString_escape s.toList [])
  rwa [Except.map, String.ofList_toList] at spelled

def Entry.ofMember (m : String × Json) : Entry := ⟨.ok m.1, quoted m.1, m.2.toOutline, m.2.chars⟩

theorem itemChars_eq (j : Json) (js : List Json) :
    j.chars ++ itemChars js = commaText ((j :: js).map chars) ++ [']'] := by
  induction js generalizing j with
  | nil => rw [List.map_singleton, commaText_singleton, itemChars]
  | cons i js ih =>
    rw [List.map_cons, List.map_cons, commaText_cons_cons, itemChars, ih, List.append_assoc]
    rfl

theorem memberChars_eq (m : String × Json) (ms : List (String × Json)) :
    (Entry.ofMember m).chars ++ memberChars ms =
      commaText ((m :: ms).map fun m => (Entry.ofMember m).chars) ++ ['\x7d'] := by
  induction ms generalizing m with
  | nil => rw [List.map_singleton, commaText_singleton, memberChars]
  | cons n ms ih =>
    have inner := ih n
    rw [Entry.chars, List.append_assoc, List.cons_append] at inner
    rw [List.map_cons, List.map_cons, commaText_cons_cons, List.append_assoc, memberChars]
    exact congrArg (fun s => (Entry.ofMember m).chars ++ ',' :: s) inner

mutual

theorem spells_chars : ∀ j : Json, j.Whole → Spells j.toOutline j.chars
  | null, _ => .null
  | bool true, _ => .true
  | bool false, _ => .false
  | number n, hn => by
    obtain ⟨m, read, value⟩ := exists_scanNumeral_number hn .nil
    rw [List.append_nil] at read
    have spelled := Spells.number read
    rwa [value] at spelled
  | string s, _ => spells_quoted s
  | list [], _ => .emptyList (w := []) nofun
  | list (j :: js), hj => by
    have spelled := @Spells.list ((j :: js).map fun j => (j.toOutline, j.chars)) (List.cons_ne_nil _ _)
      (List.forall_mem_map.2 (spells_itemChars (j :: js) hj))
    rw [List.map_map, List.map_map] at spelled
    rw [toOutline, itemOutlines_eq_map, chars, itemChars_eq]
    exact spelled
  | record [], _ => .emptyRecord (w := []) nofun
  | record ((k, j) :: ms), hj => by
    have spelled := @Spells.record (((k, j) :: ms).map Entry.ofMember) (List.cons_ne_nil _ _)
      (List.forall_mem_map.2 fun m _ => spells_quoted m.1)
      (List.forall_mem_map.2 (spells_memberChars ((k, j) :: ms) hj))
    have text := memberChars_eq (k, j) ms
    rw [Entry.chars, List.append_assoc, List.cons_append] at text
    rw [List.map_map, List.map_map] at spelled
    rw [toOutline, memberOutlines_eq_map, chars]
    exact (congrArg (fun s => Spells _ ('\x7b' :: s)) text).mpr spelled

theorem spells_itemChars : ∀ js : List Json, ItemsWhole js → ∀ j ∈ js, Spells j.toOutline j.chars
  | [], _ => nofun
  | j :: js, hj => List.forall_mem_cons.2 ⟨spells_chars j hj.1, spells_itemChars js hj.2⟩

theorem spells_memberChars : ∀ ms : List (String × Json), MembersWhole ms →
    ∀ m ∈ ms, Spells m.2.toOutline m.2.chars
  | [], _ => nofun
  | (_, j) :: ms, hj => List.forall_mem_cons.2 ⟨spells_chars j hj.1, spells_memberChars ms hj.2⟩

end

theorem spells_text {j : Json} (h : j.Whole) : Spells j.toOutline j.text.toList := by
  rw [Json.text, String.toList_ofList]
  exact spells_chars j h

end SqlGrammar.Json
