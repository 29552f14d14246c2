import Mathlib.Data.List.TakeWhile
import SqlGrammar.Json.Printer
import SqlGrammar.Json.Scan

/-!
The compact text of JSON data is scanned back to the outline of the data (`outline_chars`). The outline has
no fault in it and is the data itself (`toOutline`).

Strings are read back because the first character of an escape is a backslash, which stands for itself only
when it is escaped (`scanString_escape`). An integer of 64 bits is read back where its text ends, at a comma,
at a closing bracket or at the end (`Delimited`), which are the places where the text of a value can end. So
is the negative zero, for which the numeral `-0` stands.
Every step of the scanner gets past a character, so twice as much fuel as there are characters is enough
(`scanValue_chars`).
-/

namespace SqlGrammar.Json

/-! ## Data as an outline -/

mutual

/-- The outline of data: its own shape, without a fault. -/
def toOutline : Json → Outline
  | null => .null
  | bool b => .bool b
  | number n => .number (.ok n)
  | string s => .string (.ok s)
  | list items => .list (itemOutlines items) .closed
  | record members => .record (memberOutlines members) .closed

def itemOutlines : List Json → List Outline
  | [] => []
  | j :: js => toOutline j :: itemOutlines js

def memberOutlines : List (String × Json) → List (Key × Outline)
  | [] => []
  | (k, j) :: ms => (.ok k, toOutline j) :: memberOutlines ms

end

/-- The number is an integer of 64 bits, signed or unsigned, or the negative zero. -/
def Number.Whole : Number → Prop
  | integer n => -0x8000000000000000 ≤ n ∧ n < 0x10000000000000000
  | float d => d = Double.zero.neg

mutual

/-- All numbers in the data are integers of 64 bits or negative zeros. -/
def Whole : Json → Prop
  | number n => n.Whole
  | list items => ItemsWhole items
  | record members => MembersWhole members
  | _ => True

def ItemsWhole : List Json → Prop
  | [] => True
  | j :: js => j.Whole ∧ ItemsWhole js

def MembersWhole : List (String × Json) → Prop
  | [] => True
  | (_, j) :: ms => j.Whole ∧ MembersWhole ms

end

/-! ## Strings -/

theorem hex4?_control : ∀ n < 32, hex4? '0' '0' (hexDigit (n / 16)) (hexDigit n) = some n := by decide

theorem scanString_escape_cons (c : Char) (r : List Char) :
    scanString (escape c ++ r) = (scanString r).push c := by
  unfold escape
  split
  · next h => rw [h]; rfl
  split
  · next h => rw [h]; rfl
  split
  · next h => rw [h]; rfl
  split
  · next h => rw [h]; rfl
  split
  · next h => rw [h]; rfl
  split
  · next h => rw [h]; rfl
  split
  · next h => rw [h]; rfl
  split
  · next h =>
    -- a control character has a code of two digits, which is no surrogate
    have code := hex4?_control c.toNat h
    have low : isLowSurrogate c.toNat = false := by simp [isLowSurrogate]; omega
    have high : isHighSurrogate c.toNat = false := by simp [isHighSurrogate]; omega
    show scanString ('\\' :: 'u' :: '0' :: '0' :: hexDigit (c.toNat / 16) :: hexDigit c.toNat :: r) = _
    rw [scanString, code]
    simp [low, high]
  · next hq hb _ _ _ _ _ h =>
    show scanString (c :: r) = _
    rw [scanString, if_neg h]
    · exact hq
    · exact hb

/-- **A string is read back**, up to the quote that closes it. -/
theorem scanString_escape (s rest : List Char) :
    scanString (s.flatMap escape ++ '"' :: rest) = .closed (.ok s) rest := by
  induction s with
  | nil => rfl
  | cons c s ih =>
    rw [List.flatMap_cons, List.append_assoc, scanString_escape_cons, ih]
    rfl

/-! ## Integers -/

/-- What can follow the text of a value. -/
inductive Delimited : List Char → Prop
  | nil : Delimited []
  | comma (r : List Char) : Delimited (',' :: r)
  | bracket (r : List Char) : Delimited (']' :: r)
  | brace (r : List Char) : Delimited ('\x7d' :: r)

theorem isDigit_of_mem {k : Nat} {c : Char} (hc : c ∈ Nat.toDigits 10 k) : c.isDigit :=
  Nat.isDigit_of_mem_toDigits (by decide) (by decide) hc

theorem exists_digit (k : Nat) : ∃ c r, Nat.toDigits 10 k = c :: r ∧ c.isDigit := by
  obtain ⟨c, r, digits⟩ := List.exists_cons_of_ne_nil (Nat.toDigits_ne_nil (n := k))
  have first : c ∈ Nat.toDigits 10 k := by
    rw [digits]
    exact List.mem_cons_self
  exact ⟨c, r, digits, isDigit_of_mem first⟩

theorem exists_toDigits {k : Nat} (hk : 0 < k) : ∃ c r, Nat.toDigits 10 k = c :: r ∧ c ≠ '0' := by
  induction k using Nat.strongRecOn with
  | ind k ih =>
    by_cases small : k < 10
    · have digits : ∀ n < 10, 0 < n → n.digitChar ≠ '0' := by decide
      exact ⟨k.digitChar, [], Nat.toDigits_of_lt_base small, digits k small hk⟩
    · obtain ⟨c, r, hc, hne⟩ := ih (k / 10) (by omega) (by omega)
      refine ⟨c, r ++ [(k % 10).digitChar], ?_, hne⟩
      rw [Nat.toDigits_of_base_le (by decide) (by omega), hc, List.cons_append]

theorem scanWhole_toDigits (negative : Bool) (k : Nat) {rest : List Char} (h : Delimited rest) :
    scanWhole negative (Nat.toDigits 10 k ++ rest) =
      .read ⟨negative, Nat.toDigits 10 k, [], none⟩ rest := by
  by_cases hk : k = 0
  · subst hk
    cases h <;> rfl
  · obtain ⟨c, r, digits, hc⟩ := exists_toDigits (Nat.pos_of_ne_zero hk)
    have all : ∀ x ∈ Nat.toDigits 10 k, x.isDigit := fun x hx => isDigit_of_mem hx
    have stop : rest.takeWhile Char.isDigit = [] ∧ rest.dropWhile Char.isDigit = rest := by
      cases h <;> exact ⟨rfl, rfl⟩
    have taken : (Nat.toDigits 10 k ++ rest).takeWhile Char.isDigit = Nat.toDigits 10 k := by
      rw [List.takeWhile_append_of_pos all, stop.1, List.append_nil]
    have left : (Nat.toDigits 10 k ++ rest).dropWhile Char.isDigit = rest := by
      rw [List.dropWhile_append_of_pos all, stop.2]
    unfold scanWhole
    split
    · next he =>
      rw [digits] at he
      exact absurd (List.cons.inj he).1 hc
    · -- neither a point nor a power of ten follows
      rw [taken, left, if_neg Nat.toDigits_ne_nil]
      cases h <;> rfl

theorem toList_ofNat (k : Nat) : (Text.integer (.ofNat k)).toList = Nat.toDigits 10 k := Text.toList_natural k

theorem toList_negSucc (k : Nat) :
    (Text.integer (.negSucc k)).toList = '-' :: Nat.toDigits 10 (k + 1) := by
  rw [Text.integer, String.toList_append, Text.toList_natural]
  rfl

theorem exists_toList_integer (n : Int) :
    ∃ c r, (Text.integer n).toList = c :: r ∧ (c = '-' ∨ c.isDigit) := by
  cases n with
  | ofNat k =>
    obtain ⟨c, r, digits, hc⟩ := exists_digit k
    exact ⟨c, r, (toList_ofNat k).trans digits, Or.inr hc⟩
  | negSucc k => exact ⟨'-', _, toList_negSucc k, Or.inl rfl⟩

/-- **An integer of 64 bits is read back.** -/
theorem exists_scanNumeral {n : Int} (hn : (Number.integer n).Whole) {rest : List Char} (h : Delimited rest) :
    ∃ m, scanNumeral ((Text.integer n).toList ++ rest) = .read m rest ∧ m.number = .ok (.integer n) := by
  cases n with
  | ofNat k =>
    refine ⟨⟨false, Nat.toDigits 10 k, [], none⟩, ?_, ?_⟩
    · rw [toList_ofNat, ← scanWhole_toDigits false k h]
      unfold scanNumeral
      split
      · next r he =>
        -- the text starts with a digit, so with no sign
        obtain ⟨c, ds, digits, hc⟩ := exists_digit k
        rw [digits] at he
        cases (List.cons.inj he).1
        cases hc
      · rfl
    · have size : k < UInt64.size := by
        have upper : (k : Int) < 0x10000000000000000 := hn.2
        show k < 18446744073709551616
        omega
      simp [Numeral.number, Numeral.integer?, Nat.ofDigitChars_ten_toDigits, size]
  | negSucc k =>
    refine ⟨⟨true, Nat.toDigits 10 (k + 1), [], none⟩, ?_, ?_⟩
    · rw [toList_negSucc, ← scanWhole_toDigits true (k + 1) h]
      rfl
    · have size : k + 1 ≤ 0x8000000000000000 := by
        have := hn.1
        omega
      simp [Numeral.number, Numeral.integer?, Nat.ofDigitChars_ten_toDigits, size, Int.negSucc_eq]

theorem toList_negativeZero : (Number.float Double.zero.neg).text.toList = ['-', '0', '.', '0'] := by decide

theorem scanNumeral_negativeZero {rest : List Char} (h : Delimited rest) :
    scanNumeral ((Number.float Double.zero.neg).text.toList ++ rest) = .read ⟨true, ['0'], ['0'], none⟩ rest := by
  rw [toList_negativeZero]
  cases h <;> rfl

theorem exists_toList_number {n : Number} (hn : n.Whole) :
    ∃ c r, n.text.toList = c :: r ∧ (c = '-' ∨ c.isDigit) := by
  cases n with
  | integer k => exact exists_toList_integer k
  | float d =>
    obtain rfl : d = Double.zero.neg := hn
    exact ⟨'-', _, toList_negativeZero, Or.inl rfl⟩

theorem exists_scanNumeral_number {n : Number} (hn : n.Whole) {rest : List Char} (h : Delimited rest) :
    ∃ m, scanNumeral (n.text.toList ++ rest) = .read m rest ∧ m.number = .ok n := by
  cases n with
  | integer k => exact exists_scanNumeral hn h
  | float d =>
    obtain rfl : d = Double.zero.neg := hn
    exact ⟨_, scanNumeral_negativeZero h, rfl⟩

/-! ## Values -/

theorem isSpace_of_numeral {c : Char} (hc : c = '-' ∨ c.isDigit) : isSpace c = false := by
  rcases hc with rfl | hc
  · rfl
  · cases hs : isSpace c
    · rfl
    · have space : c = ' ' ∨ c = '\t' ∨ c = '\n' ∨ c = '\r' := by simpa [isSpace, or_assoc] using hs
      rcases space with rfl | rfl | rfl | rfl <;> cases hc

theorem skipSpace_cons {c : Char} (hc : isSpace c = false) (r : List Char) : skipSpace (c :: r) = c :: r := by
  rw [skipSpace, List.dropWhile_cons_of_neg (by simp [hc])]

/-- The text of a value starts with no white space and with no closing bracket. -/
theorem exists_chars {j : Json} (hj : j.Whole) : ∃ c r, chars j = c :: r ∧ isSpace c = false ∧ c ≠ ']' := by
  match j, hj with
  | null, _ => exact ⟨'n', _, rfl, by decide, by decide⟩
  | bool true, _ => exact ⟨'t', _, rfl, by decide, by decide⟩
  | bool false, _ => exact ⟨'f', _, rfl, by decide, by decide⟩
  | number n, hn =>
    obtain ⟨c, r, text, hc⟩ := exists_toList_number hn
    refine ⟨c, r, text, isSpace_of_numeral hc, ?_⟩
    rintro rfl
    rcases hc with hc | hc <;> cases hc
  | string s, _ => exact ⟨'"', _, rfl, by decide, by decide⟩
  | list [], _ => exact ⟨'[', _, rfl, by decide, by decide⟩
  | list (j :: js), _ => exact ⟨'[', _, rfl, by decide, by decide⟩
  | record [], _ => exact ⟨'\x7b', _, rfl, by decide, by decide⟩
  | record ((k, j) :: ms), _ => exact ⟨'\x7b', _, rfl, by decide, by decide⟩

theorem scanValue_numeral {c : Char} (hc : c = '-' ∨ c.isDigit) (fuel : Nat) (r : List Char) :
    scanValue (fuel + 1) (c :: r) =
      match scanNumeral (c :: r) with
      | .read n rest => (.number n.number, rest)
      | .broken f g => (.broken f g, []) := by
  rw [scanValue, skipSpace_cons (isSpace_of_numeral hc)]
  split
  · next he => cases he
  iterate 6 · next he => cases he; exact absurd hc (by decide)
  · next he =>
    cases he
    exact if_pos hc

/-! ### One step of the scanner -/

theorem quoted_append (k : String) (s : List Char) :
    quoted k ++ s = '"' :: (k.toList.flatMap escape ++ '"' :: s) := by
  simp [quoted]

theorem scanValue_string (fuel : Nat) (t : String) (rest : List Char) :
    scanValue (fuel + 1) (quoted t ++ rest) = (.string (.ok t), rest) := by
  have quote (r : List Char) : skipSpace ('"' :: r) = '"' :: r := rfl
  rw [quoted_append]
  simp [scanValue, quote, scanString_escape, Except.map]

theorem scanValue_list {fuel : Nat} {c : Char} {s r u rest : List Char} {os : List Outline}
    (h : skipSpace s = '[' :: r) (start : skipSpace r = c :: u) (hc : c ≠ ']')
    (items : scanItems fuel (c :: u) = (os, .closed, rest)) : scanValue (fuel + 1) s = (.list os .closed, rest) := by
  rw [scanValue, h]
  simp [start, hc, items]

theorem scanValue_brace {s r : List Char} (h : skipSpace s = '\x7b' :: r) (fuel : Nat) :
    scanValue (fuel + 1) s = match skipSpace r with
      | [] => (.record [] (.broken .endInObject .endInObject), [])
      | '\x7d' :: u => (.record [] .closed, u)
      | u =>
        let (members, stop, rest) := scanMembers fuel u
        (.record members stop, rest) := by
  rw [scanValue, h]
  rfl

theorem scanValue_record {fuel : Nat} {s r u rest : List Char} {os : List (Key × Outline)}
    (h : skipSpace s = '\x7b' :: r) (start : skipSpace r = '"' :: u)
    (members : scanMembers fuel ('"' :: u) = (os, .closed, rest)) :
    scanValue (fuel + 1) s = (.record os .closed, rest) := by
  rw [scanValue_brace h, start]
  simp [members]

section Items

variable {fuel : Nat} {o : Outline} {s left rest : List Char} (item : scanValue fuel s = (o, left))

include item

theorem scanItems_last (h : skipSpace left = ']' :: rest) : scanItems (fuel + 1) s = ([o], .closed, rest) := by
  rw [scanItems, item]
  simp [h]

theorem scanItems_next {r u : List Char} {c : Char} {os : List Outline} (h : skipSpace left = ',' :: r)
    (start : skipSpace r = c :: u) (hc : c ≠ ']') (others : scanItems fuel (c :: u) = (os, .closed, rest)) :
    scanItems (fuel + 1) s = (o :: os, .closed, rest) := by
  rw [scanItems, item]
  simp [h, start, hc, others]

end Items

section Members

variable {fuel : Nat} {k : Key} {o : Outline} {s r left behind rest : List Char}
  {content : Except Fault (List Char)} (key : scanString r = .closed content behind)
  (same : content.map String.ofList = k) (colon : skipSpace behind = ':' :: s) (value : scanValue fuel s = (o, left))

include key same colon value

theorem scanMembers_last (h : skipSpace left = '\x7d' :: rest) :
    scanMembers (fuel + 1) ('"' :: r) = ([(k, o)], .closed, rest) := by
  simp [scanMembers, key, same, colon, value, h]

theorem scanMembers_before {u v : List Char} {c : Char} (h : skipSpace left = ',' :: u) (start : skipSpace u = c :: v)
    (hc : c ≠ '\x7d') : scanMembers (fuel + 1) ('"' :: r) =
      ((k, o) :: (scanMembers fuel (c :: v)).1, (scanMembers fuel (c :: v)).2) := by
  simp [scanMembers, key, same, colon, value, h, start, hc]

theorem scanMembers_next {u v : List Char} {os : List (Key × Outline)} (h : skipSpace left = ',' :: u)
    (start : skipSpace u = '"' :: v) (others : scanMembers fuel ('"' :: v) = (os, .closed, rest)) :
    scanMembers (fuel + 1) ('"' :: r) = ((k, o) :: os, .closed, rest) := by
  rw [scanMembers_before key same colon value h start (by decide), others]

end Members

/-! ### Whole values -/

/-- The items of a list and its end. -/
def listChars : List Json → List Char
  | [] => [']']
  | j :: js => chars j ++ itemChars js

def recordChars : List (String × Json) → List Char
  | [] => ['\x7d']
  | (k, j) :: ms => quoted k ++ ':' :: (chars j ++ memberChars ms)

theorem delimited_itemChars (js : List Json) (rest : List Char) : Delimited (itemChars js ++ rest) := by
  cases js with
  | nil => exact .bracket rest
  | cons j js => exact .comma (listChars (j :: js) ++ rest)

theorem delimited_memberChars (ms : List (String × Json)) (rest : List Char) :
    Delimited (memberChars ms ++ rest) := by
  cases ms with
  | nil => exact .brace rest
  | cons m ms => exact .comma (recordChars (m :: ms) ++ rest)

theorem exists_listChars {j : Json} (hj : j.Whole) (js : List Json) (rest : List Char) :
    ∃ c r, listChars (j :: js) ++ rest = c :: r ∧ isSpace c = false ∧ c ≠ ']' := by
  obtain ⟨c, r, text, solid⟩ := exists_chars hj
  refine ⟨c, r ++ itemChars js ++ rest, ?_, solid⟩
  rw [listChars, text, List.cons_append, List.cons_append]

mutual

/-- **The text of data is scanned back**, whatever follows that cannot belong to it. -/
theorem scanValue_chars : ∀ (j : Json) (fuel : Nat) (rest : List Char), j.Whole → Delimited rest →
    2 * (chars j).length ≤ fuel → scanValue fuel (chars j ++ rest) = (toOutline j, rest)
  | j, 0, rest, hj, _, hf => by
    obtain ⟨c, r, text, -, -⟩ := exists_chars hj
    simp [text] at hf
  | null, fuel + 1, rest, _, _, _ => rfl
  | bool true, fuel + 1, rest, _, _, _ => rfl
  | bool false, fuel + 1, rest, _, _, _ => rfl
  | number n, fuel + 1, rest, hj, hd, _ => by
    obtain ⟨c, r, text, hc⟩ := exists_toList_number hj
    obtain ⟨m, read, value⟩ := exists_scanNumeral_number hj hd
    have whole : chars (number n) ++ rest = c :: (r ++ rest) := by
      show n.text.toList ++ rest = _
      rw [text, List.cons_append]
    rw [text, List.cons_append] at read
    rw [whole, scanValue_numeral hc, read]
    show (Outline.number m.number, rest) = _
    rw [value, toOutline]
  | string s, fuel + 1, rest, _, _, _ => scanValue_string fuel s rest
  | list [], fuel + 1, rest, _, _, _ => rfl
  | list (j :: js), fuel + 1, rest, hj, _, hf => by
    have room : 2 * (listChars (j :: js)).length ≤ fuel := by
      have length : (chars (list (j :: js))).length = (listChars (j :: js)).length + 1 := rfl
      omega
    have items := scanItems_chars j js fuel rest hj room
    obtain ⟨c, r, text, space, bracket⟩ := exists_listChars hj.1 js rest
    have whole : chars (list (j :: js)) ++ rest = '[' :: (listChars (j :: js) ++ rest) := rfl
    rw [text] at items
    rw [whole, text, scanValue_list rfl (skipSpace_cons space r) bracket items, toOutline]
  | record [], fuel + 1, rest, _, _, _ => rfl
  | record ((k, j) :: ms), fuel + 1, rest, hj, _, hf => by
    have room : 2 * (recordChars ((k, j) :: ms)).length ≤ fuel := by
      have length : (chars (record ((k, j) :: ms))).length = (recordChars ((k, j) :: ms)).length + 1 := rfl
      omega
    exact scanValue_record rfl rfl (scanMembers_chars k j ms fuel rest hj room)

theorem scanItems_chars : ∀ (j : Json) (js : List Json) (fuel : Nat) (rest : List Char),
    ItemsWhole (j :: js) → 2 * (listChars (j :: js)).length ≤ fuel →
    scanItems fuel (listChars (j :: js) ++ rest) = (itemOutlines (j :: js), .closed, rest)
  | j, js, 0, rest, hj, hf => by
    obtain ⟨c, r, text, -, -⟩ := exists_listChars hj.1 js []
    rw [List.append_nil] at text
    simp [text] at hf
  | j, js, fuel + 1, rest, hj, hf => by
    have length : (listChars (j :: js)).length = (chars j).length + (itemChars js).length := by
      rw [listChars, List.length_append]
    have stop : 0 < (itemChars js).length := by cases js <;> simp [itemChars]
    have first := scanValue_chars j fuel _ hj.1 (delimited_itemChars js rest) (by omega)
    rw [listChars, List.append_assoc]
    cases js with
    | nil => exact scanItems_last first rfl
    | cons j' js =>
      have later := scanItems_chars j' js fuel rest hj.2 (by
        have rest : (itemChars (j' :: js)).length = (listChars (j' :: js)).length + 1 := rfl
        omega)
      obtain ⟨c, r, text, space, bracket⟩ := exists_listChars hj.2.1 js rest
      have comma : itemChars (j' :: js) ++ rest = ',' :: (listChars (j' :: js) ++ rest) := rfl
      rw [comma, text] at first
      rw [text] at later
      rw [comma, text, scanItems_next first rfl (skipSpace_cons space r) bracket later]
      rfl

theorem scanMembers_chars : ∀ (k : String) (j : Json) (ms : List (String × Json)) (fuel : Nat)
    (rest : List Char), MembersWhole ((k, j) :: ms) → 2 * (recordChars ((k, j) :: ms)).length ≤ fuel →
    scanMembers fuel (recordChars ((k, j) :: ms) ++ rest) =
      (memberOutlines ((k, j) :: ms), .closed, rest)
  | k, j, ms, 0, rest, _, hf => by
    simp [recordChars, quoted] at hf
  | k, j, ms, fuel + 1, rest, hj, hf => by
    have length : (recordChars ((k, j) :: ms)).length =
        (quoted k).length + ((chars j).length + (memberChars ms).length + 1) := by
      rw [recordChars, List.length_append, List.length_cons, List.length_append]
    have first := scanValue_chars j fuel _ hj.1 (delimited_memberChars ms rest) (by omega)
    have text : recordChars ((k, j) :: ms) ++ rest =
        quoted k ++ ':' :: (chars j ++ (memberChars ms ++ rest)) := by simp [recordChars]
    have key := scanString_escape k.toList (':' :: (chars j ++ (memberChars ms ++ rest)))
    have name : (Except.ok k.toList).map String.ofList = (.ok k : Key) := congrArg Except.ok String.ofList_toList
    rw [text, quoted_append]
    match ms, hj with
    | [], _ => exact scanMembers_last key name rfl first rfl
    | (k', j') :: ms, hj =>
      have later := scanMembers_chars k' j' ms fuel rest hj.2 (by
        have rest : (memberChars ((k', j') :: ms)).length = (recordChars ((k', j') :: ms)).length + 1 := rfl
        omega)
      exact scanMembers_next key name rfl first rfl rfl later

end

/-- **A whole text is the outline of its data**, and nothing is left of it. -/
theorem outline_chars {j : Json} (hj : j.Whole) : outline (chars j) = (toOutline j, []) := by
  have read := scanValue_chars j (2 * (chars j).length + 2) [] hj .nil (by omega)
  rwa [List.append_nil] at read

end SqlGrammar.Json
