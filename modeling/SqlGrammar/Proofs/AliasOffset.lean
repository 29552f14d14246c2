import SqlGrammar.Proofs.Reference
import SqlGrammar.Text.Letter

/-!
Where the name of a reference ends, counted in bytes. A text is stored in UTF-8, and the first ` as ` of a
text is a place in the bytes of the text with all letters in lower case. Only the letters `A` to `Z` change
there, and they keep their size, so the place is one of the text itself. It never lies inside of a character:
the bytes of all other characters are 128 or more (`le_of_mem_encoded`), and the four bytes of ` as ` are less.
So the cut in bytes is the cut in characters (`asOffset?_eq`, `exists_cutAt`).
-/

namespace SqlGrammar

/-! ## Texts in UTF-8 -/

namespace Text

def bytes (s : List Char) : List UInt8 := s.flatMap String.utf8EncodeChar

@[simp] theorem bytes_nil : bytes [] = [] := rfl

theorem bytes_cons (c : Char) (s : List Char) : bytes (c :: s) = String.utf8EncodeChar c ++ bytes s :=
  List.flatMap_cons

theorem bytes_toList (s : String) : bytes s.toList = s.toByteArray.data.toList := by
  have stored : s.toByteArray = (String.ofList s.toList).toByteArray := by rw [String.ofList_toList]
  rw [stored, String.toByteArray_ofList, List.utf8Encode, List.toList_data_toByteArray]
  rfl

theorem length_bytes (s : String) : (bytes s.toList).length = s.utf8ByteSize := by
  rw [bytes_toList]
  rfl

/-- A character of one byte. -/
def IsNarrow (c : Char) : Prop := c.toNat < 128

instance : DecidablePred IsNarrow := fun c => inferInstanceAs (Decidable (c.toNat < 128))

theorem utf8Size_of_isNarrow {c : Char} (h : IsNarrow c) : c.utf8Size = 1 := by
  rw [Char.utf8Size_eq_one_iff, UInt32.le_iff_toNat_le]
  exact Nat.le_of_lt_succ h

theorem encoded_of_isNarrow {c : Char} (h : IsNarrow c) : String.utf8EncodeChar c = [c.val.toUInt8] :=
  String.utf8EncodeChar_eq_singleton (utf8Size_of_isNarrow h)

theorem toNat_byte {c : Char} (h : IsNarrow c) : c.val.toUInt8.toNat = c.toNat := by
  have small : c.val.toNat < 128 := h
  rw [UInt32.toNat_toUInt8]
  show c.val.toNat % 256 = c.val.toNat
  omega

theorem byte_inj {c x : Char} (hc : IsNarrow c) (hx : IsNarrow x) (h : c.val.toUInt8 = x.val.toUInt8) :
    c = x := by
  have same : c.toNat = x.toNat := by rw [← toNat_byte hc, ← toNat_byte hx, h]
  rw [← Char.ofNat_toNat c, same, Char.ofNat_toNat]

theorem le_or (a b : UInt8) (h : 128 ≤ b.toNat) : 128 ≤ (a ||| b).toNat := by
  rw [UInt8.toNat_or]
  exact Nat.le_trans h Nat.right_le_or

theorem le_of_mem_encoded {c : Char} (h : ¬IsNarrow c) {b : UInt8} (hb : b ∈ String.utf8EncodeChar c) :
    128 ≤ b.toNat := by
  have wide : c.utf8Size ≠ 1 := by
    rw [ne_eq, Char.utf8Size_eq_one_iff, UInt32.le_iff_toNat_le]
    intro hle
    exact h (Nat.lt_succ_of_le hle)
  rcases Char.utf8Size_eq c with h1 | h2 | h3 | h4
  · exact absurd h1 wide
  · rw [String.utf8EncodeChar_eq_cons_cons h2] at hb
    simp only [List.mem_cons, List.not_mem_nil, or_false] at hb
    rcases hb with rfl | rfl <;> exact le_or _ _ (by decide)
  · rw [String.utf8EncodeChar_eq_cons_cons_cons h3] at hb
    simp only [List.mem_cons, List.not_mem_nil, or_false] at hb
    rcases hb with rfl | rfl | rfl <;> exact le_or _ _ (by decide)
  · rw [String.utf8EncodeChar_eq_cons_cons_cons_cons h4] at hb
    simp only [List.mem_cons, List.not_mem_nil, or_false] at hb
    rcases hb with rfl | rfl | rfl | rfl <;> exact le_or _ _ (by decide)

theorem exists_encoded (c : Char) :
    ∃ b bs, String.utf8EncodeChar c = b :: bs ∧ ∀ x ∈ bs, 128 ≤ x.toNat := by
  have encoded : String.utf8EncodeChar c ≠ [] := by
    rw [ne_eq, ← List.length_eq_zero_iff, String.length_utf8EncodeChar]
    exact Nat.ne_of_gt c.utf8Size_pos
  obtain ⟨b, bs, hb⟩ := List.exists_cons_of_ne_nil encoded
  refine ⟨b, bs, hb, fun x hx => ?_⟩
  by_cases hc : IsNarrow c
  · rw [encoded_of_isNarrow hc] at hb
    rw [← (List.cons.inj hb).2] at hx
    cases hx
  · exact le_of_mem_encoded hc (by rw [hb]; exact List.mem_cons_of_mem _ hx)

theorem byte_prefix_iff {x : Char} (hx : IsNarrow x) {p : List UInt8} {c : Char} {s : List Char} :
    x.val.toUInt8 :: p <+: bytes (c :: s) ↔ c = x ∧ p <+: bytes s := by
  rw [bytes_cons]
  by_cases hc : IsNarrow c
  · rw [encoded_of_isNarrow hc, List.singleton_append, List.cons_prefix_cons]
    constructor
    · rintro ⟨hb, hp⟩
      exact ⟨byte_inj hc hx hb.symm, hp⟩
    · rintro ⟨rfl, hp⟩
      exact ⟨rfl, hp⟩
  · constructor
    · intro h
      obtain ⟨b, bs, hb, -⟩ := exists_encoded c
      rw [hb, List.cons_append, List.cons_prefix_cons] at h
      have high := le_of_mem_encoded hc (b := b) (by rw [hb]; exact List.mem_cons_self)
      rw [← h.1, toNat_byte hx] at high
      exact absurd hx (Nat.not_lt.2 high)
    · rintro ⟨rfl, -⟩
      exact absurd hx hc

theorem bytes_prefix_iff {x : List Char} (hx : ∀ c ∈ x, IsNarrow c) {s : List Char} :
    bytes x <+: bytes s ↔ x <+: s := by
  induction x generalizing s with
  | nil => simp
  | cons c x ih =>
    have narrow := hx c List.mem_cons_self
    have rest := fun {s} => ih (fun d hd => hx d (List.mem_cons_of_mem _ hd)) (s := s)
    rw [bytes_cons, encoded_of_isNarrow narrow, List.singleton_append]
    cases s with
    | nil => simp
    | cons d s => rw [byte_prefix_iff narrow, rest, List.cons_prefix_cons, eq_comm]

/-! ## Places in bytes -/

/-- The first place at which some bytes stand among others. -/
def offset? (pattern : List UInt8) : List UInt8 → Option Nat
  | [] => none
  | b :: r => if pattern.isPrefixOf (b :: r) then some 0 else (offset? pattern r).map (· + 1)

theorem offset?_of_prefix {pattern : List UInt8} {b : UInt8} {r : List UInt8} (h : pattern <+: b :: r) :
    offset? pattern (b :: r) = some 0 := by
  rw [offset?, if_pos (List.isPrefixOf_iff_prefix.2 h)]

theorem offset?_of_not_prefix {pattern : List UInt8} {b : UInt8} {r : List UInt8} (h : ¬pattern <+: b :: r) :
    offset? pattern (b :: r) = (offset? pattern r).map (· + 1) := by
  rw [offset?, if_neg (mt List.isPrefixOf_iff_prefix.1 h)]

theorem offset?_append {p : UInt8} {pattern bs : List UInt8} (h : ∀ b ∈ bs, b ≠ p) (r : List UInt8) :
    offset? (p :: pattern) (bs ++ r) = (offset? (p :: pattern) r).map (· + bs.length) := by
  induction bs with
  | nil => simp
  | cons b bs ih =>
    have other : ¬p :: pattern <+: b :: (bs ++ r) := by
      rw [List.cons_prefix_cons]
      exact fun hp => h b List.mem_cons_self hp.1.symm
    rw [List.cons_append, offset?_of_not_prefix other, ih fun x hx => h x (List.mem_cons_of_mem _ hx),
      Option.map_map]
    rfl

/-! ## Lower case -/

/-- A letter `A` to `Z` is moved by 32, and no other character is changed. -/
theorem toLower_cases (c : Char) :
    c.toLower = c ∨ 65 ≤ c.toNat ∧ c.toNat ≤ 90 ∧ c.toLower.toNat = c.toNat + 32 := by
  unfold Char.toLower
  split
  · next h =>
    have lower : 65 ≤ c.val.toNat := UInt32.le_iff_toNat_le.1 h.1
    have upper : c.val.toNat ≤ 90 := UInt32.le_iff_toNat_le.1 h.2
    have moved : (c.val + ('a'.val - 'A'.val)).toNat = (c.val.toNat + 32) % 2 ^ 32 := UInt32.toNat_add _ _
    refine Or.inr ⟨lower, upper, ?_⟩
    show (c.val + ('a'.val - 'A'.val)).toNat = c.val.toNat + 32
    omega
  · exact Or.inl rfl

theorem utf8Size_toLower (c : Char) : c.toLower.utf8Size = c.utf8Size := by
  rcases toLower_cases c with h | ⟨lower, upper, moved⟩
  · rw [h]
  · have narrow : IsNarrow c := by unfold IsNarrow; omega
    have narrow' : IsNarrow c.toLower := by unfold IsNarrow; omega
    rw [utf8Size_of_isNarrow narrow, utf8Size_of_isNarrow narrow']

theorem length_bytes_toLower (s : List Char) : (bytes (s.map Char.toLower)).length = (bytes s).length := by
  induction s with
  | nil => rfl
  | cons c s ih =>
    rw [List.map_cons, bytes_cons, bytes_cons, List.length_append, List.length_append, ih,
      String.length_utf8EncodeChar, String.length_utf8EncodeChar, utf8Size_toLower]

theorem toLower_eq_space_iff {c : Char} : c.toLower = ' ' ↔ c = ' ' := by
  constructor
  · intro h
    rcases toLower_cases c with same | ⟨lower, upper, moved⟩
    · rw [← same, h]
    · rw [h] at moved
      have space : ' '.toNat = 32 := rfl
      omega
  · rintro rfl
    rfl

end Text

/-! ## The place of the alias -/

namespace Name

/-- The place of the first ` as ` in a text with all letters in lower case, in bytes. -/
def asOffset? (v : String) : Option Nat := Text.offset? (Text.bytes " as ".toList) (Text.bytes (Text.fold v))

theorem map_toLower_eq_as_iff {t : List Char} : t.map Char.toLower = " as ".toList ↔
    ∃ a b, t = [' ', a, b, ' '] ∧ a.toLower = 'a' ∧ b.toLower = 's' := by
  constructor
  · intro h
    obtain ⟨c, r, rfl, hc, h⟩ := List.map_eq_cons_iff.1 h
    obtain ⟨a, r, rfl, ha, h⟩ := List.map_eq_cons_iff.1 h
    obtain ⟨b, r, rfl, hb, h⟩ := List.map_eq_cons_iff.1 h
    obtain ⟨d, r, rfl, hd, h⟩ := List.map_eq_cons_iff.1 h
    rw [List.map_eq_nil_iff.1 h, Text.toLower_eq_space_iff.1 hc, Text.toLower_eq_space_iff.1 hd]
    exact ⟨a, b, rfl, ha, hb⟩
  · rintro ⟨a, b, rfl, ha, hb⟩
    rw [List.map_cons, List.map_cons, List.map_cons, List.map_cons, ha, hb]
    rfl

/-- In lower case a text starts with ` as ` exactly where an alias starts. -/
theorem as_prefix_iff {s : List Char} : " as ".toList <+: s.map Char.toLower ↔ afterAs? s ≠ none := by
  rw [Option.ne_none_iff_exists']
  constructor
  · rintro ⟨t, ht⟩
    obtain ⟨between, label, rfl, lower, -⟩ := List.append_eq_map_iff.1 ht
    obtain ⟨a, b, rfl, hab⟩ := map_toLower_eq_as_iff.1 lower
    exact ⟨label, afterAs?_eq_some_iff.2 ⟨a, b, rfl, hab⟩⟩
  · rintro ⟨label, h⟩
    obtain ⟨a, b, rfl, hab⟩ := afterAs?_eq_some_iff.1 h
    refine ⟨label.map Char.toLower, ?_⟩
    rw [← map_toLower_eq_as_iff.2 ⟨a, b, rfl, hab⟩, ← List.map_append]
    rfl

theorem bytes_as : Text.bytes " as ".toList = [32, 97, 115, 32] := rfl

theorem isNarrow_as : ∀ c ∈ " as ".toList, Text.IsNarrow c := by
  have all : (" as ".toList.all fun c => decide (Text.IsNarrow c)) = true := by decide
  simpa using all

/-- **The first ` as ` stands where the name before it ends.** -/
theorem offset?_toLower (s : List Char) :
    Text.offset? (Text.bytes " as ".toList) (Text.bytes (s.map Char.toLower)) =
      (splitAlias? s).map fun cut => (Text.bytes cut.1).length := by
  induction s with
  | nil => rfl
  | cons c s ih =>
    have here : Text.bytes " as ".toList <+: Text.bytes ((c :: s).map Char.toLower) ↔
        afterAs? (c :: s) ≠ none :=
      (Text.bytes_prefix_iff isNarrow_as).trans as_prefix_iff
    obtain ⟨b, bs, encoded, later⟩ := Text.exists_encoded c.toLower
    have size : bs.length + 1 = c.utf8Size := by
      rw [← Text.utf8Size_toLower, ← String.length_utf8EncodeChar, encoded, List.length_cons]
    rw [List.map_cons, Text.bytes_cons, encoded, List.cons_append] at here ⊢
    rw [splitAlias?]
    cases ha : afterAs? (c :: s) with
    | some label => exact Text.offset?_of_prefix (here.2 (by simp [ha]))
    | none =>
      -- no later byte of the character is a space
      have passed : ∀ x ∈ bs, x ≠ (32 : UInt8) := by
        rintro x hx rfl
        exact absurd (later _ hx) (by decide)
      rw [Text.offset?_of_not_prefix (mt here.1 (by simp [ha])), bytes_as, Text.offset?_append passed,
        ← bytes_as, ih]
      cases splitAlias? s with
      | none => rfl
      | some cut =>
        simp only [Option.map_some, Text.bytes_cons, List.length_append, String.length_utf8EncodeChar]
        congr 1
        omega

/-- The place at which the text is cut, found in lower case, is the size of the name. -/
theorem asOffset?_eq (v : String) :
    asOffset? v = (splitAlias? v.toList).map fun cut => (String.ofList cut.1).utf8ByteSize := by
  have sizes (cut : List Char × List Char) :
      (Text.bytes cut.1).length = (String.ofList cut.1).utf8ByteSize := by
    rw [← Text.length_bytes, String.toList_ofList]
  rw [asOffset?, Text.fold, offset?_toLower]
  simp only [sizes]

/-- The text is cut at a place in its bytes: into the name before it, four bytes that are ` as ` in some letter
case, and the label. Both ends of these bytes lie between characters. -/
structure CutAt (v : String) (p : Nat) (name label : String) : Prop where
  text : ∃ between, v = name ++ between ++ label ∧ Text.fold between = " as ".toList
  place : name.rawEndPos = ⟨p⟩
  start : String.Pos.Raw.IsValid v ⟨p⟩
  stop : String.Pos.Raw.IsValid v ⟨p + 4⟩
  /-- The name holds no ` as ` any more. -/
  last : asOffset? name = none

/-- **The text is cut between characters.** -/
theorem exists_cutAt {v : String} {p : Nat} (h : asOffset? v = some p) : ∃ name label : String,
    splitAlias? v.toList = some (name.toList, label.toList) ∧ CutAt v p name label := by
  rw [asOffset?_eq] at h
  obtain ⟨⟨name, label⟩, cut, size⟩ := Option.map_eq_some_iff.1 h
  obtain ⟨a, b, text, ha, hb⟩ := splitAlias?_eq_some cut
  have lower : Text.fold (String.ofList [' ', a, b, ' ']) = " as ".toList := by
    rw [Text.fold, String.toList_ofList]
    exact map_toLower_eq_as_iff.2 ⟨a, b, rfl, ha, hb⟩
  have four : (String.ofList [' ', a, b, ' ']).utf8ByteSize = 4 := by
    rw [← Text.length_bytes, ← Text.length_bytes_toLower]
    exact congrArg (fun s => (Text.bytes s).length) lower
  have parts : v = String.ofList name ++ String.ofList [' ', a, b, ' '] ++ String.ofList label := by
    rw [← String.toList_inj, text]
    simp
  have place : (String.ofList name).rawEndPos = ⟨p⟩ := congrArg String.Pos.Raw.mk size
  have stop : (String.ofList name ++ String.ofList [' ', a, b, ' ']).rawEndPos = ⟨p + 4⟩ := by
    refine congrArg String.Pos.Raw.mk ?_
    rw [String.utf8ByteSize_append, four]
    exact congrArg (· + 4) size
  refine ⟨String.ofList name, String.ofList label, by simpa using cut, ⟨_, parts, lower⟩, place, ?_, ?_, ?_⟩
  · exact String.Pos.Raw.isValid_iff_exists_append.2 ⟨_, _, parts.trans String.append_assoc, place.symm⟩
  · exact String.Pos.Raw.isValid_iff_exists_append.2 ⟨_, _, parts, stop.symm⟩
  · rw [asOffset?_eq, String.toList_ofList, splitAlias?_fst cut]
    rfl

end Name

end SqlGrammar
