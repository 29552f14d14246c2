import Mathlib.Data.List.DropRight
import SqlGrammar.Proofs.Reference

/-!
How a statement is read. A double quote opens a quoted name; the name ends at the first double quote that
is not followed by another one, and two of them stand for one inside. All other characters are read as
they are. `lexFrom` reads with three states, and fails where a name is not closed.

A doubled quote is the only way for a name to hold a quote, so a quoted name followed by no quote is read
as this name (`lexFrom_doubleQuoted`). In a statement the next piece after a name is always a word of the
grammar (`Apart`), which holds no quote; so the statement is read piece by piece (`lexFrom_written`), and
blanks cut off at its ends do not matter (`lexFrom_trimList`).
-/

namespace SqlGrammar

/-- What is read: a character outside of names, or a name. -/
inductive Token
  | plain (c : Char)
  | name (text : List Char)
  deriving DecidableEq

/-- The states of the reader: outside of names, inside of one, and right after a quote in one. -/
inductive LexState
  | outside
  | inside (text : List Char)
  | closing (text : List Char)

/-- Reads a text; fails if a name is not closed at its end. -/
def lexFrom : LexState → List Char → Option (List Token)
  | .outside, [] => some []
  | .inside _, [] => none
  | .closing t, [] => some [.name t]
  | .outside, c :: r => if c = '"' then lexFrom (.inside []) r else (lexFrom .outside r).map (.plain c :: ·)
  | .inside t, c :: r => if c = '"' then lexFrom (.closing t) r else lexFrom (.inside (t ++ [c])) r
  | .closing t, c :: r =>
    if c = '"' then lexFrom (.inside (t ++ ['"'])) r
    else (lexFrom .outside r).map fun ts => .name t :: .plain c :: ts

def lex (s : String) : Option (List Token) := lexFrom .outside s.toList

/-! ## Reading quoted names -/

theorem lexFrom_plain {s : List Char} (hs : '"' ∉ s) (rest : List Char) :
    lexFrom .outside (s ++ rest) = (lexFrom .outside rest).map (s.map Token.plain ++ ·) := by
  induction s with
  | nil => simp
  | cons c r ih =>
    have hc : c ≠ '"' := fun he => hs (he ▸ List.mem_cons_self)
    have later := ih fun hm => hs (List.mem_cons_of_mem _ hm)
    rw [List.cons_append, lexFrom, if_neg hc, later, Option.map_map]
    rfl

theorem lexFrom_inside (s acc rest : List Char) :
    lexFrom (.inside acc) (Name.escaped s ++ '"' :: rest) = lexFrom (.closing (acc ++ s)) rest := by
  induction s generalizing acc with
  | nil => simp [lexFrom]
  | cons c r ih =>
    by_cases hc : c = '"'
    · -- the first quote may close the name, the second one takes that back
      subst hc
      rw [Name.escaped_cons_quote]
      simp [lexFrom, ih]
    · rw [Name.escaped_cons hc]
      simp [lexFrom, hc, ih]

theorem lexFrom_closing {t rest : List Char} (h : rest.head? ≠ some '"') :
    lexFrom (.closing t) rest = (lexFrom .outside rest).map (Token.name t :: ·) := by
  cases rest with
  | nil => rfl
  | cons c r =>
    have hc : c ≠ '"' := fun he => h (by rw [he]; rfl)
    rw [lexFrom, if_neg hc, lexFrom, if_neg hc, Option.map_map]
    rfl

/-- **A quoted name is read as this name**, if no quote follows. -/
theorem lexFrom_doubleQuoted (name : String) {rest : List Char} (h : rest.head? ≠ some '"') :
    lexFrom .outside ((Name.doubleQuoted name).toList ++ rest) =
      (lexFrom .outside rest).map (Token.name name.toList :: ·) := by
  have body := lexFrom_inside name.toList [] rest
  rw [List.nil_append] at body
  rw [← lexFrom_closing h, ← body, Name.toList_doubleQuoted]
  simp [lexFrom]

/-! ## Reading pieces -/

/-- The pieces start with a word of the grammar, if there are any. -/
def StartsWithWord : List Piece → Prop
  | [] => True
  | .word _ :: _ => True
  | _ => False

/-- After a name comes a word of the grammar or the end. -/
def Apart : List Piece → Prop
  | [] => True
  | .name _ :: ps => StartsWithWord ps ∧ Apart ps
  | _ :: ps => Apart ps

def Piece.tokens (d : Dialect) : Piece → List Token
  | name s => [.name s.toList]
  | p => (p.text d).map Token.plain

/-- The piece has text, and outside of names no quote. -/
def Piece.Lexical (d : Dialect) : Piece → Prop
  | word t => t ≠ "" ∧ '"' ∉ t.toList
  | name s => d.quote s = Name.doubleQuoted s
  | p => '"' ∉ p.text d

theorem head?_written_ne_quote {d : Dialect} {ps : List Piece} (hs : StartsWithWord ps)
    (hl : ∀ p ∈ ps, p.Lexical d) : (written d ps).head? ≠ some '"' := by
  cases ps with
  | nil => simp
  | cons p ps =>
    cases p with
    | word t =>
      obtain ⟨hne, hq⟩ := hl _ List.mem_cons_self
      have text : t.toList ≠ [] := fun he => hne (String.toList_eq_nil_iff.1 he)
      intro hh
      rw [written_cons, List.head?_append, Piece.text, List.head?_eq_some_head text] at hh
      exact hq (by simpa using Option.some.inj hh ▸ List.head_mem text)
    | _ => exact hs.elim

/-- **Pieces are read one by one.** -/
theorem lexFrom_written {d : Dialect} {ps : List Piece} (ha : Apart ps) (hl : ∀ p ∈ ps, p.Lexical d) :
    lexFrom .outside (written d ps) = some (ps.flatMap (Piece.tokens d)) := by
  induction ps with
  | nil => rfl
  | cons p ps ih =>
    have rest := fun h => ih h fun x hx => hl x (List.mem_cons_of_mem _ hx)
    have first := hl p List.mem_cons_self
    rw [written_cons, List.flatMap_cons]
    cases p with
    | name s =>
      -- what comes after a name starts with a word, so with no quote
      have quoted : (Piece.name s).text d = (Name.doubleQuoted s).toList := congrArg String.toList first
      rw [quoted, lexFrom_doubleQuoted s, rest ha.2]
      · rfl
      · exact head?_written_ne_quote ha.1 fun x hx => hl x (List.mem_cons_of_mem _ hx)
    | word t =>
      have plain : '"' ∉ (Piece.word t).text d := first.2
      rw [lexFrom_plain plain, rest ha]
      rfl
    | verbatim t => rw [lexFrom_plain first, rest ha]; rfl
    | bound v => rw [lexFrom_plain first, rest ha]; rfl
    | sql t vs => rw [lexFrom_plain first, rest ha]; rfl

/-! ## Blanks at the ends -/

def Token.isBlank : Token → Bool
  | plain c => Text.isBlank c
  | name _ => false

def trimTokens (ts : List Token) : List Token := (ts.dropWhile Token.isBlank).rdropWhile Token.isBlank

theorem lexFrom_append_plain {b : List Char} (hb : '"' ∉ b) (st : LexState) (s : List Char) :
    lexFrom st (s ++ b) = (lexFrom st s).map (· ++ b.map Token.plain) := by
  induction s generalizing st with
  | nil =>
    -- inside of a name the end of the text is a failure, with or without the characters after it
    induction b generalizing st with
    | nil => simp
    | cons c b ih =>
      have hc : c ≠ '"' := fun he => hb (he ▸ List.mem_cons_self)
      have later := fun st => ih (fun hm => hb (List.mem_cons_of_mem _ hm)) st
      simp only [List.nil_append] at later ⊢
      cases st <;> simp [lexFrom, hc, later]
  | cons c r ih =>
    by_cases hc : c = '"'
    · cases st <;> simp [lexFrom, hc, ih]
    · cases st <;> simp [lexFrom, hc, ih, Function.comp_def]

theorem exists_name_of_lexFrom {st : LexState} {r : List Char} {ts : List Token} (hst : st ≠ .outside)
    (h : lexFrom st r = some ts) : ∃ t us, ts = .name t :: us := by
  induction r generalizing st with
  | nil =>
    cases st with
    | outside => exact absurd rfl hst
    | inside t => cases h
    | closing t => cases h; exact ⟨t, [], rfl⟩
  | cons c r ih =>
    cases st with
    | outside => exact absurd rfl hst
    | inside t =>
      rw [lexFrom] at h
      split at h
      · exact ih (by simp) h
      · exact ih (by simp) h
    | closing t =>
      rw [lexFrom] at h
      split at h
      · exact ih (by simp) h
      · obtain ⟨us, -, rfl⟩ := Option.map_eq_some_iff.1 h
        exact ⟨t, _, rfl⟩

theorem exists_name_of_lexFrom_quote {st : LexState} {r : List Char} {ts : List Token}
    (h : lexFrom st (r ++ ['"']) = some ts) : ∃ us t, ts = us ++ [.name t] := by
  induction r generalizing st ts with
  | nil =>
    cases st with
    | outside => cases h
    | inside t => cases h; exact ⟨[], t, rfl⟩
    | closing t => cases h
  | cons c r ih =>
    rw [List.cons_append] at h
    cases st with
    | outside =>
      rw [lexFrom] at h
      split at h
      · exact ih h
      · obtain ⟨vs, hvs, rfl⟩ := Option.map_eq_some_iff.1 h
        obtain ⟨us, t, rfl⟩ := ih hvs
        exact ⟨.plain c :: us, t, rfl⟩
    | inside t =>
      rw [lexFrom] at h
      split at h
      · exact ih h
      · exact ih h
    | closing t =>
      rw [lexFrom] at h
      split at h
      · exact ih h
      · obtain ⟨vs, hvs, rfl⟩ := Option.map_eq_some_iff.1 h
        obtain ⟨us, u, rfl⟩ := ih hvs
        exact ⟨.name t :: .plain c :: us, u, rfl⟩

theorem not_isBlank_of_trimmed {s : List Char} {ts : List Token} (hs : Text.Trimmed s)
    (h : lexFrom .outside s = some ts) :
    (∀ t, ts.head? = some t → t.isBlank = false) ∧ ∀ t, ts.getLast? = some t → t.isBlank = false := by
  constructor
  · cases s with
    | nil => cases h; simp
    | cons c r =>
      have first := hs.1 c rfl
      rw [lexFrom] at h
      split at h
      · obtain ⟨t, us, rfl⟩ := exists_name_of_lexFrom (by simp) h
        intro x hx
        cases hx
        rfl
      · obtain ⟨us, -, rfl⟩ := Option.map_eq_some_iff.1 h
        intro x hx
        cases hx
        exact first
  · rcases List.eq_nil_or_concat s with rfl | ⟨r, c, rfl⟩
    · cases h; simp
    · rw [List.concat_eq_append] at h hs
      have last := hs.2 c List.getLast?_concat
      -- a quote at the end closes a name; any other character stands outside of names there
      by_cases hc : c = '"'
      · subst hc
        obtain ⟨us, t, rfl⟩ := exists_name_of_lexFrom_quote h
        intro x hx
        rw [List.getLast?_concat] at hx
        cases hx
        rfl
      · rw [lexFrom_append_plain (by simpa using Ne.symm hc)] at h
        obtain ⟨us, -, rfl⟩ := Option.map_eq_some_iff.1 h
        intro x hx
        rw [List.map_singleton, List.getLast?_concat] at hx
        cases hx
        exact last

/-- Between blanks, tokens without blanks at their ends are what the trim leaves. -/
theorem trimTokens_eq {a b : List Char} {us : List Token} (ha : ∀ c ∈ a, Text.isBlank c = true)
    (hb : ∀ c ∈ b, Text.isBlank c = true)
    (hu : (∀ t, us.head? = some t → t.isBlank = false) ∧ ∀ t, us.getLast? = some t → t.isBlank = false) :
    trimTokens (a.map Token.plain ++ us ++ b.map Token.plain) = us := by
  have before : ∀ t ∈ a.map Token.plain, t.isBlank = true := by
    intro t ht
    obtain ⟨c, hc, rfl⟩ := List.mem_map.1 ht
    exact ha c hc
  have after : ∀ t ∈ (b.map Token.plain).reverse, t.isBlank = true := by
    intro t ht
    obtain ⟨c, hc, rfl⟩ := List.mem_map.1 (List.mem_reverse.1 ht)
    exact hb c hc
  rw [trimTokens, List.append_assoc, List.dropWhile_append_of_pos before]
  cases us with
  | nil =>
    have nothing : (b.map Token.plain).dropWhile Token.isBlank = [] :=
      List.dropWhile_eq_nil_iff.2 fun t ht => after t (List.mem_reverse.2 ht)
    rw [List.nil_append, nothing, List.rdropWhile_nil]
  | cons t us =>
    have first : ((t :: us) ++ b.map Token.plain).dropWhile Token.isBlank =
        (t :: us) ++ b.map Token.plain := by
      simp [hu.1 t rfl]
    have last : (t :: us).reverse.dropWhile Token.isBlank = (t :: us).reverse := by
      cases hr : (t :: us).reverse with
      | nil => rfl
      | cons x xs =>
        have : (t :: us).getLast? = some x := by rw [← List.head?_reverse, hr]; rfl
        simp [hu.2 x this]
    rw [first, List.rdropWhile, List.reverse_append, List.dropWhile_append_of_pos after, last,
      List.reverse_reverse]

theorem exists_trimTokens (ts : List Token) : ∃ a b, ts = a ++ trimTokens ts ++ b ∧
    (∀ t ∈ a, t.isBlank = true) ∧ ∀ t ∈ b, t.isBlank = true := by
  let us := ts.dropWhile Token.isBlank
  refine ⟨ts.takeWhile Token.isBlank, us.rtakeWhile Token.isBlank, ?_, fun t ht => ?_,
    fun t ht => List.mem_rtakeWhile_imp ht⟩
  · rw [List.append_assoc, trimTokens, List.rdropWhile_append_rtakeWhile, List.takeWhile_append_dropWhile]
  · exact List.all_eq_true.1 List.all_takeWhile t ht

/-- What keeps blanks apart from the other tokens goes before or after the trim. -/
theorem trimTokens_map {f : Token → Token} (hf : ∀ t, (f t).isBlank = t.isBlank) (ts : List Token) :
    trimTokens (ts.map f) = (trimTokens ts).map f := by
  have blank : Token.isBlank ∘ f = Token.isBlank := funext hf
  unfold trimTokens List.rdropWhile
  rw [List.dropWhile_map, blank, ← List.map_reverse, List.dropWhile_map, blank, List.map_reverse]

/-- **A trimmed text is read as the text, less the blanks at its ends.** -/
theorem lexFrom_trimList {s : List Char} {ts : List Token} (h : lexFrom .outside s = some ts) :
    lexFrom .outside (Text.trimList s) = some (trimTokens ts) := by
  obtain ⟨a, b, hs, ha, hb⟩ := Text.exists_trimList s
  have quoteless {r : List Char} (hr : ∀ c ∈ r, Text.isBlank c = true) : '"' ∉ r := by
    intro hm
    have := hr _ hm
    revert this
    decide
  rw [hs, List.append_assoc, lexFrom_plain (quoteless ha), lexFrom_append_plain (quoteless hb),
    Option.map_map] at h
  obtain ⟨us, hus, rfl⟩ := Option.map_eq_some_iff.1 h
  have solid := not_isBlank_of_trimmed (Text.trimmed_trimList s) hus
  have trimmed := trimTokens_eq ha hb solid
  rw [List.append_assoc] at trimmed
  rw [hus, Function.comp_apply, trimmed]

end SqlGrammar
