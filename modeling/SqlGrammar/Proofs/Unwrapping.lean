import SqlGrammar.Proofs.AliasOffset
import SqlGrammar.Proofs.ColumnText
import SqlGrammar.Proofs.Lexing

/-!
What a reference means can be read back from the column that is written for it. A text is a reference by the
relation `Reference.IsOf`, which says what the parts are and not how they are found: the name ends at the
first ` as ` in any letter case, the segments hold no point, the alias has no blank at its ends. What is proved:

1. `isOf_iff`: each text is exactly one reference, the one that the grammar takes it for.
2. `readReference_quotedColumn`: the column written with quotes is read back as these segments and this alias.
   The reader takes bare `*` and quoted names with points between them, after ` as ` one more, and nothing else.
   So two texts are written alike only if they are the same reference (`quotedColumn_inj`).
3. `column_of_splitAlias?`: with an alias, the column is the one of the name before it, ` as ` and the alias. Both
   ends of the ` as ` lie between characters (`exists_cutAt`), and the name holds no second one.
4. `table_eq_column_prefixed`: the prefix of a table goes to its name and not to its alias, since a text without
   spaces can neither hold an ` as ` nor be the start of one.
-/

namespace SqlGrammar

namespace Name

/-! ## What a text is as a reference -/

/-- The text is a name, ` as ` in any letter case, and a label. -/
def IsCut (s name label : List Char) : Prop :=
  ∃ between, s = name ++ between ++ label ∧ between.map Char.toLower = " as ".toList

/-- The name ends at the first ` as ` of the text. -/
def IsFirstCut (s name label : List Char) : Prop :=
  IsCut s name label ∧ ∀ name' label', IsCut s name' label' → name.length ≤ name'.length

/-- The text is the segments with points between them. -/
def IsDotted (s : List Char) (segs : List String) : Prop :=
  segs ≠ [] ∧ (∀ seg ∈ segs, '.' ∉ seg.toList) ∧ s = ['.'].intercalate (segs.map String.toList)

/-- The label is the alias between blanks, which has no blank at its own ends. -/
def IsTrimmed (label : List Char) (a : String) : Prop :=
  Text.Trimmed a.toList ∧ ∃ x y, label = x ++ a.toList ++ y ∧
    (∀ c ∈ x, Text.isBlank c = true) ∧ ∀ c ∈ y, Text.isBlank c = true

/-- The text is this reference. -/
inductive Reference.IsOf (v : String) : Reference → Prop
  | bare {segs : List String} : (∀ name label, ¬IsCut v.toList name label) → IsDotted v.toList segs →
    IsOf v ⟨segs, none⟩
  | aliased {name label : List Char} {segs : List String} {a : String} : IsFirstCut v.toList name label →
    IsDotted name segs → IsTrimmed label a → IsOf v ⟨segs, some a⟩

/-! ### The cut -/

theorem isCut_nil_iff {s label : List Char} : IsCut s [] label ↔ afterAs? s = some label := by
  rw [afterAs?_eq_some_iff]
  constructor
  · rintro ⟨between, rfl, h⟩
    obtain ⟨a, b, rfl, hab⟩ := map_toLower_eq_as_iff.1 h
    exact ⟨a, b, rfl, hab⟩
  · rintro ⟨a, b, rfl, hab⟩
    exact ⟨[' ', a, b, ' '], rfl, map_toLower_eq_as_iff.2 ⟨a, b, rfl, hab⟩⟩

theorem isCut_cons_iff {c d : Char} {s name label : List Char} :
    IsCut (c :: s) (d :: name) label ↔ c = d ∧ IsCut s name label := by
  constructor
  · rintro ⟨between, text, h⟩
    obtain ⟨hc, hs⟩ := List.cons.inj text
    exact ⟨hc, between, hs, h⟩
  · rintro ⟨rfl, between, rfl, h⟩
    exact ⟨between, rfl, h⟩

theorem not_isCut_nil {name label : List Char} : ¬IsCut [] name label := by
  rintro ⟨between, text, h⟩
  obtain ⟨-, rfl, -⟩ : name = [] ∧ between = [] ∧ label = [] := by simpa using text.symm
  cases h

theorem splitAlias?_eq_none_iff {s : List Char} :
    splitAlias? s = none ↔ ∀ name label, ¬IsCut s name label := by
  induction s with
  | nil => exact ⟨fun _ _ _ => not_isCut_nil, fun _ => rfl⟩
  | cons c s ih =>
    rw [splitAlias?_cons_eq_none_iff, ih]
    constructor
    · rintro ⟨here, later⟩ name label cut
      cases name with
      | nil =>
        rw [isCut_nil_iff, here] at cut
        cases cut
      | cons d name => exact later name label (isCut_cons_iff.1 cut).2
    · intro h
      refine ⟨?_, fun name label cut => h (c :: name) label (isCut_cons_iff.2 ⟨rfl, cut⟩)⟩
      rw [Option.eq_none_iff_forall_ne_some]
      exact fun label here => h [] label (isCut_nil_iff.2 here)

theorem isFirstCut_of_splitAlias? {s name label : List Char} (h : splitAlias? s = some (name, label)) :
    IsFirstCut s name label := by
  induction s generalizing name with
  | nil => cases h
  | cons c s ih =>
    rw [splitAlias?] at h
    cases ha : afterAs? (c :: s) with
    | some l =>
      rw [ha] at h
      cases h
      exact ⟨isCut_nil_iff.2 ha, fun _ _ _ => Nat.zero_le _⟩
    | none =>
      rw [ha] at h
      obtain ⟨⟨rest, l⟩, hrest, he⟩ := Option.map_eq_some_iff.1 h
      cases he
      obtain ⟨cut, first⟩ := ih hrest
      refine ⟨isCut_cons_iff.2 ⟨rfl, cut⟩, fun name' label' cut' => ?_⟩
      cases name' with
      | nil =>
        rw [isCut_nil_iff, ha] at cut'
        cases cut'
      | cons d name' =>
        have := first name' label' (isCut_cons_iff.1 cut').2
        simpa using this

theorem splitAlias?_eq_some_iff {s name label : List Char} :
    splitAlias? s = some (name, label) ↔ IsFirstCut s name label := by
  refine ⟨isFirstCut_of_splitAlias?, fun h => ?_⟩
  cases hs : splitAlias? s with
  | none => exact absurd h.1 (splitAlias?_eq_none_iff.1 hs name label)
  | some cut =>
    -- two first cuts are equally long, so they are the same
    obtain ⟨name', label'⟩ := cut
    have h' := isFirstCut_of_splitAlias? hs
    have length : name'.length = name.length := Nat.le_antisymm (h'.2 _ _ h.1) (h.2 _ _ h'.1)
    obtain ⟨between, text, as⟩ := h.1
    obtain ⟨between', text', as'⟩ := h'.1
    have four : between'.length = between.length := by
      rw [← List.length_map (f := Char.toLower), as', ← as, List.length_map]
    rw [text, List.append_assoc, List.append_assoc] at text'
    obtain ⟨names, rests⟩ := List.append_inj text' length.symm
    obtain ⟨-, labels⟩ := List.append_inj rests four.symm
    rw [names, labels]

/-! ### The segments and the alias -/

theorem isDotted_iff {s : List Char} {segs : List String} :
    IsDotted s segs ↔ segs = (s.splitOn '.').map String.ofList := by
  constructor
  · rintro ⟨hne, points, rfl⟩
    rw [List.splitOn_intercalate '.' (fun seg hseg => ?_) (by simpa using hne)]
    · simp
    · obtain ⟨t, ht, rfl⟩ := List.mem_map.1 hseg
      exact points t ht
  · rintro rfl
    refine ⟨by simp, fun seg hseg => ?_, ?_⟩
    · obtain ⟨t, ht, rfl⟩ := List.mem_map.1 hseg
      rw [String.toList_ofList]
      exact fun point => (mem_of_mem_splitOn ht point).2 rfl
    · have same : ((s.splitOn '.').map String.ofList).map String.toList = s.splitOn '.' := by simp
      rw [same, List.intercalate_splitOn]

theorem isTrimmed_iff {label : List Char} {a : String} :
    IsTrimmed label a ↔ a = String.ofList (Text.trimList label) := by
  constructor
  · rintro ⟨trimmed, x, y, rfl, hx, hy⟩
    rw [Text.trimList_eq hx hy trimmed, String.ofList_toList]
  · rintro rfl
    rw [IsTrimmed, String.toList_ofList]
    exact ⟨Text.trimmed_trimList label, Text.exists_trimList label⟩

/-- **Each text is one reference, the one that it is taken for.** -/
theorem Reference.isOf_iff {v : String} {r : Reference} : r.IsOf v ↔ r = ofText v := by
  constructor
  · rintro (⟨noAs, dots⟩ | ⟨cut, dots, trim⟩)
    · rw [ofText_of_none (splitAlias?_eq_none_iff.2 noAs), isDotted_iff.1 dots]
    · rw [ofText_of_some (splitAlias?_eq_some_iff.2 cut), isDotted_iff.1 dots, isTrimmed_iff.1 trim]
  · rintro rfl
    cases h : splitAlias? v.toList with
    | none =>
      rw [ofText_of_none h]
      exact .bare (splitAlias?_eq_none_iff.1 h) (isDotted_iff.2 rfl)
    | some cut =>
      rw [ofText_of_some h]
      exact .aliased (splitAlias?_eq_some_iff.1 h) (isDotted_iff.2 rfl) (isTrimmed_iff.2 rfl)

end Name

/-! ## The reader -/

/-- What stands in a written reference: a bare `*`, or a text between quotes. -/
inductive Item
  | star
  | quoted (text : String)
  deriving DecidableEq

namespace Item

def ofSegment (s : String) : Item := if s = "*" then star else quoted s

def token : Item → Token
  | star => .plain '*'
  | quoted text => .name text.toList

theorem ofSegment_inj {s t : String} (h : ofSegment s = ofSegment t) : s = t := by
  unfold ofSegment at h
  by_cases hs : s = "*" <;> by_cases ht : t = "*"
  · rw [hs, ht]
  · simp [hs, ht] at h
  · simp [hs, ht] at h
  · simpa [hs, ht] using h

end Item

/-- How the segments and the alias of a reference have to stand there. -/
def Name.Reference.items (r : Name.Reference) : List Item × Option Item :=
  (r.segments.map Item.ofSegment, r.aliasName.map Item.ofSegment)

theorem Name.Reference.items_inj {q r : Name.Reference} (h : q.items = r.items) : q = r := by
  have inj : Function.Injective Item.ofSegment := fun _ _ => Item.ofSegment_inj
  obtain ⟨segs, label⟩ := Prod.mk.inj h
  cases q
  cases r
  congr
  · exact List.map_injective_iff.2 inj segs
  · exact Option.map_injective inj label

def Token.item? : Token → Option Item
  | name text => some (.quoted (String.ofList text))
  | plain c => if c = '*' then some .star else none

/-- Reads items with points between them, and after ` as ` one more. Nothing may be left over. -/
def readItems : List Token → Option (List Item × Option Item)
  | [] => none
  | t :: ts => t.item?.bind fun item =>
    match ts with
    | [] => some ([item], none)
    | .plain '.' :: rest => (readItems rest).map fun (items, label) => (item :: items, label)
    | [.plain ' ', .plain 'a', .plain 's', .plain ' ', u] => u.item?.map fun label => ([item], some label)
    | _ => none

def readReference (s : String) : Option (List Item × Option Item) := (lex s).bind readItems

@[simp] theorem item?_token (i : Item) : i.token.item? = some i := by
  cases i with
  | star => rfl
  | quoted text => simp [Item.token, Token.item?]

def dottedTokens : List String → List Token
  | [] => []
  | [s] => [(Item.ofSegment s).token]
  | s :: t :: segs => (Item.ofSegment s).token :: .plain '.' :: dottedTokens (t :: segs)

def aliasTokens : Option String → List Token
  | none => []
  | some a => [.plain ' ', .plain 'a', .plain 's', .plain ' ', (Item.ofSegment a).token]

theorem readItems_tokens {segs : List String} (hne : segs ≠ []) (a : Option String) :
    readItems (dottedTokens segs ++ aliasTokens a) =
      some (segs.map Item.ofSegment, a.map Item.ofSegment) := by
  induction segs with
  | nil => exact absurd rfl hne
  | cons s rest ih =>
    cases rest with
    | nil =>
      cases a with
      | none => simp [dottedTokens, aliasTokens, readItems]
      | some a => simp [dottedTokens, aliasTokens, readItems]
    | cons t rest =>
      have later := ih (by simp)
      simp only [dottedTokens, List.cons_append, readItems, item?_token, later, Option.bind_some,
        Option.map_some, List.map_cons]

namespace Name

theorem lexFrom_segmentText (s : String) {rest : List Char} (h : rest.head? ≠ some '"') :
    lexFrom .outside (segmentText s ++ rest) =
      (lexFrom .outside rest).map ((Item.ofSegment s).token :: ·) := by
  by_cases hs : s = "*"
  · rw [hs]
    exact lexFrom_plain (by decide) rest
  · have quoted : segmentText s = (doubleQuoted s).toList := by rw [segmentText, segment, if_neg hs]
    rw [quoted, lexFrom_doubleQuoted s h, Item.ofSegment, if_neg hs]
    rfl

theorem lexFrom_dottedText {segs : List String} (hne : segs ≠ []) {rest : List Char}
    (h : rest.head? ≠ some '"') : lexFrom .outside (dottedText segs ++ rest) =
      (lexFrom .outside rest).map (dottedTokens segs ++ ·) := by
  induction segs with
  | nil => exact absurd rfl hne
  | cons s segs ih =>
    cases segs with
    | nil =>
      rw [dottedText_singleton]
      exact lexFrom_segmentText s h
    | cons t segs =>
      have point : ('.' :: (dottedText (t :: segs) ++ rest)).head? ≠ some '"' := by simp
      rw [dottedText_cons_cons, List.append_assoc, List.cons_append, lexFrom_segmentText s point, lexFrom,
        if_neg (by decide), ih (by simp), Option.map_map, Option.map_map]
      rfl

theorem lexFrom_aliasText (a : Option String) :
    lexFrom .outside (aliasText a) = some (aliasTokens a) := by
  cases a with
  | none => rfl
  | some a =>
    have ends : ([] : List Char).head? ≠ some '"' := by simp
    have label := lexFrom_segmentText a ends
    rw [List.append_nil] at label
    simp [aliasText, aliasTokens, lexFrom, label]

/-- **A column is read back as the segments and the alias of its reference.** -/
theorem readReference_quotedColumn (v : String) :
    readReference (quotedColumn v) = some (Reference.ofText v).items := by
  have hne := Reference.segments_ofText_ne_nil v
  have apart : (aliasText (Reference.ofText v).aliasName).head? ≠ some '"' := by
    cases (Reference.ofText v).aliasName <;> simp [aliasText]
  rw [readReference, lex, toList_quotedColumn, lexFrom_dottedText hne apart, lexFrom_aliasText]
  exact readItems_tokens hne _

/-- **Only texts with the same segments and the same alias are written alike.** -/
theorem quotedColumn_inj {v w : String} :
    quotedColumn v = quotedColumn w ↔ Reference.ofText v = Reference.ofText w := by
  constructor
  · intro h
    have same := congrArg readReference h
    rw [readReference_quotedColumn, readReference_quotedColumn] at same
    exact Reference.items_inj (Option.some.inj same)
  · intro h
    rw [quotedColumn, column, column, h]

/-! ## Columns with an alias -/

theorem aliasName_of_asOffset? {v : String} (h : asOffset? v = none) : (Reference.ofText v).aliasName = none := by
  rw [asOffset?_eq, Option.map_eq_none_iff] at h
  rw [Reference.ofText_of_none h]

/-- With an alias the column is the one of the name, ` as ` and the alias without blanks at its ends. -/
theorem column_of_splitAlias? {v name label : String} (segment : String → String)
    (h : splitAlias? v.toList = some (name.toList, label.toList)) :
    column segment v = column segment name ++ " as " ++ segment (Text.trim label) := by
  have bare : splitAlias? name.toList = none := splitAlias?_fst h
  rw [column, column, Reference.ofText_of_some h, Reference.ofText_of_none bare]
  rfl

end Name

open Name CommandLine

/-- **Quoting can be undone.** With quoting on, what is written for a text is read back, to its end, as the
segments and the alias of the text, `*` bare exactly for the segments `*`; so texts are written alike exactly if
they have the same segments and the same alias. An alias is cut off between characters, and none is left in the
name before it. -/
theorem readReference_column {n : DialectName} {s : Settings} (hq : s.quoteIdentifiers = true) (v : String) :
    (∀ r : Reference, r.IsOf v ↔ r = Reference.ofText v) ∧
    readReference ((n.dialect s).column v) = some (Reference.ofText v).items ∧
    (∀ w, (n.dialect s).column v = (n.dialect s).column w ↔ Reference.ofText v = Reference.ofText w) ∧
    (asOffset? v = none → (Reference.ofText v).aliasName = none) ∧
    ∀ p, asOffset? v = some p → ∃ name label, CutAt v p name label ∧
      (n.dialect s).column v =
        (n.dialect s).column name ++ " as " ++ (n.dialect s).segment (Text.trim label) := by
  have column := column_of_quoting (n := n) hq
  refine ⟨fun r => Reference.isOf_iff, ?_, fun w => ?_, aliasName_of_asOffset?, fun p hp => ?_⟩
  · rw [column]
    exact readReference_quotedColumn v
  · rw [column]
    exact quotedColumn_inj
  · obtain ⟨name, label, cut, places⟩ := exists_cutAt hp
    refine ⟨name, label, places, ?_⟩
    rw [(n.follows_dialect s).column]
    exact column_of_splitAlias? _ cut

/-- The ` As ` starts at the ninth byte, since `É` takes up two; the ` as ` in the alias is not the first one. -/
theorem readReference_column_of_quotes :
    readReference ((DialectName.firebird.dialect {}).column "É.a\"b.* As  x as \"é\" ") =
      some ([.quoted "É", .quoted "a\"b", .star], some (.quoted "x as \"é\"")) ∧
    asOffset? "É.a\"b.* As  x as \"é\" " = some 8 := by
  have read := (readReference_column (n := .firebird) (s := {}) rfl "É.a\"b.* As  x as \"é\" ").2.1
  exact ⟨read.trans (by decide), by decide⟩

/-! ## Tables with a prefix -/

namespace Name.Reference

/-- The name of a reference: its segments with points between them. -/
def name (r : Reference) : String := String.intercalate "." r.segments

variable {tablePrefix : String} (hp : ' ' ∉ tablePrefix.toList) (t : String)

include hp

theorem name_ofText_append : (ofText (tablePrefix ++ t)).name = tablePrefix ++ (ofText t).name := by
  rw [ofText_append hp, ofText]
  cases splitAlias? t.toList with
  | none => simp only [name, intercalate_ofList_splitOn, String.ofList_toList]
  | some cut => simp only [name, intercalate_ofList_splitOn, String.ofList_append, String.ofList_toList]

theorem aliasName_ofText_append : (ofText (tablePrefix ++ t)).aliasName = (ofText t).aliasName := by
  rw [ofText_append hp, ofText]
  cases splitAlias? t.toList <;> rfl

end Name.Reference

/-- **The prefix belongs to the name of a table and never to its alias.** A dialect that writes columns and tables
in the mainstream way writes a table as the column reference of the prefix followed by its text. The two texts are
references with the same alias, and the name has the prefix in front of it once. -/
theorem table_eq_column_prefixed {d : Dialect} (column : d.column = Name.column d.segment)
    (table : d.table = Name.table d.column d.segment d.settings.tablePrefix)
    (hp : ' ' ∉ d.settings.tablePrefix.toList) (t : String) :
    d.table t = d.column (d.settings.tablePrefix ++ t) ∧
    ∀ r : Reference, r.IsOf t → ∃ r' : Reference, r'.IsOf (d.settings.tablePrefix ++ t) ∧
      r'.name = d.settings.tablePrefix ++ r.name ∧ r'.aliasName = r.aliasName ∧
      d.column t = r.render d.segment ∧ d.table t = r'.render d.segment := by
  have prefixed : d.table t = d.column (d.settings.tablePrefix ++ t) := by
    rw [table, column]
    exact table_eq_column hp d.segment t
  refine ⟨prefixed, fun r hr => ?_⟩
  obtain rfl := Reference.isOf_iff.1 hr
  refine ⟨_, Reference.isOf_iff.2 rfl, Reference.name_ofText_append hp t,
    Reference.aliasName_ofText_append hp t, ?_, ?_⟩
  · rw [column, Name.column]
  · rw [prefixed, column, Name.column]

/-- The prefix ends with the letters of an ` as `, and the alias holds one. -/
theorem table_eq_column_prefixed_of_quotes :
    let d := Dialect.generic { tablePrefix := "x.as" }
    ' ' ∉ d.settings.tablePrefix.toList ∧
    d.table "a\"b.c AS d as e " = d.column "x.asa\"b.c AS d as e " ∧
    d.table "a\"b.c AS d as e " = "\"x\".\"asa\"\"b\".\"c\" as \"d as e\"" := by
  intro d
  have space : ' ' ∉ d.settings.tablePrefix.toList := by decide
  have written := (table_eq_column_prefixed (d := d) rfl rfl space "a\"b.c AS d as e ").1
  exact ⟨space, written, written.trans (by decide)⟩

end SqlGrammar
