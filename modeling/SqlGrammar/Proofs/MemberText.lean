import SqlGrammar.Proofs.Scanning

/-!
The text of a record with a member put in front of its members (`withMember`). It is scanned as this member and
then the members of the record, which now come later in a longer text. That changes nothing in what is scanned of
them, only the fuel that is left when they are reached; so what has to be shown is that the fuel does not matter,
once there is enough of it (`settled`). There always is, since the scanner never steps back (`forward`).
-/

namespace SqlGrammar.Json

/-! ## What is left over -/

def StringScan.rest : StringScan → List Char
  | closed _ rest => rest
  | broken .. => []

def NumeralScan.rest : NumeralScan → List Char
  | read _ rest => rest
  | broken .. => []

@[simp] theorem StringScan.rest_closed (x : Except Fault (List Char)) (r : List Char) :
    (closed x r).rest = r := rfl

@[simp] theorem StringScan.rest_broken (f g : Fault) : (broken f g).rest = [] := rfl

@[simp] theorem StringScan.rest_push (c : Char) (x : StringScan) : (x.push c).rest = x.rest := by
  cases x <;> rfl

@[simp] theorem StringScan.rest_fault (f : Fault) (x : StringScan) : (x.fault f).rest = x.rest := by
  cases x <;> rfl

@[simp] theorem NumeralScan.rest_read (n : Numeral) (r : List Char) : (read n r).rest = r := rfl

@[simp] theorem NumeralScan.rest_broken (f g : Fault) : (broken f g).rest = [] := rfl

theorem length_skipSpace_le (s : List Char) : (skipSpace s).length ≤ s.length := List.length_dropWhile_le _ _

theorem length_scanString_le (s : List Char) : (scanString s).rest.length ≤ s.length := by
  fun_induction scanString s <;> simp <;> omega

theorem length_scanWord_le (value : Outline) (w s : List Char) : (scanWord value w s).2.length ≤ s.length := by
  induction w generalizing s with
  | nil => exact Nat.le_refl _
  | cons c w ih =>
    cases s with
    | nil => exact Nat.le_refl _
    | cons d s =>
      rw [scanWord]
      split
      · exact Nat.le_succ_of_le (ih s)
      · exact Nat.zero_le _

theorem length_scanPower_le (negative : Bool) (whole places s : List Char) :
    (scanPower negative whole places s).rest.length ≤ s.length := by
  have digits (up : Bool) (r : List Char) : (if r.takeWhile Char.isDigit = [] then missingDigit r
      else .read ⟨negative, whole, places, some (up, r.takeWhile Char.isDigit)⟩
        (r.dropWhile Char.isDigit)).rest.length ≤ r.length := by
    split
    · exact Nat.zero_le _
    · exact List.length_dropWhile_le _ _
  unfold scanPower
  split
  · split
    · split
      · exact Nat.le_succ_of_le (Nat.le_succ_of_le (digits true _))
      · exact Nat.le_succ_of_le (Nat.le_succ_of_le (digits false _))
      · exact Nat.le_succ_of_le (digits true _)
    · exact Nat.le_refl _
  · exact Nat.le_refl _

theorem length_scanPlaces_le (negative : Bool) (whole s : List Char) :
    (scanPlaces negative whole s).rest.length ≤ s.length := by
  unfold scanPlaces
  split
  · next r =>
    split
    · exact Nat.zero_le _
    · have power := length_scanPower_le negative whole (r.takeWhile Char.isDigit) (r.dropWhile Char.isDigit)
      exact Nat.le_succ_of_le (Nat.le_trans power (List.length_dropWhile_le _ _))
  · exact length_scanPower_le _ _ _ _

theorem length_scanWhole_le (negative : Bool) (s : List Char) :
    (scanWhole negative s).rest.length ≤ s.length := by
  unfold scanWhole
  split
  · split
    · exact Nat.zero_le _
    · exact Nat.le_succ_of_le (length_scanPlaces_le _ _ _)
  · split
    · exact Nat.zero_le _
    · exact Nat.le_trans (length_scanPlaces_le _ _ _) (List.length_dropWhile_le _ _)

theorem length_scanNumeral_le (s : List Char) : (scanNumeral s).rest.length ≤ s.length := by
  unfold scanNumeral
  split
  · exact Nat.le_succ_of_le (length_scanWhole_le _ _)
  · exact length_scanWhole_le _ _

theorem length_skipSpace_lt {c : Char} {r s : List Char} (h : skipSpace s = c :: r) :
    (skipSpace r).length < s.length := by
  have inner := length_skipSpace_le r
  have outer := length_skipSpace_le s
  rw [h, List.length_cons] at outer
  omega

/-- With this fuel the scanner does not step back. -/
structure Forward (fuel : Nat) : Prop where
  value (s : List Char) : (scanValue fuel s).2.length ≤ s.length
  items (s : List Char) : (scanItems fuel s).2.2.length ≤ s.length
  members (s : List Char) : (scanMembers fuel s).2.2.length ≤ s.length

namespace Forward

theorem zero : Forward 0 where
  value _ := Nat.zero_le _
  items _ := Nat.zero_le _
  members _ := Nat.zero_le _

variable {fuel : Nat} (ahead : Forward fuel)

include ahead

theorem value_succ (s : List Char) : (scanValue (fuel + 1) s).2.length ≤ s.length := by
  have start := length_skipSpace_le s
  rw [scanValue]
  split
  · exact Nat.zero_le _
  iterate 3
    · next r h =>
      rw [h, List.length_cons] at start
      exact Nat.le_trans (length_scanWord_le _ _ _) (Nat.le_of_succ_le start)
  · next r h =>
    have string := length_scanString_le r
    rw [h, List.length_cons] at start
    split
    · next found =>
      rw [found, StringScan.rest_closed] at string
      exact Nat.le_trans string (Nat.le_of_succ_le start)
    · exact Nat.zero_le _
  · next r h =>
    have inner := Nat.le_of_lt (length_skipSpace_lt h)
    split
    · exact Nat.zero_le _
    · next r' h' =>
      rw [h', List.length_cons] at inner
      exact Nat.le_of_succ_le inner
    · exact Nat.le_trans (ahead.items _) inner
  · next r h =>
    have inner := Nat.le_of_lt (length_skipSpace_lt h)
    split
    · exact Nat.zero_le _
    · next r' h' =>
      rw [h', List.length_cons] at inner
      exact Nat.le_of_succ_le inner
    · exact Nat.le_trans (ahead.members _) inner
  · next c r _ _ _ _ _ _ h =>
    have numeral := length_scanNumeral_le (c :: r)
    rw [h] at start
    split
    · split
      · next found =>
        rw [found, NumeralScan.rest_read] at numeral
        exact Nat.le_trans numeral start
      · exact Nat.zero_le _
    · exact Nat.zero_le _

theorem items_succ (s : List Char) : (scanItems (fuel + 1) s).2.2.length ≤ s.length := by
  have item := ahead.value s
  have left := length_skipSpace_le (scanValue fuel s).2
  rw [scanItems]
  dsimp only
  split
  · exact Nat.zero_le _
  · next r h =>
    rw [h, List.length_cons] at left
    dsimp only
    omega
  · next r h =>
    have inner := length_skipSpace_lt h
    split
    · exact Nat.zero_le _
    · exact Nat.zero_le _
    · refine Nat.le_trans (ahead.items _) ?_
      omega
  · exact Nat.zero_le _

theorem members_succ (s : List Char) : (scanMembers (fuel + 1) s).2.2.length ≤ s.length := by
  rw [scanMembers.eq_def]
  dsimp only
  split
  · next r =>
    have key := length_scanString_le r
    rw [List.length_cons]
    split
    · exact Nat.zero_le _
    · next content behind found =>
      rw [found, StringScan.rest_closed] at key
      have colon := length_skipSpace_le behind
      split
      · exact Nat.zero_le _
      · next t h =>
        have value := ahead.value t
        have left := length_skipSpace_le (scanValue fuel t).2
        rw [h, List.length_cons] at colon
        split
        · exact Nat.zero_le _
        · next u h =>
          rw [h, List.length_cons] at left
          dsimp only
          omega
        · next u h =>
          have inner := length_skipSpace_lt h
          split
          · exact Nat.zero_le _
          · exact Nat.zero_le _
          · refine Nat.le_trans (ahead.members _) ?_
            omega
        · exact Nat.zero_le _
      · exact Nat.zero_le _
  · exact Nat.zero_le _

end Forward

/-- **The scanner never steps back.** -/
theorem forward (fuel : Nat) : Forward fuel := by
  induction fuel with
  | zero => exact .zero
  | succ fuel ih => exact ⟨ih.value_succ, ih.items_succ, ih.members_succ⟩

/-- One more step changes nothing, if there were two steps for each character and one or two more. -/
structure Settled (fuel : Nat) : Prop where
  value {s : List Char} (enough : 2 * s.length + 1 ≤ fuel) : scanValue (fuel + 1) s = scanValue fuel s
  items {s : List Char} (enough : 2 * s.length + 2 ≤ fuel) : scanItems (fuel + 1) s = scanItems fuel s
  members {s : List Char} (enough : 2 * s.length + 2 ≤ fuel) : scanMembers (fuel + 1) s = scanMembers fuel s

namespace Settled

theorem zero : Settled 0 where
  value enough := absurd enough (Nat.not_succ_le_zero _)
  items enough := absurd enough (Nat.not_succ_le_zero _)
  members enough := absurd enough (Nat.not_succ_le_zero _)

variable {fuel : Nat} (settled : Settled fuel) {s : List Char}

include settled

theorem value_succ (enough : 2 * s.length + 1 ≤ fuel + 1) : scanValue (fuel + 2) s = scanValue (fuel + 1) s := by
  rw [scanValue, scanValue]
  split
  iterate 5
    · rfl
  · next r h =>
    have inner := length_skipSpace_lt h
    split
    · rfl
    · rfl
    · rw [settled.items (by omega)]
  · next r h =>
    have inner := length_skipSpace_lt h
    split
    · rfl
    · rfl
    · rw [settled.members (by omega)]
  · rfl

theorem items_succ (enough : 2 * s.length + 2 ≤ fuel + 1) : scanItems (fuel + 2) s = scanItems (fuel + 1) s := by
  have item := (forward fuel).value s
  rw [scanItems, scanItems, settled.value (by omega)]
  dsimp only
  split
  · rfl
  · rfl
  · next r h =>
    have inner := length_skipSpace_lt h
    split
    · rfl
    · rfl
    · rw [settled.items (by omega)]
  · rfl

theorem members_succ (enough : 2 * s.length + 2 ≤ fuel + 1) :
    scanMembers (fuel + 2) s = scanMembers (fuel + 1) s := by
  rw [scanMembers.eq_def, scanMembers.eq_def]
  dsimp only
  split
  · next r =>
    have key := length_scanString_le r
    rw [List.length_cons] at enough
    split
    · rfl
    · next content behind found =>
      rw [found, StringScan.rest_closed] at key
      have colon := length_skipSpace_le behind
      split
      · rfl
      · next t h =>
        have value := (forward fuel).value t
        rw [h, List.length_cons] at colon
        rw [settled.value (by omega)]
        split
        · rfl
        · rfl
        · next u h =>
          have inner := length_skipSpace_lt h
          split
          · rfl
          · rfl
          · rw [settled.members (by omega)]
        · rfl
      · rfl
  · rfl

end Settled

theorem settled (fuel : Nat) : Settled fuel := by
  induction fuel with
  | zero => exact .zero
  | succ fuel ih => exact ⟨ih.value_succ, ih.items_succ, ih.members_succ⟩

theorem skipSpace_skipSpace (s : List Char) : skipSpace (skipSpace s) = skipSpace s := by
  induction s with
  | nil => rfl
  | cons c s ih =>
    by_cases hc : isSpace c
    · have gone : skipSpace (c :: s) = skipSpace s := List.dropWhile_cons_of_pos hc
      rw [gone, ih]
    · have stays := skipSpace_cons (Bool.eq_false_iff.2 hc) s
      rw [stays, stays]

end SqlGrammar.Json
