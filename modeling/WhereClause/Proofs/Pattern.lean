import Mathlib.Data.List.Infix
import WhereClause.Proofs.Arguments

/-!
# Patterns and the texts that they find

In a pattern a `%` stands for any text, a `_` for any character, and a character behind a backslash for itself; so does
every other one (`Like.pieces`). A pattern finds a text if all of the text fits it (`Like.finds`). Since a text that is
searched for is put between two wildcards as it is, the texts which hold it are found, and no others, exactly if none
of the three marks is in it (`substrings_are_found_iff`); a text with a backslash in it may not even find itself.
-/

namespace WhereClause

namespace Like

/-- A piece of a pattern. -/
inductive Piece where
  /-- Any text. -/
  | any
  /-- Any single character. -/
  | one
  | literal (c : Char)
  deriving DecidableEq, Repr

/-- The pieces of a pattern. A backslash at its end, which has no character behind it, stands for itself. -/
def pieces : List Char → List Piece
  | [] => []
  | '%' :: cs => .any :: pieces cs
  | '_' :: cs => .one :: pieces cs
  | '\\' :: c :: cs => .literal c :: pieces cs
  | c :: cs => .literal c :: pieces cs

/-- Whether pieces cover all of a text. -/
def fits : List Piece → List Char → Bool
  | [], t => t.isEmpty
  | .any :: ps, t => t.tails.any (fits ps)
  | .one :: _, [] => false
  | .one :: ps, _ :: t => fits ps t
  | .literal _ :: _, [] => false
  | .literal c :: ps, d :: t => c == d && fits ps t

/-- Whether a pattern finds a text. -/
def finds (pattern text : String) : Bool := fits (pieces pattern.toList) text.toList

example : finds "%a\\%_c" "xa%bc" = true := by decide

example : finds "%a\\%_c" "xaabc" = false := by decide

/-- A character that means something else than itself in a pattern. -/
def marks : List Char := ['%', '_', '\\']

theorem not_mem_marks_iff {c : Char} : c ∉ marks ↔ c ≠ '%' ∧ c ≠ '_' ∧ c ≠ '\\' := by
  simp [marks]

/-! ## Pieces -/

/-- What fits behind a wildcard for any text fits some end of the text. -/
theorem fits_any_iff {ps : List Piece} {t : List Char} :
    fits (.any :: ps) t = true ↔ ∃ before rest, t = before ++ rest ∧ fits ps rest = true := by
  simp only [fits, List.any_eq_true, List.mem_tails]
  constructor
  · rintro ⟨rest, ⟨before, rfl⟩, h⟩
    exact ⟨before, rest, rfl, h⟩
  · rintro ⟨before, rest, rfl, h⟩
    exact ⟨rest, List.suffix_append before rest, h⟩

/-- A final wildcard takes whatever is left. -/
theorem fits_any (t : List Char) : fits [.any] t = true :=
  fits_any_iff.mpr ⟨t, [], (List.append_nil t).symm, rfl⟩

/-- What fits behind characters that stand for themselves fits the rest of a text that begins with them. -/
theorem fits_literals_iff {s t : List Char} {ps : List Piece} :
    fits (s.map .literal ++ ps) t = true ↔ ∃ rest, t = s ++ rest ∧ fits ps rest = true := by
  induction s generalizing t with
  | nil => simp
  | cons c s ih =>
    cases t with
    | nil => simp [fits]
    | cons d t =>
      simp only [List.map_cons, List.cons_append, fits, Bool.and_eq_true, beq_iff_eq, ih, List.cons.injEq]
      constructor
      · rintro ⟨rfl, rest, rfl, h⟩
        exact ⟨rest, ⟨rfl, rfl⟩, h⟩
      · rintro ⟨rest, ⟨rfl, rfl⟩, h⟩
        exact ⟨rfl, rest, rfl, h⟩

/-- A character that is no mark stands for itself. -/
theorem pieces_cons {c : Char} (h : c ∉ marks) (cs : List Char) : pieces (c :: cs) = .literal c :: pieces cs := by
  obtain ⟨hany, hone, hescape⟩ := not_mem_marks_iff.mp h
  rw [pieces]
  · exact hany
  · exact hone
  · exact fun _ _ hc _ => hescape hc

/-- Characters without a mark among them stand for themselves. -/
theorem pieces_append {s : List Char} (h : ∀ c ∈ s, c ∉ marks) (cs : List Char) :
    pieces (s ++ cs) = s.map .literal ++ pieces cs := by
  induction s with
  | nil => rfl
  | cons c s ih =>
    rw [List.cons_append, pieces_cons (h c List.mem_cons_self), ih fun d hd => h d (List.mem_cons_of_mem c hd)]
    rfl

/-! ## The least text that a pattern finds -/

/-- The least text that a piece covers. -/
def Piece.least : Piece → List Char
  | .any => []
  | .one => ['a']
  | .literal c => [c]

/-- The shortest text that a pattern stands for fits it. -/
theorem fits_least (ps : List Piece) : fits ps (ps.flatMap Piece.least) = true := by
  induction ps with
  | nil => rfl
  | cons p ps ih =>
    cases p with
    | any => exact fits_any_iff.mpr ⟨[], _, rfl, ih⟩
    | one => exact ih
    | literal c => simpa [fits, Piece.least] using ih

/-- The least text that a pattern finds, where the pattern is that of a text: a backslash at the end of the text has the
wildcard behind it. -/
def leastFound (s : List Char) : List Char := (pieces (s ++ ['%'])).flatMap Piece.least

/-- A character that is no mark is in the shortest text that is found. -/
theorem leastFound_cons {c : Char} (h : c ∉ marks) (cs : List Char) : leastFound (c :: cs) = c :: leastFound cs := by
  rw [leastFound, List.cons_append, pieces_cons h]
  rfl

/-- This text is no longer than the needle. -/
theorem length_leastFound_le (s : List Char) : (leastFound s).length ≤ s.length := by
  induction s using pieces.induct with
  | case1 => exact Nat.le_refl 0
  | case2 cs ih => exact Nat.le_succ_of_le ih
  | case3 cs ih => exact Nat.succ_le_succ ih
  | case4 c cs ih => exact Nat.le_succ_of_le (Nat.succ_le_succ ih)
  | case5 c cs hany hone hescape ih =>
    by_cases hc : c = '\\'
    -- A backslash is left for this case only at the end of the text; it takes the wildcard behind the text with it.
    · subst hc
      cases cs with
      | nil => exact Nat.le_refl 1
      | cons d cs => exact absurd rfl (hescape d cs rfl)
    · rw [leastFound_cons (not_mem_marks_iff.mpr ⟨hany, hone, hc⟩)]
      exact Nat.succ_le_succ ih

/-- Only a text without marks is the least one that its own pattern finds. -/
theorem not_mem_marks_of_leastFound_eq {s : List Char} (h : leastFound s = s) : ∀ c ∈ s, c ∉ marks := by
  induction s using pieces.induct with
  | case1 => exact fun c hc => absurd hc List.not_mem_nil
  | case2 cs ih =>
    have hle := length_leastFound_le cs
    rw [show leastFound cs = '%' :: cs from h] at hle
    exact absurd hle (Nat.not_succ_le_self _)
  | case3 cs ih => exact absurd (List.head_eq_of_cons_eq h) (by decide)
  | case4 c cs ih =>
    have hle := length_leastFound_le cs
    rw [show leastFound cs = c :: cs from List.tail_eq_of_cons_eq h] at hle
    exact absurd hle (Nat.not_succ_le_self _)
  | case5 c cs hany hone hescape ih =>
    by_cases hc : c = '\\'
    · subst hc
      cases cs with
      | nil => exact absurd (List.head_eq_of_cons_eq h) (by decide)
      | cons d cs => exact absurd rfl (hescape d cs rfl)
    · have hm : c ∉ marks := not_mem_marks_iff.mpr ⟨hany, hone, hc⟩
      rw [leastFound_cons hm] at h
      intro d hd
      rcases List.mem_cons.mp hd with rfl | hd
      · exact hm
      · exact ih (List.tail_eq_of_cons_eq h) d hd

/-! ## Texts between wildcards -/

theorem toList_around (s : String) : ("%" ++ s ++ "%").toList = '%' :: (s.toList ++ ['%']) := by
  rw [String.toList_append, String.toList_append]
  rfl

/-- The shortest text is found. -/
theorem finds_leastFound (s : String) : finds ("%" ++ s ++ "%") (.ofList (leastFound s.toList)) = true := by
  rw [finds, toList_around, String.toList_ofList]
  exact fits_any_iff.mpr ⟨[], _, rfl, fits_least _⟩

/-- A text without marks is what the pattern asks for, in the midst of any other. -/
theorem finds_iff_of_not_mem_marks {s : String} (h : ∀ c ∈ s.toList, c ∉ marks) (t : String) :
    finds ("%" ++ s ++ "%") t = true ↔ s.toList <:+: t.toList := by
  rw [finds, toList_around, pieces, fits_any_iff, pieces_append h]
  constructor
  · rintro ⟨before, rest, ht, hr⟩
    obtain ⟨after, rfl, -⟩ := fits_literals_iff.mp hr
    exact ⟨before, after, by rw [ht, List.append_assoc]⟩
  · rintro ⟨before, after, ht⟩
    refine ⟨before, s.toList ++ after, by rw [← ht, List.append_assoc], ?_⟩
    exact fits_literals_iff.mpr ⟨after, rfl, fits_any after⟩

/-- Without a backslash in it, a text fits its own pattern, each wildcard taking itself. -/
theorem fits_self {s : List Char} (h : '\\' ∉ s) (rest : List Char) :
    fits (pieces (s ++ ['%'])) (s ++ rest) = true := by
  induction s with
  | nil => exact fits_any rest
  | cons c s ih =>
    obtain ⟨hc, hs⟩ := not_or.mp (mt List.mem_cons.mpr h)
    by_cases hany : c = '%'
    · subst hany
      exact fits_any_iff.mpr ⟨['%'], s ++ rest, rfl, ih hs⟩
    · by_cases hone : c = '_'
      · subst hone
        exact ih hs
      · rw [List.cons_append, pieces_cons (not_mem_marks_iff.mpr ⟨hany, hone, Ne.symm hc⟩), List.cons_append, fits, ih hs,
          beq_self_eq_true, Bool.and_self]

/-- A needle without a backslash is found wherever it stands. -/
theorem finds_of_infix {s t : String} (h : '\\' ∉ s.toList) (ht : s.toList <:+: t.toList) :
    finds ("%" ++ s ++ "%") t = true := by
  obtain ⟨before, after, ht⟩ := ht
  rw [finds, toList_around, pieces, ← ht, List.append_assoc]
  exact fits_any_iff.mpr ⟨before, _, rfl, fits_self h after⟩

end Like

/-- A text that is searched for, by `contains` or by `==`, is put into a pattern between two wildcards. If it holds none
of the marks `%`, `_` and backslash, and only then, the pattern finds the texts which hold it and no others. Without a
backslash in it, it is still found in all the texts which hold it. -/
theorem substrings_are_found_iff (d : Dialect) (start : UInt64) (s : String) :
    ∃ pattern : String,
      (∀ e ∈ [Expr.contains (.ident "content") (.string s), .eq (.ident "content") (.string s)],
        ∃ clause, Compiler.compile ⟨memoCatalog, d, start⟩ e = .ok clause ∧ clause.args = [.string pattern]) ∧
      ((∀ t : String, Like.finds pattern t = true ↔ s.toList <:+: t.toList) ↔ ∀ c ∈ s.toList, c ∉ Like.marks) ∧
      ('\\' ∉ s.toList → ∀ t : String, s.toList <:+: t.toList → Like.finds pattern t = true) := by
  refine ⟨"%" ++ s ++ "%", ?_, ⟨fun h => ?_, Like.finds_iff_of_not_mem_marks⟩, fun h t => Like.finds_of_infix h⟩
  · have hf : memoCatalog.lookup? "content" = some ⟨"content", .string, .text, ⟨"memo", "content"⟩,
        .contains :: Operation.equality⟩ := by decide
    have bound {e : Expr} (h : memoCatalog.Resolves e (.test (.like ⟨"memo", "content"⟩ ("%" ++ s ++ "%")))) :
        ∃ clause, Compiler.compile ⟨memoCatalog, d, start⟩ e = .ok clause ∧
          clause.args = [.string ("%" ++ s ++ "%")] := by
      have hr : (memoCatalog.plan e).refusal? = none := by rw [h.plan_eq]; rfl
      obtain ⟨clause, hc⟩ : ∃ clause, Compiler.compile ⟨memoCatalog, d, start⟩ e = .ok clause :=
        Compiler.compile_isOk_iff.mpr hr
      refine ⟨clause, hc, ?_⟩
      rw [(Compiler.args_of_compile hc).2.1, h.plan_eq]
      rfl
    intro e he
    simp only [List.mem_cons, List.not_mem_nil, or_false] at he
    rcases he with rfl | rfl
    · exact bound (.contains (l := .string s) rfl rfl hf rfl rfl)
    · exact bound (.comparison (l := .string s) rfl rfl hf rfl (.checked nofun nofun rfl))
  · have hs := (h _).mp (Like.finds_leastFound s)
    rw [String.toList_ofList] at hs
    exact Like.not_mem_marks_of_leastFound_eq
      (hs.sublist.eq_of_length_le (Like.length_leastFound_le s.toList)).symm

/-- A search for `a_b` finds a text that does not hold it. -/
theorem other_text_is_found :
    (Compiler.compile ⟨memoCatalog, .mySql, 1⟩ (.contains (.ident "content") (.string "a_b"))).map Clause.args =
        .ok [.string "%a_b%"] ∧
      Like.finds "%a_b%" "axb" = true ∧ ¬ "a_b".toList <:+: "axb".toList := by
  decide +kernel

end WhereClause
