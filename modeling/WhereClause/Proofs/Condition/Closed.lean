import WhereClause.Proofs.Expr.Shape

/-!
# Closed texts

A text is closed if its parentheses match and the words ` AND ` and ` OR ` stand in it only inside parentheses. Closed
texts can be joined by either word and still be told apart: a word outside of parentheses is then one that joins. A
text in parentheses is closed as soon as its parentheses match (`Balanced.closed_wrap`), whatever words it holds.

Texts are lists of characters here.
-/

namespace WhereClause

/-- The characters of the word that a junctor is written as, with a blank at either end. -/
def Junctor.chars (j : Junctor) : List Char := j.word.toList

/-- Every parenthesis that is closed has been opened before, and every one that is opened is closed. -/
structure Balanced (s : List Char) : Prop where
  prefixes : ∀ a, a <+: s → a.count ')' ≤ a.count '('
  total : s.count '(' = s.count ')'

/-- The parentheses of a text match, and the word of a junctor stands only inside of them; this also holds at both ends
of the text, where it has a blank beside it. -/
structure Solid (j : Junctor) (s : List Char) : Prop extends Balanced s where
  inside : ∀ a b, ' ' :: (s ++ [' ']) = a ++ j.chars ++ b → a.count ')' < a.count '('

/-- Neither word stands outside of parentheses. -/
def Closed (s : List Char) : Prop := ∀ j, Solid j s

/-! ## Words -/

namespace Junctor

/-- The letters of the word of a junctor. -/
def letters : Junctor → List Char
  | .and => ['A', 'N', 'D']
  | .or => ['O', 'R']

/-- A joining word has a blank on either side of its letters. -/
theorem chars_eq (j : Junctor) : j.chars = ' ' :: (j.letters ++ [' ']) := by
  cases j <;> decide

theorem blank_not_mem_letters (j : Junctor) : ' ' ∉ j.letters := by
  cases j <;> decide

/-- The two joining words have no letter in common. -/
theorem letters_not_mem_chars {j j' : Junctor} (h : j' ≠ j) : ∀ d ∈ j'.letters, d ∉ j.chars := by
  cases j <;> cases j'
  · exact absurd rfl h
  · simp [letters, chars_eq]
  · simp [letters, chars_eq]
  · exact absurd rfl h

theorem letters_ne_nil (j : Junctor) : j.letters ≠ [] := by
  cases j <;> decide

/-- A joining word is longer than the two blanks around it. -/
theorem three_le_length_chars (j : Junctor) : 3 ≤ j.chars.length := by
  cases j <;> decide

theorem chars_ne_nil (j : Junctor) : j.chars ≠ [] := by
  cases j <;> decide

/-- No parenthesis is in a joining word. -/
theorem paren_not_mem_chars (j : Junctor) : '(' ∉ j.chars ∧ ')' ∉ j.chars := by
  cases j <;> decide

end Junctor

/-! ## Where a word can stand -/

/-- A text that begins with a word does so inside its first part, or the word reaches into the second. -/
theorem prefix_append_iff {a s t : List Char} : a <+: s ++ t ↔ a <+: s ∨ ∃ r, r <+: t ∧ a = s ++ r := by
  constructor
  · rintro ⟨b, h⟩
    rcases List.append_eq_append_iff.mp h with ⟨r, rfl, -⟩ | ⟨r, rfl, rfl⟩
    · exact Or.inl ⟨r, rfl⟩
    · exact Or.inr ⟨r, ⟨b, rfl⟩, rfl⟩
  · rintro (h | ⟨r, h, rfl⟩)
    · exact h.trans (List.prefix_append s t)
    · exact (List.prefix_append_right_inj s).mpr h

/-- A word that lacks a character stands on one side of it. -/
theorem append_eq_of_not_mem {d : Char} {w x y p q : List Char} (hd : d ∉ w) (h : x ++ d :: y = p ++ w ++ q) :
    (∃ r, x = p ++ w ++ r) ∨ ∃ r, p = x ++ d :: r ∧ y = r ++ w ++ q := by
  rcases List.append_eq_append_iff.mp h with ⟨m, hm, hy⟩ | ⟨m, hx, -⟩
  · cases m with
    | nil => exact Or.inl ⟨[], by rw [List.append_nil, hm, List.append_nil]⟩
    | cons d' m =>
      obtain ⟨rfl, rfl⟩ := List.cons.inj hy
      rcases List.append_eq_append_iff.mp hm with ⟨n, -, hw⟩ | ⟨n, hp, hn⟩
      · exact absurd (by simp [hw]) hd
      · cases n with
        | nil => exact absurd (by simp [← (show d :: m = w from hn)]) hd
        | cons d' n =>
          obtain ⟨rfl, rfl⟩ := List.cons.inj hn
          exact Or.inr ⟨n, hp, rfl⟩
  · exact Or.inl ⟨m, hx⟩

/-- A word that lacks all of some characters stands on one side of them. -/
theorem append_eq_of_forall_not_mem {u w x y p q : List Char} (hw : w ≠ []) (hne : u ≠ []) (hu : ∀ d ∈ u, d ∉ w)
    (h : x ++ u ++ y = p ++ w ++ q) : (∃ r, x = p ++ w ++ r) ∨ ∃ r, p = x ++ u ++ r ∧ y = r ++ w ++ q := by
  induction u generalizing x p with
  | nil => exact absurd rfl hne
  | cons d u ih =>
    obtain ⟨hd, hu⟩ := List.forall_mem_cons.mp hu
    rw [List.append_assoc, List.cons_append] at h
    rcases append_eq_of_not_mem hd h with hx | ⟨r, rfl, hr⟩
    · exact Or.inl hx
    · cases u with
      | nil => exact Or.inr ⟨r, by simp, hr⟩
      | cons d' u =>
        rcases ih (x := []) (by simp) hu hr with ⟨r', hr'⟩ | ⟨r', rfl, rfl⟩
        · simp [hw] at hr'
        · exact Or.inr ⟨r', by simp, rfl⟩

/-! ## Matching parentheses -/

namespace Balanced

variable {s t : List Char}

/-- A text without parentheses is balanced. -/
theorem of_not_mem (ho : '(' ∉ s) (hc : ')' ∉ s) : Balanced s := by
  refine ⟨fun a ha => ?_, ?_⟩
  · have : a.count ')' = 0 := List.count_eq_zero.mpr fun h => hc (ha.subset h)
    omega
  · rw [List.count_eq_zero.mpr ho, List.count_eq_zero.mpr hc]

theorem append (hs : Balanced s) (ht : Balanced t) : Balanced (s ++ t) := by
  refine ⟨fun a ha => ?_, ?_⟩
  · rcases prefix_append_iff.mp ha with ha | ⟨r, hr, rfl⟩
    · exact hs.prefixes a ha
    · have h1 := hs.total
      have h2 := ht.prefixes r hr
      simp only [List.count_append]
      omega
  · have h1 := hs.total
    have h2 := ht.total
    simp only [List.count_append]
    omega

/-- Characters that are no parentheses can stand anywhere. -/
theorem insert {m : List Char} (h : Balanced (s ++ t)) (ho : '(' ∉ m) (hc : ')' ∉ m) : Balanced (s ++ m ++ t) := by
  have ho := List.count_eq_zero.mpr ho
  have hc := List.count_eq_zero.mpr hc
  refine ⟨fun a ha => ?_, ?_⟩
  · rcases prefix_append_iff.mp ha with ha | ⟨r, hr, rfl⟩
    · rcases prefix_append_iff.mp ha with ha | ⟨r, hr, rfl⟩
      · exact h.prefixes a (ha.trans (List.prefix_append s t))
      · have h1 := h.prefixes s (List.prefix_append s t)
        have h2 := hr.sublist.count_le ')'
        simp only [List.count_append]
        omega
    · have h1 := h.prefixes (s ++ r) ((List.prefix_append_right_inj s).mpr hr)
      simp only [List.count_append] at h1 ⊢
      omega
  · have h1 := h.total
    simp only [List.count_append] at h1 ⊢
    omega

/-- A balanced text stays balanced in parentheses. -/
theorem wrap (h : Balanced s) : Balanced ('(' :: (s ++ [')'])) := by
  have ht := h.total
  refine ⟨fun a ha => ?_, ?_⟩
  · rcases List.prefix_cons_iff.mp ha with rfl | ⟨r, rfl, hr⟩
    · simp
    · rcases List.prefix_concat_iff.mp hr with rfl | hr
      · simp only [List.count_cons, List.count_append, List.count_nil]
        simp [ht]
      · have := h.prefixes r hr
        simp only [List.count_cons]
        simp
        omega
  · simp [List.count_append, ht]

theorem word (j : Junctor) : Balanced j.chars := of_not_mem j.paren_not_mem_chars.1 j.paren_not_mem_chars.2

/-- Balanced texts stay balanced with joining words between them. -/
theorem intercalate (j : Junctor) {ts : List (List Char)} (h : ∀ t ∈ ts, Balanced t) :
    Balanced (j.chars.intercalate ts) := by
  induction ts with
  | nil => exact of_not_mem (by simp) (by simp)
  | cons t ts ih =>
    obtain ⟨ht, hts⟩ := List.forall_mem_cons.mp h
    cases ts with
    | nil => simpa using ht
    | cons u us =>
      rw [List.intercalate_cons_cons]
      exact (ht.append (word j)).append (ih hts)

end Balanced

/-! ## Closed texts -/

/-- A text that holds no word at all is closed if its parentheses match. -/
theorem Balanced.closed {s : List Char} (h : Balanced s) (hw : ∀ j : Junctor, ¬j.chars <:+: ' ' :: (s ++ [' '])) :
    Closed s :=
  fun j => ⟨h, fun a b hab => absurd ⟨a, b, hab.symm⟩ (hw j)⟩

/-- Inside of parentheses any words can stand. -/
theorem Balanced.closed_wrap {p s : List Char} (h : Balanced s) (ho : '(' ∉ p) (hc : ')' ∉ p)
    (hw : ∀ j : Junctor, ¬j.chars <:+: ' ' :: p) : Closed (p ++ '(' :: (s ++ [')'])) := by
  refine fun j => ⟨(of_not_mem ho hc).append h.wrap, fun a b hab => ?_⟩
  have hab' : (' ' :: p) ++ '(' :: (s ++ [')', ' ']) = a ++ j.chars ++ b := by simpa using hab
  rcases append_eq_of_not_mem j.paren_not_mem_chars.1 hab' with ⟨r, hr⟩ | ⟨r, rfl, hr⟩
  · exact absurd ⟨a, r, hr.symm⟩ (hw j)
  · have hl : r.length ≤ s.length := by
      have := congrArg List.length hr
      have := j.three_le_length_chars
      simp only [List.length_append, List.length_cons, List.length_nil] at *
      omega
    have hr' : r <+: s ++ [')', ' '] := ⟨j.chars ++ b, by rw [hr, List.append_assoc]⟩
    have hp : r <+: s := List.prefix_of_prefix_length_le hr' (List.prefix_append s _) hl
    have := h.prefixes r hp
    have := List.count_eq_zero.mpr ho
    have := List.count_eq_zero.mpr hc
    simp only [List.count_append, List.count_cons, beq_iff_eq, Char.reduceEq, if_true, if_false]
    omega

/-- A balanced text in parentheses is closed. -/
theorem Balanced.closed_parens {s : List Char} (h : Balanced s) : Closed ('(' :: (s ++ [')'])) :=
  h.closed_wrap (p := []) (by simp) (by simp) fun j => by cases j <;> decide

/-- One word joins texts in which the other one does not stand outside of parentheses to another such text. -/
theorem Solid.append {j j' : Junctor} {s t : List Char} (hs : Solid j s) (ht : Solid j t) (hj : j' ≠ j) :
    Solid j (s ++ j'.chars ++ t) := by
  refine ⟨(hs.toBalanced.append (.word j')).append ht.toBalanced, fun a b hab => ?_⟩
  have hab' : (' ' :: (s ++ [' '])) ++ j'.letters ++ (' ' :: (t ++ [' '])) = a ++ j.chars ++ b := by
    rw [← hab, j'.chars_eq]
    simp
  rcases append_eq_of_forall_not_mem j.chars_ne_nil j'.letters_ne_nil (Junctor.letters_not_mem_chars hj) hab' with
    ⟨r, hr⟩ | ⟨r, rfl, hr⟩
  · exact hs.inside a r hr
  · have h1 := hs.total
    have h2 := ht.inside r b hr
    have h3 := (Balanced.word j').total
    rw [j'.chars_eq] at h3
    simp only [List.count_append, List.count_cons, List.count_nil, beq_iff_eq, Char.reduceEq, if_false] at h3 ⊢
    omega

/-- Texts that one word does not cut are not cut by it when the other word joins them. -/
theorem Solid.intercalate {j j' : Junctor} (hj : j' ≠ j) {ts : List (List Char)} (hne : ts ≠ [])
    (h : ∀ t ∈ ts, Solid j t) : Solid j (j'.chars.intercalate ts) := by
  induction ts with
  | nil => exact absurd rfl hne
  | cons t ts ih =>
    obtain ⟨ht, hts⟩ := List.forall_mem_cons.mp h
    cases ts with
    | nil => simpa using ht
    | cons u us =>
      rw [List.intercalate_cons_cons]
      exact ht.append (ih (by simp) hts) hj

end WhereClause
