import WhereClause.Proofs.Condition.Closed

/-!
# Reading conditions

`Condition.read` reads a text as SQL does: `NOT` binds closer than `AND`, and `AND` closer than `OR`. What is read
between two words is taken as it stands, unless it is negated or stands in parentheses as a whole.

Conditions are written with parentheses around all that a connective holds (`Condition.text`). Where the atoms cannot be
mistaken for anything else (`Atomic`), such a text is closed, and it is read as what has been written
(`Condition.Formed.closed_text`, `Condition.Formed.read_text`), also between other operands (`read_sum`).
-/

namespace WhereClause

/-! ## Cutting a text -/

/-- The number of open parentheses after one more character. -/
def nest (depth : Nat) (c : Char) : Nat :=
  if c = '(' then depth + 1 else if c = ')' then depth - 1 else depth

/-- What stands before and after the first occurrence of a word outside of parentheses. -/
def cut (w : List Char) (depth : Nat) : List Char → Option (List Char × List Char)
  | [] => none
  | c :: cs =>
    if depth = 0 ∧ w <+: c :: cs then some ([], (c :: cs).drop w.length)
    else (cut w (nest depth c) cs).map fun (a, b) => (c :: a, b)

/-- A text that is cut is what stands before the word, the word, and what stands behind it. -/
theorem eq_of_cut {w s a b : List Char} {depth : Nat} (h : cut w depth s = some (a, b)) : s = a ++ w ++ b := by
  induction s generalizing depth a with
  | nil => cases h
  | cons c cs ih =>
    rw [cut] at h
    split at h
    next hw =>
      obtain ⟨t, ht⟩ := hw.2
      rw [← ht, List.drop_left] at h
      obtain ⟨rfl, rfl⟩ := Prod.mk.inj (Option.some.inj h)
      exact ht.symm
    next =>
      obtain ⟨⟨a', b'⟩, hc, he⟩ := Option.map_eq_some_iff.mp h
      obtain ⟨rfl, rfl⟩ := Prod.mk.inj he
      rw [ih hc]
      rfl

/-- The texts between the words of a junctor that stand outside of parentheses. -/
def pieces (j : Junctor) (s : List Char) : List (List Char) :=
  match _ : cut j.chars 0 s with
  | none => [s]
  | some (a, b) => a :: pieces j b
termination_by s.length
decreasing_by
  have := congrArg List.length (eq_of_cut ‹_›)
  have := j.three_le_length_chars
  simp only [List.length_append] at *
  omega

/-- A text that is not cut is one piece. -/
theorem pieces_of_cut_eq_none {j : Junctor} {s : List Char} (h : cut j.chars 0 s = none) : pieces j s = [s] := by
  rw [pieces]
  split <;> simp_all

/-- The first piece of a text that is cut is what stands before the cut. -/
theorem pieces_of_cut_eq_some {j : Junctor} {s a b : List Char} (h : cut j.chars 0 s = some (a, b)) :
    pieces j s = a :: pieces j b := by
  rw [pieces]
  split <;> simp_all

/-- What a text holds that stands in parentheses as a whole. -/
def inside? : List Char → Option (List Char)
  | '(' :: s =>
    match cut [')'] 0 s with
    | some (t, []) => some t
    | _ => none
  | _ => none

/-! ## Conditions -/

/-- A condition, as SQL is made of them. -/
inductive Condition where
  | atom (text : List Char)
  | negation (x : Condition)
  | joined (j : Junctor) (xs : List Condition)

namespace Condition

/-- The word that a negated condition begins with. -/
def negationWord : List Char := ['N', 'O', 'T', ' ']

mutual

/-- The text of a condition: connectives put parentheses around all that they hold. -/
def text : Condition → List Char
  | .atom t => t
  | .negation x => negationWord ++ '(' :: (x.text ++ [')'])
  | .joined j xs => '(' :: (j.chars.intercalate (texts xs) ++ [')'])

/-- The texts of several conditions. -/
def texts : List Condition → List (List Char)
  | [] => []
  | x :: xs => x.text :: texts xs

end

theorem texts_eq_map (xs : List Condition) : texts xs = xs.map text := by
  induction xs with
  | nil => rfl
  | cons x xs ih => rw [texts, ih, List.map_cons]

/-- The conditions of a grammar: `AND` joins two, and `OR` two or more. -/
inductive Formed (Atom : List Char → Prop) : Condition → Prop
  | atom {t : List Char} : Atom t → Formed Atom (.atom t)
  | negation {x : Condition} : Formed Atom x → Formed Atom (.negation x)
  | both {x y : Condition} : Formed Atom x → Formed Atom y → Formed Atom (.joined .and [x, y])
  | either {xs : List Condition} : 2 ≤ xs.length → (∀ x ∈ xs, Formed Atom x) → Formed Atom (.joined .or xs)

/-- Some conditions with a word between two of them. A single one stands for itself. -/
def join (j : Junctor) : List Condition → Condition
  | [x] => x
  | xs => .joined j xs

/-- With one more term there are at least two, and they are joined. -/
theorem join_append_singleton (j : Junctor) {xs : List Condition} (hne : xs ≠ []) (x : Condition) :
    join j (xs ++ [x]) = .joined j (xs ++ [x]) := by
  match xs, hne with
  | [y], _ => rfl
  | y :: z :: ys, _ => rfl

/-- How a text is put together as a condition. -/
inductive Layout where
  | joined (j : Junctor) (ts : List (List Char))
  | negated (t : List Char)
  | wrapped (t : List Char)
  | atom

/-- The texts that a layout leaves to be read. -/
def Layout.parts : Layout → List (List Char)
  | .joined _ ts => ts
  | .negated t | .wrapped t => [t]
  | .atom => []

/-- The layout of a text. `OR` is looked for before `AND`, and `AND` before `NOT`. -/
def layout (s : List Char) : Layout :=
  if 1 < (pieces .or s).length then .joined .or (pieces .or s)
  else if 1 < (pieces .and s).length then .joined .and (pieces .and s)
  else if negationWord <+: s then .negated (s.drop negationWord.length)
  else
    match inside? s with
    | some t => .wrapped t
    | none => .atom

end Condition

/-! ## Where a text is cut -/

/-- The parentheses that are open behind the beginning of a text. -/
theorem nest_count {p r : List Char} {c : Char} (h : Balanced (p ++ c :: r)) :
    nest (p.count '(' - p.count ')') c = (p ++ [c]).count '(' - (p ++ [c]).count ')' := by
  have h1 := h.prefixes p (List.prefix_append p _)
  have h2 := h.prefixes (p ++ [c]) ⟨r, by simp⟩
  simp only [List.count_append, List.count_cons, List.count_nil, beq_iff_eq] at h2 ⊢
  unfold nest
  by_cases ho : c = '('
  · subst ho
    simp
    omega
  · by_cases hc : c = ')'
    · subst hc
      simp
      omega
    · simp [ho, hc]

/-- A text in which a word does not begin outside of parentheses is not cut. -/
theorem cut_eq_none {w s : List Char} (hs : Balanced s)
    (h : ∀ p r, s = p ++ r → p.count '(' = p.count ')' → r ≠ [] → ¬w <+: r) : cut w 0 s = none := by
  suffices ∀ r p, s = p ++ r → cut w (p.count '(' - p.count ')') r = none from this s [] rfl
  intro r
  induction r with
  | nil => exact fun _ _ => rfl
  | cons c r ih =>
    rintro p rfl
    have hp := hs.prefixes p (List.prefix_append p _)
    have hn : ¬(p.count '(' - p.count ')' = 0 ∧ w <+: c :: r) :=
      fun ⟨hd, hw⟩ => h p (c :: r) rfl (by omega) (List.cons_ne_nil c r) hw
    rw [cut, if_neg hn, nest_count hs, ih (p ++ [c]) (by simp)]
    rfl

/-- A text is cut at the first word that begins outside of parentheses. -/
theorem cut_append {w s t : List Char} (hs : Balanced s) (hw : w ≠ [])
    (h : ∀ p r, s = p ++ r → p.count '(' = p.count ')' → r ≠ [] → ¬w <+: r ++ (w ++ t)) :
    cut w 0 (s ++ (w ++ t)) = some (s, t) := by
  suffices ∀ r p, s = p ++ r → cut w (p.count '(' - p.count ')') (r ++ (w ++ t)) = some (r, t) from this s [] rfl
  intro r
  induction r with
  | nil =>
    rintro p rfl
    obtain ⟨c, w', rfl⟩ := List.exists_cons_of_ne_nil hw
    have hd : p.count '(' - p.count ')' = 0 := by
      have := hs.total
      simp only [List.append_nil] at this
      omega
    have hc : c :: (w' ++ t) = (c :: w') ++ t := rfl
    rw [List.nil_append, List.cons_append, cut, if_pos ⟨hd, t, rfl⟩, hc, List.drop_left]
  | cons c r ih =>
    rintro p rfl
    have hp := hs.prefixes p (List.prefix_append p _)
    have hn : ¬(p.count '(' - p.count ')' = 0 ∧ w <+: c :: (r ++ (w ++ t))) :=
      fun ⟨hd, hw⟩ => h p (c :: r) rfl (by omega) (List.cons_ne_nil c r) hw
    rw [List.cons_append, cut, if_neg hn, nest_count hs, ih (p ++ [c]) (by simp)]
    rfl

/-- Two words share at most a blank. -/
theorem Junctor.prefix_of_prefix_append {j : Junctor} {r t : List Char} (hr : r ≠ [])
    (h : j.chars <+: r ++ (j.chars ++ t)) : j.chars <+: r ++ [' '] := by
  obtain ⟨c, r, rfl⟩ := List.exists_cons_of_ne_nil hr
  have ht : c :: r ++ (j.chars ++ t) = c :: ((r ++ [' ']) ++ (j.letters ++ [' '] ++ t)) := by
    rw [j.chars_eq]
    simp
  rw [ht, j.chars_eq] at h
  obtain ⟨hc, h⟩ := List.cons_prefix_cons.mp h
  rw [j.chars_eq]
  refine List.cons_prefix_cons.mpr ⟨hc, ?_⟩
  show j.letters ++ [' '] <+: r ++ [' ']
  rcases List.prefix_or_prefix_of_prefix h (List.prefix_append (r ++ [' ']) _) with h | h
  · exact h
  · rcases List.prefix_concat_iff.mp h with h | h
    · exact h ▸ List.prefix_refl _
    · exact absurd (h.subset (by simp)) j.blank_not_mem_letters

namespace Solid

variable {j : Junctor} {s t : List Char}

/-- No word begins where no parenthesis is open. -/
theorem not_prefix {p r u : List Char} (h : Solid j s) (hs : s = p ++ r) (hp : p.count '(' = p.count ')')
    (hu : u <+: r ++ [' ']) : ¬j.chars <+: u := by
  intro hw
  obtain ⟨b, hb⟩ := hw.trans hu
  have := h.inside (' ' :: p) b (by rw [hs]; simp [hb])
  simp [hp] at this

theorem cut_eq_none (h : Solid j s) : cut j.chars 0 s = none := by
  refine WhereClause.cut_eq_none h.toBalanced fun p r hs hp _ => ?_
  exact h.not_prefix hs hp (List.prefix_append r [' '])

/-- A solid text is cut right behind it, whatever follows the joining word. -/
theorem cut_append (h : Solid j s) (t : List Char) : cut j.chars 0 (s ++ (j.chars ++ t)) = some (s, t) := by
  refine WhereClause.cut_append h.toBalanced j.chars_ne_nil fun p r hs hp hr hw => ?_
  exact h.not_prefix hs hp (List.prefix_refl _) (Junctor.prefix_of_prefix_append hr hw)

theorem pieces_eq (h : Solid j s) : pieces j s = [s] := pieces_of_cut_eq_none h.cut_eq_none

/-- A solid text before a joining word is the first piece. -/
theorem pieces_append (h : Solid j s) (t : List Char) : pieces j (s ++ (j.chars ++ t)) = s :: pieces j t :=
  pieces_of_cut_eq_some (h.cut_append t)

/-- Texts with a word between two of them are cut into these texts. -/
theorem pieces_intercalate {ts : List (List Char)} (hne : ts ≠ []) (h : ∀ t ∈ ts, Solid j t) :
    pieces j (j.chars.intercalate ts) = ts := by
  induction ts with
  | nil => exact absurd rfl hne
  | cons t ts ih =>
    obtain ⟨ht, hts⟩ := List.forall_mem_cons.mp h
    cases ts with
    | nil =>
      rw [List.intercalate_singleton]
      exact ht.pieces_eq
    | cons u us => rw [List.intercalate_cons_cons, List.append_assoc, ht.pieces_append, ih (by simp) hts]

end Solid

/-- A text in parentheses is taken out of them only if nothing follows the closing one. -/
theorem inside?_wrap {s : List Char} (h : Balanced s) (t : List Char) :
    inside? ('(' :: (s ++ (')' :: t))) = if t = [] then some s else none := by
  have hc : cut [')'] 0 (s ++ ([')'] ++ t)) = some (s, t) := by
    refine cut_append h (by simp) fun p r hs hp hr hw => ?_
    obtain ⟨c, r, rfl⟩ := List.exists_cons_of_ne_nil hr
    obtain ⟨rfl, -⟩ := List.cons_prefix_cons.mp hw
    have := h.prefixes (p ++ [')']) ⟨r, by simp [hs]⟩
    simp only [List.count_append, List.count_cons, List.count_nil, beq_iff_eq, Char.reduceEq, if_true, if_false] at this
    omega
  rw [List.singleton_append] at hc
  rw [inside?, hc]
  cases t <;> rfl

/-- What a text holds is shorter than the text. -/
theorem eq_of_inside? {s t : List Char} (h : inside? s = some t) : s = '(' :: (t ++ [')']) := by
  unfold inside? at h
  split at h
  · split at h
    next hc =>
      obtain rfl := Option.some.inj h
      rw [eq_of_cut hc]
      simp
    · cases h
  · cases h

/-- Unless a text is left whole, its pieces are shorter. -/
theorem length_lt_of_mem_pieces (j : Junctor) (s : List Char) :
    pieces j s = [s] ∨ ∀ t ∈ pieces j s, t.length < s.length := by
  induction s using pieces.induct j with
  | case1 s hc => exact Or.inl (pieces_of_cut_eq_none hc)
  | case2 s a b hc ih =>
    have hl := congrArg List.length (eq_of_cut hc)
    have hj := j.three_le_length_chars
    simp only [List.length_append] at hl
    rw [pieces_of_cut_eq_some hc]
    refine Or.inr (List.forall_mem_cons.mpr ⟨by omega, fun t ht => ?_⟩)
    rcases ih with hb | hb
    · rw [hb, List.mem_singleton] at ht
      subst ht
      omega
    · have := hb t ht
      omega

/-! ## Reading -/

namespace Condition

/-- What is left to be read is shorter. -/
theorem length_lt_of_mem_parts {s t : List Char} (h : t ∈ (layout s).parts) : t.length < s.length := by
  have shorter (j : Junctor) (hl : 1 < (pieces j s).length) (ht : t ∈ pieces j s) : t.length < s.length := by
    rcases length_lt_of_mem_pieces j s with he | hs
    · simp [he] at hl
    · exact hs t ht
  unfold layout at h
  split at h
  next ho => exact shorter .or ho h
  split at h
  next ha => exact shorter .and ha h
  split at h
  next hn =>
    obtain ⟨u, rfl⟩ := hn
    rw [List.drop_left] at h
    obtain rfl := List.mem_singleton.mp h
    have : negationWord.length = 4 := rfl
    rw [List.length_append]
    omega
  split at h
  next u hi =>
    obtain rfl := List.mem_singleton.mp h
    rw [eq_of_inside? hi, List.length_cons, List.length_append]
    omega
  next => cases h

/-- The condition that SQL reads a text as. -/
def read (s : List Char) : Condition :=
  match _ : layout s with
  | .joined j ts => .joined j (ts.attach.map fun t => read t.1)
  | .negated t => .negation (read t)
  | .wrapped t => read t
  | .atom => .atom s
termination_by s.length
decreasing_by
  all_goals
    rename_i h
    refine length_lt_of_mem_parts ?_
    rw [h]
  · exact t.2
  · exact List.mem_singleton_self t
  · exact List.mem_singleton_self t

/-- A text is read along its layout: terms one by one, a negation and parentheses inside, an atom as it stands. -/
theorem read_of_joined {s : List Char} {j : Junctor} {ts : List (List Char)} (h : layout s = .joined j ts) :
    read s = .joined j (ts.map read) := by
  rw [read]
  split <;> simp_all

theorem read_of_negated {s t : List Char} (h : layout s = .negated t) : read s = .negation (read t) := by
  rw [read]
  split <;> simp_all

theorem read_of_wrapped {s t : List Char} (h : layout s = .wrapped t) : read s = read t := by
  rw [read]
  split <;> simp_all

theorem read_of_atom {s : List Char} (h : layout s = .atom) : read s = .atom s := by
  rw [read]
  split <;> simp_all

/-! ### Texts with words between them -/

/-- Two or more texts that OR does not cut are read as its terms. -/
theorem read_or {ts : List (List Char)} (hl : 2 ≤ ts.length) (h : ∀ t ∈ ts, Solid .or t) :
    read (Junctor.or.chars.intercalate ts) = .joined .or (ts.map read) := by
  have hne : ts ≠ [] := List.ne_nil_of_length_pos (by omega)
  have hp : pieces .or (Junctor.or.chars.intercalate ts) = ts := Solid.pieces_intercalate hne h
  refine read_of_joined ?_
  rw [layout, hp, if_pos (by omega)]

/-- Two or more closed texts are read as the terms of AND. -/
theorem read_and {ts : List (List Char)} (hl : 2 ≤ ts.length) (h : ∀ t ∈ ts, Closed t) :
    read (Junctor.and.chars.intercalate ts) = .joined .and (ts.map read) := by
  have hne : ts ≠ [] := List.ne_nil_of_length_pos (by omega)
  have hs : Solid .or (Junctor.and.chars.intercalate ts) :=
    Solid.intercalate (by decide) hne fun t ht => h t ht .or
  have hp : pieces .and (Junctor.and.chars.intercalate ts) = ts := Solid.pieces_intercalate hne fun t ht => h t ht .and
  refine read_of_joined ?_
  rw [layout, hs.pieces_eq, if_neg (by simp), hp, if_pos (by omega)]

/-- The condition of a row of texts: `AND` stands between two of them. -/
def row (ts : List (List Char)) : Condition := join .and (ts.map read)

/-- A row of closed texts is read as what its texts are read as. -/
theorem read_row {ts : List (List Char)} (hne : ts ≠ []) (h : ∀ t ∈ ts, Closed t) :
    read (Junctor.and.chars.intercalate ts) = row ts := by
  rcases ts with _ | ⟨t, _ | ⟨u, us⟩⟩
  · exact absurd rfl hne
  · rw [List.intercalate_singleton]
    rfl
  · exact read_and (by simp) h

/-- The text of some rows: `AND` stands between the texts of a row, and `OR` between two rows. -/
def sum (rows : List (List (List Char))) : List Char :=
  Junctor.or.chars.intercalate (rows.map Junctor.and.chars.intercalate)

/-- Rows of closed texts are read as what their texts are read as. -/
theorem read_sum {rows : List (List (List Char))} (hne : rows ≠ []) (hrows : ∀ ts ∈ rows, ts ≠ [])
    (h : ∀ ts ∈ rows, ∀ t ∈ ts, Closed t) : read (sum rows) = join .or (rows.map row) := by
  have hs : ∀ t ∈ rows.map Junctor.and.chars.intercalate, Solid .or t := by
    intro t ht
    obtain ⟨ts, hts, rfl⟩ := List.mem_map.mp ht
    exact Solid.intercalate (by decide) (hrows ts hts) fun t ht => h ts hts t ht .or
  have hm : (rows.map Junctor.and.chars.intercalate).map read = rows.map row := by
    rw [List.map_map]
    exact List.map_congr_left fun ts hts => read_row (hrows ts hts) (h ts hts)
  rcases rows with _ | ⟨ts, _ | ⟨us, rows⟩⟩
  · exact absurd rfl hne
  · rw [sum, List.map_singleton, List.intercalate_singleton, read_row (hrows ts (by simp)) (h ts (by simp))]
    rfl
  · rw [sum, read_or (by simp) hs, hm]
    rfl

/-- One more text goes behind the others and one more word between them. -/
theorem intercalate_concat {w t : List Char} {ts : List (List Char)} (hne : ts ≠ []) :
    w.intercalate (ts ++ [t]) = w.intercalate ts ++ w ++ t := by
  induction ts with
  | nil => exact absurd rfl hne
  | cons u us ih =>
    cases us with
    | nil => simp
    | cons v vs =>
      rw [List.cons_append, List.cons_append, List.intercalate_cons_cons, List.intercalate_cons_cons,
        ← List.cons_append, ih (List.cons_ne_nil v vs)]
      simp only [List.append_assoc]

/-- A text behind rows and an `AND` belongs to the last row. -/
theorem sum_append_and (rows : List (List (List Char))) {ts : List (List Char)} (hne : ts ≠ []) (t : List Char) :
    sum (rows ++ [ts]) ++ Junctor.and.chars ++ t = sum (rows ++ [ts ++ [t]]) := by
  unfold sum
  rw [List.map_append, List.map_append, List.map_singleton, List.map_singleton, intercalate_concat hne]
  cases rows with
  | nil => simp
  | cons us rows =>
    rw [intercalate_concat (by simp), intercalate_concat (by simp)]
    simp only [List.append_assoc]

/-- A text before an `OR` and rows is a row of its own. -/
theorem append_or_sum (t : List Char) {rows : List (List (List Char))} (hne : rows ≠ []) :
    t ++ Junctor.or.chars ++ sum rows = sum ([t] :: rows) := by
  unfold sum
  rw [List.map_cons, List.intercalate_singleton, List.intercalate_cons_of_ne_nil (by simpa using hne)]

/-- A closed text behind rows and an `AND` is read as one of the texts of the last row. -/
theorem read_sum_and {rows : List (List (List Char))} {ts : List (List Char)} {t : List Char} (ht : Closed t)
    (hne : ts ≠ []) (hrows : ∀ us ∈ rows, us ≠ []) (h : ∀ us ∈ ts :: rows, ∀ u ∈ us, Closed u) :
    read (sum (rows ++ [ts]) ++ " AND ".toList ++ t) =
      join .or (rows.map row ++ [.joined .and (ts.map read ++ [read t])]) := by
  obtain ⟨hts, hcl⟩ := List.forall_mem_cons.mp h
  have hlast : row (ts ++ [t]) = .joined .and (ts.map read ++ [read t]) := by
    rw [row, List.map_append, List.map_singleton, join_append_singleton _ (by simpa using hne)]
  have hne' : ∀ us ∈ rows ++ [ts ++ [t]], us ≠ [] := by
    intro us hus
    rcases List.mem_append.mp hus with hus | hus
    · exact hrows us hus
    · rw [List.mem_singleton.mp hus]
      simp
  have hcl' : ∀ us ∈ rows ++ [ts ++ [t]], ∀ u ∈ us, Closed u := by
    intro us hus u hu
    rcases List.mem_append.mp hus with hus | hus
    · exact hcl us hus u hu
    · rw [List.mem_singleton.mp hus] at hu
      rcases List.mem_append.mp hu with hu | hu
      · exact hts u hu
      · exact List.mem_singleton.mp hu ▸ ht
  have hs : sum (rows ++ [ts]) ++ " AND ".toList ++ t = sum (rows ++ [ts ++ [t]]) := sum_append_and rows hne t
  rw [hs, read_sum (by simp) hne' hcl', List.map_append, List.map_singleton, hlast]

/-- A closed text before an `OR` and rows is read as a row of its own. -/
theorem read_or_sum {rows : List (List (List Char))} {ts : List (List Char)} {t : List Char} (ht : Closed t)
    (hne : ts ≠ []) (hrows : ∀ us ∈ rows, us ≠ []) (h : ∀ us ∈ ts :: rows, ∀ u ∈ us, Closed u) :
    read (t ++ " OR ".toList ++ sum (ts :: rows)) = .joined .or (read t :: (ts :: rows).map row) := by
  have hs : t ++ " OR ".toList ++ sum (ts :: rows) = sum ([t] :: ts :: rows) :=
    append_or_sum t (List.cons_ne_nil ts rows)
  have hne' : ∀ us ∈ [t] :: ts :: rows, us ≠ [] := by simpa using ⟨hne, hrows⟩
  have hcl : ∀ us ∈ [t] :: ts :: rows, ∀ u ∈ us, Closed u := List.forall_mem_cons.mpr ⟨by simpa using ht, h⟩
  rw [hs, read_sum (by simp) hne' hcl]
  rfl

/-! ### Texts of conditions -/

/-- A closed text is not cut at all, so it is a negation, parentheses or an atom. -/
theorem layout_of_closed {s : List Char} (h : Closed s) :
    layout s = if negationWord <+: s then .negated (s.drop negationWord.length)
      else match inside? s with
        | some t => .wrapped t
        | none => .atom := by
  rw [layout, (h .or).pieces_eq, (h .and).pieces_eq, if_neg (by simp), if_neg (by simp)]

/-- Parentheses around a balanced text do not change how it is read. -/
theorem read_parens {s : List Char} (h : Balanced s) : read ('(' :: (s ++ [')'])) = read s := by
  refine read_of_wrapped ?_
  rw [layout_of_closed h.closed_parens, if_neg (by simp [negationWord]), inside?_wrap h [], if_pos rfl]

/-- The negation of a balanced text is closed. -/
theorem closed_negation {s : List Char} (h : Balanced s) : Closed (negationWord ++ '(' :: (s ++ [')'])) :=
  h.closed_wrap (by decide) (by decide) fun j => by cases j <;> decide

/-- The negation of a balanced text is read as one. -/
theorem read_negation {s : List Char} (h : Balanced s) :
    read (negationWord ++ '(' :: (s ++ [')'])) = .negation (read s) := by
  rw [← read_parens h]
  refine read_of_negated ?_
  rw [layout_of_closed (closed_negation h), if_pos (List.prefix_append _ _), List.drop_left]

end Condition

/-- A text that is read as an atom wherever it stands. -/
structure Atomic (s : List Char) : Prop where
  closed : Closed s
  not_negated : ¬Condition.negationWord <+: s
  not_wrapped : inside? s = none

namespace Condition

/-- An atomic text is read as it stands. -/
theorem read_of_atomic {s : List Char} (h : Atomic s) : read s = .atom s := by
  refine read_of_atom ?_
  rw [layout_of_closed h.closed, if_neg h.not_negated, h.not_wrapped]

/-- Conditions with closed texts, joined. -/
theorem balanced_texts (j : Junctor) {xs : List Condition} (h : ∀ x ∈ xs, Closed x.text) :
    Balanced (j.chars.intercalate (texts xs)) := by
  refine Balanced.intercalate j fun t ht => ?_
  rw [texts_eq_map] at ht
  obtain ⟨x, hx, rfl⟩ := List.mem_map.mp ht
  exact (h x hx j).toBalanced

/-- The text of a condition whose atoms are atomic is closed. -/
theorem Formed.closed_text {Atom : List Char → Prop} (hA : ∀ t, Atom t → Atomic t) {x : Condition}
    (h : Formed Atom x) : Closed x.text := by
  induction h with
  | atom ht => exact (hA _ ht).closed
  | negation _ ih => exact closed_negation (ih .and).toBalanced
  | both _ _ ihx ihy => exact (balanced_texts .and (by simp [ihx, ihy])).closed_parens
  | either _ _ ih => exact (balanced_texts .or ih).closed_parens

/-- Joined conditions are read one by one. -/
theorem read_text_joined (j : Junctor) {xs : List Condition} (hl : 2 ≤ xs.length) (hc : ∀ x ∈ xs, Closed x.text)
    (h : ∀ x ∈ xs, read x.text = x) : read (joined j xs).text = .joined j xs := by
  have hts : ∀ t ∈ xs.map text, Closed t := by
    intro t ht
    obtain ⟨x, hx, rfl⟩ := List.mem_map.mp ht
    exact hc x hx
  have hm : (xs.map text).map read = xs := by
    rw [List.map_map]
    exact (List.map_congr_left h).trans (List.map_id xs)
  rw [text, read_parens (balanced_texts j hc), texts_eq_map]
  cases j with
  | and => rw [read_and (by simpa using hl) hts, hm]
  | or => rw [read_or (by simpa using hl) fun t ht => hts t ht .or, hm]

/-- The text of a condition whose atoms are atomic is read as the condition. -/
theorem Formed.read_text {Atom : List Char → Prop} (hA : ∀ t, Atom t → Atomic t) {x : Condition}
    (h : Formed Atom x) : read x.text = x := by
  induction h with
  | atom ht => exact read_of_atomic (hA _ ht)
  | negation hx ih =>
    have hb := (hx.closed_text hA .and).toBalanced
    rw [text, read_negation hb, ih]
  | both hx hy ihx ihy =>
    exact read_text_joined .and (by simp) (by simp [hx.closed_text hA, hy.closed_text hA]) (by simp [ihx, ihy])
  | either hl hxs ih => exact read_text_joined .or hl (fun x hx => (hxs x hx).closed_text hA) ih

end Condition

end WhereClause
