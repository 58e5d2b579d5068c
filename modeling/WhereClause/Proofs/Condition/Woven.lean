import WhereClause.Proofs.Condition.Read

/-!
# Texts with names in them

The text of a predicate is made of a few fixed texts with names between them. A name has no blank and no parenthesis
in it, and some character that is no letter, so no word of a connective can stand in it or reach into it. Whether such
a text can be mistaken for anything but an atom is therefore decided on the fixed texts alone (`atomic_weave`).
-/

namespace WhereClause

/-- A name: no blank, no parenthesis, and some character that is no letter. -/
structure Tight (x : List Char) : Prop where
  bare : ∀ c ∈ [' ', '(', ')'], c ∉ x
  mark : ∃ d ∈ x, d.isAlpha = false

/-- No word of a connective stands in a text. -/
def Quiet (s : List Char) : Prop := ∀ j : Junctor, ¬j.chars <:+: s

/-- The fixed texts of a text: no word stands in them, not even with a blank beside them, and parentheses match. -/
structure Calm (us : List (List Char)) : Prop where
  quiet : ∀ u ∈ us, Quiet (' ' :: (u ++ [' ']))
  balanced : Balanced us.flatten

/-- Names, each with a fixed text before it, and a fixed text at the end. -/
def weave : List (List Char × List Char) → List Char → List Char
  | [], w => w
  | (u, x) :: bs, w => u ++ (x ++ weave bs w)

/-- A text does not begin as a negated condition or one in parentheses. -/
def Headed : List Char → Prop
  | [] => True
  | c :: _ => c ≠ 'N' ∧ c ≠ '('

instance {P : Junctor → Prop} [DecidablePred P] : Decidable (∀ j, P j) :=
  decidable_of_iff (P .and ∧ P .or)
    ⟨fun h j => match j with
      | .and => h.1
      | .or => h.2, fun h => ⟨h .and, h .or⟩⟩

instance (s : List Char) : Decidable (Quiet s) := inferInstanceAs (Decidable (∀ _, _))

instance (s : List Char) : Decidable (Balanced s) :=
  decidable_of_iff ((∀ n ≤ s.length, (s.take n).count ')' ≤ (s.take n).count '(') ∧ s.count '(' = s.count ')')
    ⟨fun h => ⟨fun a ha => List.prefix_iff_eq_take.mp ha ▸ h.1 a.length ha.length_le, h.2⟩,
      fun h => ⟨fun n _ => h.prefixes _ (List.take_prefix n s), h.total⟩⟩

instance (us : List (List Char)) : Decidable (Calm us) :=
  decidable_of_iff ((∀ u ∈ us, Quiet (' ' :: (u ++ [' ']))) ∧ Balanced us.flatten)
    ⟨fun h => ⟨h.1, h.2⟩, fun h => ⟨h.quiet, h.balanced⟩⟩

-- Decided on the characters that are there: the general instance would go through all characters.
instance (x : List Char) : Decidable (Tight x) :=
  decidable_of_iff ((' ' ∉ x ∧ '(' ∉ x ∧ ')' ∉ x) ∧ (x.any fun d => !d.isAlpha) = true)
    ⟨fun h => ⟨by simpa using h.1, by simpa using h.2⟩, fun h => ⟨by simpa using h.bare, by simpa using h.mark⟩⟩

instance : (s : List Char) → Decidable (Headed s)
  | [] => inferInstanceAs (Decidable True)
  | _ :: _ => inferInstanceAs (Decidable (_ ∧ _))

/-! ## Words beside names -/

/-- The words of SQL are made of blanks and letters. -/
theorem not_mem_of_letters {w : List Char} (hw : (w.all fun c => c == ' ' || c.isAlpha) = true) {d : Char}
    (hb : d ≠ ' ') (ha : d.isAlpha = false) : d ∉ w := by
  intro h
  have := List.all_eq_true.mp hw d h
  simp [hb, ha] at this

/-- The joining words are made of blanks and letters. -/
theorem Junctor.not_mem_chars {j : Junctor} {d : Char} (hb : d ≠ ' ') (ha : d.isAlpha = false) : d ∉ j.chars :=
  not_mem_of_letters (by cases j <;> decide) hb ha

/-- A part of a quiet text is quiet. -/
theorem Quiet.mono {s t : List Char} (h : Quiet t) (hs : s <:+: t) : Quiet s :=
  fun j hj => h j (hj.trans hs)

/-- Behind a text, characters that are no blanks make no word. -/
theorem Quiet.append_bare {u x : List Char} (hu : Quiet u) (hx : ' ' ∉ x) : Quiet (u ++ x) := by
  rintro j ⟨a, b, h⟩
  have hw : u ++ x = (a ++ ' ' :: j.letters) ++ ' ' :: b := by
    rw [← h, j.chars_eq]
    simp
  rcases List.append_eq_append_iff.mp hw with ⟨m, -, hm⟩ | ⟨m, hm, hb⟩
  · exact hx (by simp [hm])
  · cases m with
    | nil => exact hx (by rw [← (show ' ' :: b = x from hb)]; simp)
    | cons c m =>
      obtain ⟨rfl, -⟩ := List.cons.inj hb
      exact hu j ⟨a, m, by rw [hm, j.chars_eq]; simp⟩

/-- Before a text, characters that are no blanks make no word. -/
theorem Quiet.bare_append {x v : List Char} (hv : Quiet v) (hx : ' ' ∉ x) : Quiet (x ++ v) := by
  rintro j ⟨a, b, h⟩
  have hw : x ++ v = a ++ ' ' :: (j.letters ++ ' ' :: b) := by
    rw [← h, j.chars_eq]
    simp
  rcases List.append_eq_append_iff.mp hw with ⟨m, -, hm⟩ | ⟨m, hm, hb⟩
  · exact hv j ⟨m, b, by rw [hm, j.chars_eq]; simp⟩
  · cases m with
    | nil => exact hv j ⟨[], b, by rw [← (show _ = v from hb), j.chars_eq]; simp⟩
    | cons c m =>
      obtain ⟨rfl, -⟩ := List.cons.inj hb
      exact hx (by simp [hm])

/-- A name between two texts makes no word. -/
theorem Quiet.insert {u x v : List Char} (hu : Quiet u) (hx : Tight x) (hv : Quiet v) : Quiet (u ++ (x ++ v)) := by
  rintro j ⟨a, b, h⟩
  obtain ⟨d, hd, ha⟩ := hx.mark
  obtain ⟨y, z, rfl⟩ := List.append_of_mem hd
  have hb : ' ' ∉ y ++ d :: z := hx.bare ' ' (by simp)
  have hdb : d ≠ ' ' := by
    rintro rfl
    exact hb hd
  have hw : (u ++ y) ++ d :: (z ++ v) = a ++ j.chars ++ b := by
    rw [h]
    simp
  rw [List.mem_append, List.mem_cons, not_or, not_or] at hb
  rcases append_eq_of_not_mem (Junctor.not_mem_chars hdb ha) hw with ⟨r, hr⟩ | ⟨r, -, hr⟩
  · exact hu.append_bare hb.1 j ⟨a, r, hr.symm⟩
  · exact hv.bare_append hb.2.2 j ⟨r, b, hr.symm⟩

/-! ## Woven texts -/

/-- What follows a woven text may be taken into its last word. -/
theorem weave_append (bs : List (List Char × List Char)) (w t : List Char) : weave bs w ++ t = weave bs (w ++ t) := by
  induction bs with
  | nil => rfl
  | cons b bs ih => simp only [weave, List.append_assoc, ih]

/-- Quiet words stay quiet with tight names woven between them. -/
theorem quiet_weave {bs : List (List Char × List Char)} {w : List Char} (hw : Quiet w)
    (hbs : ∀ b ∈ bs, Quiet b.1 ∧ Tight b.2) : Quiet (weave bs w) := by
  induction bs with
  | nil => exact hw
  | cons b bs ih =>
    obtain ⟨⟨hu, hx⟩, hbs⟩ := List.forall_mem_cons.mp hbs
    exact hu.insert hx (ih hbs)

/-- Tight names change nothing of the balance of the words they are woven between. -/
theorem balanced_weave {bs : List (List Char × List Char)} {s w : List Char}
    (h : Balanced (s ++ ((bs.map Prod.fst).flatten ++ w))) (hbs : ∀ b ∈ bs, Tight b.2) : Balanced (s ++ weave bs w) := by
  induction bs generalizing s with
  | nil => exact h
  | cons b bs ih =>
    obtain ⟨hx, hbs⟩ := List.forall_mem_cons.mp hbs
    have hs : Balanced ((s ++ b.1) ++ ((bs.map Prod.fst).flatten ++ w)) := by simpa using h
    have := (ih hs hbs).insert (hx.bare '(' (by simp)) (hx.bare ')' (by simp))
    simpa [weave] using this

/-- A text is closed if its fixed texts are calm. -/
theorem closed_weave {u x : List Char} {bs : List (List Char × List Char)} {w : List Char}
    (h : Calm (((u, x) :: bs).map Prod.fst ++ [w])) (hx : Tight x) (hbs : ∀ b ∈ bs, Tight b.2) :
    Closed (weave ((u, x) :: bs) w) := by
  have hb : Balanced ([] ++ weave ((u, x) :: bs) w) := by
    refine balanced_weave ?_ (List.forall_mem_cons.mpr ⟨hx, hbs⟩)
    simpa using h.balanced
  refine hb.closed fun j => ?_
  have hp : ' ' :: (weave ((u, x) :: bs) w ++ [' ']) = weave ((' ' :: u, x) :: bs) (w ++ [' ']) := by
    rw [weave_append]
    rfl
  rw [List.nil_append, hp]
  refine quiet_weave ((h.quiet w (by simp)).mono ⟨[' '], [], by simp⟩) (List.forall_mem_cons.mpr ⟨⟨?_, hx⟩, ?_⟩) j
  · exact (h.quiet u (by simp)).mono ⟨[], [' '], by simp⟩
  · intro b hm
    have hq : Quiet (' ' :: (b.1 ++ [' '])) := by
      refine h.quiet b.1 ?_
      simp only [List.map_cons, List.mem_append, List.mem_cons, List.mem_map]
      exact Or.inl (Or.inr ⟨b, hm, rfl⟩)
    exact ⟨hq.mono ⟨[' '], [' '], by simp⟩, hbs b hm⟩

/-! ## Atoms -/

theorem Tight.ne_nil {x : List Char} (h : Tight x) : x ≠ [] := by
  rintro rfl
  obtain ⟨d, hd, -⟩ := h.mark
  cases hd

/-- A text that begins with a name is not negated. -/
theorem Tight.not_negated {x : List Char} (h : Tight x) (t : List Char) : ¬Condition.negationWord <+: x ++ t := by
  intro hn
  have hb := h.bare ' ' (by simp)
  rcases List.prefix_or_prefix_of_prefix hn (List.prefix_append x t) with hp | hp
  · exact hb (hp.subset (by decide))
  · obtain ⟨d, hd, ha⟩ := h.mark
    have hdb : d ≠ ' ' := by
      rintro rfl
      exact hb hd
    exact not_mem_of_letters (by decide) hdb ha (hp.subset hd)

/-- A text with calm fixed texts is atomic, unless it begins like a condition of another form. -/
theorem atomic_weave {u x : List Char} {bs : List (List Char × List Char)} {w : List Char}
    (h : Calm (((u, x) :: bs).map Prod.fst ++ [w])) (hu : Headed u) (hx : Tight x) (hbs : ∀ b ∈ bs, Tight b.2) :
    Atomic (weave ((u, x) :: bs) w) := by
  refine ⟨closed_weave h hx hbs, fun hn => ?_, ?_⟩
  · cases u with
    | nil => exact hx.not_negated _ hn
    | cons c u => exact hu.1 (List.cons_prefix_cons.mp hn).1.symm
  · refine Option.eq_none_iff_forall_ne_some.mpr fun t ht => ?_
    have he := eq_of_inside? ht
    cases u with
    | nil =>
      obtain ⟨c, y, rfl⟩ := List.exists_cons_of_ne_nil hx.ne_nil
      obtain ⟨rfl, -⟩ := List.cons.inj he
      exact hx.bare '(' (by simp) List.mem_cons_self
    | cons c u => exact hu.2 (List.cons.inj he).1

/-- A name in parentheses, with more behind them, is atomic. -/
theorem atomic_weave_parens {x u : List Char} {bs : List (List Char × List Char)} {w t : List Char}
    (h : Calm (((u, x) :: bs).map Prod.fst ++ [w])) (hu : u = ['(']) (hx : Tight x) (hbs : ∀ b ∈ bs, Tight b.2)
    (ht : weave bs w = ')' :: t) (hne : t ≠ []) : Atomic (weave ((u, x) :: bs) w) := by
  have hw : weave ((u, x) :: bs) w = '(' :: (x ++ ')' :: t) := by rw [weave, ht, hu]; rfl
  refine ⟨closed_weave h hx hbs, fun hn => ?_, ?_⟩
  · rw [hw] at hn
    exact absurd (List.cons_prefix_cons.mp hn).1 (by decide)
  · rw [hw, inside?_wrap (Balanced.of_not_mem (hx.bare _ (by simp)) (hx.bare _ (by simp))), if_neg hne]

end WhereClause
