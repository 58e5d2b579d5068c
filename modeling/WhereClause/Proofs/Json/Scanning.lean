import Mathlib.Data.List.Chain
import WhereClause.Proofs.Json.Scanned

/-!
# The grammar runs through the scanner

The scanner finds the tokens of a layout (`tokens?_of_layout`). Each kind of token is run through it: `Scan.Passes` says
that a text takes the scanner from one state to another without completing a token, and such runs compose. A number has
no closing mark, so its end is found only where no other leaf follows at once (`Ends`); the tokens of a document are
such a sequence.
-/

namespace WhereClause.Json

/-- Going over the text takes the scanner from the first state to the second and completes no token. -/
def Scan.Passes (s : Scan) (u : List Char) (s' : Scan) : Prop := ∀ w, s.tokens? (u ++ w) = s'.tokens? w

theorem Scan.Passes.refl (s : Scan) : s.Passes [] s := fun _ => rfl

theorem Scan.Passes.trans {s m t : Scan} {u w : List Char} (h : s.Passes u m) (h' : m.Passes w t) :
    s.Passes (u ++ w) t := by
  intro x
  rw [List.append_assoc, h, h']

/-- A character is passed by one step. -/
theorem Scan.Passes.cons {s m t : Scan} {c : Char} {u : List Char} (h : s.step? c = some ([], m))
    (hu : m.Passes u t) : s.Passes (c :: u) t := by
  intro w
  rw [List.cons_append, Scan.tokens?, h, ← hu w]
  exact Option.bind_fun_some _

/-- A step that completes one token. -/
theorem tokens?_of_step {s : Scan} {c : Char} {t : Token} (h : s.step? c = some ([t], .between)) (w : List Char) :
    s.tokens? (c :: w) = (tokens? w).map (t :: ·) := by
  rw [Scan.tokens?, h]
  exact Option.map_eq_bind.symm

/-! ## Strings -/

/-- The digits of an escape are passed to the unit that they name. -/
theorem passes_unit {seen : List Piece} {digits : List Char} {left code n : Nat} (hl : digits.length = left + 1)
    (hn : digits.foldlM (fun n c => (hexDigit? c).map (16 * n + ·)) code = some n) :
    (Scan.unit seen left code).Passes digits (.string (.unit n :: seen)) := by
  induction digits generalizing left code with
  | nil => cases hl
  | cons c digits ih =>
    obtain ⟨m, hm, hn⟩ := Option.bind_eq_some_iff.mp hn
    obtain ⟨d, hd, rfl⟩ := Option.map_eq_some_iff.mp hm
    cases left with
    | zero =>
      obtain rfl := List.length_eq_zero_iff.mp (Nat.succ.inj hl)
      obtain rfl := Option.some.inj hn
      exact .cons (by simp [Scan.step?, hd]) (.refl _)
    | succ left => exact .cons (by simp [Scan.step?, hd]) (ih (Nat.succ.inj hl) hn)

/-- The body of a string is passed to its pieces. -/
theorem Body.passes {u : List Char} {ps seen : List Piece} (h : Body u ps) :
    (Scan.string seen).Passes u (.string (ps.reverse ++ seen)) := by
  induction h generalizing seen with
  | nil => exact .refl _
  | @plain c u ps hq hb hc _ ih =>
    rw [List.reverse_cons, List.append_assoc]
    refine .cons ?_ ih
    simp [Scan.step?, hq, hb, Nat.not_lt.mpr hc]
  | @letter x c u ps hx _ ih =>
    rw [List.reverse_cons, List.append_assoc]
    have hu : x ≠ 'u' := by
      rintro rfl
      cases hx
    refine .cons (m := .escape seen) rfl (.cons ?_ ih)
    simp [Scan.step?, hu, hx]
  | @unit n digits u ps hl hn _ ih =>
    rw [List.reverse_cons, List.append_assoc]
    exact .cons (m := .escape seen) rfl (.cons (m := .unit seen 3 0) rfl ((passes_unit hl hn).trans ih))

/-! ## Numbers -/

/-- A part of a number that may hold digits passes them. -/
theorem passes_digits {p : NumberPart} (hp : ∀ c : Char, c.isDigit = true → p.next? c = some p) {u seen : List Char}
    (hu : ∀ c ∈ u, c.isDigit = true) : (Scan.number p seen).Passes u (.number p (u.reverse ++ seen)) := by
  induction u generalizing seen with
  | nil => exact .refl _
  | cons c u ih =>
    rw [List.reverse_cons, List.append_assoc]
    refine .cons ?_ (ih fun d hd => hu d (List.mem_cons_of_mem _ hd))
    simp [Scan.step?, hp c (hu c List.mem_cons_self)]

/-- So does the state before it, which the first digit leaves. -/
theorem Digits.passes {p q : NumberPart} (hq : ∀ c : Char, c.isDigit = true → q.next? c = some p)
    (hp : ∀ c : Char, c.isDigit = true → p.next? c = some p) {u : List Char} (hu : Digits u)
    (seen : List Char) : (Scan.number q seen).Passes u (.number p (u.reverse ++ seen)) := by
  cases u with
  | nil => exact absurd rfl hu.1
  | cons c u =>
    rw [List.reverse_cons, List.append_assoc]
    refine .cons ?_ (passes_digits hp fun d hd => hu.2 d (List.mem_cons_of_mem _ hd))
    simp [Scan.step?, hq c (hu.2 c List.mem_cons_self)]

/-- A number may begin with a digit. -/
theorem start?_digit {c : Char} (h : c.isDigit = true) :
    Scan.start? c = (NumberPart.minus.next? c).map fun p => ([], .number p [c]) := by
  unfold Scan.start?
  split
  all_goals first | rfl | cases h

/-- The first digit of a number, behind its sign. -/
theorem Sign.passes {sign : List Char} (hs : Sign sign) {c : Char} (hc : c.isDigit = true) {p : NumberPart}
    (hp : NumberPart.minus.next? c = some p) : Scan.between.Passes (sign ++ [c]) (.number p (c :: sign.reverse)) := by
  rcases hs with rfl | rfl
  · refine .cons ?_ (.refl _)
    rw [Scan.step?, start?_digit hc, hp]
    rfl
  · refine .cons (m := .number .minus ['-']) rfl (.cons ?_ (.refl _))
    simp [Scan.step?, hp]

/-- A whole number, with or without its sign, is passed from between two tokens. -/
theorem Whole.passes {sign u : List Char} (hs : Sign sign) (hu : Whole u) :
    ∃ q, (q = .zero ∨ q = .whole) ∧ Scan.between.Passes (sign ++ u) (.number q (sign ++ u).reverse) := by
  obtain ⟨⟨hne, hd⟩, hz⟩ := hu
  cases u with
  | nil => exact absurd rfl hne
  | cons c u =>
    by_cases h0 : c = '0'
    · subst h0
      obtain rfl := (List.cons.inj (hz rfl)).2
      refine ⟨.zero, .inl rfl, ?_⟩
      rw [List.reverse_append]
      exact hs.passes rfl rfl
    · have hc : c.isDigit = true := hd c List.mem_cons_self
      have hp : NumberPart.minus.next? c = some .whole := by
        simp [NumberPart.next?, h0, hc]
      have hrest : (Scan.number .whole (c :: sign.reverse)).Passes u (.number .whole (u.reverse ++ c :: sign.reverse)) :=
        passes_digits (fun d hd => by simp [NumberPart.next?, hd]) fun d hm => hd d (List.mem_cons_of_mem _ hm)
      refine ⟨.whole, .inr rfl, ?_⟩
      have h := (hs.passes hc hp).trans hrest
      simpa using h

theorem next?_point {q : NumberPart} (h : q = .zero ∨ q = .whole) : q.next? '.' = some .point := by
  rcases h with rfl | rfl <;> rfl

theorem next?_exponent {q : NumberPart} (h : q = .zero ∨ q = .whole ∨ q = .fraction) {e : Char}
    (he : e = 'e' ∨ e = 'E') : q.next? e = some .exponent := by
  rcases h with rfl | rfl | rfl <;> rcases he with rfl | rfl <;> rfl

/-- A point and its digits. -/
theorem passes_fraction {q : NumberPart} (h : q = .zero ∨ q = .whole) {u : List Char} (hu : Digits u)
    (seen : List Char) : (Scan.number q seen).Passes ('.' :: u) (.number .fraction (('.' :: u).reverse ++ seen)) := by
  have hstep : (Scan.number q seen).step? '.' = some ([], .number .point ('.' :: seen)) := by
    simp [Scan.step?, next?_point h]
  have hdigits : (Scan.number .point ('.' :: seen)).Passes u (.number .fraction (u.reverse ++ '.' :: seen)) :=
    hu.passes (fun c hc => by simp [NumberPart.next?, hc]) (fun c hc => by simp [NumberPart.next?, hc]) _
  rw [List.reverse_cons, List.append_assoc]
  exact .cons hstep hdigits

/-- A power of ten. -/
theorem passes_power {q : NumberPart} (h : q = .zero ∨ q = .whole ∨ q = .fraction) {e : Char} {sign u : List Char}
    (he : e = 'e' ∨ e = 'E') (hs : sign = [] ∨ sign = ['+'] ∨ sign = ['-']) (hu : Digits u) (seen : List Char) :
    (Scan.number q seen).Passes (e :: (sign ++ u)) (.number .power ((e :: (sign ++ u)).reverse ++ seen)) := by
  have hstep : (Scan.number q seen).step? e = some ([], .number .exponent (e :: seen)) := by
    simp [Scan.step?, next?_exponent h he]
  have hpower : ∀ c : Char, c.isDigit = true → NumberPart.power.next? c = some .power :=
    fun c hc => by simp [NumberPart.next?, hc]
  have hsigned : ∀ s : Char, s = '+' ∨ s = '-' →
      (Scan.number .exponent (e :: seen)).Passes (s :: u) (.number .power (u.reverse ++ s :: e :: seen)) := by
    intro s hs
    refine .cons (m := .number .exponentSign (s :: e :: seen)) ?_ (hu.passes ?_ hpower _)
    · simp [Scan.step?, NumberPart.next?, hs]
    · intro c hc
      simp [NumberPart.next?, hc]
  rw [List.reverse_cons, List.append_assoc, List.reverse_append, List.append_assoc]
  refine .cons hstep ?_
  rcases hs with rfl | rfl | rfl
  · refine hu.passes (fun c hc => ?_) hpower _
    have hsign : ¬ (c = '+' ∨ c = '-') := by
      rintro (rfl | rfl) <;> cases hc
    simp [NumberPart.next?, hsign, hc]
  · exact hsigned '+' (.inl rfl)
  · exact hsigned '-' (.inr rfl)

/-- A number brings the scanner to a part where it may end. -/
theorem Number.passes {u : List Char} {v : Json} (h : Number u v) :
    ∃ q, Scan.between.Passes u (.number q u.reverse) ∧ number? q u = some v := by
  have hint : ∀ (q : NumberPart) (w : List Char), q = .zero ∨ q = .whole → number? q w = some (integer w) := by
    rintro q w (rfl | rfl) <;> rfl
  cases h with
  | natural hu =>
    obtain ⟨q, hq, hp⟩ := hu.passes (.inl rfl)
    exact ⟨q, hp, by rw [hint q u hq, integer_of_digits hu.1]⟩
  | negative hu h0 =>
    obtain ⟨q, hq, hp⟩ := hu.passes (.inr rfl)
    exact ⟨q, hp, by rw [hint q _ hq, integer_minus h0]⟩
  | minusZero =>
    obtain ⟨q, hq, hp⟩ := whole_zero.passes (.inr rfl)
    exact ⟨q, hp, by rw [hint q _ hq]; rfl⟩
  | @real sign w fraction exponent hs hw hf he hne =>
    obtain ⟨q, hq, hp⟩ := hw.passes hs
    cases hf with
    | none =>
      cases he with
      | none => exact absurd rfl hne
      | some hchar hsign hd =>
        refine ⟨.power, ?_, rfl⟩
        have hpow := passes_power (hq.imp_right .inl) hchar hsign hd (sign ++ w).reverse
        rw [← List.reverse_append] at hpow
        rw [List.append_nil]
        exact hp.trans hpow
    | @some digits hd =>
      have hfrac := passes_fraction hq hd (sign ++ w).reverse
      rw [← List.reverse_append] at hfrac
      cases he with
      | none =>
        refine ⟨.fraction, ?_, rfl⟩
        rw [List.append_nil]
        exact hp.trans hfrac
      | some hchar hsign hd' =>
        refine ⟨.power, ?_, rfl⟩
        have hpow := passes_power (.inr (.inr rfl)) hchar hsign hd' (sign ++ w ++ '.' :: digits).reverse
        rw [← List.reverse_append] at hpow
        exact (hp.trans hfrac).trans hpow

/-! ## From the grammar to the scanner -/

/-- Whether a token is a value without parts. -/
def Token.isLeaf : Token → Bool
  | .leaf _ => true
  | _ => false

/-- A text that cannot go on with a number. -/
def Ends (u : List Char) : Prop := ∀ c ∈ u.head?, ∀ p : NumberPart, p.next? c = none

/-- Blanks, marks and quotes end a number or a word. -/
theorem ends_of_mark {c : Char} (hc : c ∈ blanks ++ ['[', ']', '\x7b', '\x7d', ',', ':', '"']) (u : List Char) :
    Ends (c :: u) := by
  intro d hd p
  obtain rfl := Option.some.inj hd
  simp only [blanks, List.cons_append, List.nil_append, List.mem_cons, List.not_mem_nil, or_false] at hc
  cases p <;> rcases hc with rfl | rfl | rfl | rfl | rfl | rfl | rfl | rfl | rfl | rfl | rfl <;> rfl

/-- What is laid out ends a number, unless it starts with a leaf. -/
theorem Layout.ends {ts : List Token} {u : List Char} (h : Layout ts u) (ht : ∀ t ∈ ts.head?, t.isLeaf = false) :
    Ends u := by
  cases h with
  | nil => exact fun _ hc => nomatch hc
  | blank hc _ => exact ends_of_mark (List.mem_append_left _ hc) _
  | @token t ts u w hu _ =>
    have hl := ht t rfl
    cases hu with
    | null | true | false | number => cases hl
    | string | unpaired => exact ends_of_mark (by decide) _
    | _ => exact ends_of_mark (by decide) _

/-- The end of a number is found where the text cannot go on with it. -/
theorem tokens?_number {q : NumberPart} {u w : List Char} {v : Json} (hv : number? q u = some v) (hw : Ends w) :
    (Scan.number q u.reverse).tokens? w = (tokens? w).map (.leaf v :: ·) := by
  cases w with
  | nil => simp [Scan.tokens?, Scan.finish?, tokens?, hv]
  | cons c w =>
    have hstep : (Scan.number q u.reverse).step? c = (Scan.start? c).map fun r => (.leaf v :: r.1, r.2) := by
      simp only [Scan.step?, hw c rfl q, List.reverse_reverse, hv]
      exact Option.map_eq_bind.symm
    unfold tokens?
    rw [Scan.tokens?, Scan.tokens?, hstep, Scan.step?]
    cases Scan.start? c with
    | none => rfl
    | some r =>
      simp only [Option.map_some, Option.bind_eq_bind, Option.bind_some]
      cases r.2.tokens? w <;> rfl

/-- The rest of a name. -/
theorem tokens?_name {left : List Char} (hne : left ≠ []) (v : Json) (w : List Char) :
    (Scan.name left v).tokens? (left ++ w) = (tokens? w).map (.leaf v :: ·) := by
  induction left with
  | nil => exact absurd rfl hne
  | cons x left ih =>
    cases left with
    | nil => exact tokens?_of_step (by simp [Scan.step?]) w
    | cons y left =>
      have hx : (Scan.name (x :: y :: left) v).Passes [x] (.name (y :: left) v) :=
        .cons (by simp [Scan.step?]) (.refl _)
      exact (hx _).trans (ih (List.cons_ne_nil _ _))

/-- A string, from its opening quote to its closing one. -/
theorem Body.tokens? {u : List Char} {ps : List Piece} (h : Body u ps) (w : List Char) :
    Json.tokens? ('"' :: (u ++ ['"']) ++ w) = (Json.tokens? w).map (.string (textOfPieces? ps) :: ·) := by
  have hopen : Scan.between.Passes ('"' :: u) (.string (ps.reverse ++ [])) :=
    .cons (m := .string []) rfl h.passes
  have hclose : (Scan.string (ps.reverse ++ [])).step? '"' = some ([.string (textOfPieces? ps)], .between) := by
    simp [Scan.step?]
  rw [← List.cons_append, List.append_assoc]
  exact (hopen _).trans (tokens?_of_step hclose w)

/-- A token at the head of a text is found, and the rest is read as if it stood alone. -/
theorem tokens?_of_text {t : Token} {u w : List Char} (ht : t.Text u) (hw : t.isLeaf = true → Ends w) :
    tokens? (u ++ w) = (tokens? w).map (t :: ·) := by
  have hname {c : Char} {left : List Char} {v : Json} (hc : Scan.between.step? c = some ([], .name left v))
      (hne : left ≠ []) : tokens? (c :: left ++ w) = (tokens? w).map (.leaf v :: ·) :=
    (Scan.Passes.cons hc (.refl _) (left ++ w)).trans (tokens?_name hne v w)
  cases ht with
  | openArray | closeArray | openObject | closeObject | comma | colon => exact tokens?_of_step rfl w
  | null | true | false => exact hname rfl (List.cons_ne_nil _ _)
  | @number u v hu =>
    obtain ⟨q, hq, hv⟩ := hu.passes
    exact (hq w).trans (tokens?_number hv (hw rfl))
  | string hb hd =>
    have h := hb.tokens? w
    rwa [textOfPieces?, hd.charsOfPieces?] at h
  | @unpaired u ps hb hd =>
    have h := hb.tokens? w
    have hnone : charsOfPieces? ps = none := by
      rw [Option.eq_none_iff_forall_ne_some]
      exact fun cs hcs => hd cs (decodes_of_charsOfPieces? hcs)
    rwa [textOfPieces?, hnone] at h

/-- The tokens that are laid out in a text are found in it, if no leaf follows another. -/
theorem tokens?_of_layout {ts : List Token} {u : List Char} (h : Layout ts u)
    (hc : ts.IsChain fun s t => s.isLeaf = true → t.isLeaf = false) : tokens? u = some ts := by
  induction h with
  | nil => rfl
  | @blank c ts u hb _ ih =>
    have hskip : Scan.between.step? c = some ([], .between) := by
      simp only [blanks, List.mem_cons, List.not_mem_nil, or_false] at hb
      rcases hb with rfl | rfl | rfl | rfl <;> rfl
    exact (Scan.Passes.cons hskip (.refl _) u).trans (ih hc)
  | @token t ts u w ht hl ih =>
    have hw : t.isLeaf = true → Ends w := by
      intro hleaf
      exact hl.ends fun s hs => hc.rel_head? hs hleaf
    rw [tokens?_of_text ht hw, ih hc.tail]
    rfl

end WhereClause.Json
