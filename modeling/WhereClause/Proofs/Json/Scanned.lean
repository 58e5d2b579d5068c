import Mathlib.Data.List.Basic
import WhereClause.Proofs.Json.Grammar

/-!
# What the scanner finds is written in the grammar

The tokens that the scanner makes of a text are laid out in it (`layout_of_tokens?`). `Scan.Holds` says of each state of
the scanner which texts lead to it, counted from the start of a token; a step keeps that (`layout_of_step`), and a whole
run follows by induction on the text.
-/

namespace WhereClause.Json

/-! ## The pieces of a string -/

/-- A unit that is no surrogate is a character by itself. -/
theorem charsOfPieces?_unit {n : Nat} (hh : isHighSurrogate n = false) (hl : isLowSurrogate n = false)
    (ps : List Piece) : charsOfPieces? (.unit n :: ps) = (charsOfPieces? ps).map (.ofNat n :: ·) := by
  cases ps with
  | nil => simp [charsOfPieces?, hh, hl]
  | cons p ps => cases p <;> simp [charsOfPieces?, hh, hl, Option.map_map, Function.comp_def]

/-- Pieces that decode to some characters are these characters. -/
theorem Decodes.charsOfPieces? {ps : List Piece} {cs : List Char} (h : Decodes ps cs) :
    charsOfPieces? ps = some cs := by
  induction h with
  | nil => rfl
  | char _ ih => simp [Json.charsOfPieces?, ih]
  | unit hh hl _ ih => simp [charsOfPieces?_unit hh hl, ih]
  | pair hh hl _ ih => simp [Json.charsOfPieces?, hh, hl, ih]

/-- Pieces decode to the characters that are computed from them. -/
theorem decodes_of_charsOfPieces? {ps : List Piece} {cs : List Char} (h : charsOfPieces? ps = some cs) :
    Decodes ps cs := by
  induction ps using charsOfPieces?.induct generalizing cs with
  | case1 =>
    obtain rfl := Option.some.inj h
    exact .nil
  | case2 c ps ih =>
    obtain ⟨ds, hd, rfl⟩ := Option.map_eq_some_iff.mp h
    exact .char (ih hd)
  | case3 n hs => simp [Json.charsOfPieces?, hs] at h
  | case4 n hs =>
    simp only [Bool.or_eq_true, not_or, Bool.not_eq_true] at hs
    obtain ⟨ds, hd, rfl⟩ := Option.map_eq_some_iff.mp ((charsOfPieces?_unit hs.1 hs.2 []).symm.trans h)
    obtain rfl := Option.some.inj hd
    exact .unit hs.1 hs.2 .nil
  | case5 n c ps hs => simp [Json.charsOfPieces?, hs] at h
  | case6 n c ps hs ih =>
    simp only [Bool.or_eq_true, not_or, Bool.not_eq_true] at hs
    obtain ⟨ds, hd, rfl⟩ := Option.map_eq_some_iff.mp ((charsOfPieces?_unit hs.1 hs.2 (.char c :: ps)).symm.trans h)
    obtain ⟨es, he, rfl⟩ := Option.map_eq_some_iff.mp hd
    exact .unit hs.1 hs.2 (.char (ih he))
  | case7 n m ps hh hl ih =>
    simp only [Json.charsOfPieces?, hh, hl, if_true] at h
    obtain ⟨ds, hd, rfl⟩ := Option.map_eq_some_iff.mp h
    exact .pair hh hl (ih hd)
  | case8 n m ps hh hl => simp [Json.charsOfPieces?, hh, hl] at h
  | case9 n m ps hh hl => simp [Json.charsOfPieces?, hh, hl] at h
  | case10 n m ps hh hl ih =>
    simp only [Bool.not_eq_true] at hh hl
    obtain ⟨ds, hd, rfl⟩ := Option.map_eq_some_iff.mp ((charsOfPieces?_unit hh hl (.unit m :: ps)).symm.trans h)
    exact .unit hh hl (ih hd)

/-- A string between its quotes is a token, whether its pieces have a text or not. -/
theorem Body.text {u : List Char} {ps : List Piece} (h : Body u ps) :
    (Token.string (textOfPieces? ps)).Text ('"' :: (u ++ ['"'])) := by
  unfold textOfPieces?
  cases hc : charsOfPieces? ps with
  | none =>
    refine .unpaired h fun cs hd => ?_
    cases hc.symm.trans hd.charsOfPieces?
  | some cs => exact .string h (decodes_of_charsOfPieces? hc)

theorem Body.append {u w : List Char} {ps qs : List Piece} (h : Body u ps) (hw : Body w qs) :
    Body (u ++ w) (ps ++ qs) := by
  induction h with
  | nil => exact hw
  | plain hq hb hc _ ih => exact .plain hq hb hc ih
  | letter hx _ ih => exact .letter hx ih
  | @unit n digits u ps hl hn _ ih =>
    rw [List.cons_append, List.cons_append, List.append_assoc]
    exact .unit hl hn ih

/-! ## The parts of a number -/

/-- What stands in front of the exponent of a number. -/
inductive Mantissa : List Char → Prop
  | mk {sign u fraction : List Char} : Sign sign → Whole u → Fraction fraction → Mantissa (sign ++ u ++ fraction)

/-- What has been seen of a number whose last part is the given one. -/
inductive NumberPart.Holds : NumberPart → List Char → Prop
  | minus : Holds .minus ['-']
  | zero {sign : List Char} : Sign sign → Holds .zero (sign ++ ['0'])
  | whole {sign u : List Char} : Sign sign → Digits u → u.head? ≠ some '0' → Holds .whole (sign ++ u)
  | point {sign u : List Char} : Sign sign → Whole u → Holds .point (sign ++ u ++ ['.'])
  | fraction {sign u w : List Char} : Sign sign → Whole u → Digits w → Holds .fraction (sign ++ u ++ '.' :: w)
  | exponent {u : List Char} {e : Char} : Mantissa u → e = 'e' ∨ e = 'E' → Holds .exponent (u ++ [e])
  | exponentSign {u : List Char} {e s : Char} : Mantissa u → e = 'e' ∨ e = 'E' → s = '+' ∨ s = '-' →
      Holds .exponentSign (u ++ [e, s])
  | power {u sign w : List Char} {e : Char} : Mantissa u → e = 'e' ∨ e = 'E' →
      sign = [] ∨ sign = ['+'] ∨ sign = ['-'] → Digits w → Holds .power (u ++ e :: (sign ++ w))

theorem Digits.singleton {c : Char} (h : c.isDigit = true) : Digits [c] :=
  ⟨List.cons_ne_nil _ _, fun _ hd => List.mem_singleton.mp hd ▸ h⟩

/-- One more digit may follow. -/
theorem Digits.snoc {u : List Char} {c : Char} (h : Digits u) (hc : c.isDigit = true) : Digits (u ++ [c]) := by
  refine ⟨List.append_ne_nil_of_left_ne_nil h.1 _, fun d hd => ?_⟩
  rcases List.mem_append.mp hd with hd | hd
  · exact h.2 d hd
  · exact List.mem_singleton.mp hd ▸ hc

/-- Digits that do not begin with a zero make a whole number. -/
theorem Digits.whole {u : List Char} (h : Digits u) (hz : u.head? ≠ some '0') : Whole u :=
  ⟨h, fun h0 => absurd h0 hz⟩

theorem whole_zero : Whole ['0'] := ⟨.singleton rfl, fun _ => rfl⟩

/-- A whole number needs neither fraction nor exponent. -/
theorem Mantissa.of_whole {sign u : List Char} (hs : Sign sign) (hu : Whole u) : Mantissa (sign ++ u) := by
  have h := Mantissa.mk hs hu .none
  rwa [List.append_nil] at h

/-- A character that continues a number leads to a longer beginning of one. -/
theorem NumberPart.Holds.next {p q : NumberPart} {u : List Char} {c : Char} (h : p.Holds u) (hq : p.next? c = some q) :
    q.Holds (u ++ [c]) := by
  cases h with
  | minus =>
    simp only [next?] at hq
    split at hq
    next hc =>
      obtain rfl := Option.some.inj hq
      exact hc ▸ .zero (.inr rfl)
    next hc =>
      split at hq
      next hd =>
        obtain rfl := Option.some.inj hq
        exact .whole (.inr rfl) (.singleton hd) fun h0 => hc (Option.some.inj h0)
      · cases hq
  | zero hs =>
    simp only [next?] at hq
    split at hq
    next hc =>
      obtain rfl := Option.some.inj hq
      exact hc ▸ .point hs whole_zero
    next =>
      split at hq
      next he =>
        obtain rfl := Option.some.inj hq
        exact .exponent (.of_whole hs whole_zero) he
      · cases hq
  | @whole sign u hs hu hz =>
    simp only [next?] at hq
    split at hq
    next hd =>
      obtain rfl := Option.some.inj hq
      rw [List.append_assoc]
      refine .whole hs (hu.snoc hd) ?_
      rwa [List.head?_append_of_ne_nil _ hu.1]
    next =>
      split at hq
      next hc =>
        obtain rfl := Option.some.inj hq
        exact hc ▸ .point hs (hu.whole hz)
      next =>
        split at hq
        next he =>
          obtain rfl := Option.some.inj hq
          exact .exponent (.of_whole hs (hu.whole hz)) he
        · cases hq
  | point hs hu =>
    simp only [next?] at hq
    split at hq
    next hd =>
      obtain rfl := Option.some.inj hq
      rw [List.append_assoc]
      exact .fraction hs hu (.singleton hd)
    · cases hq
  | fraction hs hu hw =>
    simp only [next?] at hq
    split at hq
    next hd =>
      obtain rfl := Option.some.inj hq
      rw [List.append_assoc]
      exact .fraction hs hu (hw.snoc hd)
    next =>
      split at hq
      next he =>
        obtain rfl := Option.some.inj hq
        exact .exponent (.mk hs hu (.some hw)) he
      · cases hq
  | exponent hm he =>
    simp only [next?] at hq
    split at hq
    next hc =>
      obtain rfl := Option.some.inj hq
      rw [List.append_assoc]
      exact .exponentSign hm he hc
    next =>
      split at hq
      next hd =>
        obtain rfl := Option.some.inj hq
        rw [List.append_assoc]
        exact .power hm he (.inl rfl) (.singleton hd)
      · cases hq
  | @exponentSign u e s hm he hs =>
    simp only [next?] at hq
    split at hq
    next hd =>
      obtain rfl := Option.some.inj hq
      rw [List.append_assoc]
      have hsign : [s] = [] ∨ [s] = ['+'] ∨ [s] = ['-'] := by
        rcases hs with rfl | rfl
        · exact .inr (.inl rfl)
        · exact .inr (.inr rfl)
      exact .power hm he hsign (.singleton hd)
    · cases hq
  | power hm he hs hw =>
    simp only [next?] at hq
    split at hq
    next hd =>
      obtain rfl := Option.some.inj hq
      rw [List.append_assoc, List.cons_append, List.append_assoc]
      exact .power hm he hs (hw.snoc hd)
    · cases hq

/-- Digits are read as the number that they write. -/
theorem integer_of_digits {u : List Char} (h : Digits u) : integer u = .int (Nat.ofDigitChars 10 u 0) := by
  have hm : '-' ∉ u := by
    intro hc
    cases h.2 '-' hc
  unfold integer
  split
  · exact absurd List.mem_cons_self hm
  · exact absurd List.mem_cons_self hm
  · rfl

/-- A minus sign negates the number behind it, a zero apart. -/
theorem integer_minus {u : List Char} (h : u ≠ ['0']) : integer ('-' :: u) = .int (-(Nat.ofDigitChars 10 u 0)) := by
  unfold integer
  split
  next hu => exact absurd (List.cons.inj hu).2 h
  next digits _ hu => rw [(List.cons.inj hu).2]
  next hu => exact absurd rfl (hu u)

/-- What may end at a part is a number. -/
theorem NumberPart.Holds.number {p : NumberPart} {u : List Char} {v : Json} (h : p.Holds u) (hv : number? p u = some v) :
    Number u v := by
  cases h with
  | minus | point | exponent | exponentSign => cases hv
  | zero hs =>
    obtain rfl := Option.some.inj hv
    rcases hs with rfl | rfl
    · exact .natural whole_zero
    · exact .minusZero
  | @whole sign u hs hu hz =>
    obtain rfl := Option.some.inj hv
    rcases hs with rfl | rfl
    · rw [List.nil_append, integer_of_digits hu]
      exact .natural (hu.whole hz)
    · have h0 : u ≠ ['0'] := by
        rintro rfl
        exact hz rfl
      rw [List.singleton_append, integer_minus h0]
      exact .negative (hu.whole hz) h0
  | @fraction sign u w hs hu hw =>
    obtain rfl := Option.some.inj hv
    have hn := Number.real hs hu (.some hw) .none (by simp)
    rwa [List.append_nil] at hn
  | @power m sign w e hm he hs hw =>
    obtain rfl := Option.some.inj hv
    obtain ⟨hsign, hu, hf⟩ := hm
    exact .real hsign hu hf (.some he hs hw) (by simp)

/-! ## From the scanner to the grammar -/

/-- The texts that lead the scanner to a state, counted from the start of the token that it is in. -/
inductive Scan.Holds : Scan → List Char → Prop
  | between : Holds .between []
  | name {left u : List Char} {v : Json} : left ≠ [] → (Token.leaf v).Text (u ++ left) → Holds (.name left v) u
  | number {p : NumberPart} {seen u : List Char} : u = seen.reverse → p.Holds u → Holds (.number p seen) u
  | string {seen : List Piece} {w : List Char} : Body w seen.reverse → Holds (.string seen) ('"' :: w)
  | escape {seen : List Piece} {w : List Char} : Body w seen.reverse → Holds (.escape seen) ('"' :: (w ++ ['\\']))
  | unit {seen : List Piece} {w digits : List Char} {left code : Nat} : Body w seen.reverse →
      digits.length + left = 3 → hexNumber? digits = some code →
      Holds (.unit seen left code) ('"' :: (w ++ '\\' :: 'u' :: digits))

/-- A number may begin with a digit. -/
theorem NumberPart.holds_singleton {p : NumberPart} {c : Char} (h : NumberPart.minus.next? c = some p) :
    p.Holds [c] := by
  simp only [next?] at h
  split at h
  next hc =>
    obtain rfl := Option.some.inj h
    exact hc ▸ .zero (.inl rfl)
  next hc =>
    split at h
    next hd =>
      obtain rfl := Option.some.inj h
      exact .whole (.inl rfl) (.singleton hd) fun h0 => hc (Option.some.inj h0)
    · cases h

/-- One more hexadecimal digit makes sixteen times as much and its own value. -/
theorem hexNumber?_snoc {digits : List Char} {c : Char} {n d : Nat} (hn : hexNumber? digits = some n)
    (hd : hexDigit? c = some d) : hexNumber? (digits ++ [c]) = some (16 * n + d) := by
  unfold hexNumber? at hn ⊢
  simp [List.foldlM_append, hn, hd]

variable {s : Scan} {c : Char} {out ts : List Token} {next : Scan} {t u : List Char}

/-- A step from between two tokens: what follows is laid out behind the text that leads to the next state. -/
theorem layout_of_start (h : Scan.start? c = some (out, next))
    (hk : ∀ w, next.Holds w → Layout ts (w ++ t)) : Layout (out ++ ts) (c :: t) := by
  have mark {m : Token} (hm : m.Text [c]) (ho : some ([m], Scan.between) = some (out, next)) :
      Layout (out ++ ts) (c :: t) := by
    obtain ⟨rfl, rfl⟩ := Prod.mk.inj (Option.some.inj ho)
    exact .token hm (hk [] .between)
  have begun {s : Scan} (hs : s.Holds [c]) (ho : some ([], s) = some (out, next)) : Layout (out ++ ts) (c :: t) := by
    obtain ⟨rfl, rfl⟩ := Prod.mk.inj (Option.some.inj ho)
    exact hk [c] hs
  have skipped (hc : c ∈ blanks) (ho : some ([], Scan.between) = some (out, next)) : Layout (out ++ ts) (c :: t) := by
    obtain ⟨rfl, rfl⟩ := Prod.mk.inj (Option.some.inj ho)
    exact .blank hc (hk [] .between)
  unfold Scan.start? at h
  split at h
  · exact skipped (by simp [blanks]) h
  · exact skipped (by simp [blanks]) h
  · exact skipped (by simp [blanks]) h
  · exact skipped (by simp [blanks]) h
  · exact mark .openArray h
  · exact mark .closeArray h
  · exact mark .openObject h
  · exact mark .closeObject h
  · exact mark .comma h
  · exact mark .colon h
  · exact begun (s := .string []) (.string .nil) h
  · exact begun (s := .name ['u', 'l', 'l'] .null) (.name (List.cons_ne_nil _ _) .null) h
  · exact begun (s := .name ['r', 'u', 'e'] (.bool true)) (.name (List.cons_ne_nil _ _) .true) h
  · exact begun (s := .name ['a', 'l', 's', 'e'] (.bool false)) (.name (List.cons_ne_nil _ _) .false) h
  · exact begun (.number rfl .minus) h
  · obtain ⟨p, hp, ho⟩ := Option.map_eq_some_iff.mp h
    exact begun (.number rfl (NumberPart.holds_singleton hp)) (congrArg some ho)

/-- A step of the scanner: the tokens that it completes, and what follows, are laid out in the text seen so far, the
character and the rest. -/
theorem layout_of_step (h : s.step? c = some (out, next)) (hs : s.Holds u)
    (hk : ∀ w, next.Holds w → Layout ts (w ++ t)) : Layout (out ++ ts) (u ++ c :: t) := by
  have goes {s' : Scan} (hs' : s'.Holds (u ++ [c])) (ho : some ([], s') = some (out, next)) :
      Layout (out ++ ts) (u ++ c :: t) := by
    obtain ⟨rfl, rfl⟩ := Prod.mk.inj (Option.some.inj ho)
    have hl := hk _ hs'
    rwa [List.append_assoc] at hl
  have ends {m : Token} (hm : m.Text (u ++ [c])) (ho : some ([m], Scan.between) = some (out, next)) :
      Layout (out ++ ts) (u ++ c :: t) := by
    obtain ⟨rfl, rfl⟩ := Prod.mk.inj (Option.some.inj ho)
    have hl := Layout.token hm (hk [] .between)
    rwa [List.append_assoc] at hl
  cases hs with
  | between => exact layout_of_start h hk
  | @name left u v hn hv =>
    match left, hn with
    | [x], _ =>
      simp only [Scan.step?] at h
      split at h
      next hc => exact ends (hc ▸ hv) h
      · cases h
    | x :: y :: left, _ =>
      simp only [Scan.step?] at h
      split at h
      next hc =>
        subst hc
        refine goes (.name (List.cons_ne_nil _ _) ?_) h
        rwa [List.append_assoc]
      · cases h
  | @number p seen u hu hp =>
    simp only [Scan.step?] at h
    split at h
    next q hq => exact goes (.number (by rw [hu, List.reverse_cons]) (hp.next hq)) h
    next =>
      obtain ⟨v, hv, h⟩ := Option.bind_eq_some_iff.mp h
      obtain ⟨⟨ts', s'⟩, hst, h⟩ := Option.bind_eq_some_iff.mp h
      obtain ⟨rfl, rfl⟩ := Prod.mk.inj (Option.some.inj h)
      exact .token (.number (hp.number (hu ▸ hv))) (layout_of_start hst hk)
  | @string seen w hw =>
    simp only [Scan.step?] at h
    split at h
    next hc =>
      subst hc
      exact ends hw.text h
    next hq =>
      split at h
      next hc =>
        subst hc
        exact goes (.escape hw) h
      next hb =>
        split at h
        · cases h
        next hc =>
          refine goes (.string ?_) h
          rw [List.reverse_cons]
          exact hw.append (.plain hq hb (Nat.le_of_not_lt hc) .nil)
  | @escape seen w hw =>
    simp only [Scan.step?] at h
    split at h
    next hc =>
      subst hc
      refine goes ?_ h
      have hu : Scan.Holds (.unit seen 3 0) ('"' :: (w ++ '\\' :: 'u' :: [])) := .unit hw rfl rfl
      simpa using hu
    next =>
      obtain ⟨d, hd, ho⟩ := Option.map_eq_some_iff.mp h
      have hb : Body (w ++ ['\\', c]) (Piece.char d :: seen).reverse := by
        rw [List.reverse_cons]
        exact hw.append (.letter hd .nil)
      refine goes ?_ (congrArg some ho)
      simpa using Scan.Holds.string hb
  | @unit seen w digits left code hw hl hn =>
    cases left with
    | zero =>
      obtain ⟨d, hd, ho⟩ := Option.map_eq_some_iff.mp h
      have hb : Body (w ++ '\\' :: 'u' :: (digits ++ [c])) (Piece.unit (16 * code + d) :: seen).reverse := by
        have hl' : (digits ++ [c]).length = 4 := by
          rw [List.length_append, List.length_singleton]
          omega
        have hu := Body.unit hl' (hexNumber?_snoc hn hd) .nil
        rw [List.append_nil] at hu
        rw [List.reverse_cons]
        exact hw.append hu
      refine goes ?_ (congrArg some ho)
      simpa using Scan.Holds.string hb
    | succ left =>
      obtain ⟨d, hd, ho⟩ := Option.map_eq_some_iff.mp h
      have hl' : (digits ++ [c]).length + left = 3 := by
        rw [List.length_append, List.length_singleton]
        omega
      refine goes ?_ (congrArg some ho)
      simpa using Scan.Holds.unit hw hl' (hexNumber?_snoc hn hd)

/-- The tokens of a text that the scanner goes through are laid out in it. -/
theorem layout_of_scan (h : s.tokens? t = some ts) (hs : s.Holds u) : Layout ts (u ++ t) := by
  induction t generalizing s u ts with
  | nil =>
    rw [List.append_nil]
    cases hs with
    | between =>
      obtain rfl := Option.some.inj h
      exact .nil
    | number hu hp =>
      obtain ⟨v, hv, rfl⟩ := Option.map_eq_some_iff.mp h
      have hl := Layout.token (.number (hp.number (hu ▸ hv))) .nil
      rwa [List.append_nil] at hl
    | _ => cases h
  | cons c t ih =>
    obtain ⟨⟨out, next⟩, hstep, h⟩ := Option.bind_eq_some_iff.mp h
    obtain ⟨rest, hrest, h⟩ := Option.bind_eq_some_iff.mp h
    obtain rfl := Option.some.inj h
    exact layout_of_step hstep hs fun w hw => ih hrest hw

/-- The tokens of a text are laid out in it. -/
theorem layout_of_tokens? (h : tokens? t = some ts) : Layout ts t := layout_of_scan h .between

end WhereClause.Json
