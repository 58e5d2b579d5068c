import Mathlib.Data.List.MinMax
import WhereClause.Proofs.Json.Reading

/-!
# How deep a text nests

`nesting` counts, character by character, how many arrays and objects a text opens at once; brackets inside a string do
not count. It is the depth of the document that is written so, whatever the layout (`nesting_eq_depth`).
-/

namespace WhereClause.Json

mutual

/-- How many arrays and objects of a document are open at once. -/
def depth : Json → Nat
  | .array items => depthOfItems items + 1
  | .object members => depthOfMembers members + 1
  | .null | .bool _ | .int _ | .real _ | .string _ => 0

/-- The greatest depth of several documents. -/
def depthOfItems : List Json → Nat
  | [] => 0
  | v :: vs => max v.depth (depthOfItems vs)

/-- The greatest depth of the values of several members. -/
def depthOfMembers : List (Option String × Json) → Nat
  | [] => 0
  | (_, v) :: rest => max v.depth (depthOfMembers rest)

end

/-- Where a character of a text stands. -/
inductive Spot where
  | outside | string
  /-- Behind a backslash in a string. -/
  | escape

/-- How many arrays and objects a text opens at once, where `now` are open already. -/
def mostOpen : Spot → Nat → List Char → Nat
  | _, now, [] => now
  | .outside, now, c :: u =>
    if c = '[' ∨ c = '{' then mostOpen .outside (now + 1) u
    else if c = ']' ∨ c = '}' then max now (mostOpen .outside (now - 1) u)
    else if c = '"' then mostOpen .string now u
    else mostOpen .outside now u
  | .string, now, c :: u =>
    if c = '"' then mostOpen .outside now u
    else if c = '\\' then mostOpen .escape now u
    else mostOpen .string now u
  | .escape, now, _ :: u => mostOpen .string now u

/-- How many arrays and objects a text opens at once. -/
def nesting (u : List Char) : Nat := mostOpen .outside 0 u

/-! ## Tokens -/

/-- How many arrays and objects a sequence of tokens opens at once, where `now` are open already. -/
def Token.mostOpen (now : Nat) : List Token → Nat
  | [] => now
  | .openArray :: ts | .openObject :: ts => mostOpen (now + 1) ts
  | .closeArray :: ts | .closeObject :: ts => max now (mostOpen (now - 1) ts)
  | .comma :: ts | .colon :: ts | .leaf _ :: ts | .string _ :: ts => mostOpen now ts

/-- What is open at the beginning counts. -/
theorem Token.le_mostOpen (now : Nat) (ts : List Token) : now ≤ Token.mostOpen now ts := by
  induction ts generalizing now with
  | nil => exact Nat.le_refl _
  | cons t ts ih =>
    cases t with
    | openArray | openObject => exact Nat.le_of_succ_le (ih (now + 1))
    | closeArray | closeObject => exact Nat.le_max_left _ _
    | comma | colon | leaf | string => exact ih now

/-- Tokens that open `n` arrays and objects at once and close them all. -/
def Opens (ts : List Token) (n : Nat) : Prop :=
  ∀ now rest, Token.mostOpen now (ts ++ rest) = max (now + n) (Token.mostOpen now rest)

theorem Opens.nil : Opens [] 0 := by
  intro now rest
  have := Token.le_mostOpen now rest
  rw [List.nil_append]
  omega

/-- What two rows of tokens open is what the deeper one opens, for the first leaves nothing open. -/
theorem Opens.append {ts us : List Token} {n m : Nat} (h : Opens ts n) (h' : Opens us m) :
    Opens (ts ++ us) (max n m) := by
  intro now rest
  rw [List.append_assoc, h, h']
  omega

/-- A token that opens and closes nothing. -/
theorem Opens.cons {t : Token} {ts : List Token} {n : Nat}
    (ht : ∀ now us, Token.mostOpen now (t :: us) = Token.mostOpen now us) (h : Opens ts n) : Opens (t :: ts) n := by
  intro now rest
  rw [List.cons_append, ht, h]

/-- Between a token that opens and one that closes, tokens open one more. -/
theorem Opens.enclosed {o c : Token} {ts : List Token} {n : Nat} (h : Opens ts n)
    (ho : ∀ now us, Token.mostOpen now (o :: us) = Token.mostOpen (now + 1) us)
    (hc : ∀ now us, Token.mostOpen now (c :: us) = max now (Token.mostOpen (now - 1) us)) :
    Opens (o :: (ts ++ [c])) (n + 1) := by
  intro now rest
  rw [List.cons_append, List.append_assoc, List.singleton_append, ho, h (now + 1), hc, Nat.add_sub_cancel]
  omega

/-- Blocks with commas between them open as much as the one that opens most. -/
theorem Opens.intercalate {blocks : List (List Token)} {depths : List Nat} (h : List.Forall₂ Opens blocks depths) :
    Opens ([Token.comma].intercalate blocks) (depths.foldr max 0) := by
  induction h with
  | nil => exact .nil
  | @cons b n blocks depths hb hrest ih =>
    cases hrest with
    | nil =>
      rw [List.intercalate_singleton]
      simpa using hb
    | cons hc hrest =>
      rw [List.intercalate_cons_cons, List.append_assoc]
      exact hb.append (ih.cons fun _ _ => rfl)

theorem depthOfItems_eq_foldr (vs : List Json) : depthOfItems vs = (vs.map depth).foldr max 0 := by
  induction vs with
  | nil => rfl
  | cons v vs ih => rw [depthOfItems, ih, List.map_cons, List.foldr_cons]

theorem depthOfMembers_eq_foldr (ms : List (Option String × Json)) :
    depthOfMembers ms = (ms.map (depth ·.2)).foldr max 0 := by
  induction ms with
  | nil => rfl
  | cons m ms ih => rw [depthOfMembers, ih, List.map_cons, List.foldr_cons]

theorem depth_le_of_mem_items {v : Json} {vs : List Json} (h : v ∈ vs) : v.depth ≤ depthOfItems vs := by
  rw [depthOfItems_eq_foldr]
  exact List.le_max_of_le' 0 (List.mem_map_of_mem h) (Nat.le_refl _)

theorem depth_le_of_mem_members {m : Option String × Json} {ms : List (Option String × Json)} (h : m ∈ ms) :
    m.2.depth ≤ depthOfMembers ms := by
  rw [depthOfMembers_eq_foldr]
  exact List.le_max_of_le' 0 (List.mem_map_of_mem h) (Nat.le_refl _)

/-- The tokens of a document open as many arrays and objects as it is deep. -/
theorem opens_tokens (v : Json) : Opens v.tokens v.depth := by
  have leaf {t : Token} (ht : ∀ now us, Token.mostOpen now (t :: us) = Token.mostOpen now us) : Opens [t] 0 :=
    Opens.nil.cons ht
  induction v using Json.induct with
  | null | bool | int | real | string => exact leaf fun _ _ => rfl
  | array items ih =>
    rw [tokens_array, depth, depthOfItems_eq_foldr]
    refine (Opens.intercalate ?_).enclosed (fun _ _ => rfl) fun _ _ => rfl
    rw [List.forall₂_map_left_iff, List.forall₂_map_right_iff, List.forall₂_same]
    exact ih
  | object members ih =>
    rw [tokens_object, depth, depthOfMembers_eq_foldr]
    refine (Opens.intercalate ?_).enclosed (fun _ _ => rfl) fun _ _ => rfl
    rw [List.forall₂_map_left_iff, List.forall₂_map_right_iff, List.forall₂_same]
    exact fun m hm => ((ih m hm).cons fun _ _ => rfl).cons fun _ _ => rfl

/-! ## Characters -/

/-- A character that neither opens nor closes anything outside a string. -/
def Plain (c : Char) : Prop := c ∉ ['[', '\x7b', ']', '\x7d', '"']

/-- A plain character opens nothing. -/
theorem mostOpen_outside {c : Char} (h : Plain c) (now : Nat) (u : List Char) :
    mostOpen .outside now (c :: u) = mostOpen .outside now u := by
  simp only [Plain, List.mem_cons, List.not_mem_nil, or_false, not_or] at h
  simp [mostOpen, h]

/-- Several plain characters open nothing. -/
theorem mostOpen_plain {u : List Char} (h : ∀ c ∈ u, Plain c) (now : Nat) (w : List Char) :
    mostOpen .outside now (u ++ w) = mostOpen .outside now w := by
  induction u with
  | nil => rfl
  | cons c u ih =>
    rw [List.cons_append, mostOpen_outside (h c List.mem_cons_self), ih fun d hd => h d (List.mem_cons_of_mem _ hd)]

theorem plain_of_digit {c : Char} (h : c.isDigit = true) : Plain c := by
  intro hc
  simp only [List.mem_cons, List.not_mem_nil, or_false] at hc
  rcases hc with rfl | rfl | rfl | rfl | rfl <;> cases h

/-- A number holds no bracket and no quote. -/
theorem Number.plain {u : List Char} {v : Json} (h : Number u v) : ∀ c ∈ u, Plain c := by
  have digits {w : List Char} (hw : Digits w) : ∀ c ∈ w, Plain c := fun c hc => plain_of_digit (hw.2 c hc)
  have one {c : Char} (hc : Plain c) {w : List Char} (hw : ∀ d ∈ w, Plain d) : ∀ d ∈ c :: w, Plain d :=
    List.forall_mem_cons.mpr ⟨hc, hw⟩
  have both {w x : List Char} (hw : ∀ c ∈ w, Plain c) (hx : ∀ c ∈ x, Plain c) : ∀ c ∈ w ++ x, Plain c :=
    List.forall_mem_append.mpr ⟨hw, hx⟩
  cases h with
  | natural hu => exact digits hu.1
  | negative hu _ => exact one (by simp [Plain]) (digits hu.1)
  | minusZero => simp [Plain]
  | real hs hu hf he _ =>
    refine both (both (both ?_ (digits hu.1)) ?_) ?_
    · rcases hs with rfl | rfl <;> simp [Plain]
    · cases hf with
      | none => exact nofun
      | some hd => exact one (by simp [Plain]) (digits hd)
    · cases he with
      | none => exact nofun
      | some hchar hsign hd =>
        refine one ?_ (both ?_ (digits hd))
        · rcases hchar with rfl | rfl <;> simp [Plain]
        · rcases hsign with rfl | rfl | rfl <;> simp [Plain]

/-- Inside a string only a quote and a backslash are looked at. -/
theorem mostOpen_string {c : Char} (hq : c ≠ '"') (hb : c ≠ '\\') (now : Nat) (u : List Char) :
    mostOpen .string now (c :: u) = mostOpen .string now u := by
  simp [mostOpen, hq, hb]

/-- The digits of an escape open nothing. -/
theorem mostOpen_hexDigits {digits : List Char} {code n : Nat}
    (h : digits.foldlM (fun n c => (hexDigit? c).map (16 * n + ·)) code = some n) (now : Nat) (w : List Char) :
    mostOpen .string now (digits ++ w) = mostOpen .string now w := by
  induction digits generalizing code with
  | nil => rfl
  | cons c digits ih =>
    obtain ⟨m, hm, h⟩ := Option.bind_eq_some_iff.mp h
    obtain ⟨d, hd, -⟩ := Option.map_eq_some_iff.mp hm
    have hq : c ≠ '"' := by
      rintro rfl
      cases hd
    have hb : c ≠ '\\' := by
      rintro rfl
      cases hd
    rw [List.cons_append, mostOpen_string hq hb, ih h]

/-- The inside of a string opens and closes nothing, and does not end it. -/
theorem Body.mostOpen {u : List Char} {ps : List Piece} (h : Body u ps) (now : Nat) (w : List Char) :
    Json.mostOpen .string now (u ++ w) = Json.mostOpen .string now w := by
  induction h with
  | nil => rfl
  | plain hq hb _ _ ih => rw [List.cons_append, mostOpen_string hq hb, ih]
  | letter _ _ ih => exact ih
  | @unit n digits u ps _ hn _ ih =>
    have hskip : Json.mostOpen .string now ('\\' :: 'u' :: (digits ++ (u ++ w))) =
        Json.mostOpen .string now (digits ++ (u ++ w)) := rfl
    rw [List.cons_append, List.cons_append, List.append_assoc, hskip, mostOpen_hexDigits hn, ih]

/-- A string opens and closes nothing, from its opening quote to its closing one. -/
theorem mostOpen_quoted {u : List Char} {ps : List Piece} (h : Body u ps) (now : Nat) (w : List Char) :
    mostOpen .outside now ('"' :: (u ++ ['"']) ++ w) = mostOpen .outside now w := by
  have hopen : mostOpen .outside now ('"' :: (u ++ '"' :: w)) = mostOpen .string now (u ++ '"' :: w) := rfl
  rw [List.cons_append, List.append_assoc, List.singleton_append, hopen, h.mostOpen]
  rfl

/-- A text opens as many arrays and objects as the tokens that are laid out in it. -/
theorem Layout.mostOpen {ts : List Token} {u : List Char} (h : Layout ts u) (now : Nat) :
    Json.mostOpen .outside now u = Token.mostOpen now ts := by
  induction h generalizing now with
  | nil => rfl
  | @blank c _ _ hc _ ih =>
    have hplain : ∀ c ∈ blanks, Plain c := by simp [blanks, Plain]
    rw [mostOpen_outside (hplain c hc), ih]
  | @token t ts _ w hu _ ih =>
    cases hu with
    | openArray | openObject => exact ih (now + 1)
    | closeArray | closeObject => exact congrArg (max now) (ih (now - 1))
    | comma | colon | null | true | false => exact ih now
    | number hn => exact (mostOpen_plain hn.plain now w).trans (ih now)
    | string hb _ => exact (mostOpen_quoted hb now w).trans (ih now)
    | unpaired hb _ => exact (mostOpen_quoted hb now w).trans (ih now)

/-- A text nests as deep as the document that is written so. -/
theorem nesting_eq_depth {v : Json} {u : List Char} (h : v.WrittenAs u) : nesting u = v.depth := by
  have ho := opens_tokens v 0 []
  rw [List.append_nil] at ho
  rw [nesting, Layout.mostOpen h, ho]
  simp [Token.mostOpen]

example : nesting "\x7b\"[[\":[[],[]]\x7d".toList = 3 := by rfl

end WhereClause.Json
