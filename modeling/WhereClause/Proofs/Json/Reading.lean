import WhereClause.Json.Reader
import WhereClause.Proofs.Json.Scanning

/-!
# A text is read as the document that it is written for

The reader accepts exactly the texts in which a document may be written (`ofText?_eq_some_iff`), so a text is read as at
most one document and in every layout of it. For the builder, `Builder.consumed` says which tokens have brought it to a
state; each step adds its token to them. In the other direction a builder that waits for a value takes all tokens of a
document and goes on with the document behind it.
-/

namespace WhereClause.Json

theorem sizeOf_lt_of_mem_items {v : Json} {items : List Json} (h : v ∈ items) : sizeOf v < sizeOf (array items) := by
  have := List.sizeOf_lt_of_mem h
  simp only [array.sizeOf_spec]
  omega

theorem sizeOf_lt_of_mem_members {m : Option String × Json} {members : List (Option String × Json)} (h : m ∈ members) :
    sizeOf m.2 < sizeOf (object members) := by
  have := List.sizeOf_lt_of_mem h
  obtain ⟨key, v⟩ := m
  simp only [object.sizeOf_spec, Prod.mk.sizeOf_spec] at this ⊢
  omega

/-- Induction on a document, with the hypothesis for each item of an array and for the value of each member. -/
theorem induct {motive : Json → Prop} (null : motive .null) (bool : ∀ b, motive (.bool b)) (int : ∀ n, motive (.int n))
    (real : ∀ s, motive (.real s)) (string : ∀ t, motive (.string t))
    (array : ∀ items, (∀ v ∈ items, motive v) → motive (.array items))
    (object : ∀ members, (∀ m ∈ members, motive m.2) → motive (.object members)) (v : Json) : motive v := by
  induction hn : sizeOf v using Nat.strong_induction_on generalizing v with
  | _ n ih =>
    subst hn
    cases v with
    | null => exact null
    | bool b => exact bool b
    | int n => exact int n
    | real s => exact real s
    | string t => exact string t
    | array items => exact array items fun v hv => ih _ (sizeOf_lt_of_mem_items hv) v rfl
    | object members => exact object members fun m hm => ih _ (sizeOf_lt_of_mem_members hm) m.2 rfl

/-! ## The tokens of a document -/

theorem tokens_array (items : List Json) :
    tokens (.array items) = .openArray :: ([Token.comma].intercalate (items.map tokens) ++ [.closeArray]) := by
  rw [tokens, tokensOfItems_eq_map]

/-- The tokens of a member of an object. -/
def memberTokens (m : Option String × Json) : List Token := .string m.1 :: .colon :: m.2.tokens

theorem tokens_object (members : List (Option String × Json)) :
    tokens (.object members) =
      .openObject :: ([Token.comma].intercalate (members.map memberTokens) ++ [.closeObject]) := by
  rw [tokens, tokensOfMembers_eq_map]
  rfl

/-- A leaf does not follow another. -/
def Apart (s t : Token) : Prop := s.isLeaf = true → t.isLeaf = false

/-- A mark between two rows of tokens keeps their leaves apart. -/
theorem isChain_append_mark {ts us : List Token} {m : Token} (ht : ts.IsChain Apart) (hm : m.isLeaf = false)
    (hu : us.IsChain Apart) : (ts ++ m :: us).IsChain Apart := by
  have hmark : (m :: us).IsChain Apart := by
    refine hu.cons fun t _ hl => ?_
    rw [hm] at hl
    cases hl
  refine ht.append hmark fun s _ t htm _ => ?_
  obtain rfl := Option.some.inj htm
  exact hm

theorem isChain_intercalate {blocks : List (List Token)} (h : ∀ b ∈ blocks, b.IsChain Apart) :
    ([Token.comma].intercalate blocks).IsChain Apart := by
  induction blocks with
  | nil => exact .nil
  | cons b blocks ih =>
    have hb := h b List.mem_cons_self
    have hrest := ih fun c hc => h c (List.mem_cons_of_mem _ hc)
    cases blocks with
    | nil => rwa [List.intercalate_singleton]
    | cons c blocks =>
      rw [List.intercalate_cons_cons, List.append_assoc]
      exact isChain_append_mark hb rfl hrest

/-- Between two leaves of a document stands a mark. -/
theorem isChain_tokens (v : Json) : v.tokens.IsChain Apart := by
  have closed {o c : Token} {blocks : List (List Token)} (ho : o.isLeaf = false) (hc : c.isLeaf = false)
      (h : ∀ b ∈ blocks, b.IsChain Apart) : (o :: ([Token.comma].intercalate blocks ++ [c])).IsChain Apart :=
    isChain_append_mark List.isChain_nil ho (isChain_append_mark (isChain_intercalate h) hc .nil)
  induction v using Json.induct with
  | null | bool | int | real | string => exact .singleton _
  | array items ih =>
    rw [tokens_array]
    refine closed rfl rfl fun b hb => ?_
    obtain ⟨v, hv, rfl⟩ := List.mem_map.mp hb
    exact ih v hv
  | object members ih =>
    rw [tokens_object]
    refine closed rfl rfl fun b hb => ?_
    obtain ⟨m, hm, rfl⟩ := List.mem_map.mp hb
    exact isChain_append_mark (.singleton _) rfl (ih m hm)

/-! ## What has brought the builder to a state -/

/-- One more block goes behind the others, each of which then has its comma. -/
theorem intercalate_snoc (blocks : List (List Token)) (b : List Token) :
    [Token.comma].intercalate (blocks ++ [b]) = blocks.flatMap (· ++ [.comma]) ++ b := by
  induction blocks with
  | nil => exact List.intercalate_singleton
  | cons c blocks ih =>
    rw [List.cons_append, List.intercalate_cons_of_ne_nil (by simp), ih, List.flatMap_cons]
    simp only [List.append_assoc]

/-- Several blocks begin with the first one. -/
theorem exists_intercalate_cons (b : List Token) (blocks : List (List Token)) :
    ∃ rest, [Token.comma].intercalate (b :: blocks) = b ++ rest := by
  cases blocks with
  | nil => exact ⟨[], by rw [List.intercalate_singleton, List.append_nil]⟩
  | cons c blocks => exact ⟨_, by rw [List.intercalate_cons_cons, List.append_assoc]⟩

/-- The tokens of an array or object that is still open, up to where its next value is due. -/
def Frame.tokens : Frame → List Token
  | .items done => .openArray :: (done.reverse.map Json.tokens).flatMap (· ++ [.comma])
  | .member done key => .openObject :: ((done.reverse.map memberTokens).flatMap (· ++ [.comma]) ++ [.string key, .colon])

/-- The tokens of all that is open, the outermost first. -/
def stackTokens (stack : List Frame) : List Token := stack.reverse.flatMap Frame.tokens

/-- The innermost frame was opened last. -/
theorem stackTokens_cons (f : Frame) (stack : List Frame) : stackTokens (f :: stack) = stackTokens stack ++ f.tokens := by
  simp [stackTokens]

/-- A token that some text has. -/
def Token.Spelled (t : Token) : Prop := ∃ u, t.Text u

/-- A token that is laid out has a text. -/
theorem Layout.spelled {ts : List Token} {u : List Char} (h : Layout ts u) : ∀ t ∈ ts, t.Spelled := by
  induction h with
  | nil => exact fun _ ht => nomatch ht
  | blank _ _ ih => exact ih
  | token hu _ ih =>
    intro t ht
    rcases List.mem_cons.mp ht with rfl | ht
    · exact ⟨_, hu⟩
    · exact ih t ht

/-- A leaf that some text has is a document of one token. -/
theorem Token.Spelled.tokens_leaf {v : Json} (h : (Token.leaf v).Spelled) : v.tokens = [.leaf v] := by
  obtain ⟨u, hu⟩ := h
  cases hu with
  | null | true | false => rfl
  | number hn => cases hn <;> rfl

namespace Builder

/-- The tokens that bring the builder to a state. -/
def consumed : Builder → List Token
  | .value stack => stackTokens stack
  | .firstItem stack => stackTokens stack ++ [.openArray]
  | .firstKey stack => stackTokens stack ++ [.openObject]
  | .key stack done => stackTokens stack ++ .openObject :: (done.reverse.map memberTokens).flatMap (· ++ [.comma])
  | .colon stack done k =>
    stackTokens stack ++ .openObject :: ((done.reverse.map memberTokens).flatMap (· ++ [.comma]) ++ [.string k])
  | .after stack v => stackTokens stack ++ v.tokens

/-- A value that is taken is consumed behind what was consumed before it. -/
theorem consumed_value? {stack : List Frame} {t : Token} {b : Builder} (h : value? stack t = some b)
    (ht : t.Spelled) : b.consumed = stackTokens stack ++ [t] := by
  cases t with
  | leaf v =>
    obtain rfl := Option.some.inj h
    rw [consumed, ht.tokens_leaf]
  | openArray | openObject =>
    obtain rfl := Option.some.inj h
    rw [consumed]
  | string text =>
    obtain rfl := Option.some.inj h
    rw [consumed, Json.tokens]
  | closeArray | closeObject | comma | colon => cases h

/-- A step adds its token to what has been consumed. -/
theorem consumed_step? {b next : Builder} {t : Token} (h : b.step? t = some next) (ht : t.Spelled) :
    next.consumed = b.consumed ++ [t] := by
  unfold step? at h
  split at h
  next => exact consumed_value? h ht
  next =>
    obtain rfl := Option.some.inj h
    simp [consumed, tokens_array]
  next =>
    rw [consumed_value? h ht, stackTokens_cons]
    rfl
  next =>
    obtain rfl := Option.some.inj h
    simp [consumed, tokens_object]
  next =>
    obtain rfl := Option.some.inj h
    simp [consumed]
  next =>
    obtain rfl := Option.some.inj h
    simp [consumed]
  next =>
    obtain rfl := Option.some.inj h
    simp [consumed, stackTokens_cons, Frame.tokens]
  next =>
    obtain rfl := Option.some.inj h
    simp [consumed, stackTokens_cons, Frame.tokens]
  next =>
    obtain rfl := Option.some.inj h
    simp [consumed, stackTokens_cons, Frame.tokens, tokens_array, intercalate_snoc]
  next =>
    obtain rfl := Option.some.inj h
    simp [consumed, stackTokens_cons, Frame.tokens, memberTokens]
  next =>
    obtain rfl := Option.some.inj h
    simp [consumed, stackTokens_cons, Frame.tokens, tokens_object, intercalate_snoc, memberTokens]
  next => cases h

/-- The tokens before and behind a state of the builder are those of the document that it completes. -/
theorem tokens_of_read? {b : Builder} {ts : List Token} {v : Json} (h : b.read? ts = some v)
    (ht : ∀ t ∈ ts, t.Spelled) : v.tokens = b.consumed ++ ts := by
  induction ts generalizing b with
  | nil =>
    unfold read? at h
    split at h
    next =>
      obtain rfl := Option.some.inj h
      simp [consumed, stackTokens]
    next => cases h
    next hn => cases hn
  | cons t ts ih =>
    simp only [read?] at h
    obtain ⟨next, hs, hr⟩ := Option.bind_eq_some_iff.mp h
    rw [ih hr fun s hm => ht s (List.mem_cons_of_mem _ hm), consumed_step? hs (ht t List.mem_cons_self),
      List.append_assoc, List.singleton_append]

/-! ## From the grammar to the builder -/

/-- The builder takes all tokens of the document and goes on behind it. -/
def Takes (v : Json) : Prop :=
  ∀ stack ts, (Builder.value stack).read? (v.tokens ++ ts) = (Builder.after stack v).read? ts

/-- No document starts with the end of an array. -/
theorem read?_firstItem (v : Json) (stack : List Frame) (ts : List Token) :
    (Builder.firstItem stack).read? (v.tokens ++ ts) = (Builder.value (.items [] :: stack)).read? (v.tokens ++ ts) := by
  cases v <;> rfl

/-- The items of an array from the next one on, and its end. -/
theorem read?_items {v : Json} {vs : List Json} (hv : Takes v) (hvs : ∀ w ∈ vs, Takes w) (stack : List Frame)
    (done : List Json) (ts : List Token) :
    (Builder.value (.items done :: stack)).read? ([Token.comma].intercalate ((v :: vs).map tokens) ++ .closeArray :: ts) =
      (Builder.after stack (.array (done.reverse ++ v :: vs))).read? ts := by
  induction vs generalizing v done with
  | nil =>
    rw [List.map_singleton, List.intercalate_singleton, hv]
    simp [read?, step?]
  | cons w vs ih =>
    have hnext := ih (hvs w List.mem_cons_self) (fun x hx => hvs x (List.mem_cons_of_mem _ hx)) (v :: done)
    rw [List.map_cons, List.map_cons, List.intercalate_cons_cons, List.append_assoc, List.append_assoc, hv]
    simpa [read?, step?] using hnext

/-- The members of an object from the value of the next one on, and its end. -/
theorem read?_members {m : Option String × Json} {ms : List (Option String × Json)} (hm : Takes m.2)
    (hms : ∀ n ∈ ms, Takes n.2) (stack : List Frame) (done : List (Option String × Json)) (ts : List Token) :
    (Builder.key stack done).read? ([Token.comma].intercalate ((m :: ms).map memberTokens) ++ .closeObject :: ts) =
      (Builder.after stack (.object (done.reverse ++ m :: ms))).read? ts := by
  induction ms generalizing m done with
  | nil =>
    rw [List.map_singleton, List.intercalate_singleton, memberTokens]
    simp only [List.cons_append, read?, step?, Option.bind_some]
    rw [hm]
    simp [read?, step?]
  | cons n ms ih =>
    have hnext := ih (hms n List.mem_cons_self) (fun x hx => hms x (List.mem_cons_of_mem _ hx)) (m :: done)
    rw [List.map_cons, List.map_cons, List.intercalate_cons_cons, List.append_assoc, List.append_assoc, memberTokens]
    simp only [List.cons_append, read?, step?, Option.bind_some]
    rw [hm]
    simpa [read?, step?] using hnext

/-- Every document is taken, whatever is open around it. -/
theorem takes (v : Json) : Takes v := by
  induction v using Json.induct with
  | null | bool | int | real | string => exact fun _ _ => rfl
  | array items ih =>
    intro stack ts
    rw [tokens_array]
    cases items with
    | nil => rfl
    | cons v vs =>
      have hitems := read?_items (ih v List.mem_cons_self) (fun w hw => ih w (List.mem_cons_of_mem _ hw)) stack [] ts
      obtain ⟨rest, hrest⟩ := exists_intercalate_cons v.tokens (vs.map tokens)
      rw [List.map_cons, hrest, List.append_assoc, ← read?_firstItem] at hitems
      rw [List.map_cons, hrest]
      simpa [read?, step?, value?] using hitems
  | object members ih =>
    intro stack ts
    rw [tokens_object]
    cases members with
    | nil => rfl
    | cons m ms =>
      have hmembers := read?_members (ih m List.mem_cons_self) (fun n hn => ih n (List.mem_cons_of_mem _ hn)) stack [] ts
      obtain ⟨rest, hrest⟩ := exists_intercalate_cons (memberTokens m) (ms.map memberTokens)
      rw [List.map_cons, hrest, memberTokens] at hmembers
      rw [List.map_cons, hrest, memberTokens]
      simpa [read?, step?, value?] using hmembers

end Builder

/-- A text is read as a document exactly if the document may be written so. -/
theorem ofText?_eq_some_iff {text : String} {v : Json} : ofText? text = some v ↔ v.WrittenAs text.toList := by
  constructor
  · intro h
    obtain ⟨ts, hts, hv⟩ := Option.bind_eq_some_iff.mp h
    have hl := layout_of_tokens? hts
    have htokens := Builder.tokens_of_read? hv hl.spelled
    rwa [WrittenAs, htokens]
  · intro h
    have hts := tokens?_of_layout h (isChain_tokens v)
    have hv := Builder.takes v [] []
    rw [List.append_nil] at hv
    rw [ofText?, hts]
    exact hv

end WhereClause.Json
