import WhereClause.Proofs.Encoding

/-!
# Storing filters

A filter that has been decoded is stored as its encoded text, in which every call gives its arguments, even where there
are none. So a call that left them out may open one array more than it did (`Expr.depth_document_le`), and a filter that
was just within the nesting limit may be too deep when it is decoded again. All other filters are decoded as they were
(`stored_filter_is_decoded_again`).
-/

namespace WhereClause

open Json

/-- Every call that is read in a document gives its arguments. -/
inductive Json.GivesArgs : Json → Prop
  | ident (v : Json) : GivesArgs (said "ident" v)
  | const (v : Json) : GivesArgs (said "const" v)
  | list {items : List Json} : (∀ v ∈ items, GivesArgs v) → GivesArgs (said "list" (.array items))
  | call {members : List (Option String × Json)} {items : List Json} : valuesAt "args" members = [.array items] →
      (∀ v ∈ valuesAt "target" members, v ≠ .null → GivesArgs v) → (∀ v ∈ items, GivesArgs v) →
      GivesArgs (said "call" (.object members))
  | row {symbol target : Json} {items : List Json} : (target ≠ .null → GivesArgs target) →
      (∀ v ∈ items, GivesArgs v) → GivesArgs (said "call" (.array [symbol, target, .array items]))

namespace Json

variable {members : List (Option String × Json)} {items : List Json}

/-- A list gives all arguments if its items do. -/
theorem givesArgs_list_iff : (said "list" (.array items)).GivesArgs ↔ ∀ v ∈ items, v.GivesArgs := by
  constructor
  · intro h
    generalize hk : "list" = k at h
    cases h with
    | list h => exact h
    | ident | const | row => simp at hk
  · exact .list

/-- A call that is an object gives all arguments if it has its own, and its operands give theirs. -/
theorem givesArgs_object_iff : (said "call" (.object members)).GivesArgs ↔ ∃ items,
    valuesAt "args" members = [.array items] ∧ (∀ v ∈ valuesAt "target" members, v ≠ .null → v.GivesArgs) ∧
      ∀ v ∈ items, v.GivesArgs := by
  constructor
  · intro h
    generalize hk : "call" = k at h
    cases h with
    | call ha ht hitems => exact ⟨_, ha, ht, hitems⟩
    | ident | const => simp at hk
  · rintro ⟨items, ha, ht, hitems⟩
    exact .call ha ht hitems

/-- A call that is an array gives all arguments if it has three items, and its operands give theirs. -/
theorem givesArgs_row_iff : (said "call" (.array items)).GivesArgs ↔ ∃ symbol target args,
    items = [symbol, target, .array args] ∧ (target ≠ .null → target.GivesArgs) ∧ ∀ v ∈ args, v.GivesArgs := by
  constructor
  · intro h
    generalize hk : "call" = k at h
    cases h with
    | row ht hitems => exact ⟨_, _, _, rfl, ht, hitems⟩
    | ident | const | list => simp at hk
  · rintro ⟨symbol, target, args, rfl, ht, hitems⟩
    exact .row ht hitems

end Json

namespace Expr

/-! ## Depth -/

/-- The document of a call opens an object and its arguments one array more. -/
theorem depth_document_call (symbol : String) (receiver : Option Expr) (args : List Expr) :
    (call symbol receiver args).document.depth =
      max ((receiver.map fun r => r.document.depth).getD 0) (depthOfItems (documents args) + 1) + 2 := by
  cases receiver <;> simp [document, depth, depthOfMembers]

mutual

/-- What is read from a document is written at most one array deeper than it is read, and no deeper if every call of
the document gives its arguments. -/
theorem depth_document_le {slack : Nat} {v : Json} {e : Expr} {d : Nat} :
    v.Denotes e d → 1 ≤ slack ∨ v.GivesArgs → e.document.depth ≤ d + slack
  | .ident _, _ => by
    rw [document, depth_said, depth]
    omega
  | .bool _, _ | .string _, _ | .int _ _ _, _ => by
    rw [document, depth_said, depth_literal]
    omega
  | .list h, hs => by
    rw [givesArgs_list_iff] at hs
    have := depth_documents_le h hs
    rw [document, depth_said, depth]
    omega
  | .call _ _ ht ha, hs => by
    rw [givesArgs_object_iff] at hs
    have ht := depth_receiver_le ht (hs.imp_right fun ⟨_, _, h, _⟩ => h)
    have ha := depth_args_le ha (hs.imp_right fun ⟨items, ha, _, h⟩ => ⟨items, ha, h⟩)
    rw [depth_document_call]
    omega
  | @Denotes.row target rest symbol _ _ _ _ ht ha hr, hs => by
    rw [givesArgs_row_iff] at hs
    have hs : 1 ≤ slack ∨ (∀ v ∈ target, v ≠ .null → v.GivesArgs) ∧ ∃ items, rest = [.array items] ∧
        ∀ v ∈ items, v.GivesArgs := by
      refine hs.imp_right ?_
      rintro ⟨_, v, items, hv, hg, hitems⟩
      rcases receives_cases ht with ⟨rfl, -⟩ | ⟨w, rfl⟩
      · rw [hr rfl] at hv
        cases hv
      · cases hv
        exact ⟨fun v hv => List.mem_singleton.mp hv ▸ hg, items, rfl, hitems⟩
    have ht := depth_receiver_le ht (hs.imp_right And.left)
    have ha := depth_args_le ha (hs.imp_right And.right)
    rw [depth_document_call]
    omega

theorem depth_documents_le {slack : Nat} {vs : List Json} {es : List Expr} {d : Nat} :
    DenotesAll vs es d → (1 ≤ slack ∨ ∀ v ∈ vs, v.GivesArgs) → depthOfItems (documents es) ≤ d + slack
  | .nil, _ => Nat.zero_le _
  | .cons h hrest, hs => by
    have := depth_document_le h (hs.imp_right fun hs => hs _ List.mem_cons_self)
    have := depth_documents_le hrest (hs.imp_right fun hs v hv => hs v (List.mem_cons_of_mem _ hv))
    rw [documents, depthOfItems]
    omega

/-- The same for a receiver, which may be left out. -/
theorem depth_receiver_le {slack : Nat} {vs : List Json} {receiver : Option Expr} {d : Nat} :
    Receives vs receiver d → (1 ≤ slack ∨ ∀ v ∈ vs, v ≠ .null → v.GivesArgs) →
      (receiver.map fun r => r.document.depth).getD 0 ≤ d + slack
  | .absent, _ | .null, _ => Nat.zero_le _
  | .given h, hs => depth_document_le h <| hs.imp_right fun hs =>
      hs _ List.mem_cons_self fun hn => not_denotes_null (hn ▸ h)

/-- The same for arguments, whose array is always written. -/
theorem depth_args_le {slack : Nat} {vs : List Json} {args : List Expr} {d : Nat} :
    Supplies vs args d → (1 ≤ slack ∨ ∃ items, vs = [.array items] ∧ ∀ v ∈ items, v.GivesArgs) →
      depthOfItems (documents args) + 1 ≤ d + slack
  | .absent, hs => by
    rcases hs with hs | ⟨items, hv, -⟩
    -- The one place where the text that is stored opens an array which the other did not.
    · rw [documents, depthOfItems]
      omega
    · cases hv
  | .given h, hs => by
    have := depth_documents_le h (hs.imp_right fun ⟨items, hv, hs⟩ => by
      cases hv
      exact hs)
    omega

end

/-- The encoded text of an expression is decoded as this expression alone, if it keeps the limit. -/
theorem decode?_encode_eq_some_iff {e e' : Expr} :
    decode? e.encode = some e' ↔ e' = e ∧ nesting e.encode.toList ≤ nestingLimit := by
  have hwritten := writtenAs_encode e
  rw [decode?_of_writtenAs hwritten, nesting_eq_depth hwritten, ofJsonWithin?_eq_some_iff]
  simp only [denotes_document_iff]
  constructor
  · rintro ⟨d, hd, rfl, rfl⟩
    exact ⟨rfl, hd⟩
  · rintro ⟨rfl, hd⟩
    exact ⟨_, hd, rfl, rfl⟩

end Expr

/-- A filter that has been decoded from a text is stored as its encoded text, which opens at most one array or object
more at once than may be open. If it opens no more than that, it is decoded as the same filter, which is stored as the
same text again; otherwise it is not decoded. It is decoded if the first text is not as deep as may be, or gives the
arguments of all its calls. -/
theorem stored_filter_is_decoded_again {text : String} {e : Expr} (h : Expr.decode? text = some e) :
    nesting e.encode.toList ≤ nestingLimit + 1 ∧
    (Expr.decode? e.encode = some e ↔ nesting e.encode.toList ≤ nestingLimit) ∧
    (∀ e', Expr.decode? e.encode = some e' → e' = e ∧ e'.encode = e.encode) ∧
    (nesting text.toList < nestingLimit → Expr.decode? e.encode = some e) ∧
    ∀ v : Json, v.WrittenAs text.toList → v.GivesArgs → Expr.decode? e.encode = some e := by
  obtain ⟨v, hv, he⟩ := Option.bind_eq_some_iff.mp h
  have hv : v.WrittenAs text.toList := ofText?_eq_some_iff.mp hv
  obtain ⟨d, hd, he⟩ := (Expr.ofJsonWithin?_eq_some_iff v nestingLimit e).mp he
  have hwritten := Expr.writtenAs_encode e
  have again : Expr.decode? e.encode = some e ↔ nesting e.encode.toList ≤ nestingLimit := by
    rw [Expr.decode?_encode_eq_some_iff]
    exact and_iff_right rfl
  have deeper (slack : Nat) (hs : 1 ≤ slack ∨ v.GivesArgs) : nesting e.encode.toList ≤ d + slack := by
    rw [nesting_eq_depth hwritten]
    exact Expr.depth_document_le he hs
  refine ⟨?_, again, fun e' he' => ?_, fun ht => again.mpr ?_, fun w hw hg => again.mpr ?_⟩
  · have := deeper 1 (.inl (Nat.le_refl 1))
    omega
  · obtain ⟨rfl, -⟩ := Expr.decode?_encode_eq_some_iff.mp he'
    exact ⟨rfl, rfl⟩
  · rw [nesting_eq_depth hv] at ht
    have := deeper 1 (.inl (Nat.le_refl 1))
    have := Expr.le_depth_of_denotes he
    omega
  · have hw := ofText?_eq_some_iff.mpr hw
    rw [ofText?_eq_some_iff.mpr hv] at hw
    cases hw
    have := deeper 0 (.inr hg)
    omega

/-- `size(tags) > -1`, with a call put down as an array, its arguments left out, and members in another order than they
are stored in. -/
theorem stored_filter_is_decoded_again_size :
    let text := "\x7b\"call\":\x7b\"note\":[[]],\"target\":null,\"args\":[\x7b\"call\":[\"size\"," ++
      "\x7b\"ident\":\"tags\"\x7d]\x7d,\x7b\"const\":-1\x7d],\"function\":\"_>_\"\x7d\x7d"
    let e : Expr := .call "_>_" none [.call "size" (some (.ident "tags")) [], .const (.int (-1))]
    Expr.decode? text = some e ∧
      e.encode = "\x7b\"call\":\x7b\"function\":\"_>_\",\"args\":[\x7b\"call\":\x7b\"function\":\"size\"," ++
        "\"target\":\x7b\"ident\":\"tags\"\x7d,\"args\":[]\x7d\x7d,\x7b\"const\":-1\x7d]\x7d\x7d" ∧
      Expr.decode? e.encode = some e := by
  intro text e
  have h : Expr.decode? text = some e := by decide +kernel
  obtain ⟨-, -, -, shallow, -⟩ := stored_filter_is_decoded_again h
  exact ⟨h, by decide +kernel, shallow (by decide +kernel)⟩

/-! ## As deep as may be -/

/-- An expression within `n` lists. -/
def Expr.inLists : Nat → Expr → Expr
  | 0, e => e
  | n + 1, e => .list [e.inLists n]

/-- The text of an expression within `n` lists, from the text of the expression. -/
def textInLists : Nat → String → String
  | 0, text => text
  | n + 1, text => compactObject [("list", compactArray [textInLists n text])]

/-- A text of an expression within lists is decoded as long as there is room for the lists too. -/
theorem decode?_textInLists {text : String} {v : Json} {e : Expr} {d n : Nat} (hv : v.WrittenAs text.toList)
    (he : v.Denotes e d) (hn : d + 2 * n ≤ nestingLimit) :
    Expr.decode? (textInLists n text) = some (e.inLists n) := by
  have enclosed (n : Nat) : ∃ w : Json, w.WrittenAs (textInLists n text).toList ∧
      w.Denotes (e.inLists n) (d + 2 * n) := by
    induction n with
    | zero => exact ⟨v, hv, he⟩
    | succ n ih =>
      obtain ⟨w, hw, hd⟩ := ih
      refine ⟨said "list" (.array [w]), Expr.writtenAs_said (.array (.cons hw .nil)), ?_⟩
      have hlist := Denotes.list (.cons hd .nil)
      rwa [Nat.max_zero, Nat.add_assoc] at hlist
  obtain ⟨w, hw, hd⟩ := enclosed n
  rw [Expr.decode?_of_writtenAs hw, Expr.ofJsonWithin?_eq_some_iff]
  exact ⟨_, hn, hd⟩

/-- A list around a document adds two levels. -/
theorem depth_document_inLists (n : Nat) (e : Expr) : (e.inLists n).document.depth = e.document.depth + 2 * n := by
  induction n with
  | zero => rfl
  | succ n ih =>
    rw [Expr.inLists, Expr.document, Expr.depth_said, depth, Expr.documents, Expr.documents, depthOfItems, depthOfItems,
      ih, Nat.max_zero]
    omega

/-- A call without arguments among the arguments of another, as deep as may be: with an array of no arguments, it is too
deep. -/
theorem left_out_arguments_are_too_deep :
    let source := "\x7b\"call\":\x7b\"function\":\"f\",\"args\":[\x7b\"call\":\x7b\"function\":\"f\"\x7d\x7d]\x7d\x7d"
    let e : Expr := .inLists 61 (.call "f" none [.call "f" none []])
    Expr.decode? (textInLists 61 source) = some e ∧ Expr.decode? e.encode = none := by
  intro source e
  let inner : Json := said "call" (.object [(some "function", .string (some "f"))])
  let outer : Json := said "call" (.object [(some "function", .string (some "f")), (some "args", .array [inner])])
  have hinner : inner.Denotes (.call "f" none []) 2 :=
    Expr.denotes_object_iff.mpr ⟨"f", none, [], 0, 0, by simp, rfl, .absent, .absent, rfl, rfl⟩
  have houter : outer.Denotes (.call "f" none [.call "f" none []]) 5 :=
    Expr.denotes_object_iff.mpr ⟨"f", none, _, 0, 3, by simp, rfl, .absent, .given (.cons hinner .nil), rfl, rfl⟩
  have hwritten : outer.WrittenAs source.toList := ofText?_eq_some_iff.mp (by simp only [source, outer, inner]; rfl)
  refine ⟨decode?_textInLists hwritten houter (by decide), ?_⟩
  rw [Option.eq_none_iff_forall_ne_some]
  intro e' he'
  have hdeep := (Expr.decode?_encode_eq_some_iff.mp he').2
  rw [nesting_eq_depth (Expr.writtenAs_encode e), depth_document_inLists] at hdeep
  revert hdeep
  decide

end WhereClause
