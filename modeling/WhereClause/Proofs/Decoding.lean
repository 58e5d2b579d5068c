import WhereClause.Proofs.Expr.Denoted
import WhereClause.Proofs.Json.Nesting

/-!
# What the decoder accepts

The decoder accepts exactly the texts of the documents that denote an expression within the nesting limit, in every
layout, and gives the expression that is denoted (`decoding_is_exact`). Documents that differ only in how their calls
are put down denote the same (`Expr.agree_of_alike`), and at the same depth, an empty array of arguments apart.
-/

namespace WhereClause

open Json

/-- Documents that differ only in how their calls are put down: in the order of their members, in members that have no
meaning, in whether a target that is absent is given as null, and in being objects or arrays. If they are also `loosely`
alike, they may differ in whether an empty array of arguments is given; it counts as one array more that is open. -/
inductive Json.Alike (loosely : Bool) : Json → Json → Prop
  | refl (v : Json) : Alike loosely v v
  | symm {v w : Json} : Alike loosely v w → Alike loosely w v
  | trans {v w x : Json} : Alike loosely v w → Alike loosely w x → Alike loosely v x
  | item {before after : List Json} {v w : Json} : Alike loosely v w →
      Alike loosely (said "list" (.array (before ++ v :: after))) (said "list" (.array (before ++ w :: after)))
  | target {members : List (Option String × Json)} {v w : Json} : Alike loosely v w →
      Alike loosely (said "call" (.object ((some "target", v) :: members)))
        (said "call" (.object ((some "target", w) :: members)))
  | arg {members : List (Option String × Json)} {before after : List Json} {v w : Json} : Alike loosely v w →
      Alike loosely (said "call" (.object ((some "args", .array (before ++ v :: after)) :: members)))
        (said "call" (.object ((some "args", .array (before ++ w :: after)) :: members)))
  | order {members members' : List (Option String × Json)} : members.Perm members' →
      Alike loosely (said "call" (.object members)) (said "call" (.object members'))
  | unknown {members : List (Option String × Json)} {key : String} (v : Json) : key ≠ "function" → key ≠ "target" →
      key ≠ "args" →
      Alike loosely (said "call" (.object members)) (said "call" (.object ((some key, v) :: members)))
  | noTarget {members : List (Option String × Json)} : valuesAt "target" members = [] →
      Alike loosely (said "call" (.object members)) (said "call" (.object ((some "target", .null) :: members)))
  | noArgs {members : List (Option String × Json)} : loosely = true → valuesAt "args" members = [] →
      Alike loosely (said "call" (.object members)) (said "call" (.object ((some "args", .array []) :: members)))
  | row {items : List Json} : items.length ≤ 3 →
      Alike loosely (said "call" (.array items))
        (said "call" (.object ([some "function", some "target", some "args"].zip items)))

namespace Expr

/-! ## What alike documents denote -/

/-- Whatever has the first property at some depth has the second one, and at that depth unless this is said loosely. -/
def Carries {α : Type} (loosely : Bool) (P Q : α → Nat → Prop) : Prop :=
  ∀ x d, P x d → ∃ d', Q x d' ∧ (loosely = false → d' = d)

/-- The same has the two properties, and at the same depths unless this is said loosely. -/
def Agree {α : Type} (loosely : Bool) (P Q : α → Nat → Prop) : Prop := Carries loosely P Q ∧ Carries loosely Q P

variable {α : Type} {P Q R : α → Nat → Prop} {loosely : Bool} {members members' : List (Option String × Json)}
  {v w : Json} {vs ws : List Json}

theorem Carries.trans (h : Carries loosely P Q) (h' : Carries loosely Q R) : Carries loosely P R := by
  intro x d hx
  obtain ⟨d₁, h₁, hd₁⟩ := h x d hx
  obtain ⟨d₂, h₂, hd₂⟩ := h' x d₁ h₁
  exact ⟨d₂, h₂, fun hl => (hd₂ hl).trans (hd₁ hl)⟩

theorem Agree.symm (h : Agree loosely P Q) : Agree loosely Q P := ⟨h.2, h.1⟩

theorem Agree.trans (h : Agree loosely P Q) (h' : Agree loosely Q R) : Agree loosely P R :=
  ⟨h.1.trans h'.1, h'.2.trans h.2⟩

/-- Documents that stand for the same expressions at the same depths agree. -/
theorem agree_of_iff (h : ∀ x d, P x d ↔ Q x d) : Agree loosely P Q := by
  constructor
  · intro x d hx
    exact ⟨d, (h x d).mp hx, fun _ => rfl⟩
  · intro x d hx
    exact ⟨d, (h x d).mpr hx, fun _ => rfl⟩

theorem Agree.refl (P : α → Nat → Prop) : Agree loosely P P := agree_of_iff fun _ _ => Iff.rfl

/-- One document among several in the place of another. -/
theorem carries_items (h : Carries loosely v.Denotes w.Denotes) (before after : List Json) :
    Carries loosely (DenotesAll (before ++ v :: after)) (DenotesAll (before ++ w :: after)) := by
  induction before with
  | nil =>
    intro _ _ hes
    cases hes with
    | @cons _ _ e es d d' he hes =>
      obtain ⟨d₁, hw, hd⟩ := h e d he
      exact ⟨max d₁ d', .cons hw hes, fun hl => by rw [hd hl]⟩
  | cons x before ih =>
    intro _ _ hes
    cases hes with
    | @cons _ _ e es d d' he hes =>
      obtain ⟨d₁, hw, hd⟩ := ih es d' hes
      exact ⟨max d d₁, .cons he hw, fun hl => by rw [hd hl]⟩

/-- An item of a list may be exchanged for one that stands for the same. -/
theorem carries_list (h : Carries loosely v.Denotes w.Denotes) (before after : List Json) :
    Carries loosely (said "list" (.array (before ++ v :: after))).Denotes
      (said "list" (.array (before ++ w :: after))).Denotes := by
  intro e d hv
  obtain ⟨items, es, d₁, hi, hes, rfl, rfl⟩ := denotes_list_iff.mp hv
  obtain rfl := Json.array.inj hi
  obtain ⟨d₂, hw, hd⟩ := carries_items h before after es d₁ hes
  exact ⟨d₂ + 2, .list hw, fun hl => by rw [hd hl]⟩

/-- One receiver in the place of another. Null is no receiver, so it may stand only for itself. -/
theorem carries_receives (hn : v = .null → w = .null) (h : Carries loosely v.Denotes w.Denotes) :
    Carries loosely (Receives (v :: vs)) (Receives (w :: vs)) := by
  intro receiver d hr
  cases hr with
  | null => exact ⟨0, by rw [hn rfl]; exact .null, fun _ => rfl⟩
  | given he =>
    obtain ⟨d', hw, hd⟩ := h _ _ he
    exact ⟨d', .given hw, hd⟩

/-- One argument in the place of another. -/
theorem carries_supplies (h : Carries loosely v.Denotes w.Denotes) (before after : List Json) :
    Carries loosely (Supplies (.array (before ++ v :: after) :: vs))
      (Supplies (.array (before ++ w :: after) :: vs)) := by
  intro args d hs
  cases hs with
  | given hes =>
    obtain ⟨d', hw, hd⟩ := carries_items h before after _ _ hes
    exact ⟨d' + 1, .given hw, fun hl => by rw [hd hl]⟩

/-- A target that is null and one that is left out stand for no receiver. -/
theorem receives_null_iff {receiver : Option Expr} {d : Nat} :
    Receives [] receiver d ↔ Receives [.null] receiver d := by
  constructor
  · intro h
    cases h
    exact .null
  · intro h
    cases h with
    | null => exact .absent
    | given he => exact absurd he not_denotes_null

/-- An empty array of arguments is none, but opens an array. -/
theorem agree_supplies_empty : Agree true (Supplies []) (Supplies [.array []]) := by
  constructor
  · intro args d h
    cases h
    exact ⟨1, .given .nil, nofun⟩
  · intro args d h
    cases h with
    | given hes =>
      cases hes
      exact ⟨0, .absent, nofun⟩

/-- A call with other members, if what gives its parts agrees. -/
theorem agree_call (hk : (∀ m ∈ members, m.1 ≠ none) ↔ ∀ m ∈ members', m.1 ≠ none)
    (hf : ∀ u, valuesAt "function" members = [u] ↔ valuesAt "function" members' = [u])
    (ht : Agree loosely (Receives (valuesAt "target" members)) (Receives (valuesAt "target" members')))
    (ha : Agree loosely (Supplies (valuesAt "args" members)) (Supplies (valuesAt "args" members'))) :
    Agree loosely (said "call" (.object members)).Denotes (said "call" (.object members')).Denotes := by
  constructor
  · intro e d h
    obtain ⟨symbol, receiver, args, d₁, d₂, hkeys, hfs, hts, has, rfl, rfl⟩ := denotes_object_iff.mp h
    obtain ⟨d₁', hts', hd₁⟩ := ht.1 receiver d₁ hts
    obtain ⟨d₂', has', hd₂⟩ := ha.1 args d₂ has
    exact ⟨_, .call (hk.mp hkeys) ((hf _).mp hfs) hts' has', fun hl => by rw [hd₁ hl, hd₂ hl]⟩
  · intro e d h
    obtain ⟨symbol, receiver, args, d₁, d₂, hkeys, hfs, hts, has, rfl, rfl⟩ := denotes_object_iff.mp h
    obtain ⟨d₁', hts', hd₁⟩ := ht.2 receiver d₁ hts
    obtain ⟨d₂', has', hd₂⟩ := ha.2 args d₂ has
    exact ⟨_, .call (hk.mpr hkeys) ((hf _).mpr hfs) hts' has', fun hl => by rw [hd₁ hl, hd₂ hl]⟩

/-- The order of the members says nothing about the receiver. -/
theorem receives_perm (h : vs.Perm ws) {receiver : Option Expr} {d : Nat} (hr : Receives vs receiver d) :
    Receives ws receiver d := by
  rcases receives_cases hr with ⟨rfl, rfl⟩ | ⟨v, rfl⟩
  · rwa [List.nil_perm.mp h]
  · rwa [← List.singleton_perm.mp h]

/-- The order of the members says nothing about the arguments. -/
theorem supplies_perm (h : vs.Perm ws) {args : List Expr} {d : Nat} (hs : Supplies vs args d) :
    Supplies ws args d := by
  rcases supplies_cases hs with ⟨rfl, rfl⟩ | ⟨v, rfl⟩
  · rwa [List.nil_perm.mp h]
  · rwa [← List.singleton_perm.mp h]

/-- The order of the members of a call does not matter. -/
theorem agree_order (h : members.Perm members') :
    Agree loosely (said "call" (.object members)).Denotes (said "call" (.object members')).Denotes := by
  have hv (key : String) : (valuesAt key members).Perm (valuesAt key members') := (h.filter _).map _
  refine agree_call ?_ ?_ ?_ ?_
  · simp only [h.mem_iff]
  · intro u
    constructor
    · intro hu
      exact (List.singleton_perm.mp (hu ▸ hv "function")).symm
    · intro hu
      exact List.perm_singleton.mp (hu ▸ hv "function")
  · exact agree_of_iff fun _ _ => ⟨receives_perm (hv _), receives_perm (hv _).symm⟩
  · exact agree_of_iff fun _ _ => ⟨supplies_perm (hv _), supplies_perm (hv _).symm⟩

/-- The keys of the parts of a call, in the order in which an array gives them. -/
theorem valuesAt_zip {items : List Json} (hl : items.length ≤ 3) :
    valuesAt "function" ([some "function", some "target", some "args"].zip items) = items.take 1 ∧
      valuesAt "target" ([some "function", some "target", some "args"].zip items) = (items.drop 1).take 1 ∧
      valuesAt "args" ([some "function", some "target", some "args"].zip items) = (items.drop 1).drop 1 := by
  have hnil (key : String) : valuesAt key [] = [] := rfl
  rcases items with _ | ⟨f, _ | ⟨t, _ | ⟨l, _ | ⟨x, items⟩⟩⟩⟩
  · exact ⟨rfl, rfl, rfl⟩
  · simp (disch := decide) [valuesAt_cons_of_ne, valuesAt_cons_self, hnil]
  · simp (disch := decide) [valuesAt_cons_of_ne, valuesAt_cons_self, hnil]
  · simp (disch := decide) [valuesAt_cons_of_ne, valuesAt_cons_self, hnil]
  · simp only [List.length_cons] at hl
    omega

/-- A call as an array is the call as an object with the same parts. -/
theorem denotes_row_iff_object {items : List Json} (hl : items.length ≤ 3) {e : Expr} {d : Nat} :
    (said "call" (.array items)).Denotes e d ↔
      (said "call" (.object ([some "function", some "target", some "args"].zip items))).Denotes e d := by
  obtain ⟨hf, ht, ha⟩ := valuesAt_zip hl
  have hkeys : ∀ m ∈ [some "function", some "target", some "args"].zip items, m.1 ≠ none := by
    intro m hm hnone
    have hkey := (List.of_mem_zip hm).1
    rw [hnone] at hkey
    simp at hkey
  rw [denotes_object_iff, hf, ht, ha]
  constructor
  · intro h
    obtain ⟨symbol, target, rest, receiver, args, d₁, d₂, rfl, hr, htarget, hrest, rfl, rfl⟩ := denotes_row_iff.mp h
    refine ⟨symbol, receiver, args, d₁, d₂, hkeys, rfl, ?_, ?_, rfl, rfl⟩
    · rcases receives_cases htarget with ⟨rfl, rfl⟩ | ⟨t, rfl⟩
      · rw [hr rfl]
        exact htarget
      · exact htarget
    · rcases receives_cases htarget with ⟨rfl, rfl⟩ | ⟨t, rfl⟩
      · rw [hr rfl] at hrest ⊢
        exact hrest
      · exact hrest
  · rintro ⟨symbol, receiver, args, d₁, d₂, -, hfirst, htarget, hrest, rfl, rfl⟩
    cases items with
    | nil => cases hfirst
    | cons u items =>
      obtain rfl := (List.cons.inj hfirst).1
      simp only [List.drop_succ_cons, List.drop_zero] at htarget hrest
      refine denotes_row_iff.mpr
        ⟨symbol, items.take 1, items.drop 1, receiver, args, d₁, d₂, ?_, ?_, htarget, hrest, rfl, rfl⟩
      · rw [List.take_append_drop]
      · intro h0
        rcases List.take_eq_nil_iff.mp h0 with h1 | rfl
        · cases h1
        · rfl

/-- Alike documents denote the same. -/
theorem agree_of_alike (h : v.Alike loosely w) :
    (v = .null ↔ w = .null) ∧ Agree loosely v.Denotes w.Denotes := by
  induction h with
  | refl v => exact ⟨Iff.rfl, .refl _⟩
  | symm _ ih => exact ⟨ih.1.symm, ih.2.symm⟩
  | trans _ _ ih ih' => exact ⟨ih.1.trans ih'.1, ih.2.trans ih'.2⟩
  | item _ ih => exact ⟨⟨nofun, nofun⟩, carries_list ih.2.1 _ _, carries_list ih.2.2 _ _⟩
  | target _ ih =>
    refine ⟨⟨nofun, nofun⟩, agree_call (by simp) ?_ ?_ ?_⟩
    all_goals simp (disch := decide) only [valuesAt_cons_of_ne, valuesAt_cons_self]
    · exact fun _ => trivial
    · exact ⟨carries_receives ih.1.mp ih.2.1, carries_receives ih.1.mpr ih.2.2⟩
    · exact .refl _
  | arg _ ih =>
    refine ⟨⟨nofun, nofun⟩, agree_call (by simp) ?_ ?_ ?_⟩
    all_goals simp (disch := decide) only [valuesAt_cons_of_ne, valuesAt_cons_self]
    · exact fun _ => trivial
    · exact .refl _
    · exact ⟨carries_supplies ih.2.1 _ _, carries_supplies ih.2.2 _ _⟩
  | order h => exact ⟨⟨nofun, nofun⟩, agree_order h⟩
  | unknown v hf ht ha =>
    refine ⟨⟨nofun, nofun⟩, agree_call keys_cons.symm ?_ ?_ ?_⟩
    · exact fun _ => by rw [valuesAt_cons_of_ne hf]
    · rw [valuesAt_cons_of_ne ht]
      exact .refl _
    · rw [valuesAt_cons_of_ne ha]
      exact .refl _
  | noTarget h =>
    refine ⟨⟨nofun, nofun⟩, agree_call keys_cons.symm ?_ ?_ ?_⟩
    all_goals simp (disch := decide) only [valuesAt_cons_of_ne, valuesAt_cons_self, h]
    · exact fun _ => trivial
    · exact agree_of_iff fun _ _ => receives_null_iff
    · exact .refl _
  | noArgs hl h =>
    refine ⟨⟨nofun, nofun⟩, agree_call keys_cons.symm ?_ ?_ ?_⟩
    all_goals simp (disch := decide) only [valuesAt_cons_of_ne, valuesAt_cons_self, h]
    · exact fun _ => trivial
    · exact .refl _
    · exact hl ▸ agree_supplies_empty
  | row h => exact ⟨⟨nofun, nofun⟩, agree_of_iff fun _ _ => denotes_row_iff_object h⟩

/-! ## Depth -/

/-- A member adds one level. -/
theorem depth_said (key : String) (v : Json) : (said key v).depth = v.depth + 1 := by
  simp [depth, depthOfMembers]

mutual

/-- A document denotes nothing deeper than it is. -/
theorem le_depth_of_denotes {v : Json} {e : Expr} {d : Nat} : v.Denotes e d → d ≤ v.depth
  | .ident _ | .bool _ | .string _ | .int _ _ _ => by rw [depth_said]; omega
  | .list h => by
    have := le_depth_of_denotesAll h
    rw [depth_said, depth]
    omega
  | .call _ _ ht ha => by
    have ht := le_depth_of_receives ht fun v hv => depth_le_of_mem_members (mem_of_mem_valuesAt hv)
    have ha := le_depth_of_supplies ha fun v hv => depth_le_of_mem_members (mem_of_mem_valuesAt hv)
    rw [depth_said, depth]
    omega
  | @Denotes.row target rest symbol _ _ _ _ ht ha _ => by
    have hitem {v : Json} (hv : v ∈ target ++ rest) :
        v.depth ≤ depthOfItems (.string (some symbol) :: (target ++ rest)) :=
      depth_le_of_mem_items (List.mem_cons_of_mem _ hv)
    have ht := le_depth_of_receives ht fun v hv => hitem (List.mem_append_left _ hv)
    have ha := le_depth_of_supplies ha fun v hv => hitem (List.mem_append_right _ hv)
    rw [depth_said, depth]
    omega

/-- Several expressions are read no deeper than their documents are nested. -/
theorem le_depth_of_denotesAll {vs : List Json} {es : List Expr} {d : Nat} : DenotesAll vs es d → d ≤ depthOfItems vs
  | .nil => Nat.le_refl _
  | .cons h hs => by
    have := le_depth_of_denotes h
    have := le_depth_of_denotesAll hs
    rw [depthOfItems]
    omega

/-- A receiver is read no deeper than its document is nested. -/
theorem le_depth_of_receives {vs : List Json} {receiver : Option Expr} {d n : Nat} :
    Receives vs receiver d → (∀ v ∈ vs, v.depth ≤ n) → d ≤ n
  | .absent, _ | .null, _ => Nat.zero_le _
  | .given h, hn => Nat.le_trans (le_depth_of_denotes h) (hn _ List.mem_cons_self)

/-- Arguments are read no deeper than their document is nested. -/
theorem le_depth_of_supplies {vs : List Json} {args : List Expr} {d n : Nat} :
    Supplies vs args d → (∀ v ∈ vs, v.depth ≤ n) → d ≤ n
  | .absent, _ => Nat.zero_le _
  | .given h, hn => Nat.le_trans (Nat.succ_le_succ (le_depth_of_denotesAll h)) (hn _ List.mem_cons_self)

end

/-! ## Texts -/

/-- A text of a document is decoded as the document is read. -/
theorem decode?_of_writtenAs {text : String} (h : v.WrittenAs text.toList) :
    decode? text = ofJsonWithin? nestingLimit v := by
  rw [decode?, ofText?_eq_some_iff.mpr h]
  rfl

/-- Where all that two agreeing documents denote lies within the limit, they are read alike. -/
theorem ofJsonWithin?_eq_of_agree {room : Nat} (h : Agree loosely v.Denotes w.Denotes)
    (hv : loosely = true → ∀ e d, v.Denotes e d → d ≤ room) (hw : loosely = true → ∀ e d, w.Denotes e d → d ≤ room) :
    ofJsonWithin? room v = ofJsonWithin? room w := by
  have within {v w : Json} (h : Carries loosely v.Denotes w.Denotes)
      (hw : loosely = true → ∀ e d, w.Denotes e d → d ≤ room) (e : Expr) (he : ofJsonWithin? room v = some e) :
      ofJsonWithin? room w = some e := by
    obtain ⟨d, hd, he⟩ := (ofJsonWithin?_eq_some_iff v room e).mp he
    obtain ⟨d', he', hloose⟩ := h e d he
    refine (ofJsonWithin?_eq_some_iff w room e).mpr ⟨d', ?_, he'⟩
    cases loosely with
    | false => rwa [hloose rfl]
    | true => exact hw rfl e d' he'
  refine Option.ext fun e => ?_
  exact ⟨within h.1 hw e, within h.2 hv e⟩

end Expr

/-- A text is decoded as an expression exactly if it is a text of a document that denotes the expression within the
nesting limit; which layout it has does not matter. Nor does it matter how the calls in it are put down: alike documents
are decoded alike, if, where they are only loosely alike, both keep the limit. -/
theorem decoding_is_exact :
    (∀ (text : String) (e : Expr), Expr.decode? text = some e ↔
      ∃ (v : Json) (d : Nat), v.WrittenAs text.toList ∧ v.Denotes e d ∧ d ≤ nestingLimit) ∧
    (∀ (v : Json) (text : String), v.WrittenAs text.toList →
      ∀ e, Expr.decode? text = some e ↔ ∃ d ≤ nestingLimit, v.Denotes e d) ∧
    ∀ (v w : Json) (t u : String), v.WrittenAs t.toList → w.WrittenAs u.toList →
      (v.Alike false w → Expr.decode? t = Expr.decode? u) ∧
      (v.Alike true w → (∀ e d, v.Denotes e d → d ≤ nestingLimit) → (∀ e d, w.Denotes e d → d ≤ nestingLimit) →
        Expr.decode? t = Expr.decode? u) := by
  refine ⟨fun text e => ?_, fun v text h e => ?_, fun v w t u hv hw => ⟨fun h => ?_, fun h hlv hlw => ?_⟩⟩
  · constructor
    · intro h
      obtain ⟨v, hv, he⟩ := Option.bind_eq_some_iff.mp h
      obtain ⟨d, hd, he⟩ := (Expr.ofJsonWithin?_eq_some_iff v nestingLimit e).mp he
      exact ⟨v, d, ofText?_eq_some_iff.mp hv, he, hd⟩
    · rintro ⟨v, d, hv, he, hd⟩
      rw [Expr.decode?_of_writtenAs hv]
      exact (Expr.ofJsonWithin?_eq_some_iff v nestingLimit e).mpr ⟨d, hd, he⟩
  · rw [Expr.decode?_of_writtenAs h]
    exact Expr.ofJsonWithin?_eq_some_iff v nestingLimit e
  · rw [Expr.decode?_of_writtenAs hv, Expr.decode?_of_writtenAs hw]
    exact Expr.ofJsonWithin?_eq_of_agree (Expr.agree_of_alike h).2 nofun nofun
  · rw [Expr.decode?_of_writtenAs hv, Expr.decode?_of_writtenAs hw]
    exact Expr.ofJsonWithin?_eq_of_agree (Expr.agree_of_alike h).2 (fun _ => hlv) fun _ => hlw

set_option maxRecDepth 2000 in
/-- A call as an array, and the same call as an object with its members in another order, blanks, an escape, an empty
array of arguments, and a member that is passed over though no text and no expression is in it. -/
theorem decoding_is_exact_size :
    let tags : Json := said "ident" (.string (some "tags"))
    let v : Json := said "call" (.array [.string (some "size"), tags])
    let note : Json := .array [.string none, .real ['-', '0']]
    let w : Json := said "call" (.object [(some "x", note), (some "args", .array []), (some "target", tags),
      (some "function", .string (some "size"))])
    let t := "\x7b\"call\":[\"size\",\x7b\"ident\":\"tags\"\x7d]\x7d"
    let u := "\x7b \"call\":\x7b\"x\":[\"\\ud800\",-0],\"args\":[],\n\"target\":\x7b\"\\u0069dent\":\"tags\"\x7d," ++
      "\"function\":\"size\"\x7d\x7d"
    v.WrittenAs t.toList ∧ w.WrittenAs u.toList ∧ v.Alike true w ∧ Expr.decode? t = Expr.decode? u := by
  intro tags v note w t u
  have hv : v.WrittenAs t.toList := ofText?_eq_some_iff.mp (by simp only [t, v, tags]; rfl)
  have hw : w.WrittenAs u.toList := ofText?_eq_some_iff.mp (by simp only [u, w, tags, note]; rfl)
  let parts : List (Option String × Json) := [(some "target", tags), (some "function", .string (some "size"))]
  have hrow : v.Alike true (said "call" (.object parts.reverse)) := .row (by decide)
  have horder : (said "call" (.object parts.reverse)).Alike true (said "call" (.object parts)) :=
    .order (List.reverse_perm parts)
  have hargs : (said "call" (.object parts)).Alike true (said "call" (.object ((some "args", .array []) :: parts))) :=
    .noArgs rfl rfl
  have hnote : (said "call" (.object ((some "args", .array []) :: parts))).Alike true w :=
    .unknown note (by decide) (by decide) (by decide)
  have halike : v.Alike true w := hrow.trans (horder.trans (hargs.trans hnote))
  refine ⟨hv, hw, halike, ((decoding_is_exact.2.2 v w t u hv hw).2 halike ?_ ?_)⟩
  · intro e d h
    exact Nat.le_trans (Expr.le_depth_of_denotes h) (by decide)
  · intro e d h
    exact Nat.le_trans (Expr.le_depth_of_denotes h) (by decide)

end WhereClause
