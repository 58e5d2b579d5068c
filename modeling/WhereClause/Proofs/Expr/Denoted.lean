import Mathlib.Algebra.Ring.Int.Defs
import WhereClause.Expr.Encoding
import WhereClause.Proofs.Json.Reading

/-!
# The documents that hold an expression

`Json.Denotes v e depth` says, without a reader, that the document `v` holds the expression `e`, with `depth` arrays and
objects open at once where it is read; the values of members that have no meaning do not count. A document is read as an
expression exactly if it denotes it and there is room for the depth (`Expr.ofJsonWithin?_eq_some_iff`).
-/

namespace WhereClause

/-- An object of one member, which is how an expression is said. -/
abbrev Json.said (key : String) (v : Json) : Json := .object [(some key, v)]

/-- The values of the members of an object that have the given key, in their order. -/
def Json.valuesAt (key : String) (members : List (Option String × Json)) : List Json :=
  (members.filter (·.1 = some key)).map (·.2)

mutual

/-- `v.Denotes e depth`: the document `v` holds the expression `e` and is `depth` deep where it is read. -/
inductive Json.Denotes : Json → Expr → Nat → Prop
  | ident (name : String) : Denotes (Json.said "ident" (.string (some name))) (.ident name) 1
  | bool (b : Bool) : Denotes (Json.said "const" (.bool b)) (.const (.bool b)) 1
  | string (text : String) : Denotes (Json.said "const" (.string (some text))) (.const (.string text)) 1
  /-- An integer that fits 64 bits with a sign is that integer. -/
  | int {n : Int} {k : Int64} : -2 ^ 63 ≤ n → n < 2 ^ 63 → k.toInt = n →
      Denotes (Json.said "const" (.int n)) (.const (.int k)) 1
  | list {items : List Json} {es : List Expr} {d : Nat} : Json.DenotesAll items es d →
      Denotes (Json.said "list" (.array items)) (.list es) (d + 2)
  /-- A call as an object: its members stand in any order, and others may stand among them. -/
  | call {members : List (Option String × Json)} {symbol : String} {receiver : Option Expr} {args : List Expr}
      {d d' : Nat} : (∀ m ∈ members, m.1 ≠ none) → Json.valuesAt "function" members = [.string (some symbol)] →
      Json.Receives (Json.valuesAt "target" members) receiver d →
      Json.Supplies (Json.valuesAt "args" members) args d' →
      Denotes (Json.said "call" (.object members)) (.call symbol receiver args) (max d d' + 2)
  /-- A call as an array of its function, its target and its arguments; the last ones may be left out. -/
  | row {target rest : List Json} {symbol : String} {receiver : Option Expr} {args : List Expr} {d d' : Nat} :
      Json.Receives target receiver d → Json.Supplies rest args d' → (target = [] → rest = []) →
      Denotes (Json.said "call" (.array (.string (some symbol) :: (target ++ rest)))) (.call symbol receiver args)
        (max d d' + 2)

/-- Documents that hold one expression each, with the greatest of their depths. -/
inductive Json.DenotesAll : List Json → List Expr → Nat → Prop
  | nil : DenotesAll [] [] 0
  | cons {v : Json} {vs : List Json} {e : Expr} {es : List Expr} {d d' : Nat} : Json.Denotes v e d →
      DenotesAll vs es d' → DenotesAll (v :: vs) (e :: es) (max d d')

/-- What is given as a target, at most once: without it, and with null, there is no receiver. -/
inductive Json.Receives : List Json → Option Expr → Nat → Prop
  | absent : Receives [] none 0
  | null : Receives [.null] none 0
  | given {v : Json} {e : Expr} {d : Nat} : Json.Denotes v e d → Receives [v] (some e) d

/-- What is given as arguments, at most once: an array of them, or none. -/
inductive Json.Supplies : List Json → List Expr → Nat → Prop
  | absent : Supplies [] [] 0
  | given {items : List Json} {es : List Expr} {d : Nat} : Json.DenotesAll items es d →
      Supplies [.array items] es (d + 1)

end

namespace Expr

open Json

/-- The document is read as it denotes, in any room. -/
def Reads (v : Json) : Prop := ∀ room e, ofJsonWithin? room v = some e ↔ ∃ d ≤ room, v.Denotes e d

/-! ## Lists -/

/-- Several documents are read as the expressions they stand for. -/
theorem listWithin?_eq_some_iff {vs : List Json} (h : ∀ v ∈ vs, Reads v) {room : Nat} {es : List Expr} :
    listWithin? room vs = some es ↔ ∃ d ≤ room, DenotesAll vs es d := by
  induction vs generalizing es with
  | nil =>
    constructor
    · intro hr
      obtain rfl := Option.some.inj hr
      exact ⟨0, Nat.zero_le _, .nil⟩
    · rintro ⟨d, -, ⟨⟩⟩
      rfl
  | cons v vs ih =>
    have hvs := @ih (fun w hw => h w (List.mem_cons_of_mem _ hw))
    have hv := h v List.mem_cons_self
    rw [listWithin?]
    constructor
    · intro hr
      obtain ⟨e, he, hr⟩ := Option.bind_eq_some_iff.mp hr
      obtain ⟨es', hes, hr⟩ := Option.bind_eq_some_iff.mp hr
      obtain rfl := Option.some.inj hr
      obtain ⟨d, hd, hv⟩ := (hv room e).mp he
      obtain ⟨d', hd', hvs⟩ := hvs.mp hes
      exact ⟨max d d', by omega, .cons hv hvs⟩
    · rintro ⟨_, hd, hr⟩
      cases hr with
      | @cons _ _ e es d d' he hes =>
        rw [(hv room e).mpr ⟨d, by omega, he⟩, hvs.mpr ⟨d', by omega, hes⟩]
        rfl

/-! ## The parts of a call -/

/-- No expression is written as null. -/
theorem not_denotes_null {e : Expr} {d : Nat} : ¬ Json.null.Denotes e d := nofun

/-- A target is read as the receiver that it stands for. -/
theorem receiver?_eq_some_iff {v : Json} (h : Reads v) {room : Nat} {receiver : Option Expr} :
    receiver? v (ofJsonWithin? room v) = some receiver ↔ ∃ d ≤ room, Receives [v] receiver d := by
  unfold receiver?
  split
  next =>
    constructor
    · intro hr
      obtain rfl := Option.some.inj hr
      exact ⟨0, Nat.zero_le _, .null⟩
    · rintro ⟨d, -, hr⟩
      cases hr with
      | null => rfl
      | given he => exact absurd he not_denotes_null
  next hn =>
    rw [Option.map_eq_some_iff]
    constructor
    · rintro ⟨e, he, rfl⟩
      obtain ⟨d, hd, hv⟩ := (h room e).mp he
      exact ⟨d, hd, .given hv⟩
    · rintro ⟨d, hd, hr⟩
      cases hr with
      | null => exact absurd rfl hn
      | @given _ e _ he => exact ⟨e, (h room e).mpr ⟨d, hd, he⟩, rfl⟩

/-- The expressions that an array of arguments holds. -/
def argsWithin? (room : Nat) : Json → Option (List Expr)
  | .array items => if room = 0 then none else listWithin? (room - 1) items
  | _ => none

/-- An array is read as the arguments that it stands for. -/
theorem argsWithin?_eq_some_iff {v : Json} (h : ∀ items, v = .array items → ∀ w ∈ items, Reads w) {room : Nat}
    {args : List Expr} : argsWithin? room v = some args ↔ ∃ d ≤ room, Supplies [v] args d := by
  constructor
  · intro hr
    cases v with
    | array items =>
      simp only [argsWithin?, Option.ite_none_left_eq_some] at hr
      obtain ⟨hroom, hr⟩ := hr
      obtain ⟨d, hd, hs⟩ := (listWithin?_eq_some_iff (h items rfl)).mp hr
      exact ⟨d + 1, by omega, .given hs⟩
    | _ => cases hr
  · rintro ⟨_, hd, hs⟩
    cases hs with
    | @given items _ d hs =>
      have hroom : room ≠ 0 := by omega
      simp only [argsWithin?, if_neg hroom]
      exact (listWithin?_eq_some_iff (h items rfl)).mpr ⟨d, by omega, hs⟩

namespace CallMember

/-- The symbol that a member of a call gives. -/
def function? : CallMember → Option String
  | .function symbol => some symbol
  | _ => none

/-- The receiver that a member of a call gives. -/
def target? : CallMember → Option (Option Expr)
  | .target receiver => some receiver
  | _ => none

/-- The arguments that a member of a call gives. -/
def args? : CallMember → Option (List Expr)
  | .args es => some es
  | _ => none

end CallMember

variable {room : Nat} {key : String} {v : Json} {members : List (Option String × Json)}

theorem valuesAt_cons_self : valuesAt key ((some key, v) :: members) = v :: valuesAt key members := by
  simp [valuesAt]

theorem valuesAt_cons_of_ne {k : String} (h : k ≠ key) :
    valuesAt key ((some k, v) :: members) = valuesAt key members := by
  simp [valuesAt, h]

/-- A member is read by its key: a function as a text, a target as a receiver, arguments as a list. Any other is
passed over. -/
theorem membersWithin?_function : membersWithin? room ((some "function", v) :: members) =
    (membersWithin? room members).bind fun ms => v.text?.map (.function · :: ms) := rfl

theorem membersWithin?_target : membersWithin? room ((some "target", v) :: members) =
    (membersWithin? room members).bind fun ms => (receiver? v (ofJsonWithin? room v)).map (.target · :: ms) := rfl

theorem membersWithin?_args : membersWithin? room ((some "args", v) :: members) =
    (membersWithin? room members).bind fun ms => (argsWithin? room v).map (.args · :: ms) := by
  rw [membersWithin?]
  cases v with
  | array items =>
    simp only [argsWithin?]
    split <;> rfl
  | _ => rfl

theorem membersWithin?_other (hf : key ≠ "function") (ht : key ≠ "target") (ha : key ≠ "args") :
    membersWithin? room ((some key, v) :: members) = membersWithin? room members := by
  rw [membersWithin?]
  cases membersWithin? room members with
  | none => rfl
  | some ms =>
    simp only [Option.bind_eq_bind, Option.bind_some]
    split
    next => exact absurd rfl hf
    next => exact absurd rfl ht
    next => exact absurd rfl ha
    next => exact absurd rfl ha
    next => rfl

/-- What the members of a call are read as, key by key. -/
def Parts (room : Nat) (members : List (Option String × Json)) (fs : List String) (ts : List (Option Expr))
    (ls : List (List Expr)) : Prop :=
  (∀ m ∈ members, m.1 ≠ none) ∧ List.Forall₂ (fun v f => v.text? = some f) (valuesAt "function" members) fs ∧
    List.Forall₂ (fun v t => receiver? v (ofJsonWithin? room v) = some t) (valuesAt "target" members) ts ∧
    List.Forall₂ (fun v l => argsWithin? room v = some l) (valuesAt "args" members) ls

variable {fs : List String} {ts : List (Option Expr)} {ls : List (List Expr)}

theorem keys_cons : (∀ m ∈ (some key, v) :: members, m.1 ≠ none) ↔ ∀ m ∈ members, m.1 ≠ none := by
  simp

/-- A member adds the part that its key names, and any other member adds nothing. -/
theorem parts_function : Parts room ((some "function", v) :: members) fs ts ls ↔
    ∃ f fs', v.text? = some f ∧ fs = f :: fs' ∧ Parts room members fs' ts ls := by
  have ht : "function" ≠ "target" := by decide
  have ha : "function" ≠ "args" := by decide
  simp only [Parts, keys_cons, valuesAt_cons_self, valuesAt_cons_of_ne ht, valuesAt_cons_of_ne ha,
    List.forall₂_cons_left_iff]
  constructor
  · rintro ⟨hk, ⟨f, fs', hv, hfs, rfl⟩, hp⟩
    exact ⟨f, fs', hv, rfl, hk, hfs, hp⟩
  · rintro ⟨f, fs', hv, rfl, hk, hfs, hp⟩
    exact ⟨hk, ⟨f, fs', hv, hfs, rfl⟩, hp⟩

theorem parts_target : Parts room ((some "target", v) :: members) fs ts ls ↔
    ∃ t ts', receiver? v (ofJsonWithin? room v) = some t ∧ ts = t :: ts' ∧ Parts room members fs ts' ls := by
  have hf : "target" ≠ "function" := by decide
  have ha : "target" ≠ "args" := by decide
  simp only [Parts, keys_cons, valuesAt_cons_self, valuesAt_cons_of_ne hf, valuesAt_cons_of_ne ha,
    List.forall₂_cons_left_iff]
  constructor
  · rintro ⟨hk, hfs, ⟨t, ts', hv, hts, rfl⟩, hls⟩
    exact ⟨t, ts', hv, rfl, hk, hfs, hts, hls⟩
  · rintro ⟨t, ts', hv, rfl, hk, hfs, hts, hls⟩
    exact ⟨hk, hfs, ⟨t, ts', hv, hts, rfl⟩, hls⟩

theorem parts_args : Parts room ((some "args", v) :: members) fs ts ls ↔
    ∃ l ls', argsWithin? room v = some l ∧ ls = l :: ls' ∧ Parts room members fs ts ls' := by
  have hf : "args" ≠ "function" := by decide
  have ht : "args" ≠ "target" := by decide
  simp only [Parts, keys_cons, valuesAt_cons_self, valuesAt_cons_of_ne hf, valuesAt_cons_of_ne ht,
    List.forall₂_cons_left_iff]
  constructor
  · rintro ⟨hk, hfs, hts, ⟨l, ls', hv, hls, rfl⟩⟩
    exact ⟨l, ls', hv, rfl, hk, hfs, hts, hls⟩
  · rintro ⟨l, ls', hv, rfl, hk, hfs, hts, hls⟩
    exact ⟨hk, hfs, hts, ⟨l, ls', hv, hls, rfl⟩⟩

theorem parts_other (hf : key ≠ "function") (ht : key ≠ "target") (ha : key ≠ "args") :
    Parts room ((some key, v) :: members) fs ts ls ↔ Parts room members fs ts ls := by
  simp only [Parts, keys_cons, valuesAt_cons_of_ne hf, valuesAt_cons_of_ne ht, valuesAt_cons_of_ne ha]

/-- Members are read if the first one and the others are. -/
theorem bind_map_cons_eq_some_iff {α : Type} {r : Option (List CallMember)} {x? : Option α} {mk : α → CallMember}
    {ms : List CallMember} :
    (r.bind fun ms => x?.map (mk · :: ms)) = some ms ↔ ∃ x rest, x? = some x ∧ r = some rest ∧ ms = mk x :: rest := by
  rw [Option.bind_eq_some_iff]
  constructor
  · rintro ⟨rest, hr, h⟩
    obtain ⟨x, hx, rfl⟩ := Option.map_eq_some_iff.mp h
    exact ⟨x, rest, hx, hr, rfl⟩
  · rintro ⟨x, rest, hx, hr, rfl⟩
    exact ⟨rest, hr, by rw [hx, Option.map_some]⟩

/-- The members that are read give their parts. -/
theorem membersWithin?_iff_parts :
    (∃ ms, membersWithin? room members = some ms ∧ ms.filterMap CallMember.function? = fs ∧
      ms.filterMap CallMember.target? = ts ∧ ms.filterMap CallMember.args? = ls) ↔ Parts room members fs ts ls := by
  induction members generalizing fs ts ls with
  | nil =>
    simp only [Parts, valuesAt, List.filter_nil, List.map_nil, List.forall₂_nil_left_iff]
    constructor
    · rintro ⟨ms, h, rfl, rfl, rfl⟩
      obtain rfl := Option.some.inj h
      exact ⟨nofun, rfl, rfl, rfl⟩
    · rintro ⟨-, rfl, rfl, rfl⟩
      exact ⟨[], rfl, rfl, rfl, rfl⟩
  | cons m members ih =>
    obtain ⟨key, v⟩ := m
    cases key with
    | none =>
      constructor
      · rintro ⟨ms, h, -⟩
        cases h
      · intro hp
        exact absurd rfl (hp.1 _ List.mem_cons_self)
    | some key =>
      by_cases hf : key = "function"
      · subst hf
        simp only [membersWithin?_function, parts_function, bind_map_cons_eq_some_iff, ← ih]
        constructor
        · rintro ⟨_, ⟨f, ms, hv, hms, rfl⟩, rfl, rfl, rfl⟩
          exact ⟨f, _, hv, rfl, ms, hms, rfl, rfl, rfl⟩
        · rintro ⟨f, _, hv, rfl, ms, hms, rfl, rfl, rfl⟩
          exact ⟨_, ⟨f, ms, hv, hms, rfl⟩, rfl, rfl, rfl⟩
      by_cases ht : key = "target"
      · subst ht
        simp only [membersWithin?_target, parts_target, bind_map_cons_eq_some_iff, ← ih]
        constructor
        · rintro ⟨_, ⟨t, ms, hv, hms, rfl⟩, rfl, rfl, rfl⟩
          exact ⟨t, _, hv, rfl, ms, hms, rfl, rfl, rfl⟩
        · rintro ⟨t, _, hv, rfl, ms, hms, rfl, rfl, rfl⟩
          exact ⟨_, ⟨t, ms, hv, hms, rfl⟩, rfl, rfl, rfl⟩
      by_cases ha : key = "args"
      · subst ha
        simp only [membersWithin?_args, parts_args, bind_map_cons_eq_some_iff, ← ih]
        constructor
        · rintro ⟨_, ⟨l, ms, hv, hms, rfl⟩, rfl, rfl, rfl⟩
          exact ⟨l, _, hv, rfl, ms, hms, rfl, rfl, rfl⟩
        · rintro ⟨l, _, hv, rfl, ms, hms, rfl, rfl, rfl⟩
          exact ⟨_, ⟨l, ms, hv, hms, rfl⟩, rfl, rfl, rfl⟩
      rw [membersWithin?_other hf ht ha, parts_other hf ht ha]
      exact ih

/-- What is given at most once. -/
def AtMostOnce {α : Type} (absent x : α) (xs : List α) : Prop := xs = [] ∧ x = absent ∨ xs = [x]

/-- What does not occur is taken to be absent. -/
theorem AtMostOnce.of_nil {α : Type} {absent x : α} {xs : List α} (h : AtMostOnce absent x xs) (hx : xs = []) :
    x = absent := by
  rcases h with ⟨-, h⟩ | h
  · exact h
  · rw [hx] at h
    cases h

/-- What occurs once is taken as it is. -/
theorem AtMostOnce.of_singleton {α : Type} {absent x y : α} {xs : List α} (h : AtMostOnce absent x xs) (hx : xs = [y]) :
    x = y := by
  rcases h with ⟨h, -⟩ | h
  · rw [hx] at h
    cases h
  · exact (List.singleton_inj.mp (hx.symm.trans h)).symm

/-- Members make a call if they name its function once and its other parts at most once. -/
theorem ofMembers?_eq_some_iff {ms : List CallMember} {e : Expr} : ofMembers? ms = some e ↔
    ∃ f receiver args, ms.filterMap CallMember.function? = [f] ∧
      AtMostOnce none receiver (ms.filterMap CallMember.target?) ∧ AtMostOnce [] args (ms.filterMap CallMember.args?) ∧
      e = .call f receiver args := by
  simp only [ofMembers?]
  constructor
  · intro h
    split at h
    next f hf ht ha =>
      obtain rfl := Option.some.inj h
      exact ⟨f, none, [], hf, .inl ⟨ht, rfl⟩, .inl ⟨ha, rfl⟩, rfl⟩
    next f t hf ht ha =>
      obtain rfl := Option.some.inj h
      exact ⟨f, t, [], hf, .inr ht, .inl ⟨ha, rfl⟩, rfl⟩
    next f l hf ht ha =>
      obtain rfl := Option.some.inj h
      exact ⟨f, none, l, hf, .inl ⟨ht, rfl⟩, .inr ha, rfl⟩
    next f t l hf ht ha =>
      obtain rfl := Option.some.inj h
      exact ⟨f, t, l, hf, .inr ht, .inr ha, rfl⟩
    next => cases h
  · rintro ⟨f, receiver, args, hf, ht, ha, rfl⟩
    split
    next hf' ht' ha' => rw [List.singleton_inj.mp (hf.symm.trans hf'), ht.of_nil ht', ha.of_nil ha']
    next hf' ht' ha' => rw [List.singleton_inj.mp (hf.symm.trans hf'), ht.of_singleton ht', ha.of_nil ha']
    next hf' ht' ha' => rw [List.singleton_inj.mp (hf.symm.trans hf'), ht.of_nil ht', ha.of_singleton ha']
    next hf' ht' ha' => rw [List.singleton_inj.mp (hf.symm.trans hf'), ht.of_singleton ht', ha.of_singleton ha']
    next hn ht' ha' hta =>
      exfalso
      rcases ht with ⟨ht, -⟩ | ht <;> rcases ha with ⟨ha, -⟩ | ha
      · exact hn f hf ht ha
      · exact ha' f args hf ht ha
      · exact ht' f receiver hf ht ha
      · exact hta f receiver args hf ht ha

/-- A receiver is left out or given by one value. -/
theorem receives_cases {vs : List Json} {receiver : Option Expr} {d : Nat} (h : Receives vs receiver d) :
    vs = [] ∧ receiver = none ∨ ∃ v, vs = [v] := by
  cases h with
  | absent => exact .inl ⟨rfl, rfl⟩
  | null | given => exact .inr ⟨_, rfl⟩

/-- Arguments are left out or given by one value. -/
theorem supplies_cases {vs : List Json} {args : List Expr} {d : Nat} (h : Supplies vs args d) :
    vs = [] ∧ args = [] ∨ ∃ v, vs = [v] := by
  cases h with
  | absent => exact .inl ⟨rfl, rfl⟩
  | given => exact .inr ⟨_, rfl⟩

/-- The targets that are read are at most one receiver. -/
theorem receives_iff {vs : List Json} (h : ∀ v ∈ vs, Reads v) {receiver : Option Expr} :
    (∃ ts, List.Forall₂ (fun v t => receiver? v (ofJsonWithin? room v) = some t) vs ts ∧ AtMostOnce none receiver ts) ↔
      ∃ d ≤ room, Receives vs receiver d := by
  constructor
  · rintro ⟨ts, hts, ⟨rfl, rfl⟩ | rfl⟩
    · obtain rfl := List.forall₂_nil_right_iff.mp hts
      exact ⟨0, Nat.zero_le _, .absent⟩
    · obtain ⟨v, vs', hv, hvs, rfl⟩ := List.forall₂_cons_right_iff.mp hts
      obtain rfl := List.forall₂_nil_right_iff.mp hvs
      exact (receiver?_eq_some_iff (h v List.mem_cons_self)).mp hv
  · rintro ⟨d, hd, hr⟩
    rcases receives_cases hr with ⟨rfl, rfl⟩ | ⟨v, rfl⟩
    · exact ⟨[], .nil, .inl ⟨rfl, rfl⟩⟩
    · have hv := (receiver?_eq_some_iff (h v List.mem_cons_self)).mpr ⟨d, hd, hr⟩
      exact ⟨[receiver], .cons hv .nil, .inr rfl⟩

/-- The lists of arguments that are read are at most one. -/
theorem supplies_iff {vs : List Json} (h : ∀ v ∈ vs, ∀ items, v = .array items → ∀ w ∈ items, Reads w)
    {args : List Expr} :
    (∃ ls, List.Forall₂ (fun v l => argsWithin? room v = some l) vs ls ∧ AtMostOnce [] args ls) ↔
      ∃ d ≤ room, Supplies vs args d := by
  constructor
  · rintro ⟨ls, hls, ⟨rfl, rfl⟩ | rfl⟩
    · obtain rfl := List.forall₂_nil_right_iff.mp hls
      exact ⟨0, Nat.zero_le _, .absent⟩
    · obtain ⟨v, vs', hv, hvs, rfl⟩ := List.forall₂_cons_right_iff.mp hls
      obtain rfl := List.forall₂_nil_right_iff.mp hvs
      exact (argsWithin?_eq_some_iff (h v List.mem_cons_self)).mp hv
  · rintro ⟨d, hd, hs⟩
    rcases supplies_cases hs with ⟨rfl, rfl⟩ | ⟨v, rfl⟩
    · exact ⟨[], .nil, .inl ⟨rfl, rfl⟩⟩
    · have hv := (argsWithin?_eq_some_iff (h v List.mem_cons_self)).mpr ⟨d, hd, hs⟩
      exact ⟨[args], .cons hv .nil, .inr rfl⟩

/-- A value at a key is that of a member with this key. -/
theorem mem_of_mem_valuesAt (h : v ∈ valuesAt key members) : (some key, v) ∈ members := by
  obtain ⟨m, hm, rfl⟩ := List.mem_map.mp h
  obtain ⟨hm, hk⟩ := List.mem_filter.mp hm
  rw [← of_decide_eq_true hk]
  exact hm

/-- The functions of an object are one name exactly if its one value is this string. -/
theorem functions_iff {vs : List Json} {f : String} :
    List.Forall₂ (fun (v : Json) f => v.text? = some f) vs [f] ↔ vs = [.string (some f)] := by
  constructor
  · intro h
    obtain ⟨v, vs', hv, hvs, rfl⟩ := List.forall₂_cons_right_iff.mp h
    obtain rfl := List.forall₂_nil_right_iff.mp hvs
    cases v with
    | string text =>
      obtain rfl : text = some f := hv
      rfl
    | _ => cases hv
  · rintro rfl
    exact .cons rfl .nil

/-! ## The forms of an expression -/

theorem sizeOf_lt_said (key : String) (v : Json) : sizeOf v < sizeOf (said key v) :=
  sizeOf_lt_of_mem_members (m := (some key, v)) (List.mem_singleton.mpr rfl)

variable {e : Expr} {d : Nat}

/-- What the documents of identifiers, constants and lists stand for. -/
theorem denotes_ident_iff :
    (said "ident" v).Denotes e d ↔ ∃ name, v = .string (some name) ∧ e = .ident name ∧ d = 1 := by
  constructor
  · intro h
    generalize hk : "ident" = k at h
    cases h with
    | ident name => exact ⟨name, rfl, rfl, rfl⟩
    | _ => simp at hk
  · rintro ⟨name, rfl, rfl, rfl⟩
    exact .ident name

/-- A number is read as a 64-bit integer exactly if it is in their range. -/
theorem int64?_int {n : Int} {k : Int64} :
    (Json.int n).int64? = some k ↔ -2 ^ 63 ≤ n ∧ n < 2 ^ 63 ∧ k.toInt = n := by
  have hint : (Json.int n).int64? =
      if Int64.minValue.toInt ≤ n ∧ n ≤ Int64.maxValue.toInt then some (.ofInt n) else none := rfl
  rw [hint, Option.ite_none_right_eq_some, Int64.toInt_minValue, Int64.toInt_maxValue]
  constructor
  · rintro ⟨⟨hlo, hhi⟩, hk⟩
    obtain rfl := Option.some.inj hk
    have hlt : n < 2 ^ 63 := by omega
    exact ⟨hlo, hlt, Int64.toInt_ofInt_of_le hlo hlt⟩
  · rintro ⟨hlo, hhi, rfl⟩
    exact ⟨⟨hlo, by omega⟩, by rw [Int64.ofInt_toInt]⟩

theorem denotes_const_iff : (said "const" v).Denotes e d ↔
    ∃ value, Literal.ofJson? v = some value ∧ e = .const value ∧ d = 1 := by
  constructor
  · intro h
    generalize hk : "const" = k at h
    cases h with
    | bool b => exact ⟨.bool b, rfl, rfl, rfl⟩
    | string text => exact ⟨.string text, rfl, rfl, rfl⟩
    | @int n k hlo hhi hn =>
      exact ⟨.int k, Option.map_eq_some_iff.mpr ⟨k, int64?_int.mpr ⟨hlo, hhi, hn⟩, rfl⟩, rfl, rfl⟩
    | _ => simp at hk
  · rintro ⟨value, hv, rfl, rfl⟩
    cases v with
    | bool b =>
      obtain rfl := Option.some.inj hv
      exact .bool b
    | string text =>
      obtain ⟨s, rfl, rfl⟩ := Option.map_eq_some_iff.mp hv
      exact .string s
    | int n =>
      obtain ⟨k, hk, rfl⟩ := Option.map_eq_some_iff.mp hv
      obtain ⟨hlo, hhi, hn⟩ := int64?_int.mp hk
      exact .int hlo hhi hn
    | _ => cases hv

theorem denotes_list_iff : (said "list" v).Denotes e d ↔
    ∃ items es d', v = .array items ∧ DenotesAll items es d' ∧ e = .list es ∧ d = d' + 2 := by
  constructor
  · intro h
    generalize hk : "list" = k at h
    cases h with
    | list h => exact ⟨_, _, _, rfl, h, rfl, rfl⟩
    | _ => simp at hk
  · rintro ⟨items, es, d', rfl, h, rfl, rfl⟩
    exact .list h

/-- What a call that is written as an object stands for. -/
theorem denotes_object_iff : (said "call" (.object members)).Denotes e d ↔
    ∃ symbol receiver args d₁ d₂, (∀ m ∈ members, m.1 ≠ none) ∧ valuesAt "function" members = [.string (some symbol)] ∧
      Receives (valuesAt "target" members) receiver d₁ ∧ Supplies (valuesAt "args" members) args d₂ ∧
      e = .call symbol receiver args ∧ d = max d₁ d₂ + 2 := by
  constructor
  · intro h
    generalize hk : "call" = k at h
    cases h with
    | call hkeys hf ht ha => exact ⟨_, _, _, _, _, hkeys, hf, ht, ha, rfl, rfl⟩
  · rintro ⟨symbol, receiver, args, d₁, d₂, hk, hf, ht, ha, rfl, rfl⟩
    exact .call hk hf ht ha

/-- What a call that is written as an array stands for. -/
theorem denotes_row_iff {items : List Json} : (said "call" (.array items)).Denotes e d ↔
    ∃ symbol target rest receiver args d₁ d₂, items = .string (some symbol) :: (target ++ rest) ∧
      (target = [] → rest = []) ∧ Receives target receiver d₁ ∧ Supplies rest args d₂ ∧
      e = .call symbol receiver args ∧ d = max d₁ d₂ + 2 := by
  constructor
  · intro h
    generalize hk : "call" = k at h
    cases h with
    | row ht ha hr => exact ⟨_, _, _, _, _, _, _, rfl, hr, ht, ha, rfl, rfl⟩
    | list h => simp at hk
  · rintro ⟨symbol, target, rest, receiver, args, d₁, d₂, rfl, hr, ht, ha, rfl, rfl⟩
    exact .row ht ha hr

/-- The keys that say what an expression is. -/
inductive Said : Json → Prop
  | ident (v : Json) : Said (said "ident" v)
  | const (v : Json) : Said (said "const" v)
  | list (v : Json) : Said (said "list" v)
  | object (members : List (Option String × Json)) : Said (said "call" (.object members))
  | row (items : List Json) : Said (said "call" (.array items))

/-- A document that stands for an expression has one member of a known kind. -/
theorem said_of_denotes (h : v.Denotes e d) : Said v := by
  cases h with
  | ident => exact .ident _
  | bool | string | int => exact .const _
  | list => exact .list _
  | call => exact .object _
  | row => exact .row _

/-- So has a document that is read as one. -/
theorem said_of_read (h : ofJsonWithin? room v = some e) : Said v := by
  unfold ofJsonWithin? at h
  split at h
  · split at h
    · cases h
    · split at h
      · exact .ident _
      · exact .const _
      · exact .list _
      · exact .object _
      · exact .row _
      · exact .row _
      · exact .row _
      · cases h
  · cases h

/-- How the five kinds of documents are read, with what they leave of the room. -/
theorem ofJsonWithin?_ident :
    ofJsonWithin? room (said "ident" v) = some e ↔ 1 ≤ room ∧ ∃ name, v = .string (some name) ∧ e = .ident name := by
  cases v <;> cases room <;> simp [ofJsonWithin?, @eq_comm _ e]

theorem ofJsonWithin?_const : ofJsonWithin? room (said "const" v) = some e ↔
    1 ≤ room ∧ ∃ value, Literal.ofJson? v = some value ∧ e = .const value := by
  cases room <;> simp [ofJsonWithin?, @eq_comm _ e]

theorem ofJsonWithin?_list : ofJsonWithin? room (said "list" v) = some e ↔
    2 ≤ room ∧ ∃ items es, v = .array items ∧ listWithin? (room - 2) items = some es ∧ e = .list es := by
  cases v <;> rcases room with _ | _ | room <;> simp [ofJsonWithin?, @eq_comm _ e]

theorem ofJsonWithin?_object : ofJsonWithin? room (said "call" (.object members)) = some e ↔
    2 ≤ room ∧ ∃ ms, membersWithin? (room - 2) members = some ms ∧ ofMembers? ms = some e := by
  rcases room with _ | _ | room <;> simp [ofJsonWithin?, Option.bind_eq_some_iff]

theorem ofJsonWithin?_row {items : List Json} : ofJsonWithin? room (said "call" (.array items)) = some e ↔
    2 ≤ room ∧ ((∃ f, items = [.string (some f)] ∧ e = .call f none []) ∨
      (∃ f t receiver, items = [.string (some f), t] ∧
        receiver? t (ofJsonWithin? (room - 2) t) = some receiver ∧ e = .call f receiver []) ∨
      ∃ f t l receiver args, items = [.string (some f), t, l] ∧
        receiver? t (ofJsonWithin? (room - 2) t) = some receiver ∧ argsWithin? (room - 2) l = some args ∧
        e = .call f receiver args) := by
  constructor
  · intro h
    unfold ofJsonWithin? at h
    rw [Option.ite_none_left_eq_some] at h
    obtain ⟨h0, h⟩ := h
    split at h
    next hk _ => simp at hk
    next hk => simp at hk
    next hk _ => simp at hk
    next hv => cases hv
    next f _ hv =>
      obtain rfl := Json.array.inj hv
      obtain ⟨h1, h⟩ := Option.ite_none_left_eq_some.mp h
      obtain rfl := Option.some.inj h
      exact ⟨by omega, .inl ⟨f, rfl, rfl⟩⟩
    next f t _ hv =>
      obtain rfl := Json.array.inj hv
      obtain ⟨h1, h⟩ := Option.ite_none_left_eq_some.mp h
      obtain ⟨receiver, ht, rfl⟩ := Option.map_eq_some_iff.mp h
      exact ⟨by omega, .inr (.inl ⟨f, t, receiver, rfl, ht, rfl⟩)⟩
    next f t items _ hv =>
      obtain rfl := Json.array.inj hv
      obtain ⟨h2, h⟩ := Option.ite_none_left_eq_some.mp h
      obtain ⟨receiver, ht, h⟩ := Option.bind_eq_some_iff.mp h
      obtain ⟨args, hl, h⟩ := Option.bind_eq_some_iff.mp h
      obtain rfl := Option.some.inj h
      have hroom : room - 2 ≠ 0 := by omega
      exact ⟨by omega, .inr (.inr ⟨f, t, _, receiver, args, rfl, ht, by rwa [argsWithin?, if_neg hroom], rfl⟩)⟩
    next => cases h
  · rintro ⟨hr, h⟩
    obtain ⟨room, rfl⟩ : ∃ n, room = n + 2 := ⟨room - 2, by omega⟩
    rcases h with ⟨f, rfl, rfl⟩ | ⟨f, t, receiver, rfl, ht, rfl⟩ | ⟨f, t, l, receiver, args, rfl, ht, hl, rfl⟩
    · rfl
    · rw [Nat.add_sub_cancel] at ht
      simp [ofJsonWithin?, ht]
    · cases l with
      | array items =>
        simp only [argsWithin?, Option.ite_none_left_eq_some, Nat.add_sub_cancel] at hl
        rw [Nat.add_sub_cancel] at ht
        have hroom : ¬ room + 2 ≤ 2 := by omega
        have hthree : room + 2 - 3 = room - 1 := by omega
        simp [ofJsonWithin?, ht, hthree, hl.2, hl.1]
      | _ => cases hl

/-! ## Reading each form -/

/-- An identifier, like a constant, is read as what it stands for. -/
theorem reads_ident (v : Json) : Reads (said "ident" v) := by
  intro room e
  rw [ofJsonWithin?_ident]
  constructor
  · rintro ⟨hr, name, rfl, rfl⟩
    exact ⟨1, hr, .ident name⟩
  · rintro ⟨d, hd, h⟩
    obtain ⟨name, rfl, rfl, rfl⟩ := denotes_ident_iff.mp h
    exact ⟨hd, name, rfl, rfl⟩

theorem reads_const (v : Json) : Reads (said "const" v) := by
  intro room e
  rw [ofJsonWithin?_const]
  constructor
  · rintro ⟨hr, value, hv, rfl⟩
    exact ⟨1, hr, denotes_const_iff.mpr ⟨value, hv, rfl, rfl⟩⟩
  · rintro ⟨d, hd, h⟩
    obtain ⟨value, hv, rfl, rfl⟩ := denotes_const_iff.mp h
    exact ⟨hd, value, hv, rfl⟩

/-- A list is read as what it stands for if its items are. -/
theorem reads_list (hitems : ∀ items, v = .array items → ∀ w ∈ items, Reads w) : Reads (said "list" v) := by
  intro room e
  rw [ofJsonWithin?_list]
  constructor
  · rintro ⟨hr, items, es, hv, hes, rfl⟩
    obtain ⟨d, hd, hes⟩ := (listWithin?_eq_some_iff (hitems items hv)).mp hes
    exact ⟨d + 2, by omega, denotes_list_iff.mpr ⟨items, es, d, hv, hes, rfl, rfl⟩⟩
  · rintro ⟨_, hd, h⟩
    obtain ⟨items, es, d, hv, hes, rfl, rfl⟩ := denotes_list_iff.mp h
    exact ⟨by omega, items, es, hv, (listWithin?_eq_some_iff (hitems items hv)).mpr ⟨d, by omega, hes⟩, rfl⟩

/-- A call that is an object is read as what it stands for if its target and its arguments are. -/
theorem reads_object (htargets : ∀ w ∈ valuesAt "target" members, Reads w)
    (hargs : ∀ w ∈ valuesAt "args" members, ∀ items, w = .array items → ∀ x ∈ items, Reads x) :
    Reads (said "call" (.object members)) := by
  intro room e
  rw [ofJsonWithin?_object]
  constructor
  · rintro ⟨hr, ms, hms, hm⟩
    obtain ⟨f, receiver, args, hf, ht, ha, rfl⟩ := ofMembers?_eq_some_iff.mp hm
    obtain ⟨hkeys, hfs, hts, hls⟩ := membersWithin?_iff_parts.mp ⟨ms, hms, hf, rfl, rfl⟩
    obtain ⟨d, hd, hreceives⟩ := (receives_iff htargets).mp ⟨_, hts, ht⟩
    obtain ⟨d', hd', hsupplies⟩ := (supplies_iff hargs).mp ⟨_, hls, ha⟩
    exact ⟨max d d' + 2, by omega, .call hkeys (functions_iff.mp hfs) hreceives hsupplies⟩
  · rintro ⟨_, hd, h⟩
    obtain ⟨f, receiver, args, d, d', hkeys, hf, ht, ha, rfl, rfl⟩ := denotes_object_iff.mp h
    obtain ⟨ts, hts, ht⟩ := (receives_iff htargets).mpr ⟨d, (by omega : d ≤ room - 2), ht⟩
    obtain ⟨ls, hls, ha⟩ := (supplies_iff hargs).mpr ⟨d', (by omega : d' ≤ room - 2), ha⟩
    obtain ⟨ms, hms, hfm, rfl, rfl⟩ := membersWithin?_iff_parts.mpr ⟨hkeys, functions_iff.mpr hf, hts, hls⟩
    exact ⟨by omega, ms, hms, ofMembers?_eq_some_iff.mpr ⟨f, receiver, args, hfm, ht, ha, rfl⟩⟩

/-- A call that is an array is read as what it stands for if its items and its arguments are. -/
theorem reads_row {items : List Json} (hitems : ∀ w ∈ items, Reads w)
    (hargs : ∀ w ∈ items, ∀ ls, w = .array ls → ∀ x ∈ ls, Reads x) : Reads (said "call" (.array items)) := by
  intro room e
  rw [ofJsonWithin?_row]
  constructor
  · rintro ⟨hr, ⟨f, rfl, rfl⟩ | ⟨f, t, receiver, rfl, ht, rfl⟩ | ⟨f, t, l, receiver, args, rfl, ht, hl, rfl⟩⟩
    · exact ⟨2, hr, denotes_row_iff.mpr ⟨f, [], [], none, [], 0, 0, rfl, fun _ => rfl, .absent, .absent, rfl, rfl⟩⟩
    · obtain ⟨d, hd, ht⟩ := (receiver?_eq_some_iff (hitems t (by simp))).mp ht
      exact ⟨max d 0 + 2, by omega,
        denotes_row_iff.mpr ⟨f, [t], [], receiver, [], d, 0, rfl, fun _ => rfl, ht, .absent, rfl, rfl⟩⟩
    · obtain ⟨d, hd, ht⟩ := (receiver?_eq_some_iff (hitems t (by simp))).mp ht
      obtain ⟨d', hd', hl⟩ := (argsWithin?_eq_some_iff (hargs l (by simp))).mp hl
      exact ⟨max d d' + 2, by omega,
        denotes_row_iff.mpr ⟨f, [t], [l], receiver, args, d, d', rfl, nofun, ht, hl, rfl, rfl⟩⟩
  · rintro ⟨_, hd, h⟩
    obtain ⟨f, target, rest, receiver, args, d, d', rfl, hne, ht, ha, rfl, rfl⟩ := denotes_row_iff.mp h
    refine ⟨by omega, ?_⟩
    rcases receives_cases ht with ⟨rfl, rfl⟩ | ⟨t, rfl⟩
    · obtain rfl := hne rfl
      cases ha
      exact .inl ⟨f, rfl, rfl⟩
    · have ht := (receiver?_eq_some_iff (hitems t (by simp))).mpr ⟨d, (by omega : d ≤ room - 2), ht⟩
      rcases supplies_cases ha with ⟨rfl, rfl⟩ | ⟨l, rfl⟩
      · exact .inr (.inl ⟨f, t, receiver, rfl, ht, rfl⟩)
      · have hl := (argsWithin?_eq_some_iff (hargs l (by simp))).mpr ⟨d', (by omega : d' ≤ room - 2), ha⟩
        exact .inr (.inr ⟨f, t, l, receiver, args, rfl, ht, hl, rfl⟩)

/-- A document is read as an expression exactly if it denotes it and there is room for its depth. -/
theorem ofJsonWithin?_eq_some_iff (v : Json) : Reads v := by
  induction hn : sizeOf v using Nat.strong_induction_on generalizing v with
  | _ n ih =>
    subst hn
    have below {w : Json} (hw : sizeOf w < sizeOf v) : Reads w := ih _ hw w rfl
    by_cases hs : Said v
    · cases hs with
      | ident v => exact reads_ident v
      | const v => exact reads_const v
      | list v =>
        refine reads_list ?_
        rintro items rfl w hw
        exact below ((sizeOf_lt_of_mem_items hw).trans (sizeOf_lt_said _ _))
      | object members =>
        have hvalue {key : String} {w : Json} (hw : w ∈ valuesAt key members) :
            sizeOf w < sizeOf (said "call" (.object members)) :=
          (sizeOf_lt_of_mem_members (mem_of_mem_valuesAt hw)).trans (sizeOf_lt_said _ _)
        refine reads_object (fun w hw => below (hvalue hw)) ?_
        rintro w hw items rfl x hx
        exact below ((sizeOf_lt_of_mem_items hx).trans (hvalue hw))
      | row items =>
        have hitem {w : Json} (hw : w ∈ items) : sizeOf w < sizeOf (said "call" (.array items)) :=
          (sizeOf_lt_of_mem_items hw).trans (sizeOf_lt_said _ _)
        refine reads_row (fun w hw => below (hitem hw)) ?_
        rintro w hw ls rfl x hx
        exact below ((sizeOf_lt_of_mem_items hx).trans (hitem hw))
    · intro room e
      constructor
      · intro h
        exact absurd (said_of_read h) hs
      · rintro ⟨d, -, h⟩
        exact absurd (said_of_denotes h) hs

end Expr

end WhereClause
