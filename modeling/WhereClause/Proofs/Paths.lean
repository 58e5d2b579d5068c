import WhereClause.Proofs.Fragment.Inert

/-!
# Reading JSON paths

MySQL takes a path as one quoted text, with a dot before each key; PostgreSQL takes the keys one by one, each in quotes
behind an arrow, of which the last may ask for a text. Both are read by cutting at the quotes what stands behind the
column, and the path of MySQL once more at its dots (`MySql.keys?`, `Postgres.steps?`). Where no key holds a dot or a
quote, the reading is exact: the keys are read from the text that they are written as and from no other. So the dialects
address the same place, and tell the same paths apart (`paths_are_read_back`).
-/

namespace WhereClause

/-- There is a key, and no key holds what stands between keys: a dot in one dialect, a single quote in the other. -/
structure Separable (keys : List String) : Prop where
  ne_nil : keys ≠ []
  dot : ∀ key ∈ keys, '.' ∉ key.toList
  quote : ∀ key ∈ keys, '\'' ∉ key.toList

instance (keys : List String) : Decidable (Separable keys) :=
  decidable_of_iff (keys ≠ [] ∧ (∀ key ∈ keys, '.' ∉ key.toList) ∧ ∀ key ∈ keys, '\'' ∉ key.toList)
    ⟨fun h => ⟨h.1, h.2.1, h.2.2⟩, fun h => ⟨h.ne_nil, h.dot, h.quote⟩⟩

/-- What stands behind the head of a text, cut at single quotes. -/
def piecesBehind? (head text : String) : Option (List (List Char)) :=
  (text.toList.dropPrefix? head.toList).map (List.splitOn '\'')

namespace MySql

/-- The keys of a text that has been cut at its quotes: one path is quoted, and its keys stand between dots. -/
def keysOfPieces? : List (List Char) → Option (List String)
  | [[',', ' '], '$' :: '.' :: path, [')']] => some ((path.splitOn '.').map String.ofList)
  | _ => none

/-- The keys of a path of MySQL into the document of a column. -/
def keys? (c : Column) (text : String) : Option (List String) :=
  (piecesBehind? ("JSON_EXTRACT(" ++ column c) text).bind keysOfPieces?

end MySql

namespace Postgres

/-- A step into a document, to the JSON value found there or to its text. -/
inductive Step where
  | value (key : String)
  | text (key : String)
  deriving DecidableEq, Repr

/-- The key of a step. -/
def Step.key : Step → String
  | .value key | .text key => key

/-- The arrow of a step. -/
def Step.arrow : Step → List Char
  | .value _ => ['-', '>']
  | .text _ => ['-', '>', '>']

/-- How a step is written. -/
def Step.sql : Step → String
  | .value key => Postgres.arrow key
  | .text key => Postgres.textArrow key

/-- The steps along a path, of which the last gives a text. -/
def textSteps (keys : List String) (h : keys ≠ []) : List Step :=
  keys.dropLast.map .value ++ [.text (keys.getLast h)]

/-- The steps of a text that has been cut at its quotes: arrows and keys in turn, and nothing behind the last key. -/
def stepsOfPieces? : List (List Char) → Option (List Step)
  | [[]] => some []
  | ['-', '>'] :: key :: rest => (stepsOfPieces? rest).map (.value (.ofList key) :: ·)
  | ['-', '>', '>'] :: key :: rest => (stepsOfPieces? rest).map (.text (.ofList key) :: ·)
  | _ => none

/-- The steps of a path of PostgreSQL into the document of a column. -/
def steps? (c : Column) (text : String) : Option (List Step) :=
  (piecesBehind? (column c) text).bind stepsOfPieces?

example : steps? ⟨"memo", "payload"⟩ "memo.payload->'property'->>''" = some [.value "property", .text ""] := by
  decide +kernel

end Postgres

/-! ## Pieces between quotes -/

/-- What stands behind a head is cut at its quotes. -/
theorem piecesBehind?_append (head rest : String) :
    piecesBehind? head (head ++ rest) = some (rest.toList.splitOn '\'') := by
  rw [piecesBehind?, String.toList_append, List.dropPrefix?_append_of_beq _ (beq_self_eq_true head.toList),
    Option.map_some]

/-- The pieces of a text put together again. -/
theorem eq_of_piecesBehind? {head text : String} {pieces : List (List Char)}
    (h : piecesBehind? head text = some pieces) : text.toList = head.toList ++ ['\''].intercalate pieces := by
  obtain ⟨rest, hrest, rfl⟩ := Option.map_eq_some_iff.mp h
  obtain ⟨head', htext, hhead⟩ := List.dropPrefix?_eq_some_iff.mp hrest
  rw [htext, eq_of_beq hhead, List.intercalate_splitOn]

/-! ## Paths of MySQL -/

/-- Keys without dots are what stands between the dots of their path. -/
theorem splitOn_dots {keys : List String} (hne : keys ≠ []) (h : ∀ key ∈ keys, '.' ∉ key.toList) :
    (".".intercalate keys).toList.splitOn '.' = keys.map String.toList := by
  rw [String.toList_intercalate]
  refine List.splitOn_intercalate '.' (fun l hl => ?_) (mt List.map_eq_nil_iff.mp hne)
  obtain ⟨key, hkey, rfl⟩ := List.mem_map.mp hl
  exact h key hkey

namespace MySql

/-- A path is written as what stands up to its column, and the path in quotes. -/
theorem jsonExtract_eq (p : JsonPath) :
    jsonExtract p = ("JSON_EXTRACT(" ++ column p.column) ++ (", '" ++ p.dollar ++ "')") := by
  show "JSON_EXTRACT(" ++ column p.column ++ ", '" ++ p.dollar ++ "')" = _
  simp only [String.append_assoc]

/-- The keys of an extraction are read from its text. -/
theorem keys?_jsonExtract (c : Column) {keys : List String} (h : Separable keys) :
    keys? c (jsonExtract ⟨c, keys⟩) = some keys := by
  have hquote : '\'' ∉ '$' :: '.' :: (".".intercalate keys).toList := by
    simpa using not_mem_intercalate (by decide : '\'' ∉ ".".toList) h.quote
  have hpieces : (", '" ++ JsonPath.dollar ⟨c, keys⟩ ++ "')").toList.splitOn '\'' =
      [[',', ' '], '$' :: '.' :: (".".intercalate keys).toList, [')']] := by
    have ht : (", '" ++ JsonPath.dollar ⟨c, keys⟩ ++ "')").toList =
        [',', ' '] ++ '\'' :: ('$' :: '.' :: (".".intercalate keys).toList ++ '\'' :: [')']) := by
      simp [JsonPath.dollar]
    rw [ht, List.splitOn_append_cons_self_of_not_mem (by decide), List.splitOn_append_cons_self_of_not_mem hquote,
      List.splitOn_eq_singleton (by decide)]
  have hkeys : ((".".intercalate keys).toList.splitOn '.').map String.ofList = keys := by
    rw [splitOn_dots h.ne_nil h.dot, List.map_map]
    simp [Function.comp_def]
  rw [keys?, jsonExtract_eq, piecesBehind?_append, hpieces, Option.bind_some]
  exact congrArg some hkeys

/-- A text that keys are read from is their extraction. -/
theorem eq_of_keys? {c : Column} {keys : List String} {text : String} (h : keys? c text = some keys) :
    text = jsonExtract ⟨c, keys⟩ := by
  obtain ⟨pieces, hpieces, hkeys⟩ := Option.bind_eq_some_iff.mp h
  have ht := eq_of_piecesBehind? hpieces
  unfold keysOfPieces? at hkeys
  split at hkeys
  next path =>
    cases hkeys
    have hpath : (".".intercalate ((path.splitOn '.').map String.ofList)).toList = path := by
      rw [String.toList_intercalate, List.map_map]
      simp [Function.comp_def]
    rw [jsonExtract_eq, ← String.toList_inj, ht]
    simp [JsonPath.dollar, hpath]
  · cases hkeys

/-- Separable keys are read from the text of their path, and from no other text. -/
theorem keys?_eq_some_iff (c : Column) {keys : List String} (h : Separable keys) (text : String) :
    keys? c text = some keys ↔ text = jsonExtract ⟨c, keys⟩ := by
  constructor
  · exact eq_of_keys?
  · rintro rfl
    exact keys?_jsonExtract c h

/-- Extractions along different keys are written differently. -/
theorem jsonExtract_inj (c : Column) {keys keys' : List String} (h : Separable keys) (h' : Separable keys') :
    jsonExtract ⟨c, keys⟩ = jsonExtract ⟨c, keys'⟩ ↔ keys = keys' := by
  constructor
  · intro he
    have hread := keys?_jsonExtract c h
    rw [he, keys?_jsonExtract c h'] at hread
    exact (Option.some.inj hread).symm
  · rintro rfl
    rfl

end MySql

/-! ## Paths of PostgreSQL -/

namespace Postgres

/-- A value at a path is the column and a step to each key. -/
theorem json_eq (c : Column) (keys : List String) :
    json ⟨c, keys⟩ = column c ++ String.join ((keys.map Step.value).map Step.sql) := by
  rw [List.map_map]
  rfl

theorem map_key_valueSteps (keys : List String) : (keys.map Step.value).map Step.key = keys := by
  rw [List.map_map]
  exact List.map_id keys

theorem map_key_textSteps {keys : List String} (h : keys ≠ []) : (textSteps keys h).map Step.key = keys := by
  rw [textSteps, List.map_append, map_key_valueSteps]
  exact List.dropLast_append_getLast h

/-- The text at a path is the column and a step to each key, the last of which takes the text. -/
theorem jsonText_eq (c : Column) {keys : List String} (h : keys ≠ []) :
    jsonText ⟨c, keys⟩ = column c ++ String.join ((textSteps keys h).map Step.sql) := by
  have arrows : textArrows keys = String.join ((textSteps keys h).map Step.sql) := by
    fun_induction textArrows keys with
    | case1 => exact absurd rfl h
    | case2 key => simp [textSteps, Step.sql]
    | case3 key keys hne ih =>
      obtain ⟨key', keys, rfl⟩ := List.exists_cons_of_ne_nil (l := keys) (by rintro rfl; exact hne rfl)
      rw [ih (List.cons_ne_nil key' keys)]
      simp [textSteps, Step.sql]
  rw [jsonText, arrows]

/-- A step is written as its arrow and its key in quotes. -/
theorem Step.toList_sql (step : Step) : step.sql.toList = step.arrow ++ '\'' :: (step.key.toList ++ ['\'']) := by
  cases step <;> simp [sql, arrow, key, Postgres.arrow, textArrow]

/-- No arrow holds a quote. -/
theorem Step.quote_not_mem_arrow (step : Step) : '\'' ∉ step.arrow := by
  cases step <;> simp [arrow]

/-- An arrow and a key are a step before the others. -/
theorem stepsOfPieces?_cons_cons (step : Step) (rest : List (List Char)) :
    stepsOfPieces? (step.arrow :: step.key.toList :: rest) = (stepsOfPieces? rest).map (step :: ·) := by
  cases step <;> simp [stepsOfPieces?, Step.arrow, Step.key]

/-- Steps are read back when no quote is in their keys. -/
theorem stepsOfPieces?_splitOn {steps : List Step} (h : ∀ step ∈ steps, '\'' ∉ step.key.toList) :
    stepsOfPieces? ((String.join (steps.map Step.sql)).toList.splitOn '\'') = some steps := by
  induction steps with
  | nil => rfl
  | cons step steps ih =>
    obtain ⟨hstep, hsteps⟩ := List.forall_mem_cons.mp h
    have ht : (String.join ((step :: steps).map Step.sql)).toList =
        step.arrow ++ '\'' :: (step.key.toList ++ '\'' :: (String.join (steps.map Step.sql)).toList) := by
      rw [List.map_cons, String.join_cons, String.toList_append, step.toList_sql]
      simp
    rw [ht, List.splitOn_append_cons_self_of_not_mem step.quote_not_mem_arrow,
      List.splitOn_append_cons_self_of_not_mem hstep, stepsOfPieces?_cons_cons, ih hsteps, Option.map_some]

/-- Steps are read from no other pieces than theirs. -/
theorem intercalate_of_stepsOfPieces? {pieces : List (List Char)} {steps : List Step}
    (h : stepsOfPieces? pieces = some steps) :
    ['\''].intercalate pieces = (String.join (steps.map Step.sql)).toList := by
  -- The two arrows are one case: both stand before a key, and what is behind the key is read by itself.
  have joined (step : Step) {rest : List (List Char)} {steps : List Step} (hrest : stepsOfPieces? rest = some steps)
      (ih : ['\''].intercalate rest = (String.join (steps.map Step.sql)).toList) :
      ['\''].intercalate (step.arrow :: step.key.toList :: rest) =
        (String.join ((step :: steps).map Step.sql)).toList := by
    have hne : rest ≠ [] := by
      rintro rfl
      cases hrest
    rw [List.intercalate_cons_cons, List.intercalate_cons_of_ne_nil hne, ih, List.map_cons, String.join_cons,
      String.toList_append, step.toList_sql]
    simp
  fun_induction stepsOfPieces? pieces generalizing steps with
  | case1 =>
    cases h
    rfl
  | case2 key rest ih =>
    obtain ⟨steps, hrest, rfl⟩ := Option.map_eq_some_iff.mp h
    have := joined (.value (.ofList key)) hrest (ih hrest)
    rwa [Step.key, String.toList_ofList] at this
  | case3 key rest ih =>
    obtain ⟨steps, hrest, rfl⟩ := Option.map_eq_some_iff.mp h
    have := joined (.text (.ofList key)) hrest (ih hrest)
    rwa [Step.key, String.toList_ofList] at this
  | case4 => cases h

/-- Steps whose keys hold no quote are read from what they are written as behind the column, and from no other text. -/
theorem steps?_eq_some_iff (c : Column) {steps : List Step} (h : ∀ key ∈ steps.map Step.key, '\'' ∉ key.toList)
    (text : String) : steps? c text = some steps ↔ text = column c ++ String.join (steps.map Step.sql) := by
  constructor
  · intro ht
    obtain ⟨pieces, hpieces, hsteps⟩ := Option.bind_eq_some_iff.mp ht
    rw [← String.toList_inj, eq_of_piecesBehind? hpieces, intercalate_of_stepsOfPieces? hsteps, String.toList_append]
  · rintro rfl
    rw [steps?, piecesBehind?_append, Option.bind_some,
      stepsOfPieces?_splitOn fun step hstep => h step.key (List.mem_map_of_mem hstep)]

/-- The steps to a value are read from its text and from no other. -/
theorem steps?_json_iff (c : Column) {keys : List String} (h : ∀ key ∈ keys, '\'' ∉ key.toList) (text : String) :
    steps? c text = some (keys.map .value) ↔ text = json ⟨c, keys⟩ := by
  rw [json_eq, steps?_eq_some_iff]
  rwa [map_key_valueSteps]

/-- The steps to a text are read from the text of this path and from no other. -/
theorem steps?_jsonText_iff (c : Column) {keys : List String} (hne : keys ≠ [])
    (h : ∀ key ∈ keys, '\'' ∉ key.toList) (text : String) :
    steps? c text = some (textSteps keys hne) ↔ text = jsonText ⟨c, keys⟩ := by
  rw [jsonText_eq c hne, steps?_eq_some_iff]
  rwa [map_key_textSteps]

/-- Different steps into a column are written differently, unless there are quotes in their keys. -/
theorem steps_inj (c : Column) {steps steps' : List Step} (h : ∀ key ∈ steps.map Step.key, '\'' ∉ key.toList)
    (h' : ∀ key ∈ steps'.map Step.key, '\'' ∉ key.toList) :
    column c ++ String.join (steps.map Step.sql) = column c ++ String.join (steps'.map Step.sql) ↔
      steps = steps' := by
  constructor
  · intro he
    have hread := (steps?_eq_some_iff c h _).mpr rfl
    rw [he, (steps?_eq_some_iff c h' _).mpr rfl] at hread
    exact (Option.some.inj hread).symm
  · rintro rfl
    rfl

/-- Values at different paths are written differently. -/
theorem json_inj (c : Column) {keys keys' : List String} (h : ∀ key ∈ keys, '\'' ∉ key.toList)
    (h' : ∀ key ∈ keys', '\'' ∉ key.toList) : json ⟨c, keys⟩ = json ⟨c, keys'⟩ ↔ keys = keys' := by
  rw [← map_key_valueSteps keys] at h
  rw [← map_key_valueSteps keys'] at h'
  rw [json_eq, json_eq, steps_inj c h h']
  exact List.map_inj_right fun _ _ => Step.value.inj

/-- So are the texts at different paths. -/
theorem jsonText_inj (c : Column) {keys keys' : List String} (hne : keys ≠ []) (hne' : keys' ≠ [])
    (h : ∀ key ∈ keys, '\'' ∉ key.toList) (h' : ∀ key ∈ keys', '\'' ∉ key.toList) :
    jsonText ⟨c, keys⟩ = jsonText ⟨c, keys'⟩ ↔ keys = keys' := by
  rw [← map_key_textSteps hne] at h
  rw [← map_key_textSteps hne'] at h'
  rw [jsonText_eq c hne, jsonText_eq c hne', steps_inj c h h']
  constructor
  · intro he
    rw [← map_key_textSteps hne, he, map_key_textSteps hne']
  · rintro rfl
    rfl

end Postgres

/-! ## Both dialects -/

/-- A path is written for MySQL as `$.` and its keys with dots between them, and cutting that at its dots gives the
keys; for PostgreSQL it is written behind the column, key by key, with the arrow of a text before the last one where a
text is asked for and nowhere else. In either dialect the keys are read from the text of their path and from no other
text, so paths into the same column have the same text in one dialect exactly if they are the same, and exactly if they
have the same text in the other. -/
theorem paths_are_read_back (c : Column) {keys : List String} (h : Separable keys) :
    (MySql.jsonExtract ⟨c, keys⟩ =
        "JSON_EXTRACT(" ++ MySql.column c ++ ", '" ++ ("$." ++ ".".intercalate keys) ++ "')" ∧
      (".".intercalate keys).toList.splitOn '.' = keys.map String.toList ∧
      ∀ text, MySql.keys? c text = some keys ↔ text = MySql.jsonExtract ⟨c, keys⟩) ∧
    (Postgres.json ⟨c, keys⟩ = Postgres.column c ++ String.join (keys.map fun key => "->'" ++ key ++ "'") ∧
      ∀ text, Postgres.steps? c text = some (keys.map .value) ↔ text = Postgres.json ⟨c, keys⟩) ∧
    (Postgres.jsonText ⟨c, keys⟩ =
        Postgres.json ⟨c, keys.dropLast⟩ ++ ("->>'" ++ keys.getLast h.ne_nil ++ "'") ∧
      (Postgres.textSteps keys h.ne_nil).map Postgres.Step.key = keys ∧
      ∀ text, Postgres.steps? c text = some (Postgres.textSteps keys h.ne_nil) ↔
        text = Postgres.jsonText ⟨c, keys⟩) ∧
    ∀ keys', Separable keys' →
      (MySql.jsonExtract ⟨c, keys⟩ = MySql.jsonExtract ⟨c, keys'⟩ ↔ keys = keys') ∧
      (Postgres.json ⟨c, keys⟩ = Postgres.json ⟨c, keys'⟩ ↔ keys = keys') ∧
      (Postgres.jsonText ⟨c, keys⟩ = Postgres.jsonText ⟨c, keys'⟩ ↔ keys = keys') := by
  have last : Postgres.jsonText ⟨c, keys⟩ =
      Postgres.json ⟨c, keys.dropLast⟩ ++ ("->>'" ++ keys.getLast h.ne_nil ++ "'") := by
    rw [Postgres.jsonText_eq c h.ne_nil, Postgres.json_eq, Postgres.textSteps, List.map_append, String.join_append,
      String.append_assoc]
    simp [Postgres.Step.sql, Postgres.textArrow]
  refine ⟨⟨rfl, splitOn_dots h.ne_nil h.dot, MySql.keys?_eq_some_iff c h⟩, ⟨rfl, Postgres.steps?_json_iff c h.quote⟩,
    ⟨last, Postgres.map_key_textSteps h.ne_nil, Postgres.steps?_jsonText_iff c h.ne_nil h.quote⟩,
    fun keys' h' => ⟨?_, ?_, ?_⟩⟩
  · exact MySql.jsonExtract_inj c h h'
  · exact Postgres.json_inj c h.quote h'.quote
  · exact Postgres.jsonText_inj c h.ne_nil h'.ne_nil h.quote h'.quote

/-- A path with an empty key, into a column whose name looks like a step itself. -/
theorem paths_are_read_back_empty :
    let c : Column := ⟨"memo", "it->'s'"⟩
    let keys := ["property", "", "hasTaskList"]
    Separable keys ∧ Separable ["property", "hasTaskList"] ∧
      MySql.keys? c "JSON_EXTRACT(`memo`.`it->'s'`, '$.property..hasTaskList')" = some keys ∧
      Postgres.steps? c "memo.it->'s'->'property'->''->>'hasTaskList'" =
        some [.value "property", .value "", .text "hasTaskList"] ∧
      MySql.jsonExtract ⟨c, keys⟩ ≠ MySql.jsonExtract ⟨c, ["property", "hasTaskList"]⟩ ∧
      Postgres.json ⟨c, keys⟩ ≠ Postgres.json ⟨c, ["property", "hasTaskList"]⟩ := by
  intro c keys
  have h : Separable keys := by decide
  have h' : Separable ["property", "hasTaskList"] := by decide
  obtain ⟨⟨-, -, hmySql⟩, -, ⟨-, -, htext⟩, htold⟩ := paths_are_read_back c h
  obtain ⟨hextract, hjson, -⟩ := htold _ h'
  refine ⟨h, h', (hmySql _).mpr (by decide +kernel), (htext _).mpr (by decide +kernel), ?_, ?_⟩
  · exact mt hextract.mp (by decide)
  · exact mt hjson.mp (by decide)

-- A dot within a key is not told from one between two keys.
example (c : Column) : MySql.jsonExtract ⟨c, ["a.b"]⟩ = MySql.jsonExtract ⟨c, ["a", "b"]⟩ := rfl

end WhereClause
