import WhereClause.Catalog.Basic
import WhereClause.Text.Blank

/-!
# The entities and their catalogs

Memos and attachments can be filtered, each with a catalog of its own.
-/

namespace WhereClause

/-- The catalog of memos. Tags have two names: `tag` is looked up in a list, and `tags` is looked into. -/
def memoCatalog : Catalog :=
  let payload : Column := ⟨"memo", "payload"⟩
  let tags : JsonPath := ⟨payload, ["tags"]⟩
  let flag (name key : String) : Field :=
    ⟨name, .bool, .jsonBool ⟨payload, ["property", key]⟩, payload, .standalone :: Operation.equality⟩
  Catalog.empty "memo"
    |>.withField ⟨"content", .string, .text, ⟨"memo", "content"⟩, .contains :: Operation.equality⟩
    |>.withField ⟨"creator_id", .int, .scalar, ⟨"memo", "creator_id"⟩, Operation.equality⟩
    |>.withField ⟨"created_ts", .int, .timestamp, ⟨"memo", "created_ts"⟩, Operation.ordering⟩
    |>.withField ⟨"updated_ts", .int, .timestamp, ⟨"memo", "updated_ts"⟩, Operation.ordering⟩
    |>.withAlias "create_time" "created_ts"
    |>.withAlias "update_time" "updated_ts"
    |>.withField ⟨"visibility", .string, .scalar, ⟨"memo", "visibility"⟩, .isIn :: Operation.equality⟩
    |>.withField ⟨"pinned", .bool, .boolColumn, ⟨"memo", "pinned"⟩, [.standalone]⟩
    |>.withField ⟨"tag", .string, .jsonList tags, payload, [.isIn]⟩
    |>.withField ⟨"tags", .string, .jsonList tags, payload, [.elementIn, .size]⟩
    |>.withField (flag "has_task_list" "hasTaskList")
    |>.withField (flag "has_link" "hasLink")
    |>.withField (flag "has_code" "hasCode")
    |>.withField (flag "has_incomplete_tasks" "hasIncompleteTasks")

/-- The catalog of attachments. -/
def attachmentCatalog : Catalog :=
  Catalog.empty "attachment"
    |>.withField ⟨"memo_id", .any, .scalar, ⟨"attachment", "memo_id"⟩, .isIn :: Operation.equality⟩
    |>.withField ⟨"filename", .string, .text, ⟨"attachment", "filename"⟩, [.contains]⟩
    |>.withField ⟨"mime_type", .string, .scalar, ⟨"attachment", "type"⟩, Operation.equality⟩
    |>.withField ⟨"create_time", .int, .timestamp, ⟨"attachment", "created_ts"⟩, Operation.ordering⟩

/-- What can be filtered. -/
inductive Entity where
  | memo | attachment
  deriving DecidableEq, Repr

/-- A name that is no entity's, as it is compared. -/
structure UnknownEntity where
  name : String
  deriving DecidableEq, Repr

/-- What is said of a name that is no entity's. -/
def UnknownEntity.message (e : UnknownEntity) : String := "Unknown filter entity: " ++ e.name

namespace Entity

/-- The name of an entity. -/
def name : Entity → String
  | .memo => "memo"
  | .attachment => "attachment"

/-- The catalog of an entity. -/
def catalog : Entity → Catalog
  | .memo => memoCatalog
  | .attachment => attachmentCatalog

/-- The entity that has exactly this name. -/
def ofKey? : String → Option Entity
  | "memo" => some .memo
  | "attachment" => some .attachment
  | _ => none

/-- The entity that a name stands for, whatever its case and the blanks around it. -/
def ofName (name : String) : Except UnknownEntity Entity :=
  match ofKey? (foldName name) with
  | some e => .ok e
  | none => .error ⟨foldName name⟩

end Entity

end WhereClause
