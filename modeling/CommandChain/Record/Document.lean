import CommandChain.Record.Basic
import CommandChain.Value.Document
/-!
# Records as JSON documents

The document of a record names its channel and data, then its source and number. A message without
a known time has no document.
-/

namespace CommandChain

/-- The document of an error. The text stands as it was given, without a mark of cleanup. -/
def ErrorRecord.toJson (e : ErrorRecord) : Json :=
  .object [("message", .string e.message), ("category", .string e.category.name),
    ("error_id", .string e.errorId), ("target", (e.target.map Value.toJson).getD .null),
    ("terminating", .bool e.terminating),
    ("phase", (e.phase.map fun p => Json.string p.name).getD .null),
    ("during_cleanup", .bool e.duringCleanup)]

/-- The document of an informational message whose time is known. -/
def InformationRecord.toJson? (info : InformationRecord) : Option Json :=
  info.time.map fun t =>
    .object [("message_data", info.data.toJson), ("tags", .array (info.tags.map .string)),
      ("time_generated", .string t.text)]

def ProgressRecord.toJson (p : ProgressRecord) : Json :=
  .object [("activity_id", .int p.activityId), ("activity", .string p.activity),
    ("status", .string p.status),
    ("percent_complete", (p.percent.map fun n => Json.int n).getD .null),
    ("completed", .bool p.completed)]

/-- The document of what a record carries. -/
def Payload.toJson? : Payload → Option Json
  | .object v => some v.toJson
  | .message (.error e) => some e.toJson
  | .message (.warning s) | .message (.verbose s) | .message (.debug s) => some (.string s)
  | .message (.information info) => info.toJson?
  | .message (.progress p) => some p.toJson

def Record.toJson? (r : Record) : Option Json :=
  r.payload.toJson?.map fun data =>
    .object [("kind", .string r.kind.name), ("data", data),
      ("source", .object [("id", .int r.source.id.number), ("name", .string r.source.name)]),
      ("sequence", .int r.sequence)]

end CommandChain
