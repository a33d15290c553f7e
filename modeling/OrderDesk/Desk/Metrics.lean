import OrderDesk.Desk.Counter
import OrderDesk.Text.Decimal

/-!
The text of what was counted: a block of lines for each family of counters that has counted
something, with a line for each counter that has.
-/

namespace OrderDesk.Metrics

structure Family where
  name : String
  help : String
  counters : List (String × Counter)

def labelled (key value : String) : String := "\x7b" ++ key ++ "=\"" ++ value ++ "\"\x7d"

def families : List Family :=
  [⟨"order_pipeline_messages_total", "Messages that reached a terminal disposition, by outcome",
      Outcome.all.map fun o => (labelled "outcome" o.label, .message o)⟩,
    ⟨"order_pipeline_retries_total", "Handler attempts after the first one", [("", .retry)]⟩,
    ⟨"order_pipeline_duplicates_total",
      "Redelivered messages skipped by the processed-key set", [("", .duplicate)]⟩,
    ⟨"order_cache_hits_total", "Reads served from the local cache", [("", .hit)]⟩,
    ⟨"order_cache_misses_total", "Reads that fell through to the aggregate store",
      [("", .miss)]⟩,
    ⟨"order_store_upserts_total", "Aggregate writes, by kind (insert or replace)",
      [WriteKind.insert, .replace].map fun k => (labelled "kind" k.label, .upsert k)⟩]

def Family.samples (f : Family) (counted : List Counter) : List String :=
  f.counters.filterMap fun c =>
    let n := counted.count c.2
    if n = 0 then none else some (f.name ++ c.1 ++ " " ++ Text.Decimal.natText n)

/-- A family's block of lines; what it counts is told only if the families are described. -/
def Family.lines (f : Family) (described : Bool) (counted : List Counter) : List String :=
  match f.samples counted with
  | [] => []
  | samples =>
    (if described then ["# HELP " ++ f.name ++ " " ++ f.help] else []) ++
      ("# TYPE " ++ f.name ++ " counter") :: samples ++ [""]

def lines (described : Bool) (counted : List Counter) : List String :=
  families.flatMap fun f => f.lines described counted

def text (described : Bool) (counted : List Counter) : String :=
  String.join ((lines described counted).map fun l => l ++ "\n")

end OrderDesk.Metrics
