import OrderDesk.Text.Decimal

/-!
The tables that hold orders, as a schema: columns with their types and constraints, and the script
that creates them.
-/

namespace OrderDesk.Tables

inductive Table where
  | orders
  | deliveries
  | payments
  | items
deriving DecidableEq, Repr

def Table.name : Table → String
  | .orders => "orders"
  | .deliveries => "deliveries"
  | .payments => "payments"
  | .items => "items"

inductive ColumnType where
  | text
  | integer
  | timestamp
  | serial
deriving DecidableEq, Repr

def ColumnType.name : ColumnType → String
  | .text => "TEXT"
  | .integer => "BIGINT"
  | .timestamp => "TIMESTAMPTZ"
  | .serial => "BIGSERIAL"

inductive Bound where
  | notNegative
  | between (low high : Nat)
deriving DecidableEq, Repr

/-- A column. A primary key is never null either. -/
structure Column where
  name : String
  type : ColumnType
  primaryKey : Bool
  references : Option (Table × String)
  emptyDefault : Bool
  bound : Option Bound
deriving DecidableEq, Repr

namespace Column

def key (name : String) (type : ColumnType) : Column := ⟨name, type, true, none, false, none⟩

def orderKey (name : String) : Column :=
  ⟨name, .text, true, some (.orders, "order_uid"), false, none⟩

def text (name : String) : Column := ⟨name, .text, false, none, false, none⟩
def optionalText (name : String) : Column := ⟨name, .text, false, none, true, none⟩
def integer (name : String) : Column := ⟨name, .integer, false, none, false, none⟩
def amount (name : String) : Column := ⟨name, .integer, false, none, false, some .notNegative⟩

end Column

def Table.columns : Table → List Column
  | .orders =>
    [.key "order_uid" .text, .text "track_number", .text "entry", .text "locale",
      .optionalText "internal_signature", .text "customer_id", .text "delivery_service",
      .text "shardkey", .integer "sm_id", ⟨"date_created", .timestamp, false, none, false, none⟩,
      .text "oof_shard"]
  | .deliveries =>
    [.orderKey "order_uid", .text "name", .text "phone", .text "zip", .text "city",
      .text "address", .text "region", .text "email"]
  | .payments =>
    [.orderKey "transaction", .optionalText "request_id", .text "currency", .text "provider",
      .amount "amount", .integer "payment_dt", .text "bank", .amount "delivery_cost",
      .amount "goods_total", .amount "custom_fee"]
  | .items =>
    [.key "id" .serial, ⟨"order_uid", .text, false, some (.orders, "order_uid"), false, none⟩,
      .integer "chrt_id", .text "track_number", .integer "price", .text "rid", .text "name",
      ⟨"sale", .integer, false, none, false, some (.between 0 100)⟩, .text "size",
      .integer "total_price", .integer "nm_id", .text "brand", .integer "status"]

/-! ## The script -/

def Bound.text (column : String) : Bound → String
  | .notNegative => " CHECK (" ++ column ++ " >= 0)"
  | .between low high =>
    " CHECK (" ++ column ++ " BETWEEN " ++ Text.Decimal.natText low ++ " AND " ++
      Text.Decimal.natText high ++ ")"

def referenceText : Table × String → String
  | (t, column) => " REFERENCES " ++ t.name ++ "(" ++ column ++ ") ON DELETE CASCADE"

def paddedTo (width : Nat) (s : String) : String :=
  s ++ String.ofList (List.replicate (width - s.length) ' ')

def Column.line (width : Nat) (c : Column) : String :=
  "    " ++ paddedTo width c.name ++ " " ++ c.type.name ++
    (if c.primaryKey then " PRIMARY KEY" else " NOT NULL") ++
    (c.references.map referenceText).getD "" ++
    (if c.emptyDefault then " DEFAULT ''" else "") ++
    (c.bound.map (Bound.text c.name)).getD ""

def Table.script (t : Table) : String :=
  let width := (t.columns.map fun c => c.name.length).foldl max 0
  "CREATE TABLE IF NOT EXISTS " ++ t.name ++ " (\n" ++
    String.intercalate ",\n" (t.columns.map (Column.line width)) ++ "\n);\n\n"

def schema : String :=
  "-- Order aggregate: one row in orders, deliveries and payments, N rows in items.\n\n" ++
    String.join ([Table.orders, .deliveries, .payments, .items].map Table.script) ++
    "CREATE INDEX IF NOT EXISTS idx_items_order_uid_id ON items(order_uid, id);\n"

end OrderDesk.Tables
