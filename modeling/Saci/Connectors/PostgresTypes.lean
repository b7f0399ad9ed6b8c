import Saci.Core.RecordBatch

/-!
# Declared fields and catalog columns

`FieldSpec` (`saci-connector-postgresql/src/config.rs`) and `ColumnType` (`src/types.rs`): what a
configuration declares of a column, and what the catalog says of it.
-/

namespace Saci.Postgres

/-- The declared type of a column. -/
inductive PgFieldType
  | boolean
  | int16
  | int32
  | int64
  | float32
  | float64
  | utf8
  | binary
  | date32
  | time64Micros
  | timestampMicros
  | timestampMicrosUtc
  | uuid
  | json
  | decimal128
  | intervalMonthDayNano
  /-- A one-dimensional array of the `item`. -/
  | list
  deriving DecidableEq

structure FieldSpec where
  name : String
  ty : PgFieldType
  nullable : Bool
  precision : Option Nat
  scale : Option Int
  item : Option PgFieldType
  pgType : Option String
  deriving DecidableEq

/-- A column of the table, as the catalog has it. -/
structure ColumnType where
  name : String
  /-- The type to decode as: the base type of a domain. -/
  oid : Nat
  /-- The column's own type, which a `Relation` message publishes. -/
  attributeOid : Nat
  display : String
  baseDisplay : String
  typmod : Int
  catalog : Option (String × String)
  deriving DecidableEq

end Saci.Postgres
