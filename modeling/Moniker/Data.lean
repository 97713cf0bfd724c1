/-! # Structured data

Values as configuration texts hold them, and how typed fields are read from them. A reading
fails on a value of another form; nothing is converted. -/

namespace Moniker

/-- A value: nothing, a scalar, a list or a table. Of a real and of a moment in time nothing is
kept, as no field holds one. -/
inductive Data where
  | null
  | bool (b : Bool)
  | int (i : Int)
  | real
  | text (s : String)
  | moment
  | list (items : List Data)
  | table (fields : List (String × Data))
  deriving Inhabited

namespace Data

def bool? : Data → Option Bool
  | bool b => some b
  | _ => none

def text? : Data → Option String
  | text s => some s
  | _ => none

def code? : Data → Option Int32
  | int i => if Int32.minValue.toInt ≤ i ∧ i ≤ Int32.maxValue.toInt then some (Int32.ofInt i) else none
  | _ => none

/-- A size, which is an unsigned 64-bit word. -/
def size? : Data → Option UInt64
  | int i => if 0 ≤ i ∧ i < UInt64.size then some i.toNat.toUInt64 else none
  | _ => none

/-- A value that may be nothing. -/
def optional? {α : Type} (read : Data → Option α) : Data → Option (Option α)
  | null => some none
  | d => (read d).map some

def items? {α : Type} (read : Data → Option α) : Data → Option (List α)
  | list ds => ds.mapM read
  | _ => none

/-- The word of a choice: a text, or a table whose only key is the word and whose value is
empty. -/
def choice? : Data → Option String
  | text s => some s
  | table [(word, table [])] => some word
  | table [(word, list [])] => some word
  | _ => none

/-- The fields of a record whose declared order is given. A list holds their values in that
order, its end may be missing and more is ignored; a moment is a record that has none of the
fields. -/
def fields? (declared : List String) : Data → Option (List (String × Data))
  | table fields => some fields
  | list ds => some (declared.zip ds)
  | moment => some []
  | _ => none

/-- A field that must be there. -/
def required? {α : Type} (fields : List (String × Data)) (key : String)
    (read : Data → Option α) : Option α :=
  (fields.lookup key).bind read

/-- A field that has a default where it is missing. -/
def defaulted? {α : Type} (fields : List (String × Data)) (key : String) (default : α)
    (read : Data → Option α) : Option α :=
  match fields.lookup key with
  | none => some default
  | some d => read d

end Data

end Moniker
