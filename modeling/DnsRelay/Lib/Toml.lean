import DnsRelay.Lib.Text

/-!
# TOML values

The values of a TOML document, and how a program reads them.  A reader returns
nothing when a value does not have the form that it expects.
-/

namespace DnsRelay.Lib

/-- A value.  Floats and dates are kept as texts. -/
inductive Toml where
  | string (text : Str)
  | integer (value : Int)
  | float (text : Str)
  | boolean (value : Bool)
  | datetime (text : Str)
  | array (items : List Toml)
  | table (fields : List (String × Toml))
deriving Repr

namespace Toml

def get (value : Toml) (name : String) : Option Toml :=
  match value with
  | .table fields => fields.lookup name
  | _ => none

def asBool : Toml → Option Bool
  | .boolean value => some value
  | _ => none

def asStr : Toml → Option Str
  | .string text => some text
  | _ => none

def asNat : Toml → Option Nat
  | .integer value => if 0 ≤ value then some value.toNat else none
  | _ => none

def asList {α : Type} (read : Toml → Option α) : Toml → Option (List α)
  | .array items => items.mapM read
  | _ => none

def isTable : Toml → Bool
  | .table _ => true
  | _ => false

def field {α : Type} (value : Toml) (name : String) (read : Toml → Option α) : Option α :=
  (value.get name).bind read

def fieldOr {α : Type} (value : Toml) (name : String) (read : Toml → Option α) (default : α) :
    Option α :=
  match value.get name with
  | none => some default
  | some value => read value

def strings (texts : List Str) : Toml := .array (texts.map .string)

theorem field_eq {α : Type} {value item : Toml} {name : String} {read : Toml → Option α} {a : α}
    (hget : value.get name = some item) (hread : read item = some a) :
    value.field name read = some a := by
  rw [field, hget, Option.bind_some, hread]

theorem fieldOr_eq {α : Type} {value item : Toml} {name : String} {read : Toml → Option α}
    {a default : α} (hget : value.get name = some item) (hread : read item = some a) :
    value.fieldOr name read default = some a := by
  rw [fieldOr, hget]
  exact hread

theorem fieldOr_default {α : Type} {value : Toml} {name : String} {read : Toml → Option α}
    {default : α} (hget : value.get name = none) :
    value.fieldOr name read default = some default := by
  rw [fieldOr, hget]

theorem asNat_ofNat (n : Nat) : asNat (.integer n) = some n := by
  show (if 0 ≤ (n : Int) then some (n : Int).toNat else none) = some n
  rw [if_pos (Int.natCast_nonneg n), Int.toNat_natCast]

/-- A list is read back when its items are. -/
theorem asList_map {α : Type} {read : Toml → Option α} {write : α → Toml} {items : List α}
    (h : ∀ item ∈ items, read (write item) = some item) :
    asList read (.array (items.map write)) = some items := by
  show (items.map write).mapM read = some items
  induction items with
  | nil => rfl
  | cons item items ih =>
      rw [List.map_cons, List.mapM_cons, h item (List.mem_cons_self ..),
        ih fun x hx => h x (List.mem_cons_of_mem _ hx)]
      rfl

theorem asList_strings (texts : List Str) : asList asStr (strings texts) = some texts :=
  asList_map fun _ _ => rfl

end Toml

end DnsRelay.Lib
