import DnsRelay.Lib.Toml

/-!
# Paths in a TOML document

A leaf of a document is a value that has no parts.  Its path are the keys of
the tables on the way.  Arrays are passed without a key.

A path can be written as a text, with dots before keys and brackets for arrays.
The text determines the path if the keys have neither.  A key of a document may
have them, since it may be quoted, and it may be empty.
-/

namespace DnsRelay.Lib

namespace Toml

/-- Whether the value is neither an array nor a table. -/
def isScalar : Toml → Bool
  | .array _ | .table _ => false
  | .string _ | .integer _ | .float _ | .boolean _ | .datetime _ => true

mutual

def leafPaths : Toml → List (List String)
  | .table fields => if fields.isEmpty then [[]] else fieldPaths fields
  | .array items => if items.isEmpty then [[]] else itemPaths items
  | .string _ | .integer _ | .float _ | .boolean _ | .datetime _ => [[]]

def fieldPaths : List (String × Toml) → List (List String)
  | [] => []
  | (key, value) :: rest => (leafPaths value).map (key :: ·) ++ fieldPaths rest

def itemPaths : List Toml → List (List String)
  | [] => []
  | value :: rest => leafPaths value ++ itemPaths rest

end

mutual

def distinct : Toml → Bool
  | .table fields => decide (fields.map Prod.fst).Nodup && fieldsDistinct fields
  | .array items => itemsDistinct items
  | .string _ | .integer _ | .float _ | .boolean _ | .datetime _ => true

/-- Whether that is so below the fields of a table. -/
def fieldsDistinct : List (String × Toml) → Bool
  | [] => true
  | (_, value) :: rest => distinct value && fieldsDistinct rest

/-- Whether that is so below the items of an array. -/
def itemsDistinct : List Toml → Bool
  | [] => true
  | value :: rest => distinct value && itemsDistinct rest

end

/-- A leaf at the end of the keys. -/
inductive LeafAt : Toml → List String → Prop where
  | scalar {value : Toml} (isScalar : value.isScalar = true) : LeafAt value []
  | emptyTable : LeafAt (.table []) []
  | emptyArray : LeafAt (.array []) []
  | field {fields : List (String × Toml)} {key : String} {value : Toml} {path : List String}
      (mem : (key, value) ∈ fields) (leaf : LeafAt value path) :
      LeafAt (.table fields) (key :: path)
  | item {items : List Toml} {value : Toml} {path : List String} (mem : value ∈ items)
      (leaf : LeafAt value path) : LeafAt (.array items) path

mutual

/-- The leaves that are listed are leaves. -/
theorem leafAt_of_mem : ∀ (value : Toml) {path : List String}, path ∈ leafPaths value →
    LeafAt value path
  | .table fields, path, h => by
      rw [leafPaths] at h
      split at h
      · next hempty =>
          rw [List.isEmpty_iff.mp hempty, List.mem_singleton.mp h]
          exact .emptyTable
      · obtain ⟨field, hmem, rest, rfl, hleaf⟩ := leafAt_of_mem_fieldPaths fields h
        exact .field hmem hleaf
  | .array items, path, h => by
      rw [leafPaths] at h
      split at h
      · next hempty =>
          rw [List.isEmpty_iff.mp hempty, List.mem_singleton.mp h]
          exact .emptyArray
      · obtain ⟨item, hmem, hleaf⟩ := leafAt_of_mem_itemPaths items h
        exact .item hmem hleaf
  | .string _, path, h | .integer _, path, h | .float _, path, h | .boolean _, path, h
  | .datetime _, path, h => by
      rw [List.mem_singleton.mp h]
      exact .scalar rfl

theorem leafAt_of_mem_fieldPaths : ∀ (fields : List (String × Toml)) {path : List String},
    path ∈ fieldPaths fields →
      ∃ field ∈ fields, ∃ rest, path = field.1 :: rest ∧ LeafAt field.2 rest
  | [], path, h => absurd h List.not_mem_nil
  | (key, value) :: fields, path, h => by
      rcases List.mem_append.mp h with h | h
      · obtain ⟨rest, hrest, rfl⟩ := List.mem_map.mp h
        exact ⟨(key, value), List.mem_cons_self, rest, rfl, leafAt_of_mem value hrest⟩
      · obtain ⟨field, hmem, hfield⟩ := leafAt_of_mem_fieldPaths fields h
        exact ⟨field, List.mem_cons_of_mem _ hmem, hfield⟩

theorem leafAt_of_mem_itemPaths : ∀ (items : List Toml) {path : List String},
    path ∈ itemPaths items → ∃ item ∈ items, LeafAt item path
  | [], path, h => absurd h List.not_mem_nil
  | value :: items, path, h => by
      rcases List.mem_append.mp h with h | h
      · exact ⟨value, List.mem_cons_self, leafAt_of_mem value h⟩
      · obtain ⟨item, hmem, hleaf⟩ := leafAt_of_mem_itemPaths items h
        exact ⟨item, List.mem_cons_of_mem _ hmem, hleaf⟩

end

section

variable {value : Toml} {fields : List (String × Toml)} {items : List Toml} {path : List String}

theorem LeafAt.of_isScalar (h : LeafAt value path) (hscalar : value.isScalar = true) :
    path = [] := by
  cases h with
  | scalar => rfl
  | emptyTable => rfl
  | emptyArray => rfl
  | field => cases hscalar
  | item => cases hscalar

theorem LeafAt.of_items (h : LeafAt (.array items) path)
    (hscalar : ∀ item ∈ items, item.isScalar = true) : path = [] := by
  cases h with
  | scalar => rfl
  | emptyArray => rfl
  | item hmem hleaf => exact hleaf.of_isScalar (hscalar _ hmem)

theorem lookup_of_mem {key : String} (hnodup : (fields.map Prod.fst).Nodup)
    (hmem : (key, value) ∈ fields) : fields.lookup key = some value := by
  induction fields with
  | nil => cases hmem
  | cons field fields ih =>
      obtain ⟨hnot, hnodup⟩ := List.nodup_cons.mp hnodup
      rcases List.mem_cons.mp hmem with heq | hmem
      · rw [← heq, List.lookup_cons_self]
      · have hne : (key == field.1) = false := by
          rw [beq_eq_false_iff_ne]
          rintro rfl
          exact hnot (List.mem_map.mpr ⟨_, hmem, rfl⟩)
        rw [List.lookup_cons, hne]
        exact ih hnodup hmem

/-- A field of a table without repetitions is found. -/
theorem get_of_distinct (h : (Toml.table fields).distinct = true) {key : String}
    (hmem : (key, value) ∈ fields) : (Toml.table fields).get key = some value := by
  rw [distinct, Bool.and_eq_true, decide_eq_true_iff] at h
  exact lookup_of_mem h.1 hmem

theorem distinct_of_mem (h : (Toml.table fields).distinct = true) {key : String}
    (hmem : (key, value) ∈ fields) : value.distinct = true := by
  rw [distinct, Bool.and_eq_true] at h
  replace h := h.2
  induction fields with
  | nil => cases hmem
  | cons field fields ih =>
      rw [fieldsDistinct, Bool.and_eq_true] at h
      rcases List.mem_cons.mp hmem with rfl | hmem
      · exact h.1
      · exact ih hmem h.2

/-- Every item of a list that was read was read. -/
theorem read_of_asList {α : Type} {read : Toml → Option α} {texts : List α}
    (h : asList read (.array items) = some texts) : ∀ item ∈ items, ∃ a, read item = some a := by
  replace h : items.mapM read = some texts := h
  induction items generalizing texts with
  | nil => exact fun item hitem => absurd hitem List.not_mem_nil
  | cons item items ih =>
      simp only [List.mapM_cons, Option.bind_eq_bind, Option.bind_eq_some_iff] at h
      obtain ⟨a, ha, rest, hrest, -⟩ := h
      exact List.forall_mem_cons.mpr ⟨⟨a, ha⟩, ih hrest⟩

theorem isScalar_of_asStr {text : Str} (h : value.asStr = some text) : value.isScalar = true := by
  cases value with
  | string => rfl
  | _ => cases h

end

/-! ## Steps and their text -/

/-- A step from a value to a part of it. -/
inductive Step where
  | key (name : String)
  | item
deriving DecidableEq, Repr

def Step.text : Step → Str
  | .key name => '.' :: name.toList
  | .item => ['[', ']']

def spell (steps : List Step) : Str := steps.flatMap Step.text

def keys (steps : List Step) : List String :=
  steps.filterMap fun step =>
    match step with
    | .key name => some name
    | .item => none

/-- A key that is not empty and has neither dots nor brackets. -/
def PlainKey (name : String) : Prop := name ≠ "" ∧ '.' ∉ name.toList ∧ '[' ∉ name.toList

instance (name : String) : Decidable (PlainKey name) :=
  inferInstanceAs (Decidable (name ≠ "" ∧ '.' ∉ name.toList ∧ '[' ∉ name.toList))

def endsKey (c : Char) : Bool := c == '.' || c == '['

theorem PlainKey.takeWhile {name : String} (h : PlainKey name) (steps : List Step) :
    (name.toList ++ spell steps).takeWhile (fun c => !endsKey c) = name.toList := by
  have hname : ∀ c ∈ name.toList, (!endsKey c) = true := by
    intro c hc
    have hdot : c ≠ '.' := fun heq => h.2.1 (heq ▸ hc)
    have hbracket : c ≠ '[' := fun heq => h.2.2 (heq ▸ hc)
    simp [endsKey, hdot, hbracket]
  rw [List.takeWhile_append_of_pos hname]
  cases steps with
  | nil => exact List.append_nil _
  | cons step steps =>
      cases step with
      | key => exact List.append_nil _
      | item => exact List.append_nil _

/-- A text of plain keys belongs to one path. -/
theorem spell_injective {steps steps' : List Step} (hplain : ∀ name ∈ keys steps, PlainKey name)
    (hplain' : ∀ name ∈ keys steps', PlainKey name) (h : spell steps = spell steps') :
    steps = steps' := by
  induction steps generalizing steps' with
  | nil =>
      cases steps' with
      | nil => rfl
      | cons step steps' =>
          cases step with
          | key => cases h
          | item => cases h
  | cons step steps ih =>
      cases steps' with
      | nil =>
          cases step with
          | key => cases h
          | item => cases h
      | cons step' steps' =>
          cases step with
          | key name =>
              cases step' with
              | key name' =>
                  obtain ⟨hkey, hrest⟩ := List.forall_mem_cons.mp hplain
                  obtain ⟨hkey', hrest'⟩ := List.forall_mem_cons.mp hplain'
                  have htext : name.toList ++ spell steps = name'.toList ++ spell steps' :=
                    (List.cons.inj h).2
                  have hname : name.toList = name'.toList := by
                    rw [← hkey.takeWhile steps, htext, hkey'.takeWhile steps']
                  rw [hname] at htext
                  rw [String.toList_injective hname,
                    ih hrest hrest' (List.append_cancel_left htext)]
              | item => exact absurd (List.cons.inj h).1 (by decide)
          | item =>
              cases step' with
              | key => exact absurd (List.cons.inj h).1 (by decide)
              | item =>
                  have htext : spell steps = spell steps' :=
                    List.append_cancel_left (show Step.item.text ++ _ = Step.item.text ++ _ from h)
                  have hrest' : ∀ name ∈ keys steps', PlainKey name := hplain'
                  rw [ih hplain hrest' htext]

end Toml

end DnsRelay.Lib
