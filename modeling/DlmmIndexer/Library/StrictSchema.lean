import DlmmIndexer.Library.Unindexed

/-!
# Strict schemas

A document is a list of properties.  A strict schema keeps of a document the properties
that are paths of the schema, and does not let it be saved while a required path is
missing or not filled.  The schema does not cast values.
-/

namespace Documents

universe u

variable {β : Type u}

/-- The properties of an object.  Of two properties of one name the first one counts. -/
abbrev Properties (β : Type u) := List (String × β)

/-- The property of a name; there is none where JavaScript has `undefined`. -/
def Properties.get? (properties : Properties β) (name : String) : Option β :=
  (properties.find? fun property => property.1 = name).map (·.2)

/-- `{ ...properties, ...more }` -/
def Properties.spread (properties more : Properties β) : Properties β := more ++ properties

/-- An object literal.  Properties whose value is `undefined` are left out. -/
def Properties.literal (properties : List (String × Option β)) : Properties β :=
  properties.filterMap fun property => property.2.map (property.1, ·)

namespace Properties

variable {name : String}

@[simp] theorem get?_nil : get? ([] : Properties β) name = none := rfl

@[simp] theorem get?_cons (property : String × β) (properties : Properties β) :
    get? (property :: properties) name =
      if property.1 = name then some property.2 else properties.get? name := by
  by_cases same : property.1 = name
  · simp [get?, same]
  · simp [get?, same]

/-- Spread properties stand behind the later ones. -/
@[simp] theorem get?_spread (properties more : Properties β) :
    (properties.spread more).get? name = (more.get? name).or (properties.get? name) := by
  rw [spread, get?, List.find?_append, Option.map_or]
  rfl

@[simp] theorem literal_nil : literal ([] : List (String × Option β)) = [] := rfl

@[simp] theorem get?_literal_cons (property : String × Option β)
    (properties : List (String × Option β)) :
    (literal (property :: properties)).get? name =
      if property.1 = name then property.2.or ((literal properties).get? name)
      else (literal properties).get? name := by
  obtain ⟨label, value⟩ := property
  cases value with
  | none => exact (ite_self _).symm
  | some value => exact get?_cons (label, value) (literal properties)

end Properties

/-- A path of a schema.  `filled` is what `required` asks of a value of its type. -/
structure Path (β : Type u) where
  name : String
  required : Bool
  filled : β → Bool

/-- A schema in strict mode. -/
abbrev StrictSchema (β : Type u) := List (Path β)

namespace StrictSchema

variable (schema : StrictSchema β) (properties : Properties β)

/-- The properties that are paths. -/
def strict : Properties β :=
  properties.filter fun property => schema.any fun path => path.name = property.1

/-- The required paths that are not filled. -/
def missing : List String :=
  (schema.filter fun path =>
    path.required && !(properties.get? path.name).any path.filled).map (·.name)

/-- `new Model(properties).save()`, with the missing paths as its error. -/
def save (collection : Unindexed (Properties β)) :
    Except (List String) Unit × Unindexed (Properties β) :=
  match schema.missing (schema.strict properties) with
  | [] => (.ok (), collection.insert (schema.strict properties))
  | name :: names => (.error (name :: names), collection)

variable {schema properties}

theorem get?_strict {path : Path β} (member : path ∈ schema) :
    (schema.strict properties).get? path.name = properties.get? path.name := by
  have known : (schema.any fun other => other.name = path.name) = true :=
    List.any_eq_true.mpr ⟨path, member, decide_eq_true rfl⟩
  rw [Properties.get?, strict, List.find?_filter, Properties.get?]
  congr 2
  funext property
  by_cases same : property.1 = path.name
  · simp [same, known]
  · simp [same]

/-- What is dropped is not missed. -/
theorem missing_strict : schema.missing (schema.strict properties) = schema.missing properties := by
  refine congrArg (List.map _) (List.filter_congr fun path member => ?_)
  rw [get?_strict member]

/-- A document with a missing path is not saved, and the error names what is missing. -/
theorem save_of_missing {name : String} (absent : name ∈ schema.missing properties)
    (collection : Unindexed (Properties β)) :
    schema.save properties collection = (.error (schema.missing properties), collection) := by
  rw [save, missing_strict]
  cases found : schema.missing properties with
  | nil =>
      rw [found] at absent
      cases absent
  | cons first rest => rfl

end StrictSchema

end Documents
