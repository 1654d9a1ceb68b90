import FleetServer.Web.IniEdits

/-!
# Template fields

`config/templates/fields.ts`: the form of a bundle template over its INI text.  A field
shows and sets one key, or picks among coherent sets of keys, and may be shown only
while another field has some value.
-/

namespace FleetServer
namespace Web

structure FieldWhen where
  field : String
  in_ : Option (List String)
  notEmpty : Bool

structure ChoiceOption where
  value : String
  set_ : List (String × List (String × String))

inductive FieldKind where
  | text (section_ key : String) (default_ : Option String)
  | bool (section_ key : String) (default_ : Bool)
  | select (section_ key : String) (default_ : String)
  | choice (options : List ChoiceOption)
  | facts
  | table

structure TemplateField where
  id : String
  kind : FieldKind
  when_ : Option FieldWhen

structure BundleTemplate where
  fields : List TemplateField
  /-- The base INI document. -/
  ini : String

def FieldKind.boundTo : FieldKind -> Option (String × String)
  | text section_ key _ => some (section_, key)
  | bool section_ key _ => some (section_, key)
  | select section_ key _ => some (section_, key)
  | choice _ => none
  | facts => none
  | table => none

def FieldKind.shownDefault : FieldKind -> String
  | bool _ _ default_ => if default_ then "true" else "false"
  | select _ _ default_ => default_
  | _ => ""

def ChoiceOption.settings (o : ChoiceOption) : List (String × String × String) :=
  o.set_.flatMap fun (section_, kv) => kv.map fun (k, v) => (section_, k, v)

def optionMatches (ini : String) (o : ChoiceOption) : Bool :=
  o.settings.all fun (section_, k, v) => (getIniValue ini section_ k).getD "" == v

def fieldValue (ini : String) (f : TemplateField) : String :=
  match f.kind with
  | FieldKind.table => ""
  | FieldKind.facts => ""
  | FieldKind.choice options => ((options.find? (optionMatches ini)).map ChoiceOption.value).getD ""
  | kind =>
      match kind.boundTo with
      | none => ""
      | some (section_, key) => (getIniValue ini section_ key).getD kind.shownDefault

def fieldDefault (t : BundleTemplate) (f : TemplateField) : String :=
  match f.kind with
  | FieldKind.choice _ => ""
  | FieldKind.table => ""
  | FieldKind.facts => ""
  | FieldKind.bool _ _ default_ => if default_ then "true" else "false"
  | FieldKind.select _ _ default_ => default_
  | FieldKind.text section_ key default_ =>
      (default_.orElse fun _ => getIniValue t.ini section_ key).getD ""

/-- Whether the parent's value lets a dependent field show. -/
def FieldWhen.accepts (w : FieldWhen) (v : String) : Bool :=
  if w.notEmpty then !(trim v).isEmpty
  else (w.in_.map fun values => values.contains v).getD true

/-- `fieldVisible` through at most `fuel` parents. -/
def visibleWithin (ini : String) (t : BundleTemplate) : Nat -> TemplateField -> Option Bool
  | fuel, f =>
      match f.when_ with
      | none => some true
      | some w =>
          match t.fields.find? fun x => x.id == w.field with
          | none => some true
          | some parent =>
              match fuel with
              | 0 => none
              | fuel + 1 =>
                  match visibleWithin ini t fuel parent with
                  | none => none
                  | some false => some false
                  | some true => some (w.accepts (fieldValue ini parent))

/-- No chain of parents is longer than the list of fields, unless it never ends. -/
def fieldVisible (ini : String) (t : BundleTemplate) (f : TemplateField) : Option Bool :=
  visibleWithin ini t t.fields.length f

def writeField (ini : String) (f : TemplateField) (value : String) : String :=
  match f.kind with
  | FieldKind.table => ini
  | FieldKind.facts => ini
  | FieldKind.choice options =>
      match options.find? fun o => o.value == value with
      | none => ini
      | some o => o.settings.foldl (fun next (section_, k, v) => setIniValue next section_ k v) ini
  | FieldKind.bool section_ key _ => setIniValue ini section_ key value
  | FieldKind.text section_ key _ =>
      if trim value = "" then removeIniKey ini section_ key
      else setIniValue ini section_ key value
  | FieldKind.select section_ key _ =>
      if trim value = "" then removeIniKey ini section_ key
      else setIniValue ini section_ key value

/-- One field of the loop: a key that is hidden goes, one that appeared is written. -/
def reconcileField (t : BundleTemplate) (wasVisible : List (String × Bool)) (next : String)
    (field : TemplateField) : Option String :=
  match field.when_, field.kind.boundTo with
  | some _, some (section_, key) => do
      let visible ← fieldVisible next t field
      let present := (getIniValue next section_ key).isSome
      if !visible && present then
        some (removeIniKey next section_ key)
      else if visible && !(wasVisible.lookup field.id).getD false && !present then
        if fieldDefault t field = "" then some next
        else some (setIniValue next section_ key (fieldDefault t field))
      else some next
  | _, _ => some next

def applyFieldChange (ini : String) (t : BundleTemplate) (f : TemplateField) (value : String) :
    Option String := do
  let visible ← t.fields.mapM fun x => (fieldVisible ini t x).map fun v => (x.id, v)
  match f.kind with
  | FieldKind.table => some ini
  | FieldKind.facts => some ini
  | _ => t.fields.foldlM (reconcileField t (newMap visible)) (writeField ini f value)

end Web
end FleetServer
