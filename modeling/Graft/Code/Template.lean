import Graft.Output.Json
import Graft.Code.Stamp

/-!
# Templates

A template is code with placeholders, names between double braces. Filling it
replaces every placeholder by the value bound to its name: a text as it is, any
other value as JSON. What has been put in is not looked at again.
-/

namespace Graft.Code

/-- Why a template could not be filled. -/
inductive TemplateError where
  | unknownTemplate (name : Text)
  | missingBinding (template key : Text)
  | unterminated (template : Text)
  deriving DecidableEq, Repr

/-- The wording of a template error. -/
def TemplateError.message : TemplateError → Text
  | .unknownTemplate name => "unknown template '" ++ name ++ "'"
  | .missingBinding template key =>
    "template '" ++ template ++ "' references unbound placeholder '" ++ key ++ "'"
  | .unterminated template => "template '" ++ template ++ "' has an unterminated placeholder"

/-- The values bound to names. -/
abbrev Bindings := List (Text × Value)

/-- How a value is written where a placeholder stood. -/
def placeholderText : Value → Text
  | .text t => t
  | v => Json.compact v.sorted

/-- Fills the placeholders of a template body. `key` holds the characters read
of an open placeholder, last one first. -/
def fill (template : Text) (bindings : Bindings) :
    (key : Option Text) → Text → Except TemplateError Text
  | none, '\x7b' :: '\x7b' :: rest => fill template bindings (some []) rest
  | none, c :: rest => (fill template bindings none rest).map (c :: ·)
  | none, [] => .ok []
  | some key, '\x7d' :: '\x7d' :: rest =>
    let name := Text.trim key.reverse
    match bindings.lookup name with
    | none => .error (.missingBinding template name)
    | some v => (fill template bindings none rest).map (placeholderText v ++ ·)
  | some key, c :: rest => fill template bindings (some (c :: key)) rest
  | some _, [] => .error (.unterminated template)

/-- Templates by name. -/
abbrev Templates := List (Text × Text)

/-- The template of a name, filled. -/
def Templates.render (templates : Templates) (name : Text) (bindings : Bindings) :
    Except TemplateError Text :=
  match templates.lookup name with
  | none => .error (.unknownTemplate name)
  | some body => fill name bindings none body

end Graft.Code
