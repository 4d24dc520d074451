/-
# Socks6.Json.Setting — settings in JSON

Named values are written by name; a method without a name of its own is written
by its byte.  A policy is an object, in which a missing member takes its default
and an unknown one is passed over, or an array of its values in order.
-/
import Socks6.Auth.Method
import Socks6.Head
import Socks6.Token
import Socks6.Json.Reader
import Socks6.Policy
import Socks6.Stack

namespace Socks6

/-- Values that can stand in a JSON text. -/
class Setting (α : Type) where
  /-- The JSON value of a setting. -/
  toJson : α → Json
  /-- The setting of a JSON value, if it is one. -/
  ofJson? : Json → Option α

/-- The setting that a JSON text spells. -/
def Setting.read? (α : Type) [Setting α] (text : String) : Option α :=
  (Json.ofString? text).bind ofJson?

namespace Json

/-- The name in a value that consists of a name alone: a string, or an object
whose only member has that key and no content. -/
def bareName? : Json → Option String
  | .string points => text? points
  | .object [(key, .null)] => text? key
  | _ => none

/-- A natural number up to `limit`. -/
def natural? (limit : Nat) : Json → Option Nat
  | .number (some n) => if n ≤ limit then some n else none
  | _ => none

def bool? : Json → Option Bool
  | .bool b => some b
  | _ => none

end Json

/-! ## Named values -/

/-- The setting of a closed list: the name of a value. -/
abbrev Setting.ofNamed (α : Type) [Named α] : Setting α where
  toJson a := .ofText (Named.name a)
  ofJson? json := json.bareName?.bind (Named.ofName? α)

instance : Setting Mode := .ofNamed Mode
instance : Setting RequestCode := .ofNamed RequestCode
instance : Setting AuthReplyCode := .ofNamed AuthReplyCode
instance : Setting OperationReplyCode := .ofNamed OperationReplyCode
instance : Setting Leg := .ofNamed Leg
instance : Setting Scheduler := .ofNamed Scheduler
instance : Setting Expenditure := .ofNamed Expenditure

/-! ## Methods -/

namespace AuthMethod

/-- The methods with names of their own. -/
def ofName? : String → Option AuthMethod
  | "NoAuth" => some .noAuth
  | "Gssapi" => some .gssapi
  | "UsernamePassword" => some .usernamePassword
  | "NoAcceptable" => some .noAcceptable
  | _ => none

def toJson : AuthMethod → Json
  | .noAuth => .ofText "NoAuth"
  | .gssapi => .ofText "Gssapi"
  | .usernamePassword => .ofText "UsernamePassword"
  | .noAcceptable => .ofText "NoAcceptable"
  | .other code => .ofMembers [("Other", .number (some code.toNat))]

def ofJson? (json : Json) : Option AuthMethod :=
  match json with
  | .object [(key, .number natural?)] => do
    let key ← Json.text? key
    let code ← Json.natural? 255 (.number natural?)
    if key = "Other" then return .other (UInt8.ofNat code) else none
  | json => json.bareName?.bind ofName?

instance : Setting AuthMethod := ⟨toJson, ofJson?⟩

end AuthMethod

/-! ## Policies -/

namespace Policy

def toJson (p : Policy) : Json :=
  .ofMembers
    [("retain_unrecognized", .bool p.retainUnrecognized),
      ("max_options", .number (some p.maxOptions))]

/-- The value of the only member with the key, if it is one.  The outer `none`
is a failure: the key occurs twice, or its value is not of the right kind. -/
def member? {α : Type} (members : List (String × Json)) (key : String)
    (read? : Json → Option α) : Option (Option α) :=
  match members.filter (·.1 = key) with
  | [] => some none
  | [(_, json)] => (read? json).map some
  | _ => none

/-- The policy of the members of an object. -/
def ofMembers? (members : List (String × Json)) : Option Policy := do
  let retain? ← member? members "retain_unrecognized" Json.bool?
  let limit? ← member? members "max_options" (Json.natural? maxLimit)
  return ⟨retain?.getD default.retainUnrecognized, limit?.getD default.maxOptions⟩

/-- The policy of the items of an array. -/
def ofItems? : List Json → Option Policy
  | [] => some default
  | [retain] => do return { default with retainUnrecognized := ← retain.bool? }
  | [retain, limit] => do return ⟨← retain.bool?, ← limit.natural? maxLimit⟩
  | _ => none

def ofJson? : Json → Option Policy
  | .object members => do
    let named ← members.mapM fun (key, value) => (Json.text? key).map (·, value)
    ofMembers? named
  | .array items => ofItems? items
  | _ => none

instance : Setting Policy := ⟨toJson, ofJson?⟩

end Policy

end Socks6
