/-
Settings read from variables.

The variables are looked at in a fixed order, and one that says nothing sensible ends the
reading: the rest is never looked at.  The reading keeps a record of which variables it
has asked for, so that this can be stated.
-/
import FirstFit.Config
import FirstFit.Text.Blank

namespace FirstFit

namespace Setting

/-- The number that a text of decimal digits denotes, or nothing if there is another
character or no digit at all. -/
def digits? (cs : List Char) : Option Nat :=
  if cs.isEmpty ∨ cs.any (fun c => !c.isDigit) then none
  else some (cs.foldl (fun n c => 10 * n + (c.toNat - '0'.toNat)) 0)

/-- The machine word a text denotes: decimal digits, with or without a plus in front. -/
def word? (cs : List Char) : Option Nat := do
  let n ← digits? (match cs with
    | '+' :: rest => rest
    | cs => cs)
  if n < 0x10000000000000000 then some n else none

/-- When to verify, by its name in any mixture of upper and lower case. -/
def verify? (cs : List Char) : Option Verify :=
  match String.ofList (cs.map Char.toLower) with
  | "none" => some .never
  | "alloc" => some .allocate
  | "release" => some .release
  | "free" => some .release
  | "always" => some .always
  | _ => none

/-- A choice, as a digit or a word in lower case. -/
def switch? (cs : List Char) : Option Bool :=
  match String.ofList cs with
  | "1" => some true
  | "true" => some true
  | "0" => some false
  | "false" => some false
  | _ => none

end Setting

namespace Config

/-- A reading that can fail, and the variables it has asked for, the last one last. -/
abbrev Reading := EStateM ConfigError (List Setting)

/-- What the variable of a setting says: `none` if it is not there.  White space around
the text is ignored; a text that `parse?` refuses is reported as it was found. -/
def consult (lookup : Setting → Option String) (setting : Setting)
    (parse? : List Char → Option α) : Reading (Option α) := do
  modify (· ++ [setting])
  match lookup setting with
  | none => return none
  | some value =>
    match parse? (Text.trim value.toList) with
    | some choice => return some choice
    | none => throw (.text setting value)

/-- Reads all settings.  A variable that is not there leaves its setting as it is by
default. -/
def reading (lookup : Setting → Option String) : Reading Config := do
  let config ← match ← consult lookup .align Setting.word? with
    | none => pure {}
    | some bytes =>
      match Config.withUnit {} bytes with
      | .ok config => pure config
      | .error e => throw e
  let verify ← consult lookup .verify Setting.verify?
  let capture ← consult lookup .capture Setting.switch?
  return { config with
    verify := verify.getD config.verify
    capture := capture.getD config.capture }

/-- The settings that variables make, or why they make none. -/
def ofLookup (lookup : Setting → Option String) : Except ConfigError Config :=
  match (reading lookup).run [] with
  | .ok config _ => .ok config
  | .error e _ => .error e

/-- The settings whose variables are asked for, in order. -/
def asked (lookup : Setting → Option String) : List Setting :=
  match (reading lookup).run [] with
  | .ok _ settings => settings
  | .error _ settings => settings

/-- The settings that an environment makes.  A variable whose bytes are no UTF-8 counts as
not being there. -/
def ofEnvironment (environment : Setting → Option ByteArray) : Except ConfigError Config :=
  ofLookup fun setting => environment setting >>= String.fromUTF8?

end Config

end FirstFit
