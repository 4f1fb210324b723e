/-
What is fixed when an arena is created: the alignment unit, when the chain is verified
unasked, and whether the tracer is called for each allocation.
-/
import FirstFit.AlignUnit
import FirstFit.Text.Quoted

namespace FirstFit

/-- The operations that are followed by a look at the whole chain. -/
structure Verify where
  afterAllocate : Bool
  afterRelease : Bool
  deriving DecidableEq, Repr

namespace Verify

/-- Never. -/
def never : Verify := ⟨false, false⟩

/-- After each allocation. -/
def allocate : Verify := ⟨true, false⟩

/-- After each release. -/
def release : Verify := ⟨false, true⟩

/-- After each allocation and each release. -/
def always : Verify := ⟨true, true⟩

/-- Whenever one of two settings asks for it. -/
def union (v w : Verify) : Verify :=
  ⟨v.afterAllocate || w.afterAllocate, v.afterRelease || w.afterRelease⟩

end Verify

/-- The settings of an arena. -/
structure Config where
  unit : AlignUnit := .default
  verify : Verify := .never
  /-- Whether the tracer is asked for a snapshot at each allocation. -/
  capture : Bool := false
  deriving DecidableEq

instance : Inhabited Config := ⟨{}⟩

/-- What can be set from outside, through a variable for each. -/
inductive Setting
  | align
  | verify
  | capture
  deriving DecidableEq, Repr

/-- The name of the variable. -/
def Setting.name : Setting → String
  | align => "BUFALLOC_ALIGN"
  | verify => "BUFALLOC_VERIFY"
  | capture => "BUFALLOC_CAPTURE"

/-- Why there is no such configuration. -/
inductive ConfigError
  /-- The number cannot be an alignment unit. -/
  | unit (bytes : Nat)
  /-- The text of a variable says nothing about its setting. -/
  | text (setting : Setting) (value : String)
  deriving DecidableEq, Repr

/-- The text for a reader. -/
def ConfigError.message : ConfigError → String
  | unit bytes =>
    "alignment unit " ++ toString bytes ++ " must be a power of two of at least "
      ++ toString AlignUnit.least
  | text setting value =>
    "invalid value " ++ Text.quoted value ++ " for " ++ setting.name

/-- The same settings with the unit of `bytes` bytes. -/
def Config.withUnit (config : Config) (bytes : Nat) : Except ConfigError Config :=
  match AlignUnit.ofBytes? bytes with
  | some unit => .ok { config with unit }
  | none => .error (.unit bytes)

end FirstFit
