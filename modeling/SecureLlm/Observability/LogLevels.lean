import Mathlib.Data.Int.Notation
import Mathlib.Data.List.Basic
import Mathlib.Logic.Function.Basic

/-!
# Log Levels

The loggers of a process form a tree by the dots in their names. Each may have a
level set, and one that has none uses that of the nearest logger above it that
has. There is one tree for all tenants.

## Main definitions

* `levelValue`: The level a name stands for.
* `loggerPath`: Where a component's logger is in the tree.
* `LogLevels.effective`: The level a logger uses.
* `LogLevels.setComponentLevel`: `set_component_level`.

## Theorems

* `LogLevels.effective_update_iff`: All loggers use the levels they did when the
  one that was set does.
-/

namespace SecureLlm

/-- `getattr(logging, name, logging.INFO)`, if it is a level. What else `logging`
    has under such names `setLevel` refuses. -/
def levelValue (name : String) : Option ℤ :=
  if name = "BASIC_FORMAT" ∨ name = "_STYLES" then none
  else if name = "CRITICAL" ∨ name = "FATAL" then some 50
  else if name = "ERROR" then some 40
  else if name = "WARNING" ∨ name = "WARN" then some 30
  else if name = "DEBUG" then some 10
  else if name = "NOTSET" then some 0
  else some 20

/-- The parts of a logger's name, last part first. The root has none. -/
abbrev LoggerPath : Type := List (List Char)

def loggerPath (component : String) : LoggerPath :=
  if component = "" ∨ component = "root" then [] else (component.toList.splitOn '.').reverse

/-- The level set on each logger. Zero is none. -/
abbrev LogLevels : Type := LoggerPath → ℤ

namespace LogLevels

variable (levels : LogLevels)

/-- `getEffectiveLevel`. -/
def effective : LoggerPath → ℤ
  | [] => levels []
  | part :: parent =>
    if levels (part :: parent) ≠ 0 then levels (part :: parent) else effective parent

/-- `set_component_level`, with `str.upper` as an argument. It may raise. -/
def setComponentLevel (upper : String → String) (component level : String) : Option LogLevels :=
  (levelValue (upper level)).map fun value => Function.update levels (loggerPath component) value

variable {levels} {path : LoggerPath} {value : ℤ}

/-- **A level that is set.** It changes what some logger uses exactly if it changes
    what its own does. -/
theorem effective_update_iff :
    (∀ other, effective (Function.update levels path value) other = effective levels other) ↔
      effective (Function.update levels path value) path = effective levels path := by
  constructor
  · intro h
    exact h path
  · intro h other
    by_cases hother : other = path
    · rw [hother]
      exact h
    · induction other with
      | nil =>
          unfold effective
          rw [Function.update_of_ne hother]
      | cons part parent ih =>
          unfold effective
          rw [Function.update_of_ne hother]
          by_cases hset : levels (part :: parent) = 0
          · rw [if_neg (not_not_intro hset), if_neg (not_not_intro hset)]
            by_cases hparent : parent = path
            · rw [hparent]
              exact h
            · exact ih hparent
          · rw [if_pos hset, if_pos hset]

end LogLevels

end SecureLlm
