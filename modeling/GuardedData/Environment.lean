import GuardedData.Text.Basic

/-!
# Environments

Data is validated and guarded in development only. Where an environment is named freely, every name
but those of production means development; where a setting names one, it has to be spelled exactly.
-/

namespace GuardedData

/-- Where a model runs. -/
inductive Environment
  | development
  | production
deriving DecidableEq

namespace Environment

def name : Environment → String
  | .development => "development"
  | .production => "production"

def isProduction (e : Environment) : Bool := e == .production

/-- The environment that a free text names, blanks and letter case aside. -/
def ofText (text : String) : Environment :=
  let word := String.ofList ((Text.trimBlanks text.toList).map Char.toLower)
  if word = "production" ∨ word = "prod" then .production else .development

/-- The environment that a variable of the process names, development when it is not set. -/
def ofVariable (value : Option String) : Environment := (value.map ofText).getD .development

/-- The environment of an exact name. -/
def read : String → Except String Environment :=
  Text.choose [("development", .development), ("production", .production)]

end Environment

/-- When queued changes reach their watchers. -/
inductive FlushMode
  /-- At the end of every edit. -/
  | immediate
  /-- When asked for. -/
  | deferred
deriving DecidableEq

namespace FlushMode

/-- The name of a mode where it is shown. -/
def name : FlushMode → String
  | .immediate => "Sync"
  | .deferred => "Deferred"

/-- The mode of an exact name. -/
def read : String → Except String FlushMode :=
  Text.choose [("sync", .immediate), ("deferred", .deferred)]

end FlushMode

end GuardedData
