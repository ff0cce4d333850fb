/-! # The tables of the deployment database

    Three tables, each of which exists or not: the settings under one key, the deployments
    by context path, and the history of lifecycle events, newest event first. Every column
    is text; what the texts mean is decided where they are read.
-/

namespace Hosting

/-- A deployed application as it is stored. -/
structure DeploymentRow where
  contextPath : String
  id : String
  descriptor : String
  deployedAt : String
deriving DecidableEq, Repr

/-- A lifecycle event as it is stored. -/
structure EventRow where
  contextPath : String
  event : String
  time : String
  details : Option String
deriving DecidableEq, Repr

/-- The content of a database. A table that was never made is `none`. -/
structure Tables where
  /-- The stored settings text, if there is one. -/
  settings : Option (Option String)
  deployments : Option (List DeploymentRow)
  /-- Newest first. -/
  history : Option (List EventRow)
deriving DecidableEq, Repr

namespace Tables

/-- A database without tables. -/
def empty : Tables := ⟨none, none, none⟩

/-- Makes the tables that are missing. -/
def initialized (t : Tables) : Tables :=
  ⟨some (t.settings.getD none), some (t.deployments.getD []), some (t.history.getD [])⟩

end Tables

end Hosting
