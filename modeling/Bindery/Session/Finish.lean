import Bindery.Session.Declaration
import Bindery.Upcast

/-!
# Finishing a session

The artifacts of a session: what was declared, between what every module needs.
-/

namespace Bindery

namespace Session

/-- What stands in front of the declared source: disclaimer, includes, the
ownership policies and the declaration of the upcast function. -/
def preamble (session : Session) : Code :=
  [.line ("// " ++ session.options.disclaimer), .blank] ++
    session.systemIncludes.map (fun path => .line ("#include <" ++ path ++ ">")) ++
    session.userIncludes.map (fun path => .line ("#include \"" ++ path ++ "\"")) ++
    [.blank,
      .line ("enum OwnershipPolicy \x7b " ++ ", ".intercalate (Ownership.all.map Ownership.text) ++
        " \x7d;"),
      .blank,
      .line (Upcast.signature ++ ";"),
      .blank]

/-- The finished header. -/
def headerText (session : Session) : String :=
  (session.header.fork.write [.line ("// " ++ session.options.disclaimer), .blank,
    .raw session.header.text]).text

end Session

namespace Declare

/-- The cast table of everything registered so far. -/
def castTable : Declare CastTable := do
  let table ← ofExcept ((CastTable.build (← get).registry).mapError .registry)
  log (.builtCasts table.types.length table.bases.length)
  return table

/-- Close the session and assemble its artifacts. -/
def finish : Declare Output := do
  let table ← castTable
  if (← get).options.emitSummary then
    writeSummary
  let session ← get
  let upcast := Upcast.emit session.registry table
  ofExcept upcast.outcome
  log (.finished session.name session.registry.size session.functions.length table.linkCount)
  return {
    header := session.headerText
    source := (session.source.fork.write
      (session.preamble ++ .raw session.source.text :: upcast.code)).text }

end Declare

end Bindery
